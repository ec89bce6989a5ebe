import CommunicationAPI.GroupHandlers
import CommunicationAPI.Machine

/-!
# Agreement on the session key

One leader and any number of members on a link that delivers, repeats, reorders
and drops frames as it likes.
-/

namespace CommunicationAPI.KeyAgreement
open Octets ShmEngine TransitionSystem
variable {μ : Type*}

/-- `keyFromLeader m` holds when a key distribution was the last to set the key
of member `m`. The link keeps every frame ever sent. -/
structure State (μ : Type*) where
  leader : Gateway
  handler : GroupLeaderHandler
  member : μ → Gateway
  keyFromLeader : μ → Bool
  link : List WireFrame

/-- Another leader may set the key of a member that has left the quadrant. -/
inductive Action (μ : Type*)
  | join (m : μ) (timestamp : UInt64)
  | leaderReceives (n : ℕ) (rest : Memory) (timestamp : UInt64)
  | memberReceives (m : μ) (n : ℕ) (rest : Memory)
  | leaderMoves (quadrant location : Quadrant)
  | memberMoves (m : μ) (quadrant location : Quadrant)
  | foreignKey (m : μ) (key : SessionKey)

namespace State

def transmit (s : State μ) (o : Option Output) : State μ :=
  { s with link := s.link ++ outputLinks o.toList }

def leaderReceives (s : State μ) (f : WireFrame) (rest : Memory) (timestamp : UInt64) : State μ :=
  let (g, outputs) := s.leader.handleReceive rest f
  let s := { s with leader := g }
  match outputGroup outputs with
  | some (payload, _, source) =>
    match s.handler.handleGroupMessage g timestamp payload source with
    | some (_, answer) => s.transmit answer
    | none => s
  | none => s

variable [DecidableEq μ]

def setMember (s : State μ) (m : μ) (g : Gateway) (keyFromLeader : Bool) : State μ :=
  { s with
    member := Function.update s.member m g
    keyFromLeader := Function.update s.keyFromLeader m keyFromLeader }

def memberReceives (s : State μ) (m : μ) (f : WireFrame) (rest : Memory) : State μ :=
  let (g, outputs) := (s.member m).handleReceive rest f
  match outputGroup outputs with
  | some (payload, size, _) =>
    s.setMember m (GroupMemberHandler.handleGroupMessage g payload size)
      (s.keyFromLeader m || (payload 0 = GroupType.keyDistribution.code ∧
        GroupPayload.keyDistributionSize ≤ size))
  | none => s.setMember m g (s.keyFromLeader m)

def step (s : State μ) : Action μ → Option (State μ)
  | .join m timestamp => some (s.transmit
      (GroupMemberHandler.notifyLocationChange (s.member m) timestamp))
  | .leaderReceives n rest timestamp =>
    s.link[n]?.map fun f => s.leaderReceives f rest timestamp
  | .memberReceives m n rest => s.link[n]?.map fun f => s.memberReceives m f rest
  | .leaderMoves quadrant location =>
    some { s with leader := { s.leader with quadrant := quadrant, shared.location := location } }
  | .memberMoves m quadrant location =>
    some (s.setMember m
      { s.member m with quadrant := quadrant, shared.location := location } (s.keyFromLeader m))
  | .foreignKey m key => some (s.setMember m ((s.member m).setSessionKey key) false)

end State

def group (μ : Type*) [DecidableEq μ] (uninitialized generated : SessionKey) :
    Machine (State μ) (Action μ) where
  init s := (∃ g, (s.leader, s.handler) = GroupLeaderHandler.construct g uninitialized generated) ∧
    (∀ m, s.keyFromLeader m = false) ∧ s.link = []
  step := State.step

def distributedKey (f : WireFrame) : Option SessionKey :=
  let payload := f.payload fun _ => 0
  if f.data[packetHeaderSize]? = some MsgType.group.code ∧
      payload 0 = GroupType.keyDistribution.code then
    some (GroupPayload.key payload)
  else none

def distributed (s : State μ) : List SessionKey := s.link.filterMap distributedKey

structure Agreement (s : State μ) : Prop where
  sent : ∀ key ∈ distributed s, key = s.leader.shared.sessionKey
  held : ∀ m, s.keyFromLeader m = true →
    (s.member m).shared.sessionKey = s.leader.shared.sessionKey

/-- Every frame of the group is a join request or carries the field of the handler. -/
def GroupFrame (key : SessionKey) (f : WireFrame) : Prop :=
  f.data.length ≤ mtu ∧ ∃ sp dp s, f.Has sp dp s ∧ s.type = .group ∧
    (s.payload = GroupPayload.joinRequest ∨ s.payload = GroupPayload.keyDistribution key)

theorem GroupFrame.of_sent {key : SessionKey} {g : Gateway} {src dst : Address} {f : WireFrame}
    {timestamp : UInt64} {payload : List UInt8}
    (h : g.Sent src dst ⟨.group, timestamp, payload⟩ f)
    (hpayload : payload = GroupPayload.joinRequest ∨ payload = GroupPayload.keyDistribution key) :
    GroupFrame key f := ⟨h.length_le, _, _, _, h.has, rfl, hpayload⟩

theorem key_of_load {key : SessionKey} {m : Memory}
    (h : load m 0 9 = GroupPayload.keyDistribution key) :
    m 0 = GroupType.keyDistribution.code ∧ GroupPayload.key m = key := by
  have hlt : key.toNat < 256 ^ 8 := key.toNat_lt
  rw [load_append m 0 1 8, GroupPayload.keyDistribution, ← List.singleton_append] at h
  obtain ⟨htype, hkey⟩ := List.append_inj h (by simp)
  constructor
  · simpa [load] using htype
  · unfold GroupPayload.key
    rw [Nat.zero_add] at hkey
    rw [hkey, decode_encode hlt, UInt64.ofNat_toNat]

/-- What the receiver of a frame of the group finds in memory. -/
theorem GroupFrame.payload {key : SessionKey} {f : WireFrame} (h : GroupFrame key f)
    (rest : Memory) :
    (f.payload rest 0 = GroupType.joinRequest.code ∧ f.payloadSize = 1) ∨
      (f.payload rest 0 = GroupType.keyDistribution.code ∧
        GroupPayload.key (f.payload rest) = key ∧
        f.payloadSize = GroupPayload.keyDistributionSize) := by
  obtain ⟨hsize, sp, dp, s, hhas, htype, hpayload⟩ := h
  have hlength := hhas.payloadSize_eq hsize
  have hload := hhas.load_payload rest
  rcases hpayload with hjoin | hkey
  · left
    rw [hjoin] at hlength
    exact ⟨hhas.payload_zero rest (by rw [hjoin]; rfl), hlength⟩
  · right
    have hnine : s.payload.length = 9 := by
      rw [hkey]
      simp [GroupPayload.keyDistribution]
    rw [hnine, hkey] at hload
    obtain ⟨hcode, hvalue⟩ := key_of_load hload
    exact ⟨hcode, hvalue, by rw [hlength, hnine, GroupPayload.keyDistributionSize]⟩

theorem GroupFrame.distributedKey {key : SessionKey} {f : WireFrame} (h : GroupFrame key f) :
    distributedKey f =
      if f.payload (fun _ => 0) 0 = GroupType.keyDistribution.code then some key else none := by
  have hpayload := h.payload fun _ => 0
  obtain ⟨-, sp, dp, s, hhas, htype, -⟩ := h
  have hgroup : f.data[packetHeaderSize]? = some MsgType.group.code := by
    obtain ⟨loc, key, hdata⟩ := hhas.packet
    rw [hdata, ← htype]
    rfl
  unfold KeyAgreement.distributedKey
  simp only [hgroup, true_and]
  split_ifs with hcode
  · rcases hpayload with ⟨hjoin, -⟩ | ⟨-, hkey, -⟩
    · rw [hcode] at hjoin
      exact absurd hjoin (by decide)
    · rw [hkey]
  · rfl

structure Inv (uninitialized generated : SessionKey) (s : State μ) : Prop where
  handler : s.handler.sessionKey = uninitialized
  leader : s.leader.shared.sessionKey = generated
  frames : ∀ f ∈ s.link, GroupFrame uninitialized f
  held : ∀ m, s.keyFromLeader m = true →
    (s.member m).shared.sessionKey = uninitialized ∧ distributed s ≠ []

variable {uninitialized generated : SessionKey} {s s' : State μ}

theorem Inv.transmit (h : Inv uninitialized generated s) {o : Option Output}
    (ho : ∀ f ∈ outputLinks o.toList, GroupFrame uninitialized f) :
    Inv uninitialized generated (s.transmit o) where
  handler := h.handler
  leader := h.leader
  frames f hf := (List.mem_append.mp hf).elim (h.frames f) (ho f)
  held m hm := by
    obtain ⟨hkey, hsome⟩ := h.held m hm
    refine ⟨hkey, ?_⟩
    unfold distributed State.transmit at *
    rw [List.filterMap_append]
    exact List.append_ne_nil_of_left_ne_nil hsome _

theorem Inv.setLeader (h : Inv uninitialized generated s) {g : Gateway}
    (hg : g.shared.sessionKey = s.leader.shared.sessionKey) :
    Inv uninitialized generated { s with leader := g } :=
  ⟨h.handler, hg.trans h.leader, h.frames, h.held⟩

theorem Inv.leaderReceives (h : Inv uninitialized generated s) (f : WireFrame) (rest : Memory)
    (timestamp : UInt64) : Inv uninitialized generated (s.leaderReceives f rest timestamp) := by
  have hleader := h.setLeader (s.leader.handleReceive_sessionKey rest f)
  unfold State.leaderReceives
  simp only
  split
  · split
    · rename_i answer hanswer
      apply hleader.transmit
      unfold GroupLeaderHandler.handleGroupMessage at hanswer
      split_ifs at hanswer
      cases hanswer
      intro f' hf'
      exact .of_sent (Gateway.sent_of_mem hf') (.inr (by rw [h.handler]))
    · exact hleader
  · exact hleader

/-- The message that a frame of the group hands to the group handler, if any. -/
theorem GroupFrame.received {key : SessionKey} {f : WireFrame} (h : GroupFrame key f) (g : Gateway)
    (rest : Memory) : outputGroup (g.handleReceive rest f).2 = none ∨ ∃ source,
      outputGroup (g.handleReceive rest f).2 = some (f.payload rest, f.payloadSize, source) := by
  obtain ⟨-, sp, dp, s, hhas, htype, -⟩ := h
  by_cases haccepts : g.Accepts f
  · exact .inr ⟨_, (Gateway.system_received rest haccepts hhas).1 htype⟩
  · exact .inl (Gateway.system_refused rest haccepts hhas).group

theorem distributed_ne_nil {f : WireFrame} {rest : Memory} {key : SessionKey} (hf : f ∈ s.link)
    (hframe : GroupFrame key f) (hcode : f.payload rest 0 = GroupType.keyDistribution.code) :
    distributed s ≠ [] := by
  have hkey : distributedKey f = some key := by
    rw [hframe.distributedKey, if_pos]
    rcases hframe.payload rest with ⟨hjoin, -⟩ | ⟨-, -, hsize⟩
    · rw [hcode] at hjoin
      exact absurd hjoin (by decide)
    · rcases hframe.payload fun _ => 0 with ⟨-, hone⟩ | ⟨hcode', -, -⟩
      · rw [hsize] at hone
        exact absurd hone (by decide)
      · exact hcode'
  apply List.ne_nil_of_mem (a := key)
  exact List.mem_filterMap.mpr ⟨f, hf, hkey⟩

theorem Inv.distributed_eq (h : Inv uninitialized generated s) {key : SessionKey}
    (hkey : key ∈ distributed s) : key = uninitialized := by
  obtain ⟨f, hf, hsome⟩ := List.mem_filterMap.mp hkey
  rw [(h.frames f hf).distributedKey] at hsome
  split_ifs at hsome
  cases hsome
  rfl

variable [DecidableEq μ]

theorem Inv.setMember (h : Inv uninitialized generated s) (m : μ) {g : Gateway} {b : Bool}
    (hb : b = true → g.shared.sessionKey = uninitialized ∧ distributed s ≠ []) :
    Inv uninitialized generated (s.setMember m g b) where
  handler := h.handler
  leader := h.leader
  frames := h.frames
  held m' := by
    have hdistributed : distributed (s.setMember m g b) = distributed s := rfl
    rw [hdistributed]
    unfold State.setMember
    by_cases hm : m' = m
    · subst m'
      simpa using hb
    · simpa [hm] using h.held m'

theorem Inv.memberReceives (h : Inv uninitialized generated s) (m : μ) {f : WireFrame}
    (hf : f ∈ s.link) (rest : Memory) :
    Inv uninitialized generated (s.memberReceives m f rest) := by
  have hframe := h.frames f hf
  have hkey := (s.member m).handleReceive_sessionKey rest f
  have hunchanged : s.keyFromLeader m = true →
      ((s.member m).handleReceive rest f).1.shared.sessionKey = uninitialized ∧
        distributed s ≠ [] := by
    rw [hkey]
    exact h.held m
  unfold State.memberReceives
  simp only
  rcases hframe.received (s.member m) rest with hnone | ⟨source, hsome⟩
  · rw [hnone]
    exact h.setMember m hunchanged
  · rw [hsome]
    unfold GroupMemberHandler.handleGroupMessage
    simp only
    apply h.setMember m
    rcases hframe.payload rest with ⟨hjoin, -⟩ | ⟨hcode, hvalue, hsize⟩
    · have hno : GroupType.joinRequest.code ≠ GroupType.keyDistribution.code ∧
          GroupType.joinRequest.code ≠ GroupType.notifyLeft.code := by decide
      simpa [hjoin, hno] using hunchanged
    · have hnone : ¬ f.payloadSize < GroupPayload.keyDistributionSize := by omega
      intro _
      rw [if_pos hcode, if_neg hnone, hvalue]
      exact ⟨rfl, distributed_ne_nil hf hframe hcode⟩

theorem Inv.step (h : Inv uninitialized generated s) {a : Action μ}
    (hs : (group μ uninitialized generated).step s a = some s') :
    Inv uninitialized generated s' := by
  cases a with
  | join m timestamp =>
    cases hs
    apply h.transmit
    intro f hf
    exact .of_sent (Gateway.sent_of_mem hf) (.inl rfl)
  | leaderReceives n rest timestamp =>
    obtain ⟨f, hf, rfl⟩ := Option.map_eq_some_iff.mp hs
    exact h.leaderReceives f rest timestamp
  | memberReceives m n rest =>
    obtain ⟨f, hf, rfl⟩ := Option.map_eq_some_iff.mp hs
    exact h.memberReceives m (List.mem_of_getElem? hf) rest
  | leaderMoves quadrant location =>
    cases hs
    exact h.setLeader rfl
  | memberMoves m quadrant location =>
    cases hs
    exact h.setMember m (h.held m)
  | foreignKey m key =>
    cases hs
    exact h.setMember m (by simp)

theorem inv_of_reachable (hs : (group μ uninitialized generated).Reachable s) :
    Inv uninitialized generated s := by
  refine hs.invariant ?_ fun _ _ _ _ h hstep _ => h.step hstep
  rintro s ⟨⟨g, hconstruct⟩, hflags, hlink⟩
  obtain ⟨hleader, hhandler⟩ := Prod.mk.inj hconstruct
  constructor
  · rw [hhandler]
  · rw [hleader]
    rfl
  · intro f hf
    rw [hlink] at hf
    cases hf
  · intro m hm
    rw [hflags m] at hm
    cases hm

/-- The leader hands out the value it finds in the field that no one initialized.
The group agrees on a key only until then, or if that value is the generated key. -/
theorem agreement_iff (hs : (group μ uninitialized generated).Reachable s) :
    Agreement s ↔ distributed s = [] ∨ uninitialized = generated := by
  have h := inv_of_reachable hs
  constructor
  · intro hagree
    cases hsent : distributed s with
    | nil => exact .inl rfl
    | cons key keys =>
      right
      have hmem : key ∈ distributed s := by simp [hsent]
      rw [← h.distributed_eq hmem, hagree.sent key hmem, h.leader]
  · intro hwhen
    constructor
    · intro key hkey
      rcases hwhen with hnone | heq
      · rw [hnone] at hkey
        cases hkey
      · rw [h.distributed_eq hkey, h.leader, heq]
    · intro m hm
      obtain ⟨hmember, hsome⟩ := h.held m hm
      rcases hwhen with hnone | heq
      · exact absurd hnone hsome
      · rw [hmember, h.leader, heq]

def oneMember (n : SessionKey) : State Unit where
  leader := (GroupLeaderHandler.construct (northGateway 1 0) n 9).1
  handler := (GroupLeaderHandler.construct (northGateway 1 0) n 9).2
  member _ := northGateway 2 0
  keyFromLeader _ := false
  link := []

def joinRun : List (Action Unit) :=
  [.join () 0, .leaderReceives 0 (fun _ => 0) 0, .memberReceives () 1 fun _ => 0]

theorem oneMember_init (n : SessionKey) : (group Unit n 9).init (oneMember n) :=
  ⟨⟨northGateway 1 0, rfl⟩, fun _ => rfl, rfl⟩

theorem agreement_iff_of_joinRun :
    ∃ s, (group Unit 9 9).Reachable s ∧ s.keyFromLeader () = true ∧ Agreement s := by
  obtain ⟨s, -, hs, hgoal⟩ := Machine.Reachable.exec_any (.init (oneMember_init 9)) joinRun
    (fun s => s.keyFromLeader ()) (by decide +kernel)
  exact ⟨s, hs, hgoal, (agreement_iff hs).mpr (.inr rfl)⟩

theorem not_agreement_joinRun :
    ∃ s, (group Unit 5 9).exec (oneMember 5) joinRun = some s ∧ (group Unit 5 9).Reachable s ∧
      ¬ Agreement s := by
  obtain ⟨s, hexec, hs, hgoal⟩ := Machine.Reachable.exec_any (.init (oneMember_init 5)) joinRun
    (fun s => s.keyFromLeader () ∧ (s.member ()).shared.sessionKey = 5 ∧
      s.leader.shared.sessionKey = 9) (by decide +kernel)
  obtain ⟨hflag, hmember, hleader⟩ := of_decide_eq_true hgoal
  refine ⟨s, hexec, hs, fun hagree => ?_⟩
  have heq := hagree.held () hflag
  rw [hmember, hleader] at heq
  exact absurd heq (by decide)

end CommunicationAPI.KeyAgreement
