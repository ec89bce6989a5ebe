import CommunicationAPI.GroupHandlers
import CommunicationAPI.Machine

/-!
# A change of quadrant

The gateway of a vehicle has two threads: the signal thread takes frames of the link
through the filter of the NIC to the list of nearby vehicles, and the quadrant thread
moves the vehicle. Every call is one step of one thread.
-/

namespace CommunicationAPI.QuadrantChange
open Octets ShmEngine TransitionSystem

/-- Where the signal thread is with a frame: past the filter, or past
`register_nearby_entity`. -/
inductive SignalPc
  | idle
  | accepted (f : WireFrame) (rest : Memory)
  | registered (f : WireFrame) (rest : Memory)

/-- The last call of the quadrant thread: `set_location` of the external NIC,
`notify_location_change`, `reset_entities_nearby`; then `set_location` of the local NIC. -/
inductive QuadrantPc
  | idle
  | moved
  | notified
  | cleared
  deriving DecidableEq

/-- `heard` lists the sources of the accepted frames with the location in the frame.
`fresh` lists the vehicles that were registered with the present external location since
it was set, less those that have left. -/
structure State where
  gateway : Gateway
  signal : SignalPc
  changer : QuadrantPc
  heard : List (MAC × UInt8)
  fresh : List MAC

inductive Action
  | accept (f : WireFrame) (rest : Memory)
  | register
  | finish
  | move (q : Quadrant)
  | notify
  | reset
  | setLocal

def locationHeader (rest : Memory) (f : WireFrame) : UInt8 :=
  Packet.location (Gateway.receivedFrame rest f).data

def leftVehicle (payload : Memory) (size : ℕ) : Option MAC :=
  if payload 0 = GroupType.notifyLeft.code ∧ GroupPayload.notifyLeftSize ≤ size then
    some (GroupPayload.member payload).paddr
  else none

namespace State
variable (s : State)

def setNearby (nearby : NearbyEntities) : State :=
  { s with gateway.shared.nearby := nearby }

def register (f : WireFrame) (rest : Memory) : State :=
  let nearby := s.gateway.shared.nearby.register f.header.shost
  { s.setNearby nearby with
    signal := .registered f rest
    fresh := if locationHeader rest f = s.gateway.quadrant.code ∧ f.header.shost ∈ nearby.entries
      then f.header.shost :: s.fresh else s.fresh }

/-- The rest of `update`: a group message reaches the handler. -/
def finish (f : WireFrame) (rest : Memory) : State :=
  match outputGroup (s.gateway.updateExternal (Gateway.receivedFrame rest f)).2 with
  | some (payload, size, _) =>
    { s with
      gateway := GroupMemberHandler.handleGroupMessage s.gateway payload size
      signal := .idle
      fresh := s.fresh.filter fun a => some a ≠ leftVehicle payload size }
  | none => { s with signal := .idle }

def step : Action → Option State
  | .accept f rest =>
    match s.signal with
    | .idle =>
      if f.header.shost ≠ s.gateway.address.1 ∧
          s.gateway.filterLocation (Gateway.receivedFrame rest f) = false ∧
          ntohs f.header.type = ethernetProtocolNumber then
        some { s with
          signal := .accepted f rest
          heard := (f.header.shost, locationHeader rest f) :: s.heard }
      else none
    | _ => none
  | .register =>
    match s.signal with
    | .accepted f rest => some (s.register f rest)
    | _ => none
  | .finish =>
    match s.signal with
    | .registered f rest => some (s.finish f rest)
    | _ => none
  | .move q =>
    if s.changer = .idle ∧ q ≠ s.gateway.quadrant then
      some { s with gateway.quadrant := q, changer := .moved, fresh := [] }
    else none
  | .notify => if s.changer = .moved then some { s with changer := .notified } else none
  | .reset =>
    if s.changer = .notified then some { s.setNearby .empty with changer := .cleared } else none
  | .setLocal =>
    if s.changer = .cleared then
      some { s with gateway.shared.location := s.gateway.quadrant, changer := .idle }
    else none

end State

def vehicle : Machine State Action where
  init s := ∃ g : Gateway, g.shared.location = g.quadrant ∧ g.shared.nearby = .empty ∧
    s = ⟨g, .idle, .idle, [], []⟩
  step := State.step

/-- The nearby list describes the quadrant of the gateway. -/
structure Describes (s : State) : Prop where
  location : s.gateway.shared.location = s.gateway.quadrant
  heard : ∀ a ∈ s.gateway.shared.nearby.entries, (a, s.gateway.quadrant.code) ∈ s.heard
  kept : ∀ a ∈ s.fresh, a ∈ s.gateway.shared.nearby.entries

def Joins (s : State) (a : MAC) : Prop :=
  a ∉ s.gateway.shared.nearby.entries ∧
    s.gateway.shared.nearby.entries.length < maxNearbyEntities

instance (s : State) (a : MAC) : Decidable (Joins s a) :=
  inferInstanceAs (Decidable (_ ∧ _))

/-- A frame is registered on its own side of a change: until the list is cleared no frame
from the new quadrant is, and at other times no vehicle joins that was not heard in the
quadrant. A full list registers nobody. -/
def OnOwnSide : StepCondition State Action := fun s a _ =>
  ∀ f rest, a = .register → s.signal = .accepted f rest →
    if s.changer = .moved ∨ s.changer = .notified then
      locationHeader rest f = s.gateway.quadrant.code →
        f.header.shost ∉ s.gateway.shared.nearby.entries ∧ ¬ Joins s f.header.shost
    else Joins s f.header.shost → (f.header.shost, s.gateway.quadrant.code) ∈ s.heard

/-- A group message takes the vehicle that it names from the list, and nothing else. -/
theorem handleGroupMessage_frame (g : Gateway) (payload : Memory) (size : ℕ) :
    (GroupMemberHandler.handleGroupMessage g payload size).quadrant = g.quadrant ∧
      (GroupMemberHandler.handleGroupMessage g payload size).shared.location =
        g.shared.location ∧
      ∀ a, a ∈ (GroupMemberHandler.handleGroupMessage g payload size).shared.nearby.entries ↔
        a ∈ g.shared.nearby.entries ∧ some a ≠ leftVehicle payload size := by
  have hcodes : GroupType.keyDistribution.code ≠ GroupType.notifyLeft.code := by decide
  unfold GroupMemberHandler.handleGroupMessage leftVehicle
  split_ifs with hkey hsize hleft hleft hnotify hsize hleft hleft hleft
  · exact absurd (hkey.symm.trans hleft.1) hcodes
  · simp
  · exact absurd (hkey.symm.trans hleft.1) hcodes
  · simp [Gateway.setSessionKey]
  · exact absurd hleft.2 (Nat.not_le.mpr hsize)
  · simp
  · refine ⟨rfl, rfl, fun a => ?_⟩
    rw [ne_eq, Option.some.injEq]
    exact NearbyEntities.mem_unregister _ _ _
  · exact absurd ⟨hnotify, Nat.not_lt.mp hsize⟩ hleft
  · exact absurd hleft.1 hnotify
  · simp

/-- What holds while frames are registered on their own side. -/
structure Inv (s : State) : Prop where
  location : s.changer = .idle → s.gateway.shared.location = s.gateway.quadrant
  heard : ¬ (s.changer = .moved ∨ s.changer = .notified) →
    ∀ a ∈ s.gateway.shared.nearby.entries, (a, s.gateway.quadrant.code) ∈ s.heard
  kept : ∀ a ∈ s.fresh, a ∈ s.gateway.shared.nearby.entries
  unsettled : s.changer = .moved ∨ s.changer = .notified → s.fresh = []

variable {s s' : State} {a : Action}

theorem Inv.register (h : Inv s) {f : WireFrame} {rest : Memory}
    (hsignal : s.signal = .accepted f rest) (hok : OnOwnSide s .register s') :
    Inv (s.register f rest) := by
  have hside := hok f rest rfl hsignal
  have hmem : ∀ a, a ∈ (s.register f rest).gateway.shared.nearby.entries ↔
      a ∈ s.gateway.shared.nearby.entries ∨ a = f.header.shost ∧ Joins s f.header.shost :=
    NearbyEntities.mem_register _ _
  have hfresh : ∀ a, a ∈ (s.register f rest).fresh → a ∈ s.fresh ∨
      locationHeader rest f = s.gateway.quadrant.code ∧ a = f.header.shost ∧
        a ∈ (s.register f rest).gateway.shared.nearby.entries := by
    intro a ha
    unfold State.register at ha ⊢
    dsimp only at ha ⊢
    split_ifs at ha with hadded
    · rcases List.mem_cons.mp ha with rfl | ha
      · exact .inr ⟨hadded.1, rfl, hadded.2⟩
      · exact .inl ha
    · exact .inl ha
  constructor
  · exact h.location
  · intro hsettled a ha
    have hchanger : ¬ (s.changer = .moved ∨ s.changer = .notified) := hsettled
    rw [if_neg hchanger] at hside
    rcases (hmem a).mp ha with ha | ⟨rfl, hjoins⟩
    · exact h.heard hchanger a ha
    · exact hside hjoins
  · intro a ha
    rcases hfresh a ha with ha | ⟨-, -, ha⟩
    · exact (hmem a).mpr (.inl (h.kept a ha))
    · exact ha
  · intro hunsettled
    have hchanger : s.changer = .moved ∨ s.changer = .notified := hunsettled
    rw [if_pos hchanger] at hside
    rw [List.eq_nil_iff_forall_not_mem]
    intro a ha
    rcases hfresh a ha with ha | ⟨hlocation, rfl, ha⟩
    · rw [h.unsettled hchanger] at ha
      cases ha
    · obtain ⟨hout, hfull⟩ := hside hlocation
      rcases (hmem _).mp ha with hin | ⟨-, hjoins⟩
      · exact hout hin
      · exact hfull hjoins

theorem Inv.finish (h : Inv s) (f : WireFrame) (rest : Memory) : Inv (s.finish f rest) := by
  unfold State.finish
  split
  · rename_i payload size source hgroup
    obtain ⟨hquadrant, hlocation, hmem⟩ :=
      handleGroupMessage_frame s.gateway payload size
    constructor
    · dsimp only
      rw [hquadrant, hlocation]
      exact h.location
    · intro hsettled a ha
      dsimp only at ha ⊢
      rw [hquadrant]
      exact h.heard hsettled a ((hmem a).mp ha).1
    · intro a ha
      obtain ⟨hfresh, hleft⟩ := List.mem_filter.mp ha
      exact (hmem a).mpr ⟨h.kept a hfresh, of_decide_eq_true hleft⟩
    · intro hunsettled
      dsimp only
      rw [h.unsettled hunsettled, List.filter_nil]
  · exact ⟨h.location, h.heard, h.kept, h.unsettled⟩

theorem Inv.step (h : Inv s) (hs : vehicle.step s a = some s') (hok : OnOwnSide s a s') :
    Inv s' := by
  cases a with
  | accept f rest =>
      simp only [vehicle, State.step] at hs
      split at hs
      · split_ifs at hs
        cases hs
        constructor
        · exact h.location
        · exact fun hsettled a ha => List.mem_cons_of_mem _ (h.heard hsettled a ha)
        · exact h.kept
        · exact h.unsettled
      · cases hs
  | register =>
      simp only [vehicle, State.step] at hs
      split at hs
      · rename_i f rest hsignal
        cases hs
        exact h.register hsignal hok
      · cases hs
  | finish =>
      simp only [vehicle, State.step] at hs
      split at hs
      · rename_i f rest hsignal
        cases hs
        exact h.finish f rest
      · cases hs
  | move q =>
      simp only [vehicle, State.step] at hs
      split_ifs at hs
      cases hs
      constructor
      · rintro ⟨⟩
      · intro hsettled
        exact absurd (.inl rfl) hsettled
      · intro a ha
        cases ha
      · exact fun _ => rfl
  | notify =>
      simp only [vehicle, State.step] at hs
      split_ifs at hs with hmoved
      cases hs
      constructor
      · rintro ⟨⟩
      · intro hsettled
        exact absurd (.inr rfl) hsettled
      · exact h.kept
      · exact fun _ => h.unsettled (.inl hmoved)
  | reset =>
      simp only [vehicle, State.step] at hs
      split_ifs at hs with hnotified
      cases hs
      have hnone : s.fresh = [] := h.unsettled (.inr hnotified)
      constructor
      · rintro ⟨⟩
      · intro _ a ha
        cases ha
      · intro a ha
        have hfresh : a ∈ s.fresh := ha
        rw [hnone] at hfresh
        cases hfresh
      · exact fun _ => hnone
  | setLocal =>
      simp only [vehicle, State.step] at hs
      split_ifs at hs with hcleared
      cases hs
      constructor
      · exact fun _ => rfl
      · intro _ a ha
        apply h.heard _ a ha
        rw [hcleared]
        rintro (hno | hno) <;> cases hno
      · exact h.kept
      · rintro (hno | hno) <;> cases hno

theorem inv_init (hs : vehicle.init s) : Inv s := by
  obtain ⟨g, hlocation, hempty, rfl⟩ := hs
  constructor
  · exact fun _ => hlocation
  · intro _ a ha
    dsimp only at ha
    rw [hempty] at ha
    cases ha
  · intro a ha
    cases ha
  · exact fun _ => rfl

theorem Inv.describes (h : Inv s) (hidle : s.changer = .idle) : Describes s := by
  refine ⟨h.location hidle, h.heard ?_, h.kept⟩
  rw [hidle]
  rintro (hno | hno) <;> cases hno

def remaining : QuadrantPc → List Action
  | .idle => []
  | .moved => [.notify, .reset, .setLocal]
  | .notified => [.reset, .setLocal]
  | .cleared => [.setLocal]

/-- The change is completed while the signal thread rests. -/
def State.complete (s : State) : State :=
  match s.changer with
  | .idle => s
  | .cleared => { s with gateway.shared.location := s.gateway.quadrant, changer := .idle }
  | _ => { s.setNearby .empty with
      gateway.shared.location := s.gateway.quadrant
      changer := .idle }

theorem exec_remaining (s : State) :
    vehicle.exec s (remaining s.changer) = some s.complete := by
  unfold State.complete
  cases hchanger : s.changer <;>
    simp [remaining, Machine.exec, vehicle, State.step, State.setNearby, hchanger]

theorem Inv.exec {t : State} {as : List Action} (h : Inv s) (hquiet : .register ∉ as)
    (he : vehicle.exec s as = some t) : Inv t := by
  induction as generalizing s with
  | nil =>
      cases he
      exact h
  | cons a as ih =>
      obtain ⟨s', hstep, he⟩ := Option.bind_eq_some_iff.mp he
      rw [List.mem_cons, not_or] at hquiet
      exact ih (h.step hstep fun _ _ heq => absurd heq.symm hquiet.1) hquiet.2 he

theorem Inv.complete (h : Inv s) : Inv s.complete := by
  apply h.exec _ (exec_remaining s)
  cases s.changer <;> simp [remaining]

theorem complete_frame (s : State) :
    s.complete.changer = .idle ∧ s.complete.fresh = s.fresh ∧ s.complete.heard = s.heard ∧
      s.complete.gateway.quadrant = s.gateway.quadrant := by
  unfold State.complete
  split
  · exact ⟨by assumption, rfl, rfl, rfl⟩
  · exact ⟨rfl, rfl, rfl, rfl⟩
  · exact ⟨rfl, rfl, rfl, rfl⟩

theorem complete_nearby (s : State) : s.complete.gateway.shared.nearby =
    if s.changer = .moved ∨ s.changer = .notified then .empty
    else s.gateway.shared.nearby := by
  unfold State.complete
  cases hchanger : s.changer <;> simp [State.setNearby]

/-- A frame registered across a change leaves its trace once the change is complete. -/
theorem onOwnSide_of_describes {f : WireFrame} {rest : Memory}
    (hsignal : s.signal = .accepted f rest) (h : Describes (s.register f rest).complete) :
    OnOwnSide s .register (s.register f rest) := by
  have hmem : ∀ a, a ∈ (s.register f rest).gateway.shared.nearby.entries ↔
      a ∈ s.gateway.shared.nearby.entries ∨ a = f.header.shost ∧ Joins s f.header.shost :=
    NearbyEntities.mem_register _ _
  have hsame : (s.register f rest).changer = s.changer := rfl
  obtain ⟨-, hfresh, hheard, hquadrant⟩ := complete_frame (s.register f rest)
  intro f' rest' _ hsignal'
  rw [hsignal] at hsignal'
  cases hsignal'
  split_ifs with hchanger
  · intro hlocation
    have hgone : f.header.shost ∉ (s.register f rest).gateway.shared.nearby.entries := by
      intro hin
      have hadded : f.header.shost ∈ (s.register f rest).fresh := by
        unfold State.register
        dsimp only
        rw [if_pos ⟨hlocation, hin⟩]
        exact List.mem_cons_self
      rw [← hfresh] at hadded
      have hkept := h.kept _ hadded
      rw [complete_nearby, hsame, if_pos hchanger] at hkept
      cases hkept
    rw [hmem, not_or] at hgone
    exact ⟨hgone.1, fun hjoins => hgone.2 ⟨rfl, hjoins⟩⟩
  · intro hjoins
    have hin : f.header.shost ∈ (s.register f rest).complete.gateway.shared.nearby.entries := by
      rw [complete_nearby, hsame, if_neg hchanger]
      exact (hmem _).mpr (.inr ⟨rfl, hjoins⟩)
    have hlisted := h.heard _ hin
    rwa [hheard, hquadrant] at hlisted

/-- Whenever no change of quadrant is in progress, the list describes the quadrant, as
long as every frame is registered on its own side of each change. A first frame that is
not leaves a list that does not, once the change it meets is complete. -/
theorem describes_iff (hs : vehicle.Reaches OnOwnSide s) :
    (s.changer = .idle → Describes s) ∧
      ∀ s', vehicle.step s .register = some s' →
        ∃ t, vehicle.exec s' (remaining s'.changer) = some t ∧ t.changer = .idle ∧
          (Describes t ↔ OnOwnSide s .register s') := by
  have h : Inv s := by
    apply hs.invariant
    · exact fun _ => inv_init
    · exact fun _ _ _ _ hinv hstep hok => hinv.step hstep hok
  refine ⟨h.describes, fun s' hstep => ?_⟩
  have hidle := (complete_frame s').1
  refine ⟨s'.complete, exec_remaining s', hidle, ?_⟩
  constructor
  · intro hdescribes
    simp only [vehicle, State.step] at hstep
    split at hstep
    · rename_i f rest hsignal
      cases hstep
      exact onOwnSide_of_describes hsignal hdescribes
    · cases hstep
  · intro hok
    exact (h.step hstep hok).complete.describes hidle

def neighbourFrame (q : Quadrant) : WireFrame :=
  rawSend (northGateway 2 7).address (packetCall q 7 (northGateway 2 7).externalAddress
    ⟨broadcastAddr, 1⟩ (Segment.getBytes ⟨.control, 0, []⟩) (by decide))

def start : State := ⟨northGateway 1 7, .idle, .idle, [], []⟩

theorem start_init : vehicle.init start := ⟨_, rfl, rfl, rfl⟩

def moveRun (rest : Memory) : List Action :=
  [.move .east, .notify, .reset, .setLocal, .accept (neighbourFrame .east) rest, .register]

def onOwnSide (s : State) (a : Action) (_ : State) : Bool :=
  match a, s.signal with
  | .register, .accepted f rest =>
    decide (if s.changer = .moved ∨ s.changer = .notified then
      locationHeader rest f = s.gateway.quadrant.code →
        f.header.shost ∉ s.gateway.shared.nearby.entries ∧ ¬ Joins s f.header.shost
      else Joins s f.header.shost → (f.header.shost, s.gateway.quadrant.code) ∈ s.heard)
  | _, _ => true

theorem onOwnSide_sound (s : State) (a : Action) (s' : State) (h : onOwnSide s a s' = true) :
    OnOwnSide s a s' := by
  rintro f rest rfl hsignal
  unfold onOwnSide at h
  rw [hsignal] at h
  exact of_decide_eq_true h

theorem describes_of_moveRun :
    ∃ s, vehicle.execIf onOwnSide start (moveRun fun _ => 0) = some s ∧
      s.gateway.shared.nearby.entries.length = 1 ∧ Describes s := by
  have hrun : (vehicle.execIf onOwnSide start (moveRun fun _ => 0)).any (fun s =>
      s.changer = .idle ∧ s.gateway.shared.nearby.entries.length = 1) = true := by
    decide +kernel
  obtain ⟨s, hs, hgoal⟩ := (Option.any_eq_true _ _).mp hrun
  obtain ⟨hidle, hlength⟩ := of_decide_eq_true hgoal
  have hreach := Machine.Reaches.execIf onOwnSide_sound (.init start_init) hs
  exact ⟨s, hs, hlength, (describes_iff hreach).1 hidle⟩

def staleRun (rest : Memory) : List Action :=
  [.accept (neighbourFrame .north) rest, .move .east, .notify, .reset, .setLocal, .register]

theorem not_describes_staleRun :
    ¬ ∀ s, vehicle.Reachable s → s.changer = .idle → Describes s := by
  intro h
  obtain ⟨s, -, hs, hgoal⟩ := Machine.Reachable.exec_any (M := vehicle) (.init start_init)
    (staleRun fun _ => 0)
    (fun s => decide (s.changer = .idle ∧ ∃ a ∈ s.gateway.shared.nearby.entries,
      (a, s.gateway.quadrant.code) ∉ s.heard)) (by decide +kernel)
  obtain ⟨hidle, a, ha, hunheard⟩ := of_decide_eq_true hgoal
  exact hunheard ((h s hs hidle).heard a ha)

end CommunicationAPI.QuadrantChange
