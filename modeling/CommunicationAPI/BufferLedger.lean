import CommunicationAPI.BufferOwnership

/-!
# The ledger of the buffers

Every buffer is accounted for along every run: it has been freed, it is still queued
or a destructor has lost it.
-/

namespace CommunicationAPI.BufferOwnership
open Octets TransitionSystem

theorem noUseAfterFree_append {log events : List BufferEvent} {n : ℕ}
    (hlog : NoUseAfterFree log n) (hevents : NoUseAfterFree events n)
    (hnew : .free n ∉ log ∨ .use n ∉ events) : NoUseAfterFree (log ++ events) n := by
  unfold NoUseAfterFree
  rw [List.pairwise_append]
  refine ⟨hlog, hevents, ?_⟩
  rintro a ha b hb ⟨rfl, rfl⟩
  rcases hnew with h | h
  · exact h ha
  · exact h hb

/-- Buffer `n` is accounted for: it was freed, queued or lost as often as the frame
matched, or freed once if it did not match at all. -/
structure Balanced (s : State) (live : Finset ℕ) (n : ℕ) : Prop where
  balance : s.endpoints.log.count (.free n) + queued s.endpoints live n + s.lost n =
    if n < s.frames.length then max 1 (s.matching n) else 0
  noUseAfterFree : s.endpoints.log.count (.free n) ≤ 1 → NoUseAfterFree s.endpoints.log n

def Covers (live : Finset ℕ) (e : Endpoints) : Prop := ∀ o ∉ live, e.communicator o = none

structure Ledger (s : State) : Prop where
  attached : Attached s.endpoints
  balanced : ∃ live, Covers live s.endpoints ∧ ∀ n, Balanced s live n

namespace Covers
variable {e e' : Endpoints} {live : Finset ℕ} {o : ℕ} {c : Communicator}
  {x : Option Communicator}

theorem mem (h : Covers live e) (hc : e.communicator o = some c) : o ∈ live := by
  by_contra ho
  rw [h o ho] at hc
  cases hc

theorem update (h : Covers live e) (ho : o ∈ live)
    (he : e'.communicator = Function.update e.communicator o x) : Covers live e' := by
  intro o' ho'
  have hne : o' ≠ o := by
    rintro rfl
    exact ho' ho
  rw [he, Function.update_of_ne hne]
  exact h o' ho'

end Covers

section
variable {s : State} {o : ℕ} {c : Communicator}

theorem ledger_construct (hs : Ledger s) (hnew : s.endpoints.communicator o = none)
    (address : Address) : Ledger { s with endpoints := s.endpoints.construct o address } := by
  refine ⟨hs.attached.construct hnew address, ?_⟩
  obtain ⟨live, hcovers, hbalanced⟩ := hs.balanced
  refine ⟨insert o live, ?_, fun n => ?_⟩
  · have hall : Covers (insert o live) s.endpoints := by
      intro o' ho'
      exact hcovers o' fun h => ho' (Finset.mem_insert_of_mem h)
    exact hall.update (Finset.mem_insert_self o live)
      (s.endpoints.construct_communicator o address)
  · have hqueued : queued (s.endpoints.construct o address) (insert o live) n =
        queued s.endpoints live n := by
      have h := queued_update (n := n) (Finset.mem_insert_self o live)
        (s.endpoints.construct_communicator o address)
      rw [hnew, queued_insert hnew] at h
      exact h
    refine ⟨?_, (hbalanced n).noUseAfterFree⟩
    dsimp only
    rw [hqueued]
    exact (hbalanced n).balance

theorem ledger_subscribe (hs : Ledger s) (hc : s.endpoints.communicator o = some c)
    (type : TedsType) :
    Ledger { s with endpoints := s.endpoints.subscribeToType o c type } := by
  refine ⟨hs.attached.subscribeToType hc type, ?_⟩
  obtain ⟨live, hcovers, hbalanced⟩ := hs.balanced
  have ho : o ∈ live := hcovers.mem hc
  refine ⟨live, ?_, fun n => ?_⟩
  · exact hcovers.update ho (s.endpoints.subscribeToType_communicator o c type)
  · have hqueued : queued (s.endpoints.subscribeToType o c type) live n =
        queued s.endpoints live n := by
      have h := queued_update (n := n) ho (s.endpoints.subscribeToType_communicator o c type)
      rw [hc] at h
      exact Nat.add_right_cancel h
    refine ⟨?_, (hbalanced n).noUseAfterFree⟩
    dsimp only
    rw [hqueued]
    exact (hbalanced n).balance

/-- A destructor moves the queue of its Communicator to the losses. -/
theorem ledger_destroy (hs : Ledger s) (hc : s.endpoints.communicator o = some c) :
    Ledger { s with
      endpoints := s.endpoints.destroy o c
      lost := fun n => s.lost n + entries c n } := by
  refine ⟨hs.attached.destroy hc, ?_⟩
  obtain ⟨live, hcovers, hbalanced⟩ := hs.balanced
  have ho : o ∈ live := hcovers.mem hc
  refine ⟨live, ?_, fun n => ?_⟩
  · exact hcovers.update ho (s.endpoints.destroy_communicator o c)
  · have hqueued : queued (s.endpoints.destroy o c) live n + entries c n =
        queued s.endpoints live n := by
      have h := queued_update (n := n) ho (s.endpoints.destroy_communicator o c)
      rw [hc] at h
      exact h
    have hbalance := (hbalanced n).balance
    refine ⟨?_, (hbalanced n).noUseAfterFree⟩
    have hlog : (s.endpoints.destroy o c).log = s.endpoints.log := rfl
    dsimp only
    rw [hlog]
    omega

/-- A Communicator that receives moves one entry of its queue to the freed ones. -/
theorem ledger_receive (hs : Ledger s) (hc : s.endpoints.communicator o = some c) {buf : Buffer}
    (hbuf : c.data.head? = some buf) :
    Ledger { s with endpoints := s.endpoints.receive o c buf } := by
  refine ⟨(SameAttachments.receive hc buf).attached hs.attached, ?_⟩
  obtain ⟨live, hcovers, hbalanced⟩ := hs.balanced
  have ho : o ∈ live := hcovers.mem hc
  refine ⟨live, hcovers.update ho (s.endpoints.receive_communicator o c buf), fun n => ?_⟩
  have hentries : entries c n = entries { c with data := c.data.tail } n +
      if buf.id = n then 1 else 0 := by
    obtain ⟨rest, hdata⟩ := List.head?_eq_some_iff.mp hbuf
    simp [entries, hdata, List.countP_cons]
  have hqueued := queued_update (n := n) ho (s.endpoints.receive_communicator o c buf)
  rw [hc] at hqueued
  have hcount : (s.endpoints.receive o c buf).log.count (.free n) =
      s.endpoints.log.count (.free n) + if buf.id = n then 1 else 0 := by
    unfold Endpoints.receive
    simp [List.count_append, List.count_cons]
  have hbalance := (hbalanced n).balance
  constructor
  · rw [← hbalance]
    simp only [entriesAt, Option.elim_some] at hqueued
    dsimp only
    omega
  · intro hle
    rw [hcount] at hle
    unfold Endpoints.receive
    apply noUseAfterFree_append
    · exact (hbalanced n).noUseAfterFree (by omega)
    · simp [NoUseAfterFree]
    · by_cases hid : buf.id = n
      · left
        rw [if_pos hid] at hle
        exact List.count_eq_zero.mp (by omega)
      · right
        simpa using Ne.symm hid

end

section
variable {e e' : Endpoints} {external : Option Gateway} {buf : Buffer}

theorem foldl_log (observers : List ℕ) :
    (observers.foldl (fun e o => e.queueIncomingBuffer buf o) e).log = e.log := by
  induction observers generalizing e with
  | nil => rfl
  | cons o observers ih => exact ih

/-- `update` frees the buffer itself if nobody is interested. -/
theorem update_log (h : e.update external buf = some e') :
    e'.log = e.log ++
      if e.recipients external buf.frame = [] then [.use buf.id, .free buf.id]
      else [.use buf.id] := by
  rcases update_cases h with ⟨hnone, rfl⟩ | ⟨hsome, rfl⟩
  · rw [if_pos hnone]
    exact List.append_assoc ..
  · rw [if_neg hsome, foldl_log]
    rfl

theorem queued_update_buffer (h : e.update external buf = some e') {live : Finset ℕ}
    (hlive : ∀ o ∈ e.recipients external buf.frame, o ∈ live ∧ (e.communicator o).isSome)
    (n : ℕ) :
    queued e' live n =
      queued e live n + if buf.id = n then (e.recipients external buf.frame).length else 0 := by
  rcases update_cases h with ⟨hnone, rfl⟩ | ⟨-, rfl⟩
  · rw [hnone, List.length_nil, ite_self]
    rfl
  · exact queued_foldl hlive

end

theorem ledger_handUp {s : State} (hs : Ledger s) {external : Option Gateway} {frame : Frame}
    {endpoints : Endpoints} (h : s.endpoints.update external ⟨s.handed, frame⟩ = some endpoints) :
    Ledger { s with
      endpoints
      frames := s.frames ++ [(external, frame)]
      matching := Function.update s.matching s.handed
        (s.endpoints.recipients external frame).length } := by
  have hsame : SameAttachments s.endpoints endpoints := .update h
  refine ⟨hsame.attached hs.attached, ?_⟩
  obtain ⟨live, hcovers, hbalanced⟩ := hs.balanced
  have hlive : ∀ o ∈ s.endpoints.recipients external frame,
      o ∈ live ∧ (s.endpoints.communicator o).isSome := by
    intro o ho
    have hsome := hs.attached.isSome_of_mem_recipients ho
    obtain ⟨c, hc⟩ := Option.isSome_iff_exists.mp hsome
    exact ⟨hcovers.mem hc, hsome⟩
  refine ⟨live, fun o ho => hsame.none_of_none (hcovers o ho), fun n => ?_⟩
  have hqueued := queued_update_buffer h hlive n
  have hlog := update_log h
  have hbalance := (hbalanced n).balance
  have hlength : (s.frames ++ [(external, frame)]).length = s.handed + 1 := List.length_append
  change _ = if n < s.handed then _ else 0 at hbalance
  dsimp only at hqueued hlog
  by_cases hn : s.handed = n
  · -- the new buffer
    subst hn
    rw [if_neg (lt_irrefl _)] at hbalance
    have hfresh : .free s.handed ∉ s.endpoints.log := List.count_eq_zero.mp (by omega)
    constructor
    · dsimp only
      rw [hqueued, hlog, hlength, if_pos rfl, if_pos (Nat.lt_succ_self _), Function.update_self,
        List.count_append]
      split_ifs with hnone
      · simp only [hnone, List.length_nil, List.count_cons, List.count_nil]
        simp
        omega
      · have hpos : 0 < (s.endpoints.recipients external frame).length :=
          List.length_pos_iff.mpr hnone
        simp only [List.count_cons, List.count_nil]
        simp
        omega
    · intro _
      dsimp only
      rw [hlog]
      apply noUseAfterFree_append
      · exact (hbalanced s.handed).noUseAfterFree (by omega)
      · split_ifs <;> simp [NoUseAfterFree]
      · exact .inl hfresh
  · have hcount : endpoints.log.count (.free n) = s.endpoints.log.count (.free n) := by
      rw [hlog, List.count_append]
      split_ifs <;> simp [hn]
    constructor
    · dsimp only
      rw [hqueued, hcount, hlength, if_neg hn, Function.update_of_ne (Ne.symm hn), Nat.add_zero,
        hbalance]
      have hlt : n < s.handed + 1 ↔ n < s.handed := by omega
      simp only [hlt]
    · intro hle
      dsimp only at hle ⊢
      rw [hcount] at hle
      rw [hlog]
      apply noUseAfterFree_append
      · exact (hbalanced n).noUseAfterFree hle
      · split_ifs <;> simp [NoUseAfterFree]
      · right
        split_ifs <;> simp [Ne.symm hn]

/-- As long as no short broadcast is relayed, the ledger is kept; with the first one it ends. -/
structure Kept (s : State) : Prop where
  ledger : s.overrun = false → Ledger s
  overrun_iff : s.overrun = true ↔ ∃ x ∈ s.frames, Short x

theorem kept_handUp {s : State} (hs : Kept s) (hcontained : s.overrun = false)
    {external : Option Gateway} {frame : Frame} (hsize : frame.dataLength < uint32) :
    Kept (s.handUp external frame) := by
  have hearlier : ¬ ∃ x ∈ s.frames, Short x := by
    rw [← hs.overrun_iff, hcontained]
    exact Bool.false_ne_true
  have hframes : (∃ x ∈ s.frames ++ [(external, frame)], Short x) ↔ Short (external, frame) := by
    constructor
    · rintro ⟨x, hx, hshort⟩
      rcases List.mem_append.mp hx with hold | hnew
      · exact absurd ⟨x, hold, hshort⟩ hearlier
      · cases List.mem_singleton.mp hnew
        exact hshort
    · exact fun hshort => ⟨_, List.mem_append_right _ (List.mem_singleton_self _), hshort⟩
  have hnone := @update_eq_none s.endpoints external ⟨s.handed, frame⟩ hsize
  unfold State.handUp
  cases hupdate : s.endpoints.update external ⟨s.handed, frame⟩ with
  | none => exact ⟨nofun, iff_of_true rfl (hframes.mpr (hnone.mp hupdate))⟩
  | some endpoints =>
    rw [hupdate] at hnone
    refine ⟨fun _ => ledger_handUp (hs.ledger hcontained) hupdate, ?_⟩
    dsimp only
    rw [hframes, hcontained]
    exact iff_of_false Bool.false_ne_true fun hshort => Option.some_ne_none _ (hnone.mpr hshort)

theorem kept_step {s s' : State} {a : Action} (hs : Kept s) (h : step s a = some s') :
    Kept s' := by
  unfold step at h
  split_ifs at h with hoverrun
  have hcontained : s.overrun = false := Bool.eq_false_iff.mpr hoverrun
  have hledger := hs.ledger hcontained
  cases a with
  | construct o address =>
      simp only [State.act] at h
      split_ifs at h with hnew
      cases h
      exact ⟨fun _ => ledger_construct hledger (Option.isNone_iff_eq_none.mp hnew) address,
        hs.overrun_iff⟩
  | subscribe o type =>
      obtain ⟨c, hc, rfl⟩ := Option.map_eq_some_iff.mp h
      exact ⟨fun _ => ledger_subscribe hledger hc type, hs.overrun_iff⟩
  | destroy o =>
      obtain ⟨c, hc, rfl⟩ := Option.map_eq_some_iff.mp h
      exact ⟨fun _ => ledger_destroy hledger hc, hs.overrun_iff⟩
  | handUp external frame =>
      simp only [State.act] at h
      split_ifs at h with hsize
      cases h
      exact kept_handUp hs hcontained hsize
  | receive o =>
      obtain ⟨c, hc, h⟩ := Option.bind_eq_some_iff.mp h
      obtain ⟨buf, hbuf, rfl⟩ := Option.map_eq_some_iff.mp h
      exact ⟨fun _ => ledger_receive hledger hc hbuf, hs.overrun_iff⟩

theorem kept_of_reachable {s : State} (hs : machine.Reachable s) : Kept s := by
  apply hs.invariant ?_ fun _ _ _ _ hkept h _ => kept_step hkept h
  rintro _ rfl
  refine ⟨fun _ => ⟨⟨?_, ?_⟩, ∅, fun _ _ => rfl, fun n => ⟨?_, ?_⟩⟩, ?_⟩
  · intro o p h
    cases h
  · intro o t h
    cases h
  · simp [start, Endpoints.empty, queued]
  · intro _
    exact List.Pairwise.nil
  · exact iff_of_false Bool.false_ne_true fun ⟨_, hx, _⟩ => List.not_mem_nil hx

theorem queued_of_drained {s : State} (hs : s.Drained) (live : Finset ℕ) (n : ℕ) :
    queued s.endpoints live n = 0 := by
  apply Finset.sum_eq_zero
  intro o _
  cases hc : s.endpoints.communicator o with
  | none => rfl
  | some c => simp [entriesAt, entries, hs o c hc]

/-- A buffer is released once if and only if no short broadcast was relayed and destructors have
lost all entries for the buffer but one. A frame that matched nothing counts as matched once, by
`update` itself. -/
theorem releasedOnce_iff {s : State} (hs : machine.Reachable s) (hdrained : s.Drained) {n : ℕ}
    (hn : n < s.handed) :
    ReleasedOnce s n ↔ (∀ x ∈ s.frames, ¬ Short x) ∧ max 1 (s.matching n) = s.lost n + 1 := by
  have hkept := kept_of_reachable hs
  cases hoverrun : s.overrun with
  | true =>
    obtain ⟨x, hx, hshort⟩ := hkept.overrun_iff.mp hoverrun
    refine iff_of_false (fun h => ?_) fun h => h.1 x hx hshort
    rw [h.contained] at hoverrun
    cases hoverrun
  | false =>
    have hlong : ∀ x ∈ s.frames, ¬ Short x := by
      intro x hx hshort
      rw [hkept.overrun_iff.mpr ⟨x, hx, hshort⟩] at hoverrun
      cases hoverrun
    obtain ⟨live, -, hbalanced⟩ := (hkept.ledger hoverrun).balanced
    have hbalance := (hbalanced n).balance
    have hplace : n < s.frames.length := hn
    rw [queued_of_drained hdrained, if_pos hplace] at hbalance
    rw [and_iff_right hlong]
    constructor
    · intro h
      have honce := h.once
      omega
    · intro h
      have honce : s.endpoints.log.count (.free n) = 1 := by omega
      exact ⟨hoverrun, honce, (hbalanced n).noUseAfterFree honce.le⟩

def tedsFrame (type : TedsType) : Frame where
  header := ⟨broadcastAddr, localAddr, 0⟩
  data := store (fun _ => 0) packetHeaderSize
    (MsgType.teds.code :: (encode 8 0 ++ Teds.payload type 100))
  dataLength := packetHeaderSize + segmentHeaderSize + 8 + macSize

def subscriptionRun (times : ℕ) : List Action :=
  .construct 0 ⟨localAddr, 5⟩ :: List.replicate times (.subscribe 0 3) ++
    .handUp none (tedsFrame 3) :: List.replicate times (.receive 0)

theorem releasedOnce_of_subscriptionRun :
    ∃ s, machine.exec start (subscriptionRun 1) = some s ∧ ReleasedOnce s 0 := by
  have hreach : ∀ s, machine.exec start (subscriptionRun 1) = some s → machine.Reachable s :=
    fun _ => Machine.Reachable.exec (.init rfl)
  refine ⟨_, rfl, (releasedOnce_iff (hreach _ rfl) ?_ (by decide)).mpr ⟨?_, by decide +kernel⟩⟩
  · intro o c hc
    cases o with
    | zero =>
        cases hc
        rfl
    | succ o => cases hc
  · intro x hx hshort
    cases List.mem_singleton.mp hx
    exact Bool.false_ne_true hshort.1

/-- A repeated subscription: the frame is freed twice. -/
theorem not_releasedOnce_subscriptionRun :
    ¬ ∀ s, machine.Reachable s → s.Drained →
        ∀ n < s.handed, ReleasedOnce s n := by
  intro h
  obtain ⟨s, hexec, hdrained, hhanded, htwice⟩ :
      ∃ s, machine.exec start (subscriptionRun 2) = some s ∧ s.Drained ∧ s.handed = 1 ∧
        s.endpoints.log.count (.free 0) = 2 := by
    refine ⟨_, rfl, ?_, rfl, by decide +kernel⟩
    intro o c hc
    cases o with
    | zero =>
        cases hc
        rfl
    | succ o => cases hc
  have honce := (h s (Machine.Reachable.exec (.init rfl) hexec) hdrained 0 (by omega)).once
  omega

end CommunicationAPI.BufferOwnership
