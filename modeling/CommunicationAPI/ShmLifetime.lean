import CommunicationAPI.ShmEngine

/-!
# The lifetime of the segment and of the semaphore set

Any number of processes construct and destroy their engines, each process once. A
section under `REGISTRY_SEM` is one step, and so is every other system call and every
entry read by the scan of the destructor.

`IPC_RMID` removes the semaphore set at once and the segment with its last
attachment. `shmdt` does not fail on an address that `shmat` returned.
-/

namespace CommunicationAPI.ShmLifetime
open TransitionSystem CommunicationAPI.ShmEngine

/-- The entries of `client_registry`: the process id where `is_active` is set. -/
abbrev Registry := ClientSlot → Option ℕ

/-- How the two `semop`s around a section under `REGISTRY_SEM` end. -/
inductive Locking
  | lockFailed | done | unlockFailed
  deriving DecidableEq

inductive Pc
  | outside
  | attach
  | register
  | running (i : ClientSlot)
  | deregister (i : ClientSlot)
  | scan (todo : List ClientSlot)
  | detach (isLastClient : Bool)
  /-- `_cleanupAndThrow`, with or without a segment attached. -/
  | cleanup (attached : Bool)
  | removeSegment (throws : Bool)
  | removeSemaphores (throws : Bool)
  | gone
  | thrown
  deriving DecidableEq

/-- A successful `IPC_RMID`: the process that called it and the registry it found. -/
structure Removal where
  process : ℕ
  registry : Registry

structure Write where
  process : ℕ
  previous : Option ℕ

structure State where
  registry : Registry
  /-- The process that could not release `REGISTRY_SEM`. -/
  holder : Option ℕ
  /-- The kernel's count of attachments of the segment. -/
  attached : ℕ
  segmentRemoved : Bool
  semaphoresRemoved : Bool
  pc : ℕ → Pc
  removals : List Removal
  writes : List Write

def initial : State where
  registry := fun _ => none
  holder := none
  attached := 0
  segmentRemoved := false
  semaphoresRemoved := false
  pc := fun _ => .outside
  removals := []
  writes := []

namespace State
variable (s : State)

def setPc (p : ℕ) (pc : Pc) : State := { s with pc := Function.update s.pc p pc }

def setEntry (p : ℕ) (i : ClientSlot) (x : Option ℕ) : State :=
  { s with
    registry := Function.update s.registry i x
    writes := ⟨p, s.registry i⟩ :: s.writes }

/-- The entry that the loop of `_register_client` stops at. -/
def freeSlot : Option ClientSlot := allClients.find? fun i => (s.registry i).isNone

/-- A call of `semop` may always fail; it takes the semaphore only where there is one and
nobody keeps it. -/
def mayEnter (o : Locking) : Bool :=
  decide (o = .lockFailed) || (!s.semaphoresRemoved && s.holder.isNone)

def release (p : ℕ) (o : Locking) : State :=
  { s with holder := if o = .unlockFailed then some p else s.holder }

def register (p : ℕ) (o : Locking) : State :=
  if o = .lockFailed then s.setPc p (.cleanup true)
  else
    match s.freeSlot with
    | some i =>
      ((s.setEntry p i (some p)).release p o).setPc p
        (if o = .unlockFailed then .cleanup true else .running i)
    | none => (s.release p o).setPc p (.cleanup true)

/-- `_deregister_client`: a lock that fails leaves the entry as it is, and the destructor
goes on in every case. -/
def deregister (p : ℕ) (i : ClientSlot) (o : Locking) : State :=
  if o = .lockFailed then s.setPc p (.scan allClients)
  else ((s.setEntry p i none).release p o).setPc p (.scan allClients)

def segmentExists : Bool := !s.segmentRemoved || decide (0 < s.attached)

def removed (p : ℕ) (ok : Bool) : List Removal :=
  if ok then ⟨p, s.registry⟩ :: s.removals else s.removals

variable {s}

theorem freeSlot_isFree {i : ClientSlot} (h : s.freeSlot = some i) : s.registry i = none := by
  have hfree : (s.registry i).isNone = true :=
    List.find?_some (p := fun j => (s.registry j).isNone) h
  exact Option.isNone_iff_eq_none.mp hfree

end State

inductive Action
  | construct (p : ℕ)
  | attach (p : ℕ) (ok : Bool)
  | register (p : ℕ) (o : Locking)
  | destroy (p : ℕ)
  | deregister (p : ℕ) (o : Locking)
  | scan (p : ℕ)
  | detach (p : ℕ)
  | removeSegment (p : ℕ) (ok : Bool)
  | removeSemaphores (p : ℕ) (ok : Bool)
  /-- The process ends: the kernel undoes its operations on `REGISTRY_SEM`. -/
  | exit (p : ℕ)

namespace State

def step (s : State) : Action → Option State
  | .construct p =>
    match s.pc p with
    | .outside => some (s.setPc p .attach)
    | _ => none
  | .attach p ok =>
    match s.pc p with
    | .attach =>
      if ok then
        if s.segmentExists then
          some ({ s with attached := s.attached + 1 }.setPc p .register)
        else none
      else some (s.setPc p (.cleanup false))
    | _ => none
  | .register p o =>
    match s.pc p with
    | .register => if s.mayEnter o then some (s.register p o) else none
    | _ => none
  | .destroy p =>
    match s.pc p with
    | .running i => some (s.setPc p (.deregister i))
    | _ => none
  | .deregister p o =>
    match s.pc p with
    | .deregister i => if s.mayEnter o then some (s.deregister p i o) else none
    | _ => none
  | .scan p =>
    match s.pc p with
    | .scan (i :: todo) =>
      some (s.setPc p (if (s.registry i).isSome then .detach false else .scan todo))
    | .scan [] => some (s.setPc p (.detach true))
    | _ => none
  | .detach p =>
    match s.pc p with
    | .detach isLastClient =>
      some ({ s with attached := s.attached - 1 }.setPc p
        (if isLastClient then .removeSegment false else .gone))
    | .cleanup true =>
      some ({ s with attached := s.attached - 1 }.setPc p (.removeSegment true))
    | .cleanup false => some (s.setPc p (.removeSegment true))
    | _ => none
  | .removeSegment p ok =>
    match s.pc p with
    | .removeSegment throws =>
      if ok && !s.segmentExists then none
      else
        some ({ s with
          segmentRemoved := s.segmentRemoved || ok
          removals := s.removed p ok }.setPc p (.removeSemaphores throws))
    | _ => none
  | .removeSemaphores p ok =>
    match s.pc p with
    | .removeSemaphores throws =>
      if ok && s.semaphoresRemoved then none
      else
        some ({ s with
          semaphoresRemoved := s.semaphoresRemoved || ok
          removals := s.removed p ok }.setPc p (if throws then .thrown else .gone))
    | _ => none
  | .exit p =>
    match s.pc p with
    | .gone | .thrown => some { s with holder := if s.holder = some p then none else s.holder }
    | _ => none

end State

def engines : Machine State Action where
  init s := s = initial
  step := State.step

/-- The objects are removed only when no other client is active, no process writes an
entry of another client, and a construction that throws leaves neither an entry nor
the lock behind. -/
structure OutlivesUsers (s : State) : Prop where
  removals : ∀ r ∈ s.removals, ∀ i q, r.registry i = some q → q = r.process
  writes : ∀ w ∈ s.writes, ∀ q, w.previous = some q → q = w.process
  thrown : ∀ p, s.pc p = .thrown → (∀ i, s.registry i ≠ some p) ∧ s.holder ≠ some p

/-- Entry `i` has been read as free by a scan that may still end in a removal, or the
removal is decided. -/
def Pc.Passed (i : ClientSlot) : Pc → Prop
  | .scan todo => i ∉ todo
  | .detach isLastClient => isLastClient = true
  | .cleanup _ | .removeSegment _ | .removeSemaphores _ => True
  | _ => False

instance (i : ClientSlot) : DecidablePred (Pc.Passed i)
  | .scan todo => inferInstanceAs (Decidable (i ∉ todo))
  | .detach isLastClient => inferInstanceAs (Decidable (isLastClient = true))
  | .cleanup _ | .removeSegment _ | .removeSemaphores _ => isTrue trivial
  | .outside | .attach | .register | .running _ | .deregister _ | .gone | .thrown => isFalse id

def Pc.Owns (i : ClientSlot) : Pc → Prop
  | .running j | .deregister j => j = i
  | _ => False

def Pc.Constructed : Pc → Prop
  | .running _ | .deregister _ | .scan _ | .detach _ | .gone => True
  | .removeSegment throws | .removeSemaphores throws => throws = false
  | _ => False

/-- A construction fails only while no client is active, and never after its entry is
set; and no client registers in an entry that another process has passed. -/
def Orderly (s : State) : Action → State → Prop
  | .attach _ false, _ => ∀ i, s.registry i = none
  | .register _ .lockFailed, _ => ∀ i, s.registry i = none
  | .register _ .done, _ => ∃ i, s.freeSlot = some i ∧ ∀ q, ¬ (s.pc q).Passed i
  | .register _ .unlockFailed, _ => False
  | _, _ => True

/-- What a scan has passed is free, and only constructed engines appear in the shared
state. -/
structure Inv (s : State) : Prop where
  passed : ∀ q i, (s.pc q).Passed i → s.registry i = none
  owned : ∀ p i, (s.pc p).Owns i → s.registry i = some p
  registered : ∀ p i, s.registry i = some p → (s.pc p).Constructed
  holding : ∀ p, s.holder = some p → (s.pc p).Constructed
  removals : ∀ r ∈ s.removals, ∀ i q, r.registry i = some q → q = r.process
  writes : ∀ w ∈ s.writes, ∀ q, w.previous = some q → q = w.process

namespace Inv
variable {s s' : State} {a : Action} {p : ℕ} {pc : Pc}

theorem start : Inv initial := by
  constructor
  · intro q i _
    rfl
  · intro p i howns
    exact howns.elim
  · intro p i hentry
    cases hentry
  · intro p hholder
    cases hholder
  · intro r hr
    cases hr
  · intro w hw
    cases hw

theorem outlives (h : Inv s) : OutlivesUsers s := by
  refine ⟨h.removals, h.writes, ?_⟩
  intro p hpc
  constructor
  · intro i hentry
    have hconstructed := h.registered p i hentry
    rw [hpc] at hconstructed
    exact hconstructed
  · intro hholder
    have hconstructed := h.holding p hholder
    rw [hpc] at hconstructed
    exact hconstructed

/-- Nothing is said of the attachments and of the objects themselves. -/
theorem setObjects (h : Inv s) (attached : ℕ) (segmentRemoved semaphoresRemoved : Bool) :
    Inv { s with
      attached := attached
      segmentRemoved := segmentRemoved
      semaphoresRemoved := semaphoresRemoved } :=
  ⟨h.passed, h.owned, h.registered, h.holding, h.removals, h.writes⟩

/-- A process moves on; the shared state stays. -/
theorem move (h : Inv s) (hpassed : ∀ i, pc.Passed i → s.registry i = none)
    (howned : ∀ i, pc.Owns i → s.registry i = some p)
    (hconstructed : (s.pc p).Constructed → pc.Constructed) : Inv (s.setPc p pc) := by
  have hpc : ∀ q, (s.setPc p pc).pc q = if q = p then pc else s.pc q := fun q =>
    Function.update_apply s.pc p pc q
  have hkept : ∀ q, (s.pc q).Constructed → ((s.setPc p pc).pc q).Constructed := by
    intro q hq
    rw [hpc]
    split_ifs with heq
    · subst heq
      exact hconstructed hq
    · exact hq
  constructor
  · intro q i hq
    rw [hpc] at hq
    split_ifs at hq with heq
    · exact hpassed i hq
    · exact h.passed q i hq
  · intro q i hq
    rw [hpc] at hq
    split_ifs at hq with heq
    · subst heq
      exact howned i hq
    · exact h.owned q i hq
  · exact fun q i hentry => hkept q (h.registered q i hentry)
  · exact fun q hholder => hkept q (h.holding q hholder)
  · exact h.removals
  · exact h.writes

/-- A process moves on, with nothing more passed or owned than before. -/
theorem advance (h : Inv s) {pc' : Pc} (hpc : s.pc p = pc)
    (hpassed : ∀ i, pc'.Passed i → pc.Passed i) (howns : ∀ i, pc'.Owns i → pc.Owns i)
    (hconstructed : pc.Constructed → pc'.Constructed) : Inv (s.setPc p pc') := by
  subst hpc
  apply h.move
  · exact fun i hi => h.passed p i (hpassed i hi)
  · exact fun i hi => h.owned p i (howns i hi)
  · exact hconstructed

/-- A process heads for the removal while no client is active. -/
theorem clean (h : Inv s) (hnone : ∀ i, s.registry i = none) (hpc : ¬ (s.pc p).Constructed)
    (attached : Bool) : Inv (s.setPc p (.cleanup attached)) := by
  apply h.move
  · exact fun i _ => hnone i
  · exact fun i hi => hi.elim
  · exact fun hconstructed => absurd hconstructed hpc

/-- The lock is kept by a process whose engine is constructed, or by none. -/
theorem setHolder (h : Inv s) {holder : Option ℕ}
    (hholder : ∀ q, holder = some q → (s.pc q).Constructed) : Inv { s with holder := holder } :=
  ⟨h.passed, h.owned, h.registered, hholder, h.removals, h.writes⟩

/-- `IPC_RMID` by a process that has passed every entry. -/
theorem remove (h : Inv s) (hpassed : ∀ i, (s.pc p).Passed i) (ok : Bool) :
    Inv { s with removals := s.removed p ok } := by
  refine ⟨h.passed, h.owned, h.registered, h.holding, ?_, h.writes⟩
  intro r hr
  cases ok with
  | false => exact h.removals r hr
  | true =>
      rcases List.mem_cons.mp hr with rfl | hr
      · intro i q hentry
        cases (h.passed p i (hpassed i)).symm.trans hentry
      · exact h.removals r hr

/-- A client registers in an entry that no process has passed. -/
theorem enter (h : Inv s) {i : ClientSlot} (hfree : s.registry i = none)
    (hpassed : ∀ q, ¬ (s.pc q).Passed i) :
    Inv ((s.setEntry p i (some p)).setPc p (.running i)) := by
  have hpc : ∀ q, ((s.setEntry p i (some p)).setPc p (.running i)).pc q =
      if q = p then .running i else s.pc q := fun q =>
    Function.update_apply s.pc p (.running i) q
  have hother : ∀ j, j ≠ i → Function.update s.registry i (some p) j = s.registry j := fun j hj =>
    Function.update_of_ne hj _ _
  have howned : ∀ q j, s.registry j = some q →
      Function.update s.registry i (some p) j = some q := by
    intro q j hj
    rw [hother j, hj]
    rintro rfl
    cases hfree.symm.trans hj
  constructor
  · intro q j hq
    rw [hpc] at hq
    split_ifs at hq with heq
    · exact hq.elim
    · refine (hother j ?_).trans (h.passed q j hq)
      rintro rfl
      exact hpassed q hq
  · intro q j hq
    rw [hpc] at hq
    split_ifs at hq with heq
    · have hj : i = j := hq
      subst heq hj
      exact Function.update_self i _ _
    · exact howned q j (h.owned q j hq)
  · intro q j hentry
    rw [hpc]
    split_ifs with heq
    · trivial
    · apply h.registered q j
      by_cases hj : j = i
      · subst hj
        have hself : Function.update s.registry j (some p) j = some p := Function.update_self j _ _
        have hown : some p = some q := hself.symm.trans hentry
        exact absurd (Option.some.inj hown).symm heq
      · exact (hother j hj).symm.trans hentry
  · intro q hholder
    rw [hpc]
    split_ifs with heq
    · trivial
    · exact h.holding q hholder
  · exact h.removals
  · intro w hw q hq
    rcases List.mem_cons.mp hw with rfl | hw
    · cases hfree.symm.trans hq
    · exact h.writes w hw q hq

/-- A client that is about to scan clears its own entry. -/
theorem clear (h : Inv s) {i : ClientSlot} (hentry : s.registry i = some p)
    (hpc : ∀ j, ¬ (s.pc p).Owns j) : Inv (s.setEntry p i none) := by
  have hother : ∀ j, j ≠ i → Function.update s.registry i none j = s.registry j := fun j hj =>
    Function.update_of_ne hj _ _
  have hself : Function.update s.registry i none i = none := Function.update_self i _ _
  have howned : ∀ q j, q ≠ p → s.registry j = some q →
      Function.update s.registry i none j = some q := by
    intro q j hq hj
    rw [hother j, hj]
    rintro rfl
    cases hentry.symm.trans hj
    exact hq rfl
  constructor
  · intro q j hq
    by_cases hj : j = i
    · exact hj ▸ hself
    · exact (hother j hj).trans (h.passed q j hq)
  · intro q j hq
    apply howned q j _ (h.owned q j hq)
    rintro rfl
    exact hpc j hq
  · intro q j hq
    by_cases hj : j = i
    · subst hj
      cases hself.symm.trans hq
    · exact h.registered q j ((hother j hj).symm.trans hq)
  · exact h.holding
  · exact h.removals
  · intro w hw q hq
    rcases List.mem_cons.mp hw with rfl | hw
    · exact Option.some.inj (hq.symm.trans hentry)
    · exact h.writes w hw q hq

theorem register (h : Inv s) {o : Locking} (hpc : s.pc p = .register)
    (hok : Orderly s (.register p o) (s.register p o)) : Inv (s.register p o) := by
  have hnot : ¬ (s.pc p).Constructed := by
    rw [hpc]
    exact id
  cases o with
  | lockFailed => exact h.clean hok hnot true
  | unlockFailed => exact hok.elim
  | done =>
      obtain ⟨i, hslot, hpassed⟩ := hok
      have hfree : s.registry i = none := State.freeSlot_isFree hslot
      have heq : s.register p .done = (s.setEntry p i (some p)).setPc p (.running i) := by
        simp only [State.register, hslot]
        rfl
      rw [heq]
      exact h.enter hfree hpassed

theorem deregister (h : Inv s) {o : Locking} {i : ClientSlot} (hpc : s.pc p = .deregister i) :
    Inv (s.deregister p i o) := by
  have hscan : Inv (s.setPc p (.scan allClients)) := by
    apply h.advance hpc
    · exact fun j hj => hj (List.mem_finRange j)
    · exact fun j => False.elim
    · exact id
  have hself : (s.setPc p (.scan allClients)).pc p = .scan allClients := Function.update_self p _ _
  unfold State.deregister
  split_ifs
  · exact hscan
  · have howns : (s.pc p).Owns i := hpc ▸ rfl
    have hclear : Inv ((s.setPc p (.scan allClients)).setEntry p i none) := by
      apply hscan.clear (h.owned p i howns)
      rw [hself]
      exact fun j => id
    apply hclear.setHolder
    intro q hq
    unfold State.release at hq
    dsimp only at hq
    split_ifs at hq
    · cases hq
      change ((s.setPc p (.scan allClients)).pc p).Constructed
      rw [hself]
      trivial
    · exact hclear.holding q hq

/-- The scan reads one more entry: it is free as well, or the process is not the last client. -/
theorem scan (h : Inv s) {i : ClientSlot} {todo : List ClientSlot}
    (hpc : s.pc p = .scan (i :: todo)) :
    Inv (s.setPc p (if (s.registry i).isSome then .detach false else .scan todo)) := by
  split_ifs with hactive
  · exact h.advance hpc (fun j => nofun) (fun j => id) id
  · apply h.move
    · intro j hj
      by_cases heq : j = i
      · subst heq
        exact Option.not_isSome_iff_eq_none.mp hactive
      · apply h.passed p j
        rw [hpc]
        exact fun hmem => (List.mem_cons.mp hmem).elim heq hj
    · exact fun j => False.elim
    · exact fun _ => trivial

/-- A call of `IPC_RMID` by a process that has passed every entry. -/
theorem removal (h : Inv s) {pc' : Pc} {ok segmentRemoved semaphoresRemoved : Bool}
    (hpc : s.pc p = pc) (hpassed : ∀ i, pc.Passed i) (howns : ∀ i, ¬ pc'.Owns i)
    (hconstructed : pc.Constructed → pc'.Constructed) :
    Inv ({ s with
      segmentRemoved := segmentRemoved
      semaphoresRemoved := semaphoresRemoved
      removals := s.removed p ok }.setPc p pc') := by
  have hremoved := h.remove (p := p) (by rw [hpc]; exact hpassed) ok
  apply (hremoved.setObjects s.attached segmentRemoved semaphoresRemoved).advance hpc
  · exact fun i _ => hpassed i
  · exact fun i hi => absurd hi (howns i)
  · exact hconstructed

theorem step (h : Inv s) (hs : engines.step s a = some s') (hok : Orderly s a s') : Inv s' := by
  cases a with
  | construct p =>
      simp only [engines, State.step] at hs
      split at hs <;> cases hs
      rename_i hpc
      exact h.advance hpc (fun i => id) (fun i => id) id
  | attach p ok =>
      simp only [engines, State.step] at hs
      split at hs
      · rename_i hpc
        split_ifs at hs with hattached hexists
        · cases hs
          have hcounted := h.setObjects (s.attached + 1) s.segmentRemoved s.semaphoresRemoved
          exact hcounted.advance hpc (fun i => id) (fun i => id) id
        · cases hs
          obtain rfl : ok = false := eq_false_of_ne_true hattached
          exact h.clean hok (hpc ▸ id) false
      · cases hs
  | register p o =>
      simp only [engines, State.step] at hs
      split at hs
      · split_ifs at hs
        cases hs
        rename_i hpc _
        exact h.register hpc hok
      · cases hs
  | destroy p =>
      simp only [engines, State.step] at hs
      split at hs <;> cases hs
      rename_i i hpc
      exact h.advance hpc (fun j => id) (fun j => id) id
  | deregister p o =>
      simp only [engines, State.step] at hs
      split at hs
      · split_ifs at hs
        cases hs
        rename_i hpc _
        exact h.deregister hpc
      · cases hs
  | scan p =>
      simp only [engines, State.step] at hs
      split at hs <;> cases hs
      · rename_i i todo hpc
        exact h.scan hpc
      · rename_i hpc
        exact h.advance hpc (fun j _ => List.not_mem_nil) (fun j => id) id
  | detach p =>
      have hcounted := h.setObjects (s.attached - 1) s.segmentRemoved s.semaphoresRemoved
      simp only [engines, State.step] at hs
      split at hs <;> cases hs
      · rename_i isLastClient hpc
        cases isLastClient with
        | true => exact hcounted.advance hpc (fun j _ => rfl) (fun j => id) fun _ => rfl
        | false => exact hcounted.advance hpc (fun j => False.elim) (fun j => id) id
      · rename_i hpc
        exact hcounted.advance hpc (fun j => id) (fun j => id) False.elim
      · rename_i hpc
        exact h.advance hpc (fun j => id) (fun j => id) False.elim
  | removeSegment p ok =>
      simp only [engines, State.step] at hs
      split at hs
      · rename_i throws hpc
        split_ifs at hs
        cases hs
        exact h.removal hpc (fun _ => trivial) (fun j => id) id
      · cases hs
  | removeSemaphores p ok =>
      simp only [engines, State.step] at hs
      split at hs
      · rename_i throws hpc
        split at hs <;> cases hs
        cases throws with
        | true => exact h.removal hpc (fun _ => trivial) (fun j => id) nofun
        | false => exact h.removal hpc (fun _ => trivial) (fun j => id) fun _ => trivial
      · cases hs
  | exit p =>
      have hreleased : Inv { s with holder := if s.holder = some p then none else s.holder } := by
        apply h.setHolder
        intro q hq
        split_ifs at hq
        exact h.holding q hq
      simp only [engines, State.step] at hs
      split at hs <;> cases hs
      · exact hreleased
      · exact hreleased

end Inv

variable {s : State}

/-- The segment and the semaphores are removed, and constructions fail, without harm to
an active client as long as no construction fails while there is one, and no client
registers behind a scan that ends in a removal. -/
theorem outlivesUsers (hs : engines.Reaches Orderly s) : OutlivesUsers s := by
  have h : Inv s := by
    apply hs.invariant
    · rintro s rfl
      exact Inv.start
    · exact fun _ _ _ _ hinv hstep hok => hinv.step hstep hok
  exact h.outlives

def Action.process : Action → ℕ
  | .construct p | .attach p _ | .register p _ | .destroy p | .deregister p _ | .scan p
  | .detach p | .removeSegment p _ | .removeSemaphores p _ | .exit p => p

def orderly (s : State) (a : Action) (_ : State) : Bool :=
  decide (a.process < 2) &&
    match a with
    | .attach _ ok => ok
    | .register _ o => decide (o = .done) &&
      s.freeSlot.any fun i => (List.range 2).all fun q => decide ¬ (s.pc q).Passed i
    | _ => true

theorem pc_setPc (s : State) {p q : ℕ} (pc : Pc) (hq : q ≠ p) : (s.setPc p pc).pc q = s.pc q :=
  Function.update_of_ne hq _ _

theorem pc_register (s : State) {p q : ℕ} (o : Locking) (hq : q ≠ p) :
    (s.register p o).pc q = s.pc q := by
  unfold State.register
  by_cases ho : o = .lockFailed
  · rw [if_pos ho]
    exact pc_setPc s _ hq
  · rw [if_neg ho]
    split <;> exact pc_setPc _ _ hq

theorem pc_deregister (s : State) {p q : ℕ} {i : ClientSlot} (o : Locking) (hq : q ≠ p) :
    (s.deregister p i o).pc q = s.pc q := by
  unfold State.deregister
  split_ifs
  · exact pc_setPc s _ hq
  · exact pc_setPc _ _ hq

/-- A step of one process leaves the others where they are. -/
theorem pc_step {s s' : State} {a : Action} (hs : engines.step s a = some s') {q : ℕ}
    (hq : q ≠ a.process) : s'.pc q = s.pc q := by
  cases a with
  | exit p =>
      simp only [engines, State.step] at hs
      split at hs <;> cases hs <;> rfl
  | _ =>
      simp only [engines, State.step] at hs
      split at hs <;> grind [pc_setPc, pc_register, pc_deregister, Action.process]

theorem orderly_sound {s s' : State} {a : Action} (hout : ∀ q, 2 ≤ q → s.pc q = .outside)
    (hs : engines.step s a = some s') (htest : orderly s a s' = true) :
    Orderly s a s' ∧ ∀ q, 2 ≤ q → s'.pc q = .outside := by
  obtain ⟨hprocess, htest⟩ := Bool.and_eq_true_iff.mp htest
  have hlt : a.process < 2 := of_decide_eq_true hprocess
  constructor
  · cases a with
    | attach p ok =>
        obtain rfl : ok = true := htest
        trivial
    | register p o =>
        obtain ⟨ho, hslot⟩ := Bool.and_eq_true_iff.mp htest
        obtain rfl := of_decide_eq_true ho
        obtain ⟨i, hi, hall⟩ := (Option.any_eq_true _ _).mp hslot
        refine ⟨i, hi, fun q => ?_⟩
        by_cases hq : q < 2
        · exact of_decide_eq_true (List.all_eq_true.mp hall q (List.mem_range.mpr hq))
        · rw [hout q (Nat.not_lt.mp hq)]
          exact id
    | construct p => trivial
    | destroy p => trivial
    | deregister p o => trivial
    | scan p => trivial
    | detach p => trivial
    | removeSegment p ok => trivial
    | removeSemaphores p ok => trivial
    | exit p => trivial
  · intro q hq
    rw [pc_step hs (by omega)]
    exact hout q hq

def enterActions (p : ℕ) : List Action :=
  [.construct p, .attach p true, .register p .done]

def leaveActions (p scanned : ℕ) : List Action :=
  .destroy p :: .deregister p .done :: (List.replicate scanned (.scan p)).concat (.detach p)

def removeActions (p : ℕ) : List Action :=
  [.removeSegment p true, .removeSemaphores p true]

def lastClientRun : List Action :=
  enterActions 0 ++ enterActions 1 ++ leaveActions 1 1 ++ leaveActions 0 17 ++ removeActions 0

theorem outlivesUsers_of_lastClientRun :
    ∃ s, engines.execIf orderly initial lastClientRun = some s ∧ s.removals.length = 2 ∧
      s.segmentExists = false ∧ OutlivesUsers s := by
  have hrun : (engines.execIf orderly initial lastClientRun).any (fun s =>
      s.removals.length = 2 ∧ s.segmentExists = false) = true := by decide +kernel
  obtain ⟨s, hs, hgoal⟩ := (Option.any_eq_true _ _).mp hrun
  obtain ⟨hremovals, hsegment⟩ := of_decide_eq_true hgoal
  have hreach : engines.Reaches Orderly s :=
    (Machine.Reaches.init rfl).execIf_of (P := fun s => ∀ q, 2 ≤ q → s.pc q = .outside)
      (fun _ _ _ => orderly_sound) (fun _ _ => rfl) hs
  exact ⟨s, hs, hremovals, hsegment, outlivesUsers hreach⟩

def seventeenClients : List Action :=
  (List.range 17).flatMap enterActions ++ .detach 16 :: removeActions 16

theorem not_outlivesUsers_seventeenClients :
    ¬ ∀ s, engines.Reachable s → OutlivesUsers s := by
  intro h
  obtain ⟨s, -, hs, hgoal⟩ := Machine.Reachable.exec_any (M := engines) (.init rfl)
    seventeenClients
    (fun s => s.removals.any fun r => allClients.any fun i =>
      (r.registry i).any fun q => decide (q ≠ r.process)) (by decide +kernel)
  obtain ⟨r, hr, hany⟩ := List.any_eq_true.mp hgoal
  obtain ⟨i, -, hany⟩ := List.any_eq_true.mp hany
  obtain ⟨q, hentry, hne⟩ := (Option.any_eq_true _ _).mp hany
  exact of_decide_eq_true hne ((h s hs).removals r hr i q hentry)

end CommunicationAPI.ShmLifetime
