import CommunicationAPI.ShmEngine

/-!
# Creating the shared memory

`ShmEngine::bootstrapIPC`, for any pattern of success and failure of its system
calls. Detaching and removing what the call itself has created does not fail.
-/

namespace CommunicationAPI.ShmBootstrap
open CommunicationAPI.ShmEngine

structure System where
  segment : ℕ → Option SharedBlock
  semaphores : ℕ → Option (ℕ → ℕ)
  sharedId : Option ℕ
  semId : Option ℕ

/-- What the system calls answer: an identifier or success, or a failure. -/
structure Calls where
  shmget : Option ℕ
  shmat : Bool
  semget : Option ℕ
  /-- `semctl` with `SETVAL`, for each semaphore. -/
  setVal : ℕ → Bool
  /-- The values in a new set. -/
  newValues : ℕ → ℕ

def registrySem : ℕ := 0

def claimSem : ℕ := 1

def directorySem : ℕ := 2

def writerWaitSem : ℕ := 3

def controlSems : ℕ := 4

def zeroBlock : SharedBlock where
  claimSequenceId := 0
  publishSequenceId := 0
  clientRegistry := fun _ => ⟨false, 0, 0⟩
  buffer := fun _ => ⟨0, ⟨⟨localAddr, localAddr, 0⟩, fun _ => 0, 0⟩⟩
  writerIsBlocked := false

def initializeBlock (b : SharedBlock) : SharedBlock :=
  { b with
    claimSequenceId := 1
    publishSequenceId := 0
    writerIsBlocked := false
    clientRegistry := fun i =>
      { b.clientRegistry i with isActive := false, lastReadSequenceId := 0 } }

/-- Calls of `semctl` up to the first that fails: the values after them, and whether none
has failed. -/
def setVals (setVal : ℕ → Bool) : List (ℕ × ℕ) → (ℕ → ℕ) → (ℕ → ℕ) × Bool
  | [], values => (values, true)
  | (sem, val) :: todo, values =>
    if setVal sem then setVals setVal todo (Function.update values sem val) else (values, false)

def controlValues : List (ℕ × ℕ) :=
  [(registrySem, 1), (claimSem, 1), (directorySem, 1), (writerWaitSem, 0)]

def clientValues : List (ℕ × ℕ) := (List.range maxClients).map fun i => (controlSems + i, 0)

/-- The variables of `bootstrapIPC` at the end of its block, and the system by then. -/
structure Locals where
  sharedId : Option ℕ
  semId : Option ℕ
  success : Bool
  system : System

/-- The block that `break` leaves. -/
def tryBootstrap (calls : Calls) (s : System) : Locals :=
  match calls.shmget with
  | none => ⟨none, none, false, s⟩
  | some sharedId =>
    if calls.shmat then
      let s := { s with
        segment := Function.update s.segment sharedId (some (initializeBlock zeroBlock)) }
      match calls.semget with
      | none => ⟨some sharedId, none, false, s⟩
      | some semId =>
        let controls := setVals calls.setVal controlValues calls.newValues
        if controls.2 then
          -- the `break` after a failure leaves the inner loop only
          let clients := setVals calls.setVal clientValues controls.1
          ⟨some sharedId, some semId, true,
            { s with semaphores := Function.update s.semaphores semId (some clients.1) }⟩
        else
          ⟨some sharedId, some semId, false,
            { s with semaphores := Function.update s.semaphores semId (some controls.1) }⟩
    else
      ⟨some sharedId, none, false,
        { s with segment := Function.update s.segment sharedId (some zeroBlock) }⟩

def cleanup (l : Locals) : System where
  segment := l.sharedId.elim l.system.segment fun id => Function.update l.system.segment id none
  semaphores := l.semId.elim l.system.semaphores fun id =>
    Function.update l.system.semaphores id none
  sharedId := l.system.sharedId
  semId := l.system.semId

def conclude (l : Locals) : System × Bool :=
  if l.success then ({ l.system with sharedId := l.sharedId, semId := l.semId }, true)
  else (cleanup l, false)

def bootstrapIpc (calls : Calls) (s : System) : System × Bool := conclude (tryBootstrap calls s)

namespace Calls
variable (calls : Calls)

/-- New objects have identifiers that no other has. -/
structure Fresh (s : System) : Prop where
  segment : ∀ id, calls.shmget = some id → s.segment id = none
  semaphores : ∀ id, calls.semget = some id → s.semaphores id = none

/-- All calls before those for the clients' semaphores succeed. -/
structure ReachClients : Prop where
  shmget : calls.shmget.isSome
  shmat : calls.shmat = true
  semget : calls.semget.isSome
  controls : ∀ sem < controlSems, calls.setVal sem = true

def SetClients : Prop := ∀ i < maxClients, calls.setVal (controlSems + i) = true

end Calls

structure Exported (calls : Calls) (s : System) : Prop where
  sharedId : s.sharedId = calls.shmget
  semId : s.semId = calls.semget
  block : ∀ id, calls.shmget = some id → s.segment id = some initial.block
  semaphores : ∀ id, calls.semget = some id → ∃ values, s.semaphores id = some values ∧
    values registrySem = 1 ∧ values claimSem = 1 ∧ values directorySem = 1 ∧
    values writerWaitSem = 0 ∧ ∀ i < maxClients, values (controlSems + i) = 0

/-- Either every call succeeds and the result is exported, or the system is as before. -/
structure AllOrNothing (calls : Calls) (before : System) (result : System × Bool) : Prop where
  all : calls.ReachClients ∧ calls.SetClients → result.2 = true ∧ Exported calls result.1
  nothing : ¬ (calls.ReachClients ∧ calls.SetClients) → result.2 = false ∧ result.1 = before

section
variable {setVal : ℕ → Bool} {todo : List (ℕ × ℕ)} {values : ℕ → ℕ} {sem : ℕ}

theorem setVals_ok : (setVals setVal todo values).2 = true ↔
    ∀ x ∈ todo, setVal x.1 = true := by
  induction todo generalizing values with
  | nil => simp [setVals]
  | cons x todo ih =>
      unfold setVals
      split_ifs with h
      · rw [ih, List.forall_mem_cons]
        exact ⟨fun htodo => ⟨h, htodo⟩, And.right⟩
      · simp [h]

/-- A semaphore that no call names keeps its value. -/
theorem setVals_of_notMem (h : ∀ x ∈ todo, x.1 ≠ sem) :
    (setVals setVal todo values).1 sem = values sem := by
  induction todo generalizing values with
  | nil => rfl
  | cons x todo ih =>
      obtain ⟨hhead, htail⟩ := List.forall_mem_cons.mp h
      unfold setVals
      split_ifs
      · rw [ih htail, Function.update_of_ne hhead.symm]
      · rfl

/-- Calls that all set the same value. -/
theorem setVals_const {v : ℕ} (hval : ∀ x ∈ todo, x.2 = v) (hok : ∀ x ∈ todo, setVal x.1 = true)
    (hmem : values sem = v ∨ ∃ x ∈ todo, x.1 = sem) :
    (setVals setVal todo values).1 sem = v := by
  induction todo generalizing values with
  | nil => simpa [setVals] using hmem
  | cons x todo ih =>
      obtain ⟨hv, hval⟩ := List.forall_mem_cons.mp hval
      obtain ⟨hhead, hok⟩ := List.forall_mem_cons.mp hok
      unfold setVals
      rw [if_pos hhead]
      apply ih hval hok
      by_cases hx : sem = x.1
      · left
        rw [hx, Function.update_self, hv]
      · rcases hmem with hold | ⟨y, hy, hsem⟩
        · left
          rw [Function.update_of_ne hx, hold]
        · rcases List.mem_cons.mp hy with rfl | hy
          · exact absurd hsem.symm hx
          · exact .inr ⟨y, hy, hsem⟩

end

theorem forall_mem_clientValues {P : ℕ → Prop} :
    (∀ x ∈ clientValues, P x.1) ↔ ∀ i < maxClients, P (controlSems + i) := by
  unfold clientValues
  rw [List.forall_mem_map]
  simp only [List.mem_range]

theorem forall_mem_controlValues {P : ℕ → Prop} :
    (∀ x ∈ controlValues, P x.1) ↔ ∀ sem < controlSems, P sem := by
  have hsems : controlValues.map Prod.fst = List.range controlSems := rfl
  rw [← List.forall_mem_map (f := Prod.fst) (P := P), hsems]
  simp only [List.mem_range]

/-- The semaphores after all calls have succeeded. -/
theorem setVals_all {calls : Calls} (hcontrols : ∀ sem < controlSems, calls.setVal sem = true)
    (hclients : calls.SetClients) :
    let values := (setVals calls.setVal clientValues
      (setVals calls.setVal controlValues calls.newValues).1).1
    values registrySem = 1 ∧ values claimSem = 1 ∧ values directorySem = 1 ∧
      values writerWaitSem = 0 ∧ ∀ i < maxClients, values (controlSems + i) = 0 := by
  have hkeep : ∀ sem < controlSems, ∀ values, (setVals calls.setVal clientValues values).1 sem =
      values sem := by
    intro sem hsem values
    apply setVals_of_notMem
    rw [forall_mem_clientValues (P := fun n => n ≠ sem)]
    intro i _
    omega
  have h0 : calls.setVal registrySem = true := hcontrols _ (by decide)
  have h1 : calls.setVal claimSem = true := hcontrols _ (by decide)
  have h2 : calls.setVal directorySem = true := hcontrols _ (by decide)
  have h3 : calls.setVal writerWaitSem = true := hcontrols _ (by decide)
  have hcontrol : (setVals calls.setVal controlValues calls.newValues).1 =
      Function.update (Function.update (Function.update (Function.update calls.newValues
        registrySem 1) claimSem 1) directorySem 1) writerWaitSem 0 := by
    unfold controlValues
    simp only [setVals, h0, h1, h2, h3, if_true]
  rw [hcontrol]
  refine ⟨?_, ?_, ?_, ?_, ?_⟩
  · exact hkeep _ (by decide) _
  · exact hkeep _ (by decide) _
  · exact hkeep _ (by decide) _
  · exact hkeep _ (by decide) _
  · intro i hi
    apply setVals_const
    · intro x hx
      obtain ⟨j, -, rfl⟩ := List.mem_map.mp hx
      rfl
    · exact (forall_mem_clientValues (P := fun sem => calls.setVal sem = true)).mpr hclients
    · exact .inr ⟨_, List.mem_map.mpr ⟨i, List.mem_range.mpr hi, rfl⟩, rfl⟩

section
variable {calls : Calls} {before : System}

theorem controls_ok : (setVals calls.setVal controlValues calls.newValues).2 = true ↔
    ∀ sem < controlSems, calls.setVal sem = true := by
  rw [setVals_ok, forall_mem_controlValues (P := fun sem => calls.setVal sem = true)]

/-- Removing a new object leaves those that were there. -/
theorem update_none {α : Type} {f : ℕ → Option α} {id : ℕ} (x : α) (h : f id = none) :
    Function.update (Function.update f id (some x)) id none = f := by
  rw [Function.update_idem, ← h, Function.update_eq_self]

/-- Calls that fail before the clients' semaphores are undone. -/
theorem bootstrapIpc_early (hfresh : calls.Fresh before) (h : ¬ calls.ReachClients) :
    bootstrapIpc calls before = (before, false) := by
  unfold bootstrapIpc tryBootstrap
  cases hshmget : calls.shmget with
  | none => rfl
  | some sharedId =>
      have hsegment := hfresh.segment _ hshmget
      by_cases hshmat : calls.shmat = true
      · dsimp only
        rw [if_pos hshmat]
        cases hsemget : calls.semget with
        | none =>
            dsimp only [conclude, cleanup, Option.elim]
            rw [update_none _ hsegment]
            rfl
        | some semId =>
            have hset := hfresh.semaphores _ hsemget
            have hcontrols : ¬ (setVals calls.setVal controlValues calls.newValues).2 = true := by
              rw [controls_ok]
              exact fun hok => h ⟨by rw [hshmget]; rfl, hshmat, by rw [hsemget]; rfl, hok⟩
            dsimp only
            rw [if_neg hcontrols]
            dsimp only [conclude, cleanup, Option.elim]
            rw [update_none _ hsegment, update_none _ hset]
            rfl
      · dsimp only
        rw [if_neg hshmat]
        dsimp only [conclude, cleanup, Option.elim]
        rw [update_none _ hsegment]
        rfl

/-- Once the clients' semaphores are reached the call succeeds. -/
theorem bootstrapIpc_late (h : calls.ReachClients) :
    (bootstrapIpc calls before).2 = true ∧
      (calls.SetClients → Exported calls (bootstrapIpc calls before).1) := by
  obtain ⟨sharedId, hshmget⟩ := Option.isSome_iff_exists.mp h.shmget
  obtain ⟨semId, hsemget⟩ := Option.isSome_iff_exists.mp h.semget
  have hcontrols := controls_ok.mpr h.controls
  unfold bootstrapIpc tryBootstrap conclude
  simp only [hshmget, hsemget, h.shmat, hcontrols, if_true]
  refine ⟨trivial, fun hclients => ⟨hshmget.symm, hsemget.symm, ?_, ?_⟩⟩
  · intro id hid
    cases hshmget.symm.trans hid
    exact Function.update_self ..
  · intro id hid
    cases hsemget.symm.trans hid
    exact ⟨_, Function.update_self .., setVals_all h.controls hclients⟩

/-- The bootstrap is all or nothing, if and only if no semaphore of a client fails after
everything before has succeeded. -/
theorem bootstrapIpc_allOrNothing_iff (hfresh : calls.Fresh before) :
    AllOrNothing calls before (bootstrapIpc calls before) ↔
      (calls.ReachClients → calls.SetClients) := by
  constructor
  · intro h hreach
    by_contra hclients
    have hfalse := (h.nothing fun hall => hclients hall.2).1
    rw [(bootstrapIpc_late hreach).1] at hfalse
    cases hfalse
  · intro h
    constructor
    · rintro ⟨hreach, hclients⟩
      obtain ⟨htrue, hexported⟩ := @bootstrapIpc_late calls before hreach
      exact ⟨htrue, hexported hclients⟩
    · intro hnot
      rw [bootstrapIpc_early hfresh fun hreach => hnot ⟨hreach, h hreach⟩]
      exact ⟨rfl, rfl⟩

end

def noObjects : System := ⟨fun _ => none, fun _ => none, none, none⟩

def callsWithout (refused : ℕ → Bool) : Calls where
  shmget := some 1
  shmat := true
  semget := some 2
  setVal := fun sem => !refused sem
  newValues := fun _ => 0

theorem fresh_noObjects (calls : Calls) : calls.Fresh noObjects :=
  ⟨fun _ _ => rfl, fun _ _ => rfl⟩

theorem bootstrapIpc_allOrNothing_all : AllOrNothing (callsWithout fun _ => false) noObjects
    (bootstrapIpc (callsWithout fun _ => false) noObjects) :=
  (bootstrapIpc_allOrNothing_iff (fresh_noObjects _)).mpr fun _ _ _ => rfl

/-- The semaphore of the first client cannot be set. -/
theorem not_allOrNothing_client : ¬ ∀ (calls : Calls) (before : System), calls.Fresh before →
    AllOrNothing calls before (bootstrapIpc calls before) := by
  intro h
  have hrefused := (h (callsWithout fun sem => sem = 4) noObjects (fresh_noObjects _)).nothing
    fun hall => absurd (hall.2 0 (by decide)) (by decide)
  exact absurd hrefused.1 (by decide)

end CommunicationAPI.ShmBootstrap
