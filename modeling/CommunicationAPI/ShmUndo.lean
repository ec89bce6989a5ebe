import CommunicationAPI.ShmRuns

/-!
# Exiting processes

Every `semop` of the engine carries `SEM_UNDO`: the kernel subtracts its operation from
an adjustment that it keeps for the calling process and the semaphore. When a process
ends, each adjustment is added to its semaphore, which does not go below zero, and none
of its threads takes another step. A process ends after the destruction, or the failed
construction, of its engine.
-/

namespace CommunicationAPI.ShmUndo
open TransitionSystem BinarySemaphore CommunicationAPI.ShmEngine

inductive Sem
  | registry
  | claim
  | writerWait
  | client (i : ClientSlot)

def value (x : Semaphores) : Sem → ℕ
  | .registry => x.registry
  | .claim => x.claim
  | .writerWait => x.writerWait
  | .client i => x.client i

def adjust (x : Semaphores) (undo : Sem → ℤ) : Semaphores where
  registry := (x.registry + undo .registry).toNat
  claim := (x.claim + undo .claim).toNat
  writerWait := (x.writerWait + undo .writerWait).toNat
  client i := (x.client i + undo (.client i)).toNat

structure State where
  ring : ShmEngine.State
  /-- The adjustments of every process. -/
  undo : ℕ → Sem → ℤ
  exited : ℕ → Bool
  /-- How many sends have notified the client of an entry since it was activated. -/
  posts : ClientSlot → ℕ

inductive Action
  | ring (a : ShmEngine.Action)
  | exit (p : ℕ)

/-- The process that takes a step; sending thread `w` is one of process `owner w`. -/
def caller (owner : ℕ → ℕ) : ShmEngine.Action → ℕ
  | .send w _ | .sender w _ => owner w
  | .construct p | .stop p | .destroy p | .engine p _ | .receiver p _ | .release p _
  | .releaser p _ _ => p

/-- The entries that a step notifies: those collected by a `send` whose batched `semop`
succeeds. -/
def postedBy (s : ShmEngine.State) : ShmEngine.Action → List ClientSlot
  | .sender w .ok =>
    match s.sender w with
    | .notifyScan _ _ [] ops => ops
    | _ => []
  | _ => []

def activatedBy (s : ShmEngine.State) : ShmEngine.Action → Option ClientSlot
  | .engine p _ =>
    match (s.process p).engine with
    | .regActivate i => some i
    | _ => none
  | _ => none

namespace State
variable (s : State)

def count (a : ShmEngine.Action) (i : ClientSlot) : ℕ :=
  if activatedBy s.ring a = some i then 0
  else if (postedBy s.ring a).contains i then s.posts i + 1
  else s.posts i

/-- The adjustments of process `p` after a step of its own that leaves the semaphores at `x`. -/
def record (p : ℕ) (x : Semaphores) (sem : Sem) : ℤ :=
  s.undo p sem - (value x sem - value s.ring.sem sem)

def step (owner : ℕ → ℕ) : Action → Option State
  | .ring a =>
    if s.exited (caller owner a) then none
    else
      (ShmEngine.step s.ring a).map fun ring => { s with
        ring := ring
        undo := Function.update s.undo (caller owner a) (s.record (caller owner a) ring.sem)
        posts := s.count a }
  | .exit p =>
    if s.exited p then none
    else
      match (s.ring.process p).engine with
      | .gone => some { s with
          ring := { s.ring with sem := adjust s.ring.sem (s.undo p) }
          undo := Function.update s.undo p fun _ => 0
          exited := Function.update s.exited p true }
      | _ => none

end State

def start : State where
  ring := initial
  undo := fun _ _ => 0
  exited := fun _ => false
  posts := fun _ => 0

def machine (owner : ℕ → ℕ) : Machine State Action where
  init s := s = start
  step := fun s => s.step owner

/-- The semaphore of every active client holds the notifications it has not waited for. -/
def Conserved (s : State) : Prop :=
  ∀ p i, (s.ring.process p).engine.owned = some i →
    s.ring.sem.client i + s.ring.history.waits p = s.posts i

def Idle (n : ℕ) (adjustment : ℤ) : Prop :=
  adjustment = 0 ∨ n = 0 ∧ adjustment ≤ 0

instance (n : ℕ) (adjustment : ℤ) : Decidable (Idle n adjustment) :=
  inferInstanceAs (Decidable (adjustment = 0 ∨ n = 0 ∧ adjustment ≤ 0))

/-- A client finds its semaphore at zero when it registers, and the adjustments of a
process that ends do not touch the semaphore of an active client. -/
def Neutral (s : State) : Action → State → Prop
  | .ring a, _ => ∀ i, activatedBy s.ring a = some i → s.ring.sem.client i = 0
  | .exit p, _ => ∀ q i, (s.ring.process q).engine.owned = some i →
      Idle (s.ring.sem.client i) (s.undo p (.client i))

theorem toNat_eq_iff {n : ℕ} {adjustment : ℤ} :
    (n + adjustment).toNat = n ↔ Idle n adjustment := by
  unfold Idle
  omega

section
variable {s s' : ShmEngine.State} {a : ShmEngine.Action} {p : ℕ} {i : ClientSlot}

theorem caller_of_process (owner : ℕ → ℕ) (ha : a.process = some p) : caller owner a = p := by
  cases a with
  | send w c => cases ha
  | sender w o => cases ha
  | _ => exact Option.some.inj ha

theorem postedBy_of_process (ha : a.process = some p) : postedBy s a = [] := by
  cases a with
  | sender w o => cases ha
  | _ => rfl

theorem activatedBy_of_sender (ha : a.process = none) : activatedBy s a = none := by
  cases a with
  | engine p o => cases ha
  | _ => rfl

theorem engine_of_activatedBy (hi : activatedBy s a = some i) :
    ∃ p, a.process = some p ∧ (s.process p).engine = .regActivate i := by
  unfold activatedBy at hi
  split at hi
  · split at hi
    · cases hi
      exact ⟨_, rfl, ‹_›⟩
    · cases hi
  · cases hi

theorem postedBy_of_not_notifying {w : ℕ} (o : Outcome)
    (hpc : ∀ c t ops, s.sender w ≠ .notifyScan c t [] ops) : postedBy s (.sender w o) = [] := by
  cases o with
  | ok =>
      unfold postedBy
      dsimp only
      split
      · rename_i c t ops heq
        exact absurd heq (hpc c t ops)
      · rfl
  | _ => rfl

theorem activated_step (h : ShmEngine.step s a = some s') (hi : activatedBy s a = some i) :
    ∃ p, (s'.process p).engine.owned = some i ∧ s'.sem.client = s.sem.client := by
  unfold activatedBy at hi
  split at hi
  · split at hi
    · cases hi
      rename_i p o _ hpc
      simp only [ShmEngine.step, engineStep, hpc] at h
      cases h
      refine ⟨p, ?_, rfl⟩
      simp [EnginePc.owned]
    · cases hi
  · cases hi

/-- A step of a sending thread posts exactly the entries it notifies. -/
theorem client_of_sender (h : ShmEngine.step s a = some s') (ha : a.process = none)
    (i : ClientSlot) :
    s'.sem.client i = if i ∈ postedBy s a then s.sem.client i + 1 else s.sem.client i := by
  cases a with
  | send w c =>
      simp only [ShmEngine.step] at h
      split at h <;> cases h
      rfl
  | sender w o =>
      by_cases hpc : ∃ c t ops, s.sender w = .notifyScan c t [] ops
      · obtain ⟨c, t, ops, hpc⟩ := hpc
        cases o <;> simp only [ShmEngine.step, senderStep, hpc] at h <;> cases h
        · simp only [postedBy, hpc]
          rfl
        · rfl
        · rfl
      · have hnone : ∀ c t ops, s.sender w ≠ .notifyScan c t [] ops := fun c t ops heq =>
          hpc ⟨c, t, ops, heq⟩
        rw [postedBy_of_not_notifying o hnone]
        cases senderStep_effect h with
        | notify c t ops heq => exact absurd heq (hnone c t ops)
        | _ => rfl
  | _ => cases ha

inductive LockMove (s s' : ShmEngine.State) (a : ShmEngine.Action) : Prop
  | other : s'.sem.registry = s.sem.registry →
      (∀ q, (s'.process q).engine.locks = true → (s.process q).engine.locks = true) →
      LockMove s s' a
  | acquire (p : ℕ) : a.process = some p → 0 < s.sem.registry →
      s'.sem.registry = s.sem.registry - 1 →
      (∀ q, q ≠ p → (s'.process q).engine.locks = true → (s.process q).engine.locks = true) →
      LockMove s s' a
  | release (p : ℕ) : a.process = some p → (s.process p).engine.locks = true →
      s'.sem.registry = s.sem.registry + 1 →
      (∀ q, (s'.process q).engine.locks = true →
        (s.process q).engine.locks = true ∧ q ≠ p) → LockMove s s' a

theorem LockMove.side (h : EngineSide s s') : LockMove s s' a := by
  apply LockMove.other h.registrySem
  intro q hq
  rwa [h.engine] at hq

theorem LockMove.engine (h : EngineEffect s p s') (ha : a.process = some p) : LockMove s s' a := by
  have hmoved : ∀ (t : ShmEngine.State) (pc : EnginePc), t.process = s.process →
      (pc.locks = true → (s.process p).engine.locks = true) → ∀ q,
        ((t.setEngine p pc).process q).engine.locks = true → (s.process q).engine.locks = true := by
    intro t pc ht hpc q hq
    rw [engine_setEngine] at hq
    split_ifs at hq with hqp
    · subst hqp
      exact hpc hq
    · rwa [ht] at hq
  cases h with
  | move pc hm => exact .other rfl (hmoved _ _ rfl hm.locks)
  | lock pc _ hs =>
      apply LockMove.acquire p ha hs rfl
      intro q hqp hq
      rw [engine_setEngine, if_neg hqp] at hq
      exact hq
  | unlock pc hpc =>
      have hlocks : pc.locks = false ∧ (s.process p).engine.locks = true := by
        rcases hpc with ⟨i, hi, rfl⟩ | ⟨hi, rfl⟩ | ⟨hi, rfl⟩ <;> simp [hi, EnginePc.locks]
      apply LockMove.release p ha hlocks.2 rfl
      intro q hq
      rw [engine_setEngine] at hq
      split_ifs at hq with hqp
      · exact absurd hq (by simp [hlocks.1])
      · exact ⟨hq, hqp⟩
  | activate i hpc => exact .other rfl (hmoved _ _ rfl fun _ => by simp [hpc, EnginePc.locks])
  | processId i hpc => exact .other rfl (hmoved _ _ rfl fun _ => by simp [hpc, EnginePc.locks])
  | store i v hpc => exact .other rfl (hmoved _ _ rfl fun _ => by simp [hpc, EnginePc.locks])
  | clear i hpc => exact .other rfl (hmoved _ _ rfl fun _ => by simp [hpc, EnginePc.locks])

theorem lockMove (h : StepEffect s a s') : LockMove s s' a := by
  cases h with
  | send _ he | sender he => exact .side he.readerSide.engineSide
  | construct _ he | destroy _ he | engine he => exact .engine he rfl
  | receiver _ he => exact .side he.engineSide
  | releaser _ _ he => exact .side he.engineSide
  | stop => exact .side (engineSide_setProcess _ _ _ rfl)
  | release => exact .side (engineSide_setProcess _ _ _ rfl)

/-- The engine of a client registers it, or leaves its semaphore alone. -/
theorem engine_step (h : EngineEffect s p s') (hi : (s'.process p).engine.owned = some i) :
    ((s.process p).engine = .regActivate i ∨ (s.process p).engine.owned = some i) ∧
      s'.sem.client = s.sem.client := by
  have howned : ∀ (t : ShmEngine.State) (pc : EnginePc), s' = t.setEngine p pc →
      pc.owned = some i := by
    rintro t pc rfl
    rw [engine_setEngine, if_pos rfl] at hi
    exact hi
  cases h with
  | move pc hm =>
      refine ⟨.inr ?_, rfl⟩
      rcases hm.owned with heq | heq
      · exact heq ▸ howned _ _ rfl
      · rw [howned _ _ rfl] at heq
        cases heq
  | lock pc hpc _ =>
      refine ⟨.inr ?_, rfl⟩
      have hnew := howned _ _ rfl
      rcases hpc with ⟨-, rfl⟩ | ⟨j, hj, rfl⟩
      · cases hnew
      · exact hj ▸ hnew
  | unlock pc hpc =>
      refine ⟨.inr ?_, rfl⟩
      have hnew := howned _ _ rfl
      rcases hpc with ⟨j, hj, rfl⟩ | ⟨-, rfl⟩ | ⟨-, rfl⟩
      · exact hj ▸ hnew
      · cases hnew
      · cases hnew
  | activate j hpc =>
      refine ⟨.inl ?_, rfl⟩
      cases howned _ _ rfl
      exact hpc
  | processId j hpc =>
      have hnew := howned _ _ rfl
      exact ⟨.inr (by rw [hpc]; exact hnew), rfl⟩
  | store j v hpc =>
      have hnew := howned _ _ rfl
      exact ⟨.inr (by rw [hpc]; exact hnew), rfl⟩
  | clear j hpc => cases howned _ _ rfl

theorem activatedBy_of_owned (ha : a.process = some p) (hi : (s.process p).engine.owned = some i) :
    activatedBy s a = none := by
  cases hact : activatedBy s a with
  | none => rfl
  | some j =>
      obtain ⟨q, hq, hpc⟩ := engine_of_activatedBy hact
      obtain rfl : p = q := Option.some.inj (ha.symm.trans hq)
      rw [hpc] at hi
      cases hi

/-- The tokens of a client go with its waits. -/
theorem receiver_tokens {j : ClientSlot} (h : ReceiverEffect s p i s') (hij : j = i) :
    s'.sem.client j + s'.history.waits p = s.sem.client j + s.history.waits p := by
  subst hij
  cases h with
  | move pc => rfl
  | handUp protocol => rfl
  | wait _ hs =>
      simp only [State.setReceiver, State.setProcess, Function.update_self]
      omega

/-- A client's own step: it registers, or its tokens go with its waits. -/
inductive OwnStep (s s' : ShmEngine.State) (a : ShmEngine.Action) (p : ℕ) (i : ClientSlot) : Prop
  | registers : activatedBy s a = some i → s'.sem.client i = s.sem.client i →
      s'.history.waits p = s.history.waits p → (s.process p).engine.constructing = true →
      OwnStep s s' a p i
  | continues : activatedBy s a = none → (s.process p).engine.owned = some i →
      s'.sem.client i + s'.history.waits p = s.sem.client i + s.history.waits p →
      OwnStep s s' a p i

theorem OwnStep.side (h : EngineSide s s') (ha : a.process = some p)
    (hi : (s'.process p).engine.owned = some i)
    (htokens : s'.sem.client i + s'.history.waits p = s.sem.client i + s.history.waits p) :
    OwnStep s s' a p i := by
  rw [h.engine] at hi
  exact .continues (activatedBy_of_owned ha hi) hi htokens

theorem ownStep (h : StepEffect s a s') (ha : a.process = some p)
    (hi : (s'.process p).engine.owned = some i) : OwnStep s s' a p i := by
  cases h with
  | send | sender => cases ha
  | construct hpc he =>
      cases ha
      rcases (engine_step he hi).1 with heq | heq
      · rw [hpc] at heq
        cases heq
      · rw [hpc] at heq
        cases heq
  | destroy hpc he =>
      cases ha
      obtain ⟨hengine, hclient⟩ := engine_step he hi
      rcases hengine with heq | heq
      · rw [hpc] at heq
        cases heq
      · apply OwnStep.continues rfl heq
        rw [hclient, (he.sameWork p).waits]
  | engine he =>
      cases ha
      obtain ⟨hengine, hclient⟩ := engine_step he hi
      rcases hengine with heq | heq
      · apply OwnStep.registers _ (by rw [hclient]) (he.sameWork p).waits (by rw [heq]; rfl)
        simp only [activatedBy, heq]
      · apply OwnStep.continues (activatedBy_of_owned rfl heq) heq
        rw [hclient, (he.sameWork p).waits]
  | stop =>
      cases ha
      exact .side (engineSide_setProcess s p _ rfl) rfl hi rfl
  | release =>
      cases ha
      exact .side (engineSide_setProcess s p _ rfl) rfl hi rfl
  | receiver hj he =>
      cases ha
      apply OwnStep.side he.engineSide rfl hi
      apply receiver_tokens he
      rw [he.engineSide.engine, hj] at hi
      exact (Option.some.inj hi).symm
  | releaser hj _ he =>
      cases ha
      apply OwnStep.side he.engineSide rfl hi
      cases he <;> rfl

/-- A step of another process leaves the client and its entry alone. -/
theorem other_step (h : StepEffect s a s') (hr : Registry s) {q : ℕ} (ha : a.process = some q)
    (hqp : q ≠ p) (hi : (s.process p).engine.owned = some i) :
    s'.sem.client i = s.sem.client i ∧ s'.history.waits p = s.history.waits p ∧
      activatedBy s a ≠ some i := by
  have hne : a.process ≠ some p := by
    rw [ha]
    exact fun heq => hqp (Option.some.inj heq)
  refine ⟨(h.entry hr ha hqp hi).2, (h.sameWork hne).waits, ?_⟩
  intro hact
  obtain ⟨q', -, hpc⟩ := engine_of_activatedBy hact
  have hactive := hr.active p i hi
  rw [hr.found q' i hpc] at hactive
  cases hactive

end

/-- The adjustments for `REGISTRY_SEM` tell which process has it. -/
structure Ledger (ring : ShmEngine.State) (undo : ℕ → Sem → ℤ) : Prop where
  lock : Exclusive ring.sem.registry fun p => undo p .registry = 1
  zero_or_one : ∀ p, undo p .registry = 0 ∨ undo p .registry = 1
  holding : ∀ p, (ring.process p).engine.locks = true → undo p .registry = 1

namespace Ledger
variable {s : State} {ring ring' : ShmEngine.State} {undo undo' : ℕ → Sem → ℤ} {p : ℕ}

theorem start : Ledger initial fun _ _ => 0 where
  lock := Exclusive.start fun _ => zero_ne_one
  zero_or_one _ := .inl rfl
  holding p hp := by cases hp

theorem keep (h : Ledger ring undo) (hsem : ring'.sem.registry = ring.sem.registry)
    (hundo : ∀ q, undo' q .registry = undo q .registry)
    (hlocks : ∀ q, (ring'.process q).engine.locks = true → (ring.process q).engine.locks = true) :
    Ledger ring' undo' := by
  constructor
  · rw [hsem]
    apply h.lock.shrink
    intro q hq
    rwa [hundo] at hq
  · intro q
    rw [hundo]
    exact h.zero_or_one q
  · intro q hq
    rw [hundo]
    exact h.holding q (hlocks q hq)

theorem take (h : Ledger ring undo) (hpos : 0 < ring.sem.registry)
    (hsem : ring'.sem.registry = ring.sem.registry - 1)
    (hself : undo' p .registry = undo p .registry + 1) (hother : ∀ q, q ≠ p → undo' q = undo q)
    (hlocks : ∀ q, q ≠ p →
      (ring'.process q).engine.locks = true → (ring.process q).engine.locks = true) :
    Ledger ring' undo' := by
  have hzero : ∀ q, undo q .registry = 0 := fun q =>
    (h.zero_or_one q).resolve_right (h.lock.free hpos q)
  have hone : undo' p .registry = 1 := by rw [hself, hzero, zero_add]
  constructor
  · rw [hsem]
    apply h.lock.acquire hpos p
    intro q hq
    by_contra hqp
    rw [hother q hqp, hzero] at hq
    exact zero_ne_one hq
  · intro q
    by_cases hqp : q = p
    · exact .inr (hqp ▸ hone)
    · rw [hother q hqp]
      exact h.zero_or_one q
  · intro q hq
    by_cases hqp : q = p
    · exact hqp ▸ hone
    · rw [hother q hqp]
      exact h.holding q (hlocks q hqp hq)

theorem give (h : Ledger ring undo) (hheld : undo p .registry = 1)
    (hsem : ring'.sem.registry = ring.sem.registry + 1) (hself : undo' p .registry = 0)
    (hother : ∀ q, q ≠ p → undo' q = undo q)
    (hlocks : ∀ q, (ring'.process q).engine.locks = true →
      (ring.process q).engine.locks = true ∧ q ≠ p) : Ledger ring' undo' := by
  constructor
  · rw [hsem]
    apply h.lock.release hheld
    intro q hq
    have hqp : q ≠ p := by
      rintro rfl
      rw [hself] at hq
      exact zero_ne_one hq
    rw [hother q hqp] at hq
    exact ⟨hq, hqp⟩
  · intro q
    by_cases hqp : q = p
    · exact .inl (hqp ▸ hself)
    · rw [hother q hqp]
      exact h.zero_or_one q
  · intro q hq
    obtain ⟨hq, hqp⟩ := hlocks q hq
    rw [hother q hqp]
    exact h.holding q hq

/-- The adjustments after a step of the ring, of which only the caller's change. -/
theorem record (h : Ledger s.ring s.undo) {a : ShmEngine.Action} (owner : ℕ → ℕ)
    (hm : LockMove s.ring ring a) :
    Ledger ring (Function.update s.undo (caller owner a)
      (s.record (caller owner a) ring.sem)) := by
  have hself : ∀ p, Function.update s.undo p (s.record p ring.sem) p .registry =
      s.undo p .registry - (ring.sem.registry - s.ring.sem.registry) := fun p => by
    rw [Function.update_self]
    rfl
  have hother : ∀ p q, q ≠ p → Function.update s.undo p (s.record p ring.sem) q = s.undo q :=
    fun p q hqp => Function.update_of_ne hqp _ _
  cases hm with
  | other hsem hlocks =>
      apply h.keep hsem _ hlocks
      intro q
      by_cases hq : q = caller owner a
      · subst hq
        rw [hself, hsem, sub_self, sub_zero]
      · rw [hother _ q hq]
  | acquire p ha hpos hsem hlocks =>
      rw [caller_of_process owner ha]
      apply h.take hpos hsem _ (hother p) hlocks
      rw [hself, hsem]
      omega
  | release p ha hpc hsem hlocks =>
      have hheld := h.holding p hpc
      rw [caller_of_process owner ha]
      apply h.give hheld hsem _ (hother p) hlocks
      rw [hself, hheld, hsem]
      omega

/-- A process that ends with the lock gives it back. -/
theorem exit (h : Ledger ring undo) (hpc : (ring.process p).engine.locks = false) :
    Ledger { ring with sem := adjust ring.sem (undo p) } (Function.update undo p fun _ => 0) := by
  have hself : Function.update undo p (fun _ => 0) p .registry = 0 := by
    rw [Function.update_self]
  have hother : ∀ q, q ≠ p → Function.update undo p (fun _ => 0) q = undo q := fun q hqp =>
    Function.update_of_ne hqp _ _
  rcases h.zero_or_one p with hzero | hone
  · have hsem : (adjust ring.sem (undo p)).registry = ring.sem.registry :=
      toNat_eq_iff.mpr (.inl hzero)
    apply h.keep hsem
    · intro q
      by_cases hqp : q = p
      · subst hqp
        rw [hself, hzero]
      · rw [hother q hqp]
    · exact fun q hq => hq
  · apply h.give hone _ hself hother
    · intro q hq
      refine ⟨hq, ?_⟩
      rintro rfl
      exact Bool.false_ne_true (hpc.symm.trans hq)
    · change (ring.sem.registry + undo p .registry).toNat = ring.sem.registry + 1
      rw [hone]
      omega

end Ledger

section
variable {owner : ℕ → ℕ} {s s' : State}

def State.moved (s : State) (owner : ℕ → ℕ) (a : ShmEngine.Action) (ring : ShmEngine.State) :
    State :=
  { s with
    ring := ring
    undo := Function.update s.undo (caller owner a) (s.record (caller owner a) ring.sem)
    posts := s.count a }

def State.ended (s : State) (p : ℕ) : State :=
  { s with
    ring := { s.ring with sem := adjust s.ring.sem (s.undo p) }
    undo := Function.update s.undo p fun _ => 0
    exited := Function.update s.exited p true }

/-- What a step of a process can be. -/
theorem step_cases {b : Action} (h : s.step owner b = some s') :
    (∃ a ring, b = .ring a ∧ s.exited (caller owner a) = false ∧
      ShmEngine.step s.ring a = some ring ∧ s' = s.moved owner a ring) ∨
    ∃ p, b = .exit p ∧ (s.ring.process p).engine = .gone ∧ s' = s.ended p := by
  cases b with
  | ring a =>
    simp only [State.step] at h
    split_ifs at h with hexited
    obtain ⟨ring, hring, rfl⟩ := Option.map_eq_some_iff.mp h
    exact .inl ⟨a, ring, rfl, by simpa using hexited, hring, rfl⟩
  | exit p =>
    simp only [State.step] at h
    split_ifs at h
    split at h <;> cases h
    exact .inr ⟨p, rfl, ‹_›, rfl⟩

/-- The lock of the registry and the adjustments for it, over a step of a process. -/
theorem locks_step {b : Action} (hregistry : Registry s.ring) (hledger : Ledger s.ring s.undo)
    (hs : s.step owner b = some s') : Registry s'.ring ∧ Ledger s'.ring s'.undo := by
  rcases step_cases hs with ⟨a, ring, rfl, -, hring, rfl⟩ | ⟨p, rfl, hgone, rfl⟩
  · have he : StepEffect s.ring a ring := step_effect hring
    exact ⟨hregistry.step he, hledger.record owner (lockMove he)⟩
  · have hexit := hledger.exit (p := p) (by rw [hgone]; rfl)
    exact ⟨⟨hexit.lock.shrink fun q hq => hexit.holding q hq, hregistry.active,
      hregistry.unique, hregistry.found⟩, hexit⟩

end

structure Inv (s : State) : Prop where
  registry : Registry s.ring
  ledger : Ledger s.ring s.undo
  unread : ∀ p, (s.ring.process p).engine.constructing = true → s.ring.history.waits p = 0
  conserved : Conserved s

variable {owner : ℕ → ℕ} {s s' : State} {ring : ShmEngine.State} {a : ShmEngine.Action} {p : ℕ}

theorem inv_start : Inv start where
  registry := registry_initial
  ledger := .start
  unread _ _ := rfl
  conserved p i hi := by cases hi

theorem count_of_ne {i : ClientSlot} (hi : activatedBy s.ring a ≠ some i) :
    s.count a i = if i ∈ postedBy s.ring a then s.posts i + 1 else s.posts i := by
  unfold State.count
  rw [if_neg hi]
  simp only [List.contains_iff_mem]

namespace Inv

/-- The tokens after a step of the ring, given the semaphore at the registration. -/
theorem conserved_ring (h : Inv s) (hs : ShmEngine.step s.ring a = some ring)
    (hzero : ∀ i, activatedBy s.ring a = some i → s.ring.sem.client i = 0) (p : ℕ)
    (i : ClientSlot) (hi : (ring.process p).engine.owned = some i) :
    ring.sem.client i + ring.history.waits p = s.count a i := by
  have he : StepEffect s.ring a ring := step_effect hs
  cases ha : a.process with
  | none =>
      obtain ⟨w, hsend⟩ := he.sender_of_none ha
      have hside := hsend.readerSide
      rw [hside.process] at hi
      have hold := h.conserved p i hi
      rw [count_of_ne (by rw [activatedBy_of_sender ha]; nofun),
        client_of_sender hs ha, hside.waits]
      split_ifs <;> omega
  | some q =>
      have hposted := postedBy_of_process (s := s.ring) ha
      by_cases hqp : q = p
      · subst hqp
        cases ownStep he ha hi with
        | registers hact hclient hwaits hconstructing =>
            rw [hclient, hwaits, hzero i hact, h.unread q hconstructing]
            exact (if_pos hact).symm
        | continues hact howned htokens =>
            rw [count_of_ne (by rw [hact]; nofun), hposted,
              if_neg List.not_mem_nil, htokens]
            exact h.conserved q i howned
      · have hne : a.process ≠ some p := by
          rw [ha]
          exact fun heq => hqp (Option.some.inj heq)
        rw [(he.engine_eq hne).1] at hi
        obtain ⟨hclient, hwaits, hact⟩ := other_step he h.registry ha hqp hi
        rw [count_of_ne hact, hposted, if_neg List.not_mem_nil, hclient, hwaits]
        exact h.conserved p i hi

theorem step (h : Inv s) {b : Action} (hs : (machine owner).step s b = some s')
    (hok : Neutral s b s') : Inv s' := by
  obtain ⟨hregistry, hledger⟩ := locks_step h.registry h.ledger hs
  rcases step_cases hs with ⟨a, ring, rfl, -, hring, rfl⟩ | ⟨p, rfl, -, rfl⟩
  · have he : StepEffect s.ring a ring := step_effect hring
    refine ⟨hregistry, hledger, fun p hp => ?_, h.conserved_ring hring hok⟩
    obtain ⟨hconstructing, hwork⟩ := he.constructing hp
    exact hwork.waits.trans (h.unread p hconstructing)
  · refine ⟨hregistry, hledger, h.unread, fun q i hi => ?_⟩
    have hold := h.conserved q i hi
    have hsame : (adjust s.ring.sem (s.undo p)).client i = s.ring.sem.client i :=
      toNat_eq_iff.mpr (hok q i hi)
    exact hsame ▸ hold

/-- A step that breaks the condition breaks the conservation. -/
theorem exact (h : Inv s) {b : Action} (hs : (machine owner).step s b = some s')
    (hconserved : Conserved s') : Neutral s b s' := by
  rcases step_cases hs with ⟨a, ring, rfl, -, hring, rfl⟩ | ⟨p, rfl, -, rfl⟩
  · intro i hact
    obtain ⟨p, hi, hclient⟩ := activated_step hring hact
    have hnew : ring.sem.client i + ring.history.waits p = s.count a i := hconserved p i hi
    have hzero : s.count a i = 0 := if_pos hact
    rw [← hclient]
    omega
  · intro q i hi
    have hold := h.conserved q i hi
    have hnew : (adjust s.ring.sem (s.undo p)).client i + s.ring.history.waits q = s.posts i :=
      hconserved q i hi
    apply toNat_eq_iff.mp
    change (adjust s.ring.sem (s.undo p)).client i = s.ring.sem.client i
    omega

end Inv

/-- In a run whose registrations find their semaphore at zero and whose exits touch no
client's semaphore, the tokens of every active client are conserved; the first other
step breaks this. -/
theorem conserved_iff (hs : (machine owner).Reaches Neutral s) :
    Conserved s ∧ ∀ b s', (machine owner).step s b = some s' → (Conserved s' ↔ Neutral s b s') := by
  apply hs.exact (I := Inv)
  · rintro s rfl
    exact inv_start
  · exact fun s hinv => hinv.conserved
  · exact fun s b s' hinv hstep hok => hinv.step hstep hok
  · exact fun s b s' hinv hstep hconserved => hinv.exact hstep hconserved

def neutral (s : State) (b : Action) (_ : State) : Bool :=
  match b with
  | .ring a => decide (caller id a < 2) &&
      (activatedBy s.ring a).all fun i => s.ring.sem.client i = 0
  | .exit p => (List.range 2).all fun q => (s.ring.process q).engine.owned.all fun i =>
      decide (Idle (s.ring.sem.client i) (s.undo p (.client i)))

def Outside (s : State) : Prop :=
  ∀ q, 2 ≤ q → (s.ring.process q).engine.owned = none

theorem neutral_sound {s s' : State} {b : Action} (hout : Outside s)
    (hs : (machine id).step s b = some s') (htest : neutral s b s' = true) :
    Neutral s b s' ∧ Outside s' := by
  rcases step_cases hs with ⟨a, ring, rfl, -, hring, rfl⟩ | ⟨p, rfl, -, rfl⟩
  · obtain ⟨hcaller, hzero⟩ := Bool.and_eq_true_iff.mp htest
    constructor
    · intro i hact
      rw [hact] at hzero
      exact of_decide_eq_true hzero
    · intro q hq
      have hne : a.process ≠ some q := by
        intro ha
        rw [caller_of_process id ha] at hcaller
        exact absurd (of_decide_eq_true hcaller) (Nat.not_lt.mpr hq)
      have howned := hout q hq
      rw [← ((step_effect hring).engine_eq hne).1] at howned
      exact howned
  · constructor
    · intro q i hi
      by_cases hq : q < 2
      · have hall := List.all_eq_true.mp htest q (List.mem_range.mpr hq)
        rw [hi] at hall
        exact of_decide_eq_true hall
      · rw [hout q (Nat.not_lt.mp hq)] at hi
        cases hi
    · exact hout

def leaveActions (p : ℕ) : List Action :=
  [.ring (.stop p), .ring (.receiver p .ok), .ring (.destroy p), .ring (.engine p .ok),
    .ring (.engine p .ok), .ring (.engine p .ok), .exit p]

def leaveRun (sender : ℕ) (received : List ℕ) : List Action :=
  (registerActions 0 0 ++ registerActions 1 1 ++ sendActions sender 46 emptyCall ++
    received.flatMap receiveActions).map .ring ++ leaveActions 1

theorem conserved_of_leaveRun :
    ∃ s, (machine id).execIf neutral start (leaveRun 0 [0, 1]) = some s ∧
      s.exited 1 = true ∧ s.posts 0 = 1 ∧ Conserved s := by
  have hrun : ((machine id).execIf neutral start (leaveRun 0 [0, 1])).any (fun s =>
      s.exited 1 = true ∧ s.posts 0 = 1) = true := by decide +kernel
  obtain ⟨s, hs, hgoal⟩ := (Option.any_eq_true _ _).mp hrun
  obtain ⟨hexited, hposts⟩ := of_decide_eq_true hgoal
  have hreach : (machine id).Reaches Neutral s :=
    (Machine.Reaches.init rfl).execIf_of (P := Outside) (fun _ _ _ => neutral_sound)
      (fun _ _ => rfl) hs
  exact ⟨s, hs, hexited, hposts, (conserved_iff hreach).1⟩

/-- The sender leaves before client 0 has taken the token of its message. -/
theorem not_conserved_leaveRun :
    ¬ ∀ owner s, (machine owner).Reachable s → Conserved s := by
  intro h
  obtain ⟨s, -, hs, hgoal⟩ := Machine.Reachable.exec_any (M := machine id) (.init rfl)
    (leaveRun 1 []) (fun s => decide ((s.ring.process 0).engine.owned = some 0 ∧
      s.ring.sem.client 0 = 0 ∧ s.ring.history.waits 0 = 0 ∧ s.posts 0 = 1)) (by decide +kernel)
  obtain ⟨howned, hclient, hwaits, hposts⟩ := of_decide_eq_true hgoal
  have hsum := h id s hs 0 0 howned
  omega

end CommunicationAPI.ShmUndo
