import CommunicationAPI.Communicator
import CommunicationAPI.Machine
import Mathlib.Data.Finset.Card

/-!
# The queue of a Communicator between threads

`_data` is guarded by the Communicator's mutex and `_count` by the mutex inside
the semaphore. Every section under a mutex is one step; `v` runs while the
Communicator's mutex is held, and the section around it is split there.
-/

namespace CommunicationAPI.CommunicatorQueue
open TransitionSystem

/-- The thread in `queue_incoming_buffer`, before and after its call of `v`. -/
inductive Holder
  | pushed (thread : ℕ)
  | signaled (thread : ℕ)
  deriving DecidableEq, Repr

/-- `passed` are the threads that have returned from `p` and not popped yet. `pushes`
and `pops` record what has gone in and which thread has taken what. The count is an
`int`: fewer than 2^31 buffers are in the queue at a time. -/
structure State where
  data : List Buffer
  count : ℤ
  mutex : Option Holder
  passed : Finset ℕ
  pushes : List Buffer
  pops : List (ℕ × Buffer)

inductive Action
  /-- `lock_guard lock(_mutex); _data.push_back(buf)`. -/
  | pushBack (thread : ℕ) (buf : Buffer)
  /-- `_semaphore.v()`. -/
  | v (thread : ℕ)
  /-- The end of the section of `queue_incoming_buffer`. -/
  | unlock (thread : ℕ)
  /-- `_semaphore.p()`, once the count is positive. -/
  | p (thread : ℕ)
  /-- The section of `receive`. -/
  | pop (thread : ℕ)

def State.Idle (s : State) (thread : ℕ) : Prop :=
  thread ∉ s.passed ∧ s.mutex ≠ some (.pushed thread) ∧ s.mutex ≠ some (.signaled thread)

instance (s : State) (thread : ℕ) : Decidable (s.Idle thread) :=
  inferInstanceAs (Decidable (_ ∧ _ ∧ _))

def step (s : State) : Action → Option State
  | .pushBack thread buf =>
    if s.mutex = none ∧ s.Idle thread then
      some { s with
        data := s.data ++ [buf]
        mutex := some (.pushed thread)
        pushes := s.pushes ++ [buf] }
    else none
  | .v thread =>
    if s.mutex = some (.pushed thread) then
      some { s with count := s.count + 1, mutex := some (.signaled thread) }
    else none
  | .unlock thread =>
    if s.mutex = some (.signaled thread) then some { s with mutex := none } else none
  | .p thread =>
    if 0 < s.count ∧ s.Idle thread then
      some { s with count := s.count - 1, passed := insert thread s.passed }
    else none
  | .pop thread =>
    if s.mutex = none ∧ thread ∈ s.passed then
      -- an empty queue makes `receive` return false
      match s.data with
      | [] => some { s with passed := s.passed.erase thread }
      | buf :: rest => some { s with
          data := rest
          passed := s.passed.erase thread
          pops := s.pops ++ [(thread, buf)] }
    else none

def start : State := ⟨[], 0, none, ∅, [], []⟩

def machine : Machine State Action where
  init s := s = start
  step := step

def State.unsignaled (s : State) : ℤ :=
  match s.mutex with
  | some (.pushed _) => 1
  | _ => 0

theorem unsignaled_free {s : State} (h : s.mutex = none) : s.unsignaled = 0 := by
  unfold State.unsignaled
  rw [h]

theorem unsignaled_pushed {s : State} {thread : ℕ} (h : s.mutex = some (.pushed thread)) :
    s.unsignaled = 1 := by
  unfold State.unsignaled
  rw [h]

theorem unsignaled_signaled {s : State} {thread : ℕ} (h : s.mutex = some (.signaled thread)) :
    s.unsignaled = 0 := by
  unfold State.unsignaled
  rw [h]

/-- Every buffer of the queue is counted, claimed by a receiver or about to be counted,
and the queue is what is left of the pushes. -/
structure Accounted (s : State) : Prop where
  count_nonneg : 0 ≤ s.count
  length : s.count + s.passed.card + s.unsignaled = s.data.length
  order : s.pops.map Prod.snd ++ s.data = s.pushes

theorem accounted_start : Accounted start := ⟨le_refl _, rfl, rfl⟩

section Steps

variable {s s' : State} {thread : ℕ}

/-- A receiver that has passed `p` finds the queue occupied. -/
theorem Accounted.data_ne_nil (hs : Accounted s) (hmutex : s.mutex = none)
    (hpassed : thread ∈ s.passed) : s.data ≠ [] := by
  intro hnil
  have hlength := hs.length
  have hcount := hs.count_nonneg
  have hcard : 0 < s.passed.card := Finset.card_pos.mpr ⟨thread, hpassed⟩
  rw [unsignaled_free hmutex, hnil, List.length_nil] at hlength
  omega

theorem Accounted.pushBack (hs : Accounted s) (buf : Buffer)
    (h : step s (.pushBack thread buf) = some s') : Accounted s' := by
  simp only [step] at h
  split_ifs at h with hfree
  cases h
  have hlength := hs.length
  rw [unsignaled_free hfree.1] at hlength
  refine ⟨hs.count_nonneg, ?_, ?_⟩
  · change s.count + s.passed.card + 1 = ((s.data ++ [buf]).length : ℤ)
    rw [List.length_append, List.length_singleton]
    omega
  · change s.pops.map Prod.snd ++ (s.data ++ [buf]) = s.pushes ++ [buf]
    rw [← List.append_assoc, hs.order]

theorem Accounted.v (hs : Accounted s) (h : step s (.v thread) = some s') : Accounted s' := by
  simp only [step] at h
  split_ifs at h with hpushed
  cases h
  have hlength := hs.length
  have hcount := hs.count_nonneg
  rw [unsignaled_pushed hpushed] at hlength
  refine ⟨?_, ?_, hs.order⟩
  · change 0 ≤ s.count + 1
    omega
  · change s.count + 1 + s.passed.card + 0 = (s.data.length : ℤ)
    omega

theorem Accounted.unlock (hs : Accounted s) (h : step s (.unlock thread) = some s') :
    Accounted s' := by
  simp only [step] at h
  split_ifs at h with hsignaled
  cases h
  have hlength := hs.length
  rw [unsignaled_signaled hsignaled] at hlength
  exact ⟨hs.count_nonneg, hlength, hs.order⟩

theorem Accounted.p (hs : Accounted s) (h : step s (.p thread) = some s') : Accounted s' := by
  simp only [step] at h
  split_ifs at h with hidle
  cases h
  have hlength := hs.length
  have hcard : (insert thread s.passed).card = s.passed.card + 1 :=
    Finset.card_insert_of_notMem hidle.2.1
  refine ⟨?_, ?_, hs.order⟩
  · change 0 ≤ s.count - 1
    omega
  · change s.count - 1 + (insert thread s.passed).card + s.unsignaled = (s.data.length : ℤ)
    rw [hcard]
    omega

/-- A pop takes the head of the queue. -/
theorem Accounted.pop_cases (hs : Accounted s) (h : step s (.pop thread) = some s') :
    ∃ buf rest, thread ∈ s.passed ∧ s.data = buf :: rest ∧
      s' = { s with
        data := rest
        passed := s.passed.erase thread
        pops := s.pops ++ [(thread, buf)] } := by
  simp only [step] at h
  split_ifs at h with hpassed
  obtain ⟨buf, rest, hdata⟩ := List.exists_cons_of_ne_nil (hs.data_ne_nil hpassed.1 hpassed.2)
  rw [hdata] at h
  cases h
  exact ⟨buf, rest, hpassed.2, hdata, rfl⟩

theorem Accounted.pop (hs : Accounted s) (h : step s (.pop thread) = some s') :
    Accounted s' := by
  obtain ⟨buf, rest, hpassed, hdata, rfl⟩ := hs.pop_cases h
  have hlength := hs.length
  have hcard := Finset.card_erase_add_one hpassed
  rw [hdata, List.length_cons] at hlength
  refine ⟨hs.count_nonneg, ?_, ?_⟩
  · change s.count + (s.passed.erase thread).card + s.unsignaled = (rest.length : ℤ)
    omega
  · change (s.pops ++ [(thread, buf)]).map Prod.snd ++ rest = s.pushes
    rw [← hs.order, hdata, List.map_append, List.append_assoc]
    rfl

end Steps

theorem accounted_of_reachable {s : State} (hs : machine.Reachable s) : Accounted s := by
  refine hs.invariant ?_ ?_
  · rintro s rfl
    exact accounted_start
  · intro s action s' _ hP hstep _
    cases action with
    | pushBack thread buf => exact hP.pushBack buf hstep
    | v thread => exact hP.v hstep
    | unlock thread => exact hP.unlock hstep
    | p thread => exact hP.p hstep
    | pop thread => exact hP.pop hstep

/-- A pop takes the buffer whose push comes after the pushes already answered. -/
theorem Accounted.pop_eq {s s' : State} {thread : ℕ} (hs : Accounted s)
    (h : step s (.pop thread) = some s') :
    ∃ buf, s.pushes[s.pops.length]? = some buf ∧ s'.pops = s.pops ++ [(thread, buf)] := by
  obtain ⟨buf, rest, -, hdata, rfl⟩ := hs.pop_cases h
  refine ⟨buf, ?_, rfl⟩
  rw [← hs.order, hdata, List.getElem?_append_right (by simp)]
  simp

theorem pops_of_ne_pop {s s' : State} {action : Action} (h : step s action = some s')
    (hne : ∀ thread, action ≠ .pop thread) : s'.pops = s.pops := by
  cases action with
  | pop thread => exact absurd rfl (hne thread)
  | pushBack thread buf | v thread | unlock thread | p thread =>
    simp only [step] at h
    split_ifs at h
    cases h
    rfl

/-- In every state of every interleaving the count and the receivers between `p` and
their pop make up the queue when no push is in progress; such a receiver never finds
the queue empty; each pop answers the oldest push that has not been answered, and
nothing else adds a pop; and a queued buffer is never out of reach. -/
theorem queue_accounted {s : State} (hs : machine.Reachable s) :
    (s.mutex = none → s.count + s.passed.card = s.data.length) ∧
      (∀ thread ∈ s.passed, s.mutex = none → s.data ≠ []) ∧
      s.pops.map Prod.snd ++ s.data = s.pushes ∧
      (∀ thread s', step s (.pop thread) = some s' →
        ∃ buf, s.pushes[s.pops.length]? = some buf ∧ s'.pops = s.pops ++ [(thread, buf)]) ∧
      (∀ action s', step s action = some s' → (∀ thread, action ≠ .pop thread) →
        s'.pops = s.pops) ∧
      (s.mutex = none → s.data ≠ [] → 0 < s.count ∨ s.passed.Nonempty) := by
  have haccounted := accounted_of_reachable hs
  have hlength : s.mutex = none → s.count + s.passed.card = s.data.length := fun hmutex => by
    have hall := haccounted.length
    rwa [unsignaled_free hmutex, add_zero] at hall
  refine ⟨hlength, fun thread hpassed hmutex => haccounted.data_ne_nil hmutex hpassed,
    haccounted.order, fun thread s' h => haccounted.pop_eq h,
    fun action s' h hne => pops_of_ne_pop h hne, fun hmutex hdata => ?_⟩
  by_contra hnone
  rw [not_or, Finset.not_nonempty_iff_eq_empty] at hnone
  have hpos := List.length_pos_of_ne_nil hdata
  have hsum := hlength hmutex
  rw [hnone.2, Finset.card_empty] at hsum
  omega

def crossedRun : List Action :=
  [.pushBack 1 ⟨0, ⟨⟨broadcastAddr, localAddr, 0⟩, fun _ => 0, 0⟩⟩, .v 1, .p 2, .unlock 1,
    .pushBack 1 ⟨1, ⟨⟨broadcastAddr, localAddr, 0⟩, fun _ => 0, 0⟩⟩, .v 1, .p 3, .unlock 1, .pop 3]

theorem queue_accounted_of_crossedRun :
    ∃ s, machine.exec start crossedRun = some s ∧ s.pops.map Prod.fst = [3] ∧
      s.count + s.passed.card = s.data.length := by
  obtain ⟨s, hs, hreachable, hgoal⟩ := Machine.Reachable.exec_any (M := machine)
    (s := start) (.init rfl) crossedRun
    (fun s => decide (s.mutex = none ∧ s.pops.map Prod.fst = [3])) (by decide)
  obtain ⟨hmutex, hpops⟩ := of_decide_eq_true hgoal
  exact ⟨s, hs, hpops, (queue_accounted hreachable).1 hmutex⟩

def endpointsAfter (e : Endpoints) (o : ℕ) (c : Communicator) : Action → Endpoints
  | .pushBack _ buf => e.queueIncomingBuffer buf o
  | .pop _ => c.data.head?.elim e (e.receive o c)
  | .v _ | .unlock _ | .p _ => e

/-- The endpoints take a push and a pop for one step each, and leave the same queue. -/
theorem endpointsAfter_data {s s' : State} {action : Action} (h : step s action = some s')
    {e : Endpoints} {o : ℕ} {c : Communicator} (hc : e.communicator o = some c)
    (hdata : c.data = s.data) :
    ((endpointsAfter e o c action).communicator o).map Communicator.data = some s'.data := by
  cases action with
  | pushBack thread buf =>
    simp only [step] at h
    split_ifs at h
    cases h
    rw [endpointsAfter, Endpoints.queueIncomingBuffer_communicator, Function.update_self, hc,
      Option.map_some, Option.map_some, hdata]
  | pop thread =>
    simp only [step] at h
    split_ifs at h
    unfold endpointsAfter
    cases hqueue : s.data with
    | nil =>
      rw [hqueue] at h
      cases h
      rw [hdata, hqueue, List.head?_nil, Option.elim_none, hc, Option.map_some, hdata]
      exact congrArg some hqueue
    | cons buf rest =>
      rw [hqueue] at h
      cases h
      rw [hdata, hqueue, List.head?_cons, Option.elim_some, Endpoints.receive_communicator,
        Function.update_self, Option.map_some, hdata, hqueue]
      rfl
  | v thread | unlock thread | p thread =>
    simp only [step] at h
    split_ifs at h
    cases h
    rw [endpointsAfter, hc, Option.map_some, hdata]

end CommunicationAPI.CommunicatorQueue
