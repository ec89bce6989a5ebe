import CommunicationAPI.MonitorProgress

/-!
# The semaphore of the observers

`Semaphore` is a counter behind a mutex and a condition variable. `v` notifies
after it has counted up, and `p` waits in a loop until the counter is positive.
The counter is an `int`, and the results are about runs in which it stays one.
-/

namespace CommunicationAPI.Semaphore
open TransitionSystem Monitor

inductive Call
  | v
  | p
  deriving DecidableEq

def semaphore : Calls ℤ Call where
  guard
    | .v, _ => true
    | .p, count => decide (0 < count)
  effect
    | .v, count => count + 1
    | .p, count => count - 1
  notifies
    | .v => true
    | .p => false

def waits : Call → Bool
  | .v => false
  | .p => true

theorem permits : semaphore.Permits Int.toNat waits where
  guard
    | .v, _ => by simp [semaphore, waits]
    | .p, count => by simp [semaphore, waits]
  takes
    | .v, _ => nofun
    | .p, count => fun _ hpos => by
      change (count - 1).toNat + 1 = count.toNat
      omega
  gives
    | .v, count => fun _ => by
      change (count + 1).toNat ≤ count.toNat + 1
      omega
    | .p, _ => nofun
  silent
    | .v => nofun
    | .p => fun _ => rfl

variable {ι : Type*}

/-- The counter after a sequential history of calls. A call of `p` leaves it nonnegative. -/
theorem count_of_replay {l : List (ι × Call)} {initial count : ℤ}
    (h : semaphore.replay initial l = some count) :
    count = initial + Calls.countOf l .v - Calls.countOf l .p ∧
      (Calls.countOf l .p = 0 ∨ 0 ≤ count) := by
  induction l using List.reverseRecOn generalizing count with
  | nil =>
    cases h
    exact ⟨by simp [Calls.countOf], .inl rfl⟩
  | append_singleton l c ih =>
    obtain ⟨t, k⟩ := c
    rw [Calls.replay_concat] at h
    obtain ⟨before, hbefore, h⟩ := Option.bind_eq_some_iff.mp h
    obtain ⟨hcount, hsign⟩ := ih hbefore
    rw [Calls.countOf_concat, Calls.countOf_concat]
    cases k with
    | v =>
      cases h
      have hv : Calls.awaits Call.v (.entering .v) = 1 := rfl
      have hp : Calls.awaits Call.p (.entering .v) = 0 := rfl
      rw [hv, hp]
      change before + 1 = _ ∧ (_ ∨ 0 ≤ before + 1)
      omega
    | p =>
      obtain ⟨hpos, h⟩ := Option.ite_none_right_eq_some.mp h
      cases h
      have hv : Calls.awaits Call.v (.entering .p) = 0 := rfl
      have hp : Calls.awaits Call.p (.entering .p) = 1 := rfl
      have hpositive : 0 < before := of_decide_eq_true hpos
      rw [hv, hp]
      change before - 1 = _ ∧ (_ ∨ 0 ≤ before - 1)
      omega

variable [Fintype ι] [DecidableEq ι] {initial : ℤ} {s : State ℤ Call ι}

/-- Once no thread can move, every `v` has counted, and as many calls of `p` have returned as
there were calls or as the counter allowed. -/
theorem completed_at_rest (hs : (semaphore.machine initial).Reachable s) (hrest : s.Rest) :
    Calls.countOf s.done .v = Calls.countOf s.called .v ∧
      Calls.countOf s.done .p =
        min (Calls.countOf s.called .p) (initial + Calls.countOf s.called .v).toNat := by
  have hasleep := (Calls.supplied_of_reachable permits hs).asleep
  have hv : s.total (Calls.awaits .v) = 0 := by
    refine Finset.sum_eq_zero fun t _ => ?_
    have ht := hrest t
    cases hpc : s.pc t with
    | idle => rfl
    | asleep k =>
      cases k with
      | v => exact absurd (hasleep t _ hpc) Bool.false_ne_true
      | p => rfl
    | entering | checking | acting | notifying | leaving =>
      rw [hpc] at ht
      exact ht.elim
  have hcalledV := Calls.accounted hs .v
  have hcalledP := Calls.accounted hs .p
  obtain ⟨hcount, hsign⟩ := count_of_replay (Calls.replay_done hs)
  rcases Calls.rest_permits permits hs hrest with hzero | hnone
  · omega
  · have hp : s.total (Calls.awaits .p) = 0 := by
      refine Finset.sum_eq_zero fun t _ => ?_
      have ht := hrest t
      cases hpc : s.pc t with
      | idle => rfl
      | asleep k => exact absurd hpc (hnone t k)
      | entering | checking | acting | notifying | leaving =>
        rw [hpc] at ht
        exact ht.elim
    omega

/-- Before the first call of `p` the counter does not fall, and later it is not negative. -/
theorem count_bounds (hs : (semaphore.machine initial).Reachable s) :
    min initial 0 ≤ s.data ∧ s.data ≤ initial + Calls.countOf s.called .v := by
  obtain ⟨hcount, hsign⟩ := count_of_replay (Calls.replay_done hs)
  have hcalled := Calls.accounted hs .v
  omega

/-- The counter is exact and an `int` as long as there are not too many calls of `v`. An execution
without further calls ends, up to the threads that wake up without a notification, it does not end
early, and no `v` is lost on the threads that wait. -/
theorem semaphore_exact (hs : (semaphore.machine initial).Reachable s)
    (hinitial : -2 ^ 31 ≤ initial) (hcalls : initial + Calls.countOf s.called .v < 2 ^ 31) :
    (-2 ^ 31 ≤ s.data ∧ s.data < 2 ^ 31 ∧
      s.data = initial + Calls.countOf s.done .v - Calls.countOf s.done .p) ∧
      (∀ t u, (s.pc t).Holds → (s.pc u).Holds → t = u) ∧
      (∀ as s', (∀ a ∈ as, a.isCall = false) → (semaphore.machine initial).exec s as = some s' →
        as.length ≤ s.total (Calls.work semaphore) + 5 * as.countP Action.isWake) ∧
      (¬ s.Rest → ∃ a, a.Internal ∧ (semaphore.step s a).isSome) ∧
      (s.Rest → Calls.countOf s.done .p =
        min (Calls.countOf s.called .p) (initial + Calls.countOf s.called .v).toNat) := by
  have hlock := Calls.locked_of_reachable hs
  obtain ⟨hlow, hhigh⟩ := count_bounds hs
  refine ⟨⟨?_, hhigh.trans_lt hcalls, (count_of_replay (Calls.replay_done hs)).1⟩,
    fun _ _ => hlock.unique, fun as s' has he => ?_, Calls.exists_internal hlock, fun hrest => ?_⟩
  · exact (le_min hinitial (by decide)).trans hlow
  · exact (Nat.le_add_right _ _).trans (Calls.length_le_work permits hs has he)
  · exact (completed_at_rest hs hrest).2

def handover : List (Action Call Bool) :=
  [.call false .p, .acquire false, .check false, .call true .v, .acquire true, .check true,
    .act true, .notify true (some false), .release true, .acquire false, .check false, .act false,
    .release false]

theorem semaphore_exact_of_handover :
    ∃ s : State ℤ Call Bool, (semaphore.machine 0).Reachable s ∧ s.Rest ∧
      Calls.countOf s.called .p = 1 ∧ Calls.countOf s.called .v = 1 ∧
      Calls.countOf s.done .p = 1 := by
  obtain ⟨s, -, hs, hgoal⟩ := Machine.Reachable.exec_any (M := semaphore.machine 0) (.init rfl)
    handover (fun s => decide (s.pc false = .idle ∧ s.pc true = .idle ∧
      Calls.countOf s.called .p = 1 ∧ Calls.countOf s.called .v = 1)) (by decide)
  obtain ⟨hfirst, hsecond, hp, hv⟩ := of_decide_eq_true hgoal
  have hrest : s.Rest := by
    intro t
    cases t with
    | false => rw [hfirst]; trivial
    | true => rw [hsecond]; trivial
  refine ⟨s, hs, hrest, hp, hv, ?_⟩
  have hcalls : (0 : ℤ) + Calls.countOf s.called .v < 2 ^ 31 := by
    rw [hv]
    decide
  rw [(semaphore_exact hs (by decide) hcalls).2.2.2.2 hrest, hp, hv]
  rfl

end CommunicationAPI.Semaphore
