import Mathlib.Tactic.Common

/-!
# Partial-step machines

A machine has a set of initial states and a partial step for each action. A
run may be restricted by a condition on its steps: `Reaches ok` collects the
states of the runs all of whose steps meet `ok`, and `Reachable` the states of
all runs. Invariants are proved one step at a time, and a finite list of
actions can be executed to exhibit a reachable state.
-/

namespace TransitionSystem

structure Machine (σ α : Type*) where
  init : σ → Prop
  step : σ → α → Option σ

/-- A condition on a step: the state before, the action and the state after. -/
abbrev StepCondition (σ α : Type*) := σ → α → σ → Prop

namespace Machine
variable {σ α : Type*} (M : Machine σ α)

inductive Reaches (ok : StepCondition σ α) : σ → Prop
  | init {s : σ} : M.init s → Reaches ok s
  | step {s s' : σ} {a : α} : Reaches ok s → M.step s a = some s' → ok s a s' → Reaches ok s'

abbrev Reachable : σ → Prop := M.Reaches fun _ _ _ => True

variable {M} {ok ok' : StepCondition σ α} {P Q : σ → Prop}

theorem Reaches.mono (h : ∀ s a s', M.step s a = some s' → ok s a s' → ok' s a s') {s : σ}
    (hs : M.Reaches ok s) : M.Reaches ok' s := by
  induction hs with
  | init hi => exact .init hi
  | step _ hstep hok ih => exact .step ih hstep (h _ _ _ hstep hok)

/-- The invariant rule. A step may use that its source state is itself reached. -/
theorem Reaches.invariant (hinit : ∀ s, M.init s → P s)
    (hstep : ∀ s a s', M.Reaches ok s → P s → M.step s a = some s' → ok s a s' → P s')
    {s : σ} (hs : M.Reaches ok s) : P s := by
  induction hs with
  | init hi => exact hinit _ hi
  | step hr hs hok ih => exact hstep _ _ _ hr ih hs hok

/-- Runs that meet `ok` meet `ok'` as well when every step from a state with
the invariant does. -/
theorem Reaches.strengthen (hinit : ∀ s, M.init s → P s)
    (hok : ∀ s a s', M.Reaches ok' s → P s → M.step s a = some s' → ok s a s' → ok' s a s')
    (hstep : ∀ s a s', M.Reaches ok' s → P s → M.step s a = some s' → ok s a s' → P s')
    {s : σ} (hs : M.Reaches ok s) : M.Reaches ok' s ∧ P s := by
  induction hs with
  | init hi => exact ⟨.init hi, hinit _ hi⟩
  | step _ hs hc ih =>
      exact ⟨.step ih.1 hs (hok _ _ _ ih.1 ih.2 hs hc), hstep _ _ _ ih.1 ih.2 hs hc⟩

/-- A condition is exact for `P` if runs that meet it keep `P`, and no other step from
such a run does. `I` is the invariant of these runs. -/
theorem Reaches.exact {I : σ → Prop} (hinit : ∀ s, M.init s → I s) (hP : ∀ s, I s → P s)
    (hstep : ∀ s a s', I s → M.step s a = some s' → ok s a s' → I s')
    (hexact : ∀ s a s', I s → M.step s a = some s' → P s' → ok s a s')
    {s : σ} (hs : M.Reaches ok s) :
    P s ∧ ∀ a s', M.step s a = some s' → (P s' ↔ ok s a s') := by
  have hI : I s := hs.invariant hinit fun _ _ _ _ hI hstep' hok => hstep _ _ _ hI hstep' hok
  refine ⟨hP s hI, fun a s' hs' => ?_⟩
  constructor
  · exact hexact s a s' hI hs'
  · exact fun hok => hP s' (hstep s a s' hI hs' hok)

/-- A run stays in `P`, or has a first step that leaves it. -/
theorem Reaches.stays_or_leaves (hinit : ∀ s, M.init s → P s) {s : σ} (hs : M.Reaches ok s) :
    M.Reaches (fun s a s' => ok s a s' ∧ P s') s ∧ P s ∨
      ∃ r a r', M.Reaches (fun s a s' => ok s a s' ∧ P s') r ∧ P r ∧
        M.step r a = some r' ∧ ok r a r' ∧ ¬ P r' := by
  induction hs with
  | init hi => exact .inl ⟨.init hi, hinit _ hi⟩
  | @step s s' a _ hstep hok ih =>
      rcases ih with ⟨hr, hP⟩ | hleaves
      · by_cases hP' : P s'
        · exact .inl ⟨hr.step hstep ⟨hok, hP'⟩, hP'⟩
        · exact .inr ⟨s, a, s', hr, hP, hstep, hok, hP'⟩
      · exact .inr hleaves

variable (M)

def exec : σ → List α → Option σ
  | s, [] => some s
  | s, a :: as => (M.step s a).bind fun s' => exec s' as

/-- Execution that stops at the first step refused by the test. -/
def execIf (test : σ → α → σ → Bool) : σ → List α → Option σ
  | s, [] => some s
  | s, a :: as => (M.step s a).bind fun s' => if test s a s' then execIf test s' as else none

variable {M}

/-- Tested execution. The test may rely on an invariant that it maintains. -/
theorem Reaches.execIf_of {test : σ → α → σ → Bool}
    (htest : ∀ s a s', P s → M.step s a = some s' → test s a s' = true → ok s a s' ∧ P s')
    {s t : σ} {as : List α} (hs : M.Reaches ok s) (hP : P s)
    (he : M.execIf test s as = some t) : M.Reaches ok t := by
  induction as generalizing s with
  | nil => cases he; exact hs
  | cons a as ih =>
      obtain ⟨s', hstep, he⟩ := Option.bind_eq_some_iff.mp he
      split at he
      · obtain ⟨hok, hP'⟩ := htest _ _ _ hP hstep ‹_›
        exact ih (hs.step hstep hok) hP' he
      · cases he

theorem Reaches.execIf {test : σ → α → σ → Bool}
    (htest : ∀ s a s', test s a s' = true → ok s a s') {s t : σ} {as : List α}
    (hs : M.Reaches ok s) (he : M.execIf test s as = some t) : M.Reaches ok t :=
  hs.execIf_of (P := fun _ => True) (fun s a s' _ _ h => ⟨htest s a s' h, trivial⟩) trivial he

theorem Reachable.exec {s t : σ} {as : List α} (hs : M.Reachable s)
    (he : M.exec s as = some t) : M.Reachable t := by
  induction as generalizing s with
  | nil => cases he; exact hs
  | cons a as ih =>
      obtain ⟨s', hstep, he⟩ := Option.bind_eq_some_iff.mp he
      exact ih (hs.step hstep trivial) he

/-- A run that can be executed, up to a state with the tested property. -/
theorem Reachable.exec_any {s : σ} (hs : M.Reachable s) (as : List α) (goal : σ → Bool)
    (he : (M.exec s as).any goal = true) :
    ∃ t, M.exec s as = some t ∧ M.Reachable t ∧ goal t = true := by
  obtain ⟨t, ht, hgoal⟩ := (Option.any_eq_true goal _).mp he
  exact ⟨t, ht, hs.exec ht, hgoal⟩

/-- The measure rule: where every step with an admitted action lowers `f`, but for some that
raise it by less than `n`, an execution of admitted actions is no longer than `f` and the number of
the others allow. -/
theorem Reachable.length_le {admitted : α → Prop} (f : σ → ℕ) (raises : α → Bool) (n : ℕ)
    (hstep : ∀ s a s', M.Reachable s → admitted a → M.step s a = some s' →
      f s' + 1 ≤ f s + if raises a then n else 0)
    {s t : σ} {as : List α} (hs : M.Reachable s) (has : ∀ a ∈ as, admitted a)
    (he : M.exec s as = some t) : as.length + f t ≤ f s + n * as.countP raises := by
  induction as generalizing s with
  | nil =>
      cases he
      exact Nat.le_of_eq (Nat.zero_add _)
  | cons a as ih =>
      obtain ⟨s', ha, he⟩ := Option.bind_eq_some_iff.mp he
      have hlt := hstep s a s' hs (has a List.mem_cons_self) ha
      have hrest := ih (hs.step ha trivial) (fun b hb => has b (List.mem_cons_of_mem a hb)) he
      rw [List.length_cons, List.countP_cons, Nat.mul_add]
      split_ifs at hlt ⊢ <;> omega

/-- Simulation: a machine whose steps are steps of another one, or none of them, reaches
only what the other one reaches. -/
theorem Reachable.simulate {τ β : Type*} {N : Machine τ β} (f : σ → τ)
    (hinit : ∀ s, M.init s → N.init (f s))
    (hstep : ∀ s a s', M.Reachable s → M.step s a = some s' →
      f s' = f s ∨ ∃ b, N.step (f s) b = some (f s'))
    {s : σ} (hs : M.Reachable s) : N.Reachable (f s) := by
  induction hs with
  | init hi => exact .init (hinit _ hi)
  | @step s s' a hr hs _ ih =>
    rcases hstep s a s' hr hs with hsame | ⟨b, hb⟩
    · rw [hsame]
      exact ih
    · exact ih.step hb trivial

end Machine

section Logs
variable {α : Type*} {l l' : List α} {a b : α} {i j : ℕ}

theorem getElem?_mono (h : l <+: l') (ha : l[i]? = some a) : l'[i]? = some a := by
  obtain ⟨rest, rfl⟩ := h
  rw [List.getElem?_append_left (List.getElem?_eq_some_iff.mp ha).1]
  exact ha

/-- What a log holds at most once it holds at one place. -/
theorem index_unique {p : α → Bool} (h : l.countP p ≤ 1) (hi : l[i]? = some a) (ha : p a = true)
    (hj : l[j]? = some b) (hb : p b = true) : i = j := by
  induction l generalizing i j with
  | nil => cases hi
  | cons c l ih =>
    have hnone : ∀ (k : ℕ) (d : α), p c = true → l[k]? = some d → p d = true → False := by
      intro k d hc hk hd
      rw [List.countP_cons_of_pos hc] at h
      have hpos : 0 < l.countP p := List.countP_pos_iff.mpr ⟨d, List.mem_of_getElem? hk, hd⟩
      omega
    cases i with
    | zero =>
      cases hi
      cases j with
      | zero => rfl
      | succ j => exact (hnone j b ha hj hb).elim
    | succ i =>
      cases j with
      | zero =>
        cases hj
        exact (hnone i a hb hi ha).elim
      | succ j =>
        have hrest : l.countP p ≤ 1 :=
          Nat.le_trans (List.sublist_cons_self c l).countP_le h
        rw [ih hrest hi hj]

end Logs
end TransitionSystem
