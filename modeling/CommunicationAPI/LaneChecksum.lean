import Mathlib.Data.Finset.Fold
import Mathlib.Data.Finset.Range

/-!
# Checksums with interleaved lanes

A sequence is dealt out to `w` lanes in turn and every lane folds its elements
with one commutative operation. At most `w` consecutive elements fall into
different lanes, so a burst of that length changes every lane it meets.
-/

namespace LaneChecksum

section Lanes

variable {α : Type*} (op : α → α → α) [Std.Commutative op] [Std.Associative op] (e : α) (w : ℕ)

/-- The elements of the first `n` that fall into lane `k`, folded. -/
def lane (k n : ℕ) (f : ℕ → α) : α := {i ∈ Finset.range n | i % w = k}.fold op e f

theorem lane_succ (k n : ℕ) (f : ℕ → α) :
    lane op e w k (n + 1) f =
      if n % w = k then op (f n) (lane op e w k n f) else lane op e w k n f := by
  unfold lane
  rw [Finset.range_add_one, Finset.filter_insert]
  split_ifs
  · exact Finset.fold_insert (by simp)
  · rfl

/-- Part of a round of the deal: lane `k` has its turn once the round is past `k`. -/
theorem lane_add (q : ℕ) {j k : ℕ} (hj : j ≤ w) (f : ℕ → α) :
    lane op e w k (w * q + j) f =
      if k < j then op (f (w * q + k)) (lane op e w k (w * q) f)
      else lane op e w k (w * q) f := by
  induction j with
  | zero => rfl
  | succ j ih =>
    have hturn : (w * q + j) % w = j := by
      rw [Nat.mul_add_mod, Nat.mod_eq_of_lt (by omega)]
    rw [← Nat.add_assoc, lane_succ, hturn, ih (by omega)]
    rcases Nat.lt_trichotomy k j with hlt | rfl | hgt
    · rw [if_neg hlt.ne', if_pos hlt, if_pos (by omega)]
    · rw [if_pos rfl, if_neg (Nat.lt_irrefl k), if_pos (Nat.lt_succ_self k)]
    · rw [if_neg (by omega), if_neg (by omega), if_neg (by omega)]

/-- A lane is the fold of everything, with a neutral element in place of the other lanes. -/
theorem fold_ite_eq_lane (hneutral : ∀ a, op e a = a) (k n : ℕ) (f : ℕ → α) :
    ((Finset.range n).fold op e fun i => if k = i % w then f i else e) = lane op e w k n f := by
  induction n with
  | zero => rfl
  | succ n ih =>
    rw [Finset.range_add_one, Finset.fold_insert Finset.notMem_range_self, ih, lane_succ]
    by_cases hk : k = n % w
    · rw [if_pos hk, if_pos hk.symm]
    · rw [if_neg hk, if_neg (Ne.symm hk), hneutral]

theorem mod_eq_of_window {s i j : ℕ} (hi : s ≤ i ∧ i < s + w) (hj : s ≤ j ∧ j < s + w)
    (h : i % w = j % w) : i = j := by
  have hdiv := Nat.div_add_mod i w
  have hdiv' := Nat.div_add_mod j w
  rcases Nat.lt_trichotomy (i / w) (j / w) with hlt | heq | hgt
  · have hstep : w * (i / w + 1) ≤ w * (j / w) := Nat.mul_le_mul_left w hlt
    rw [Nat.mul_add, Nat.mul_one] at hstep
    omega
  · rw [heq] at hdiv
    omega
  · have hstep : w * (j / w + 1) ≤ w * (i / w) := Nat.mul_le_mul_left w hgt
    rw [Nat.mul_add, Nat.mul_one] at hstep
    omega

/-- A burst of at most `w` elements shows in the lane of every element it changes. -/
theorem lane_ne_of_burst (hcancel : ∀ a b c, op a c = op b c → a = b) {n s i : ℕ} {f g : ℕ → α}
    (hwindow : ∀ j < n, f j ≠ g j → s ≤ j ∧ j < s + w) (hi : i < n) (hne : f i ≠ g i) :
    lane op e w (i % w) n f ≠ lane op e w (i % w) n g := by
  have hmem : i ∈ {j ∈ Finset.range n | j % w = i % w} := by simp [hi]
  have hsplit : ∀ h : ℕ → α, lane op e w (i % w) n h =
      op (h i) (({j ∈ Finset.range n | j % w = i % w}.erase i).fold op e h) := by
    intro h
    unfold lane
    conv_lhs => rw [← Finset.insert_erase hmem]
    exact Finset.fold_insert (Finset.notMem_erase i _)
  have hrest : ({j ∈ Finset.range n | j % w = i % w}.erase i).fold op e f =
      ({j ∈ Finset.range n | j % w = i % w}.erase i).fold op e g := by
    refine Finset.fold_congr fun j hj => ?_
    rw [Finset.mem_erase, Finset.mem_filter, Finset.mem_range] at hj
    by_contra hother
    exact hj.1 (mod_eq_of_window w (hwindow j hj.2.1 hother) (hwindow i hi hne) hj.2.2)
  rw [hsplit f, hsplit g, hrest]
  exact fun h => hne (hcancel _ _ _ h)

end Lanes

/-- Full rounds of the deal and a part of another one are what is dealt out, in order. -/
theorem flatMap_rounds (w q r : ℕ) :
    ((List.range q).flatMap fun i => (List.range w).map (w * i + ·)) ++
        (List.range r).map (w * q + ·) = List.range (w * q + r) := by
  have hrounds : ((List.range q).flatMap fun i => (List.range w).map (w * i + ·)) =
      List.range (w * q) := by
    induction q with
    | zero => rfl
    | succ q ih =>
      rw [List.range_succ, List.flatMap_append, ih, List.flatMap_singleton, Nat.mul_succ,
        List.range_add]
  rw [hrounds, List.range_add]

end LaneChecksum
