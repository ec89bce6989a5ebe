import Mathlib.Data.List.Basic
import Mathlib.Data.List.Induction

/-!
# Loops over the indices of a list

A loop that goes down through the indices and erases as it goes leaves the rest
of the list in order, and a loop that goes up through them visits the elements.
-/

namespace IndexLoop

variable {α σ : Type*}

/-- The loop from index `n - 1` down to zero that erases the elements with `p`. -/
def eraseDown (p : α → Bool) : ℕ → List α → List α
  | 0, l => l
  | i + 1, l => eraseDown p i (if l[i]?.any p then l.eraseIdx i else l)

/-- The loop from index zero up to the end. -/
def visitUp (f : σ → α → σ) (l : List α) (s : σ) : σ :=
  (List.range l.length).foldl (fun s i => l[i]?.elim s (f s)) s

/-- The elements behind the index of the loop are not touched any more. -/
theorem eraseDown_append (p : α → Bool) (xs ys : List α) :
    eraseDown p xs.length (xs ++ ys) = xs.filter (fun a => !p a) ++ ys := by
  induction xs using List.reverseRecOn generalizing ys with
  | nil => rfl
  | append_singleton xs a ih =>
    have hat : (xs ++ [a] ++ ys)[xs.length]? = some a := by simp
    have herase : (xs ++ [a] ++ ys).eraseIdx xs.length = xs ++ ys := by
      rw [List.append_assoc, List.eraseIdx_append_of_length_le (Nat.le_refl _), Nat.sub_self]
      rfl
    rw [List.length_append, List.length_singleton, eraseDown, hat, Option.any_some]
    cases hp : p a with
    | true =>
      rw [if_pos rfl, herase, ih, List.filter_append, List.filter_singleton, hp]
      simp
    | false =>
      rw [if_neg Bool.false_ne_true, List.append_assoc, ih, List.filter_append,
        List.filter_singleton, hp]
      simp

theorem eraseDown_length (p : α → Bool) (l : List α) :
    eraseDown p l.length l = l.filter fun a => !p a := by
  have h := eraseDown_append p l []
  rwa [List.append_nil, List.append_nil] at h

theorem visitUp_eq_foldl (f : σ → α → σ) (l : List α) (s : σ) :
    visitUp f l s = l.foldl f s := by
  unfold visitUp
  induction l using List.reverseRecOn generalizing s with
  | nil => rfl
  | append_singleton l a ih =>
    have hbefore : ∀ s, (List.range l.length).foldl
        (fun s i => (l ++ [a])[i]?.elim s (f s)) s = l.foldl f s := by
      intro s
      rw [← ih]
      refine List.foldl_ext _ _ _ fun s i hi => ?_
      rw [List.getElem?_append_left (List.mem_range.mp hi)]
    rw [List.length_append, List.length_singleton, List.range_succ, List.foldl_append, hbefore,
      List.foldl_append, List.foldl_cons, List.foldl_nil, List.getElem?_concat_length]
    rfl

end IndexLoop
