import Mathlib.Algebra.Order.Ring.Int
import Mathlib.Tactic.Common

/-!
# Mutual exclusion by a binary semaphore

`Exclusive n holds` relates the value `n` of a semaphore initialised to one
with the set of threads between their successful wait and their post. A thread
may also leave its critical section without posting; the semaphore then stays
at zero.

`Adjusted n adj owner holds` adds the processes that own the threads. A process
has an adjustment, one after a wait and zero after a post, that is added to the
semaphore when the process ends.
-/

namespace BinarySemaphore

structure Exclusive {ι : Type*} (n : ℕ) (holds : ι → Prop) : Prop where
  free : 0 < n → ∀ x, ¬ holds x
  le_one : n ≤ 1
  unique : ∀ x y, holds x → holds y → x = y

namespace Exclusive
variable {ι : Type*} {n : ℕ} {holds holds' : ι → Prop}

theorem start (h : ∀ x, ¬ holds x) : Exclusive 1 holds :=
  ⟨fun _ => h, Nat.le_refl 1, fun x _ hx => absurd hx (h x)⟩

theorem shrink (h : Exclusive n holds) (hs : ∀ x, holds' x → holds x) : Exclusive n holds' :=
  ⟨fun hn x hx => h.free hn x (hs x hx), h.le_one,
    fun x y hx hy => h.unique x y (hs x hx) (hs y hy)⟩

theorem acquire (h : Exclusive n holds) (hn : 0 < n) (x : ι) (hs : ∀ y, holds' y → y = x) :
    Exclusive (n - 1) holds' := by
  have hone := h.le_one
  refine ⟨fun hpos => by omega, by omega, ?_⟩
  intro y z hy hz
  rw [hs y hy, hs z hz]

theorem release (h : Exclusive n holds) {x : ι} (hx : holds x)
    (hs : ∀ y, holds' y → holds y ∧ y ≠ x) : Exclusive (n + 1) holds' := by
  have hzero : n = 0 := by
    by_contra hn
    exact h.free (Nat.pos_of_ne_zero hn) x hx
  have hnone : ∀ y, ¬ holds' y := fun y hy => (hs y hy).2 (h.unique y x (hs y hy).1 hx)
  exact hzero ▸ start hnone

end Exclusive

structure Adjusted {ι κ : Type*} (n : ℕ) (adj : ι → ℤ) (owner : κ → ι) (holds : κ → Prop) :
    Prop where
  lock : Exclusive n fun p => adj p = 1
  zero_or_one : ∀ p, adj p = 0 ∨ adj p = 1
  holding : ∀ x, holds x → adj (owner x) = 1
  unique : ∀ x y, holds x → holds y → x = y

namespace Adjusted
variable {ι κ : Type*} {n n' : ℕ} {adj adj' : ι → ℤ} {owner : κ → ι} {holds holds' : κ → Prop}

theorem start (owner : κ → ι) (h : ∀ x, ¬ holds x) : Adjusted 1 (fun _ => 0) owner holds where
  lock := .start fun _ => zero_ne_one
  zero_or_one _ := .inl rfl
  holding x hx := absurd hx (h x)
  unique x _ hx := absurd hx (h x)

theorem shrink (h : Adjusted n adj owner holds) (hs : ∀ x, holds' x → holds x) :
    Adjusted n adj owner holds' where
  lock := h.lock
  zero_or_one := h.zero_or_one
  holding x hx := h.holding x (hs x hx)
  unique x y hx hy := h.unique x y (hs x hx) (hs y hy)

theorem acquire (h : Adjusted n adj owner holds) (hn : 0 < n) {x : κ}
    (hself : adj' (owner x) = adj (owner x) + 1) (hother : ∀ p ≠ owner x, adj' p = adj p)
    (hs : ∀ y, holds' y → y = x ∨ holds y) : Adjusted (n - 1) adj' owner holds' := by
  have hzero : ∀ p, adj p = 0 := fun p => (h.zero_or_one p).resolve_right (h.lock.free hn p)
  have honly : ∀ y, holds' y → y = x := by
    intro y hy
    refine (hs y hy).resolve_right fun hold => ?_
    exact h.lock.free hn (owner y) (h.holding y hold)
  rw [hzero, zero_add] at hself
  constructor
  · apply h.lock.acquire hn (owner x)
    intro p hp
    by_contra hne
    rw [hother p hne, hzero] at hp
    exact zero_ne_one hp
  · intro p
    by_cases hp : p = owner x
    · exact .inr (hp ▸ hself)
    · rw [hother p hp]
      exact h.zero_or_one p
  · intro y hy
    rw [honly y hy]
    exact hself
  · intro y z hy hz
    rw [honly y hy, honly z hz]

theorem release (h : Adjusted n adj owner holds) {x : κ} (hx : holds x)
    (hself : adj' (owner x) = adj (owner x) - 1) (hother : ∀ p ≠ owner x, adj' p = adj p)
    (hs : ∀ y, holds' y → holds y ∧ y ≠ x) : Adjusted (n + 1) adj' owner holds' := by
  have hnone : ∀ y, ¬ holds' y := fun y hy => (hs y hy).2 (h.unique y x (hs y hy).1 hx)
  have hzero : adj' (owner x) = 0 := by rw [hself, h.holding x hx, sub_self]
  constructor
  · apply h.lock.release (h.holding x hx)
    intro p hp
    have hne : p ≠ owner x := by
      rintro rfl
      rw [hzero] at hp
      exact zero_ne_one hp
    rw [hother p hne] at hp
    exact ⟨hp, hne⟩
  · intro p
    by_cases hp : p = owner x
    · exact .inl (hp ▸ hzero)
    · rw [hother p hp]
      exact h.zero_or_one p
  · exact fun y hy => absurd hy (hnone y)
  · exact fun y _ hy => absurd hy (hnone y)

/-- A process that ends gives back what it has taken; its threads are gone. -/
theorem exit (h : Adjusted n adj owner holds) {p : ι} (hn : n' = (n + adj p).toNat)
    (hself : adj' p = 0) (hother : ∀ q ≠ p, adj' q = adj q)
    (hs : ∀ x, holds' x → holds x ∧ owner x ≠ p) : Adjusted n' adj' owner holds' := by
  rcases h.zero_or_one p with hzero | hone
  · have hadj : adj' = adj := by
      funext q
      by_cases hq : q = p
      · rw [hq, hself, hzero]
      · exact hother q hq
    rw [hn, hzero, hadj, add_zero, Int.toNat_natCast]
    exact h.shrink fun x hx => (hs x hx).1
  · have hnone : ∀ x, ¬ holds' x := fun x hx =>
      (hs x hx).2 (h.lock.unique (owner x) p (h.holding x (hs x hx).1) hone)
    have hempty : n = 0 := by
      by_contra hpos
      exact h.lock.free (Nat.pos_of_ne_zero hpos) p hone
    have hall : adj' = fun _ => 0 := by
      funext q
      by_cases hq : q = p
      · rw [hq, hself]
      · rw [hother q hq]
        exact (h.zero_or_one q).resolve_right fun hq' => hq (h.lock.unique q p hq' hone)
    rw [hn, hempty, hone, hall]
    exact start owner hnone

end Adjusted
end BinarySemaphore
