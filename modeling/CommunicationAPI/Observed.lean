import Mathlib.Tactic.Common

/-!
# Conditional observers

`Conditionally_Data_Observed`: a registry of observers, each attached for a
condition. The two vectors of the class are one list of pairs.
-/

namespace CommunicationAPI

/-- The attached observers with their conditions, the latest first. -/
abbrev Observed (ω γ : Type*) := List (ω × γ)

namespace Observed
variable {ω γ : Type*} [DecidableEq ω] [DecidableEq γ] (r : Observed ω γ)

def attach (o : ω) (c : γ) : Observed ω γ := (o, c) :: r

def detach (o : ω) (c : γ) : Observed ω γ := r.filter fun e => e ≠ (o, c)

/-- The observers that `notify` updates, in order. It returns whether there are any. -/
def notify (c : γ) : List ω := (r.filter fun e => e.2 = c).map Prod.fst

variable {r} {o o' : ω} {c c' : γ}

omit [DecidableEq ω] in
@[simp] theorem mem_notify : o ∈ r.notify c ↔ (o, c) ∈ r := by
  unfold notify
  rw [List.mem_map]
  constructor
  · rintro ⟨⟨o', c'⟩, hmem, rfl⟩
    obtain ⟨hr, hc⟩ := List.mem_filter.mp hmem
    rwa [← of_decide_eq_true hc]
  · intro h
    exact ⟨(o, c), List.mem_filter.mpr ⟨h, by simp⟩, rfl⟩

theorem mem_detach : (o', c') ∈ r.detach o c ↔ (o', c') ∈ r ∧ ¬ (o' = o ∧ c' = c) := by
  unfold detach
  rw [List.mem_filter, decide_eq_true_iff, ne_eq, Prod.mk.injEq]

/-- Detaching one observer for a list of conditions. -/
theorem mem_foldl_detach {cs : List γ} :
    (o', c') ∈ cs.foldl (fun r c => Observed.detach r o c) r ↔
      (o', c') ∈ r ∧ ¬ (o' = o ∧ c' ∈ cs) := by
  induction cs generalizing r with
  | nil => simp
  | cons c cs ih =>
      rw [List.foldl_cons, ih, mem_detach, List.mem_cons]
      constructor
      · rintro ⟨⟨hr, hhead⟩, htail⟩
        exact ⟨hr, fun h => h.2.elim (fun hc => hhead ⟨h.1, hc⟩) fun hc => htail ⟨h.1, hc⟩⟩
      · rintro ⟨hr, hall⟩
        exact ⟨⟨hr, fun h => hall ⟨h.1, .inl h.2⟩⟩, fun h => hall ⟨h.1, .inr h.2⟩⟩

end Observed
end CommunicationAPI
