import CommunicationAPI.Ethernet

/-!
# The list of nearby vehicles

The occupied prefix of `nearby_entities`. Every function runs under the spin
lock and is one atomic step.
-/

namespace CommunicationAPI

def maxNearbyEntities : ℕ := 16

structure NearbyEntities where
  entries : List MAC
  nodup : entries.Nodup
  length_le : entries.length ≤ maxNearbyEntities

/-- The first occurrence of `a` overwritten by the last entry, and the list cut by one. -/
def moveLast (l : List MAC) (a : MAC) : List MAC := (l.set (l.idxOf a) (l.getLastD a)).dropLast

theorem moveLast_perm {l : List MAC} {a : MAC} (h : a ∈ l) : (moveLast l a).Perm (l.erase a) := by
  obtain ⟨l₁, l₂, hnot, rfl, herase⟩ := List.exists_erase_eq h
  have hindex : (l₁ ++ a :: l₂).idxOf a = l₁.length := by
    rw [List.idxOf_append_of_notMem hnot]
    simp
  unfold moveLast
  rw [herase, hindex, List.set_append_right _ _ (le_refl _), Nat.sub_self, List.set_cons_zero]
  rcases List.eq_nil_or_concat l₂ with rfl | ⟨l₃, b, rfl⟩
  · simp
  · have hlast : (l₁ ++ a :: (l₃ ++ [b])).getLastD a = b := by
      rw [← List.cons_append, ← List.append_assoc, List.getLastD_concat]
    rw [List.concat_eq_append, hlast, ← List.cons_append, ← List.append_assoc,
      List.dropLast_concat]
    exact (List.perm_append_singleton b l₃).symm.append_left l₁

namespace NearbyEntities

def empty : NearbyEntities := ⟨[], List.nodup_nil, Nat.zero_le _⟩

/-- `register_nearby_entity`: a full list drops the newcomer. -/
def register (l : NearbyEntities) (addr : MAC) : NearbyEntities :=
  if h : addr ∉ l.entries ∧ l.entries.length < maxNearbyEntities then
    { entries := l.entries ++ [addr]
      nodup := List.nodup_append.mpr ⟨l.nodup, List.nodup_singleton addr, fun a ha b hb hab =>
        h.1 (List.mem_singleton.mp hb ▸ hab ▸ ha)⟩
      length_le := by rw [List.length_append]; exact h.2 }
  else l

def unregister (l : NearbyEntities) (addr : MAC) : NearbyEntities :=
  if h : addr ∈ l.entries then
    { entries := moveLast l.entries addr
      nodup := (moveLast_perm h).nodup_iff.mpr (l.nodup.erase addr)
      length_le := by
        rw [(moveLast_perm h).length_eq]
        exact List.length_erase_le.trans l.length_le }
  else l

theorem mem_register (l : NearbyEntities) (addr a : MAC) :
    a ∈ (l.register addr).entries ↔ a ∈ l.entries ∨
      a = addr ∧ addr ∉ l.entries ∧ l.entries.length < maxNearbyEntities := by
  unfold register
  split_ifs with h
  · rw [List.mem_append, List.mem_singleton]
    constructor
    · exact Or.imp_right fun ha => ⟨ha, h⟩
    · exact Or.imp_right And.left
  · constructor
    · exact .inl
    · rintro (ha | ⟨-, hjoins⟩)
      · exact ha
      · exact absurd hjoins h

theorem mem_unregister (l : NearbyEntities) (addr a : MAC) :
    a ∈ (l.unregister addr).entries ↔ a ∈ l.entries ∧ a ≠ addr := by
  unfold unregister
  split_ifs with h
  · rw [(moveLast_perm h).mem_iff, l.nodup.mem_erase_iff, and_comm]
  · constructor
    · intro ha
      exact ⟨ha, fun heq => h (heq ▸ ha)⟩
    · exact fun ha => ha.1

end NearbyEntities
end CommunicationAPI
