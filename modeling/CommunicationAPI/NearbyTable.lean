import CommunicationAPI.NearbyEntities
import Mathlib.Data.Finset.Card

/-!
# The array of nearby vehicles in the shared block

`nearby_count` and `nearby_entities` with the loops of the source over them.
The entries past the count stay in memory; the list of vehicles is the prefix
of that length, and its elements form a set of at most sixteen addresses.
-/

namespace CommunicationAPI

/-- The fields of the shared block behind `nearby_lock`. Offsets from
`maxNearbyEntities` on are memory past the array. -/
structure NearbyTable where
  nearbyCount : ℤ
  nearbyEntities : ℕ → MAC

/-- One critical section under `nearby_lock`, by whichever process holds it. -/
inductive NearbyCall where
  | register (addr : MAC)
  | unregister (addr : MAC)
  | reset

namespace NearbyTable

def zeroed : NearbyTable := ⟨0, fun _ => localAddr⟩

def firstIndex (t : NearbyTable) (addr : MAC) : Option ℕ :=
  (List.range t.nearbyCount.toNat).find? fun i => t.nearbyEntities i == addr

def register (t : NearbyTable) (addr : MAC) : NearbyTable :=
  if (t.firstIndex addr).isNone ∧ t.nearbyCount < maxNearbyEntities then
    { nearbyCount := t.nearbyCount + 1
      nearbyEntities := Function.update t.nearbyEntities t.nearbyCount.toNat addr }
  else t

/-- `unregister_nearby_entity`: the last entry takes the place of the removed one. -/
def unregister (t : NearbyTable) (addr : MAC) : NearbyTable :=
  match t.firstIndex addr with
  | none => t
  | some i =>
    { nearbyCount := t.nearbyCount - 1
      nearbyEntities :=
        if i < t.nearbyCount - 1 then
          Function.update t.nearbyEntities i (t.nearbyEntities (t.nearbyCount - 1).toNat)
        else t.nearbyEntities }

def reset (t : NearbyTable) : NearbyTable := { t with nearbyCount := 0 }

def isEntityNearby (t : NearbyTable) (addr : MAC) : Bool := (t.firstIndex addr).isSome

def getEntitiesNearby (t : NearbyTable) : List MAC :=
  (List.range t.nearbyCount.toNat).map t.nearbyEntities

def exec (t : NearbyTable) : NearbyCall → NearbyTable
  | .register addr => t.register addr
  | .unregister addr => t.unregister addr
  | .reset => t.reset

/-- The shared block after the calls in the order in which they held the lock. -/
def run (calls : List NearbyCall) : NearbyTable := calls.foldl exec zeroed

def entitySet (t : NearbyTable) : Finset MAC := t.getEntitiesNearby.toFinset

/-- The array holds the list `l` in its first entries, and nothing was written past its end. -/
structure Holds (t : NearbyTable) (l : NearbyEntities) : Prop where
  count : t.nearbyCount = l.entries.length
  entities : t.getEntitiesNearby = l.entries
  outside : ∀ i, maxNearbyEntities ≤ i → t.nearbyEntities i = localAddr

theorem firstIndex_isSome (t : NearbyTable) (addr : MAC) :
    (t.firstIndex addr).isSome ↔ addr ∈ t.getEntitiesNearby := by
  unfold firstIndex getEntitiesNearby
  rw [List.find?_isSome, List.mem_map]
  refine exists_congr fun i => and_congr_right fun _ => ?_
  exact beq_iff_eq

theorem firstIndex_eq_none (t : NearbyTable) (addr : MAC) :
    t.firstIndex addr = none ↔ addr ∉ t.getEntitiesNearby := by
  rw [← firstIndex_isSome, Option.not_isSome_iff_eq_none]

theorem length_getEntitiesNearby (t : NearbyTable) :
    t.getEntitiesNearby.length = t.nearbyCount.toNat := by
  unfold getEntitiesNearby
  rw [List.length_map, List.length_range]

theorem firstIndex_eq_some {t : NearbyTable} {addr : MAC} {i : ℕ}
    (hnodup : t.getEntitiesNearby.Nodup) (h : t.firstIndex addr = some i) :
    i < t.nearbyCount.toNat ∧ t.getEntitiesNearby.idxOf addr = i := by
  obtain ⟨heq, hi, -⟩ := List.find?_range_eq_some.mp h
  have hlt : i < t.nearbyCount.toNat := List.mem_range.mp hi
  have hlist : i < t.getEntitiesNearby.length := by rwa [length_getEntitiesNearby]
  have hat : t.getEntitiesNearby[i] = addr := by
    simp only [getEntitiesNearby, List.getElem_map, List.getElem_range, beq_iff_eq.mp heq]
  refine ⟨hlt, ?_⟩
  rw [← hat]
  exact hnodup.idxOf_getElem i hlist

theorem map_range_push (e : ℕ → MAC) (n : ℕ) (addr : MAC) :
    (List.range (n + 1)).map (Function.update e n addr) = (List.range n).map e ++ [addr] := by
  have hkeep : (List.range n).map (Function.update e n addr) = (List.range n).map e := by
    refine List.map_congr_left fun i hi => ?_
    rw [Function.update_of_ne (List.mem_range.mp hi).ne]
  rw [List.range_succ, List.map_append, hkeep, List.map_singleton, Function.update_self]

theorem map_range_moveLast (e : ℕ → MAC) {n i : ℕ} {addr : MAC} (hi : i ≤ n)
    (hindex : ((List.range (n + 1)).map e).idxOf addr = i) :
    (List.range n).map (if i < n then Function.update e i (e n) else e) =
      moveLast ((List.range (n + 1)).map e) addr := by
  have hlast : ((List.range (n + 1)).map e).getLastD addr = e n := by
    rw [List.range_succ, List.map_append, List.map_singleton, List.getLastD_concat]
  unfold moveLast
  rw [hindex, hlast]
  refine List.ext_getElem (by simp) fun j hj _ => ?_
  have hjn : j < n := by simpa using hj
  rw [List.getElem_dropLast, List.getElem_set, List.getElem_map, List.getElem_map,
    List.getElem_range, List.getElem_range]
  by_cases hin : i < n
  · rw [if_pos hin]
    by_cases hij : i = j
    · rw [if_pos hij, hij, Function.update_self]
    · rw [if_neg hij, Function.update_of_ne (Ne.symm hij)]
  · -- the removed entry was the last one, and the cut alone takes it away
    rw [if_neg hin, if_neg (by omega)]

theorem holds_zeroed : Holds zeroed NearbyEntities.empty :=
  ⟨rfl, rfl, fun _ _ => rfl⟩

theorem Holds.toNat_count {t : NearbyTable} {l : NearbyEntities} (h : t.Holds l) :
    t.nearbyCount.toNat = l.entries.length := by
  rw [h.count, Int.toNat_natCast]

theorem Holds.map_range {t : NearbyTable} {l : NearbyEntities} (h : t.Holds l) :
    (List.range l.entries.length).map t.nearbyEntities = l.entries := by
  rw [← h.toNat_count]
  exact h.entities

theorem Holds.register {t : NearbyTable} {l : NearbyEntities} (h : t.Holds l) (addr : MAC) :
    (t.register addr).Holds (l.register addr) := by
  have hroom : ((t.firstIndex addr).isNone ∧ t.nearbyCount < maxNearbyEntities) ↔
      (addr ∉ l.entries ∧ l.entries.length < maxNearbyEntities) := by
    rw [Option.isNone_iff_eq_none, firstIndex_eq_none, h.entities, h.count]
    exact and_congr_right fun _ => Int.ofNat_lt
  unfold NearbyTable.register NearbyEntities.register
  by_cases hadd : addr ∉ l.entries ∧ l.entries.length < maxNearbyEntities
  · rw [if_pos (hroom.mpr hadd), dif_pos hadd, h.toNat_count]
    refine ⟨?_, ?_, ?_⟩
    · rw [h.count, List.length_append, List.length_singleton, Nat.cast_add, Nat.cast_one]
    · have hsucc : (t.nearbyCount + 1).toNat = l.entries.length + 1 := by rw [h.count]; rfl
      unfold getEntitiesNearby
      rw [hsucc, map_range_push, h.map_range]
    · intro i hi
      have hne : i ≠ l.entries.length := by omega
      exact (Function.update_of_ne hne _ _).trans (h.outside i hi)
  · rw [if_neg (hroom.not.mpr hadd), dif_neg hadd]
    exact h

theorem Holds.unregister {t : NearbyTable} {l : NearbyEntities} (h : t.Holds l) (addr : MAC) :
    (t.unregister addr).Holds (l.unregister addr) := by
  unfold NearbyTable.unregister NearbyEntities.unregister
  cases hfirst : t.firstIndex addr with
  | none =>
    have hnot : addr ∉ l.entries := by
      rw [← h.entities]
      exact (firstIndex_eq_none t addr).mp hfirst
    rw [dif_neg hnot]
    exact h
  | some i =>
    obtain ⟨hi, hindex⟩ := firstIndex_eq_some (h.entities ▸ l.nodup) hfirst
    have hmem : addr ∈ l.entries := by
      rw [← h.entities, ← firstIndex_isSome, hfirst]
      rfl
    obtain ⟨n, hlength⟩ : ∃ n, l.entries.length = n + 1 :=
      Nat.exists_eq_succ_of_ne_zero (List.length_pos_of_mem hmem).ne'
    have hcount : t.nearbyCount - 1 = (n : ℤ) := by rw [h.count, hlength]; simp
    rw [h.toNat_count, hlength] at hi
    have hmap := h.map_range
    rw [hlength] at hmap
    rw [dif_pos hmem, hcount, Int.toNat_natCast]
    simp only [Int.ofNat_lt]
    refine ⟨?_, ?_, ?_⟩
    · rw [(moveLast_perm hmem).length_eq, List.length_erase_of_mem hmem, hlength]
      rfl
    · have hfound : ((List.range (n + 1)).map t.nearbyEntities).idxOf addr = i := by
        rw [hmap, ← h.entities, hindex]
      have hcut := map_range_moveLast t.nearbyEntities (Nat.le_of_lt_succ hi) hfound
      rw [hmap] at hcut
      exact hcut
    · intro j hj
      have hle := l.length_le
      have hne : j ≠ i := by omega
      have hsame : (if i < n then Function.update t.nearbyEntities i (t.nearbyEntities n)
          else t.nearbyEntities) j = t.nearbyEntities j := by
        split_ifs
        · exact Function.update_of_ne hne _ _
        · rfl
      exact hsame.trans (h.outside j hj)

theorem Holds.reset {t : NearbyTable} {l : NearbyEntities} (h : t.Holds l) :
    t.reset.Holds NearbyEntities.empty :=
  ⟨rfl, rfl, h.outside⟩

/-- What the list is for: a set of at most sixteen addresses, a newcomer to a
full set being dropped. -/
def execSet (s : Finset MAC) : NearbyCall → Finset MAC
  | .register addr => if s.card < maxNearbyEntities ∨ addr ∈ s then insert addr s else s
  | .unregister addr => s.erase addr
  | .reset => ∅

section Held

variable {t : NearbyTable} {l : NearbyEntities}

theorem Holds.mem_entitySet (h : t.Holds l) (a : MAC) : a ∈ t.entitySet ↔ a ∈ l.entries := by
  unfold entitySet
  rw [List.mem_toFinset, h.entities]

theorem Holds.card_entitySet (h : t.Holds l) : t.entitySet.card = l.entries.length := by
  unfold entitySet
  rw [h.entities]
  exact List.toFinset_card_of_nodup l.nodup

theorem Holds.exec (h : t.Holds l) (call : NearbyCall) : ∃ l', (t.exec call).Holds l' := by
  cases call with
  | register addr => exact ⟨_, h.register addr⟩
  | unregister addr => exact ⟨_, h.unregister addr⟩
  | reset => exact ⟨_, h.reset⟩

theorem Holds.entitySet_register (h : t.Holds l) (addr : MAC) :
    (t.register addr).entitySet = execSet t.entitySet (.register addr) := by
  ext a
  rw [(h.register addr).mem_entitySet, NearbyEntities.mem_register, execSet]
  split_ifs with hroom <;> rw [h.card_entitySet, h.mem_entitySet] at hroom
  · rw [Finset.mem_insert, h.mem_entitySet]
    constructor
    · rintro (ha | ⟨rfl, -⟩)
      · exact .inr ha
      · exact .inl rfl
    · rintro (rfl | ha)
      · by_cases ha : a ∈ l.entries
        · exact .inl ha
        · exact .inr ⟨rfl, ha, hroom.resolve_right ha⟩
      · exact .inl ha
  · rw [h.mem_entitySet]
    constructor
    · rintro (ha | ⟨-, -, hlt⟩)
      · exact ha
      · exact absurd (.inl hlt) hroom
    · exact .inl

theorem Holds.entitySet_exec (h : t.Holds l) (call : NearbyCall) :
    (t.exec call).entitySet = execSet t.entitySet call := by
  cases call with
  | register addr => exact h.entitySet_register addr
  | unregister addr =>
    ext a
    change a ∈ (t.unregister addr).entitySet ↔ a ∈ t.entitySet.erase addr
    rw [(h.unregister addr).mem_entitySet, NearbyEntities.mem_unregister, Finset.mem_erase,
      h.mem_entitySet, and_comm]
  | reset => rfl

end Held

theorem run_holds (calls : List NearbyCall) : ∃ l, (run calls).Holds l := by
  induction calls using List.reverseRecOn with
  | nil => exact ⟨_, holds_zeroed⟩
  | append_singleton calls call ih =>
    obtain ⟨l, hl⟩ := ih
    unfold run
    rw [List.foldl_append]
    exact hl.exec call

theorem entitySet_run (calls : List NearbyCall) :
    (run calls).entitySet = calls.foldl execSet ∅ := by
  induction calls using List.reverseRecOn with
  | nil => rfl
  | append_singleton calls call ih =>
    obtain ⟨l, hl⟩ := run_holds calls
    rw [List.foldl_append, ← ih]
    unfold run
    rw [List.foldl_append]
    exact hl.entitySet_exec call

/-- After any calls of any processes the array holds a set of at most sixteen
distinct addresses; the three updates act on it as on a bounded set, and the two
readers report exactly its elements, each of them once. -/
theorem run_refines_set (calls : List NearbyCall) :
    0 ≤ (run calls).nearbyCount ∧ (run calls).nearbyCount ≤ 16 ∧
      (∀ i j : ℕ, i < (run calls).nearbyCount → j < (run calls).nearbyCount →
        (run calls).nearbyEntities i = (run calls).nearbyEntities j → i = j) ∧
      (run calls).entitySet = calls.foldl execSet ∅ ∧
      (∀ addr, ((run calls).register addr).entitySet =
        if (run calls).entitySet.card < 16 ∨ addr ∈ (run calls).entitySet then
          insert addr (run calls).entitySet
        else (run calls).entitySet) ∧
      (∀ addr, ((run calls).unregister addr).entitySet = (run calls).entitySet.erase addr) ∧
      (run calls).reset.entitySet = ∅ ∧
      (∀ addr, (run calls).isEntityNearby addr = true ↔ addr ∈ (run calls).entitySet) ∧
      (run calls).getEntitiesNearby.Nodup ∧
      ∀ addr, addr ∈ (run calls).getEntitiesNearby ↔ addr ∈ (run calls).entitySet := by
  obtain ⟨l, hl⟩ := run_holds calls
  have hnodup : (run calls).getEntitiesNearby.Nodup := hl.entities ▸ l.nodup
  refine ⟨?_, ?_, ?_, entitySet_run calls, hl.entitySet_register,
    fun addr => hl.entitySet_exec (.unregister addr), rfl, ?_, hnodup, ?_⟩
  · rw [hl.count]
    exact Int.natCast_nonneg _
  · rw [hl.count]
    exact Int.ofNat_le.mpr l.length_le
  · intro i j hi hj heq
    rw [hl.count, Int.ofNat_lt] at hi hj
    refine List.inj_on_of_nodup_map (hl.map_range.symm ▸ l.nodup) ?_ ?_ heq
    · exact List.mem_range.mpr hi
    · exact List.mem_range.mpr hj
  · intro addr
    unfold isEntityNearby entitySet
    rw [firstIndex_isSome, List.mem_toFinset]
  · intro addr
    unfold entitySet
    rw [List.mem_toFinset]

end NearbyTable
end CommunicationAPI
