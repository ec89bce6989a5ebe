import CommunicationAPI.NearbyTable
import CommunicationAPI.SpinLock

/-!
# The functions under `nearby_lock`

Any number of threads of any processes use the array of nearby vehicles. A
thread in its critical section reads or writes the count or one octet of an
address at a time, and other threads may run in between.
-/

namespace CommunicationAPI
open TransitionSystem SpinLock

inductive NearbyRequest
  | update (call : NearbyCall)
  | isEntityNearby (addr : MAC)
  | getEntitiesNearby

inductive NearbyResult
  | done
  | found (nearby : Bool)
  | entities (outEntities : List MAC)

/-- Where a thread is inside its section, with its local variables: before its next access. -/
inductive NearbyPlace
  | loadCount (c : NearbyRequest)
  /-- Octet `k` of entry `i` is compared with the address. -/
  | compare (c : NearbyRequest) (addr : MAC) (count : ℤ) (i : ℕ) (k : Fin 6)
  /-- `nearby_entities[count] = addr`. -/
  | storeEntry (addr : MAC) (count : ℤ) (k : Fin 6)
  /-- `nearby_entities[i] = nearby_entities[count - 1]`. -/
  | loadLast (count : ℤ) (i : ℕ) (k : Fin 6)
  | storeLast (count : ℤ) (i : ℕ) (k : Fin 6) (octet : UInt8)
  | storeCount (n : ℤ)
  /-- `out_entities.push_back(nearby_entities[i])`. -/
  | loadEntry (count : ℤ) (i : ℕ) (k : Fin 6) (element : MAC) (outEntities : List MAC)
  | finished (r : NearbyResult)

def MAC.setOctet (a : MAC) (k : Fin 6) (b : UInt8) : MAC := ⟨a.addr.set k b⟩

def nextOctet (k : Fin 6) : Option (Fin 6) :=
  if h : k.val + 1 < 6 then some ⟨k.val + 1, h⟩ else none

def NearbyTable.setOctet (t : NearbyTable) (i : ℕ) (k : Fin 6) (b : UInt8) : NearbyTable :=
  { t with nearbyEntities :=
      Function.update t.nearbyEntities i ((t.nearbyEntities i).setOctet k b) }

namespace NearbyPlace

def onFound (c : NearbyRequest) (count : ℤ) (i : ℕ) : NearbyPlace :=
  match c with
  | .update (.unregister _) => if i < count - 1 then loadLast count i 0 else storeCount (count - 1)
  | .isEntityNearby _ => finished (.found true)
  | _ => finished .done

def onMissing (c : NearbyRequest) (count : ℤ) : NearbyPlace :=
  match c with
  | .update (.register addr) =>
    if count < maxNearbyEntities then storeEntry addr count 0 else finished .done
  | .isEntityNearby _ => finished (.found false)
  | _ => finished .done

def search (c : NearbyRequest) (addr : MAC) (count : ℤ) (i : ℕ) : NearbyPlace :=
  if i < count then compare c addr count i 0 else onMissing c count

def collect (count : ℤ) (i : ℕ) (outEntities : List MAC) : NearbyPlace :=
  if i < count then loadEntry count i 0 localAddr outEntities
  else finished (.entities outEntities)

def start : NearbyRequest → NearbyPlace
  | .update .reset => storeCount 0
  | c => loadCount c

def afterCount (c : NearbyRequest) (count : ℤ) : NearbyPlace :=
  match c with
  | .update (.register addr) | .update (.unregister addr) | .isEntityNearby addr =>
    search c addr count 0
  | .update .reset => storeCount 0
  | .getEntitiesNearby => collect count 0 []

def access (x : NearbyPlace) (t : NearbyTable) : NearbyPlace × NearbyTable :=
  match x with
  | loadCount c => (afterCount c t.nearbyCount, t)
  | compare c addr count i k =>
    if (t.nearbyEntities i).addr[k] = addr.addr[k] then
      ((nextOctet k).elim (onFound c count i) (compare c addr count i), t)
    else (search c addr count (i + 1), t)
  | storeEntry addr count k =>
    ((nextOctet k).elim (storeCount (count + 1)) (storeEntry addr count),
      t.setOctet count.toNat k addr.addr[k])
  | loadLast count i k =>
    (storeLast count i k (t.nearbyEntities (count - 1).toNat).addr[k], t)
  | storeLast count i k octet =>
    ((nextOctet k).elim (storeCount (count - 1)) (loadLast count i), t.setOctet i k octet)
  | storeCount n => (finished .done, { t with nearbyCount := n })
  | loadEntry count i k element outEntities =>
    let element := element.setOctet k (t.nearbyEntities i).addr[k]
    ((nextOctet k).elim (collect count (i + 1) (outEntities ++ [element]))
      fun k' => loadEntry count i k' element outEntities, t)
  | finished r => (finished r, t)

def result : NearbyPlace → Option NearbyResult
  | finished r => some r
  | _ => none

def entry : NearbyPlace → Option ℕ
  | compare _ _ _ i _ | storeLast _ i _ _ | loadEntry _ i _ _ _ => some i
  | storeEntry _ count _ => some count.toNat
  | loadLast count _ _ => some (count - 1).toNat
  | _ => none

end NearbyPlace

def nearbySections : Sections NearbyTable NearbyRequest NearbyPlace NearbyResult where
  enter := NearbyPlace.start
  result := NearbyPlace.result
  access := NearbyPlace.access

def NearbyTable.perform (c : NearbyRequest) (t : NearbyTable) : NearbyTable × NearbyResult :=
  match c with
  | .update call => (t.exec call, .done)
  | .isEntityNearby addr => (t, .found (t.isEntityNearby addr))
  | .getEntitiesNearby => (t, .entities t.getEntitiesNearby)

theorem MAC.ext_octets {a b : MAC} (h : ∀ k : Fin 6, a.addr[k] = b.addr[k]) : a = b := by
  obtain ⟨a⟩ := a
  obtain ⟨b⟩ := b
  congr 1
  exact Vector.ext fun i hi => h ⟨i, hi⟩

theorem MAC.octet_setOctet (a : MAC) (k j : Fin 6) (b : UInt8) :
    (a.setOctet k b).addr[j] = if k = j then b else a.addr[j] := by
  unfold MAC.setOctet
  change (a.addr.set k.val b k.isLt)[j.val] = _
  rw [Vector.getElem_set]
  simp only [Fin.ext_iff]
  rfl

theorem nextOctet_last : nextOctet (Fin.last 5) = none := rfl

theorem nextOctet_castSucc (k : Fin 5) : nextOctet k.castSucc = some k.succ := by
  have hlt : k.castSucc.val + 1 < 6 := Nat.succ_lt_succ k.isLt
  unfold nextOctet
  rw [dif_pos hlt]
  rfl

def AgreeBelow (k : Fin 6) (a b : MAC) : Prop := ∀ j < k, a.addr[j] = b.addr[j]

theorem agreeBelow_zero (a b : MAC) : AgreeBelow 0 a b := fun j hj => absurd hj (Fin.not_lt_zero j)

theorem AgreeBelow.succ {k : Fin 5} {a b : MAC} (h : AgreeBelow k.castSucc a b)
    (hk : a.addr[k.castSucc] = b.addr[k.castSucc]) : AgreeBelow k.succ a b := by
  intro j hj
  rcases (Fin.le_castSucc_iff.mpr hj).lt_or_eq with hlt | rfl
  · exact h j hlt
  · exact hk

theorem AgreeBelow.eq {a b : MAC} (h : AgreeBelow (Fin.last 5) a b)
    (hk : a.addr[Fin.last 5] = b.addr[Fin.last 5]) : a = b := by
  refine MAC.ext_octets fun j => ?_
  rcases (Fin.le_last j).lt_or_eq with hlt | rfl
  · exact h j hlt
  · exact hk

theorem AgreeBelow.setOctet {k : Fin 6} {a b : MAC} (h : AgreeBelow k a b) (x : UInt8) :
    AgreeBelow k (a.setOctet k x) b := by
  intro j hj
  rw [MAC.octet_setOctet, if_neg hj.ne']
  exact h j hj

theorem octet_setOctet_self (a b : MAC) (k : Fin 6) :
    (a.setOctet k b.addr[k]).addr[k] = b.addr[k] := by
  rw [MAC.octet_setOctet, if_pos rfl]

namespace NearbyPlace

variable {t : NearbyTable} {c : NearbyRequest} {addr : MAC} {count : ℤ} {i : ℕ}

theorem steps_access {x : NearbyPlace} {y : NearbyPlace × NearbyTable} (hx : x.result = none)
    (ha : x.access t = y) : nearbySections.Steps (x, t) y := Sections.steps_of_next hx ha

theorem steps_compare_eq (heq : t.nearbyEntities i = addr) (k : Fin 6) :
    nearbySections.Steps (compare c addr count i k, t) (onFound c count i, t) := by
  induction k using Fin.reverseInduction with
  | last =>
    refine steps_access rfl ?_
    simp only [access, heq, if_true, nextOctet_last, Option.elim_none]
  | cast k ih =>
    refine (steps_access rfl ?_).trans ih
    simp only [access, heq, if_true, nextOctet_castSucc, Option.elim_some]

theorem steps_compare_ne (hne : t.nearbyEntities i ≠ addr) (k : Fin 6)
    (hk : AgreeBelow k (t.nearbyEntities i) addr) :
    nearbySections.Steps (compare c addr count i k, t) (search c addr count (i + 1), t) := by
  induction k using Fin.reverseInduction with
  | last =>
    have hlast : (t.nearbyEntities i).addr[Fin.last 5] ≠ addr.addr[Fin.last 5] :=
      fun h => hne (hk.eq h)
    refine steps_access rfl ?_
    simp only [access, if_neg hlast]
  | cast k ih =>
    by_cases hoctet : (t.nearbyEntities i).addr[k.castSucc] = addr.addr[k.castSucc]
    · refine (steps_access rfl ?_).trans (ih (hk.succ hoctet))
      simp only [access, if_pos hoctet, nextOctet_castSucc, Option.elim_some]
    · refine steps_access rfl ?_
      simp only [access, if_neg hoctet]

/-- The element has the octets below `k` of the entry, and receives the others. -/
theorem steps_loadEntry (out : List MAC) (k : Fin 6) (element : MAC)
    (hk : AgreeBelow k element (t.nearbyEntities i)) :
    nearbySections.Steps (loadEntry count i k element out, t)
      (collect count (i + 1) (out ++ [t.nearbyEntities i]), t) := by
  have hsame := octet_setOctet_self element (t.nearbyEntities i)
  induction k using Fin.reverseInduction generalizing element with
  | last =>
    have hwhole := (hk.setOctet _).eq (hsame (Fin.last 5))
    refine steps_access rfl ?_
    simp only [access, nextOctet_last, Option.elim_none, hwhole]
  | cast k ih =>
    refine (steps_access rfl ?_).trans (ih _ ((hk.setOctet _).succ (hsame k.castSucc)) ?_)
    · simp only [access, nextOctet_castSucc, Option.elim_some]
    · exact octet_setOctet_self _ _

end NearbyPlace

namespace NearbyTable

def setEntry (t : NearbyTable) (i : ℕ) (a : MAC) : NearbyTable :=
  { t with nearbyEntities := Function.update t.nearbyEntities i a }

theorem setOctet_eq (t : NearbyTable) (i : ℕ) (k : Fin 6) (b : UInt8) :
    t.setOctet i k b = t.setEntry i ((t.nearbyEntities i).setOctet k b) := rfl

theorem setEntry_setEntry (t : NearbyTable) (i : ℕ) (a b : MAC) :
    (t.setEntry i a).setEntry i b = t.setEntry i b := by
  unfold setEntry
  rw [Function.update_idem]

theorem setEntry_self (t : NearbyTable) (i : ℕ) (a : MAC) :
    (t.setEntry i a).nearbyEntities i = a := Function.update_self _ _ _

theorem setEntry_of_ne (t : NearbyTable) {i j : ℕ} (a : MAC) (h : j ≠ i) :
    (t.setEntry i a).nearbyEntities j = t.nearbyEntities j := Function.update_of_ne h _ _

end NearbyTable

namespace NearbyPlace

variable {t : NearbyTable} {c : NearbyRequest} {addr : MAC} {count : ℤ} {i : ℕ}

theorem steps_storeEntry (k : Fin 6) (hk : AgreeBelow k (t.nearbyEntities count.toNat) addr) :
    nearbySections.Steps (storeEntry addr count k, t)
      (storeCount (count + 1), t.setEntry count.toNat addr) := by
  have hsame := octet_setOctet_self (t.nearbyEntities count.toNat) addr
  induction k using Fin.reverseInduction generalizing t with
  | last =>
    have hwhole := (hk.setOctet _).eq (hsame (Fin.last 5))
    refine steps_access rfl ?_
    simp only [access, nextOctet_last, Option.elim_none, NearbyTable.setOctet_eq, hwhole]
  | cast k ih =>
    have hrest := ih (t := t.setOctet count.toNat k.castSucc addr.addr[k.castSucc]) (by
      rw [NearbyTable.setOctet_eq, NearbyTable.setEntry_self]
      exact (hk.setOctet _).succ (hsame k.castSucc)) fun j => octet_setOctet_self _ _ j
    rw [NearbyTable.setOctet_eq, NearbyTable.setEntry_setEntry] at hrest
    refine (steps_access rfl ?_).trans hrest
    simp only [access, nextOctet_castSucc, Option.elim_some, NearbyTable.setOctet_eq]

/-- The last entry is copied over entry `i`, an octet read for every octet written. -/
theorem steps_loadLast {last : MAC} (hlast : t.nearbyEntities (count - 1).toNat = last)
    (hi : (count - 1).toNat ≠ i) (k : Fin 6) (hk : AgreeBelow k (t.nearbyEntities i) last) :
    nearbySections.Steps (loadLast count i k, t) (storeCount (count - 1), t.setEntry i last) := by
  have hread : ∀ k (t : NearbyTable), t.nearbyEntities (count - 1).toNat = last →
      nearbySections.Steps (loadLast count i k, t) (storeLast count i k last.addr[k], t) := by
    intro k t h
    refine steps_access rfl ?_
    simp only [access, h]
  have hsame := octet_setOctet_self (t.nearbyEntities i) last
  induction k using Fin.reverseInduction generalizing t with
  | last =>
    have hwhole := (hk.setOctet _).eq (hsame (Fin.last 5))
    refine (hread _ t hlast).trans (steps_access rfl ?_)
    simp only [access, nextOctet_last, Option.elim_none, NearbyTable.setOctet_eq, hwhole]
  | cast k ih =>
    have hrest := ih (t := t.setOctet i k.castSucc last.addr[k.castSucc])
      ((t.setEntry_of_ne _ hi).trans hlast) (by
        rw [NearbyTable.setOctet_eq, NearbyTable.setEntry_self]
        exact (hk.setOctet _).succ (hsame k.castSucc)) fun j => octet_setOctet_self _ _ j
    rw [NearbyTable.setOctet_eq, NearbyTable.setEntry_setEntry] at hrest
    refine (hread _ t hlast).trans ((steps_access rfl ?_).trans hrest)
    simp only [access, nextOctet_castSucc, Option.elim_some, NearbyTable.setOctet_eq]

def searched (c : NearbyRequest) (addr : MAC) (t : NearbyTable) : NearbyPlace :=
  match t.firstIndex addr with
  | none => onMissing c t.nearbyCount
  | some i => onFound c t.nearbyCount i

theorem steps_search (n : ℕ) (hn : t.nearbyCount.toNat = i + n)
    (hne : ∀ j < i, t.nearbyEntities j ≠ addr) :
    nearbySections.Steps (search c addr t.nearbyCount i, t) (searched c addr t, t) := by
  induction n generalizing i with
  | zero =>
    have hend : ¬ (i : ℤ) < t.nearbyCount := by omega
    have hnone : t.firstIndex addr = none := by
      refine List.find?_eq_none.mpr fun j hj => ?_
      rw [beq_iff_eq]
      exact hne j (by have := List.mem_range.mp hj; omega)
    rw [search, if_neg hend, searched, hnone]
  | succ n ih =>
    have hlt : (i : ℤ) < t.nearbyCount := by omega
    rw [search, if_pos hlt]
    by_cases heq : t.nearbyEntities i = addr
    · have hsome : t.firstIndex addr = some i := by
        refine List.find?_range_eq_some.mpr ⟨beq_iff_eq.mpr heq, ?_, fun j hj => ?_⟩
        · exact List.mem_range.mpr (by omega)
        · rw [Bool.not_eq_true', beq_eq_false_iff_ne]
          exact hne j hj
      rw [searched, hsome]
      exact steps_compare_eq heq 0
    · refine (steps_compare_ne heq 0 (agreeBelow_zero _ _)).trans (ih (by omega) fun j hj => ?_)
      rcases Nat.lt_succ_iff_lt_or_eq.mp hj with hlt | rfl
      · exact hne j hlt
      · exact heq

theorem steps_collect (n : ℕ) (hn : t.nearbyCount.toNat = i + n) :
    nearbySections.Steps (collect t.nearbyCount i ((List.range i).map t.nearbyEntities), t)
      (finished (.entities t.getEntitiesNearby), t) := by
  induction n generalizing i with
  | zero =>
    have hend : ¬ (i : ℤ) < t.nearbyCount := by omega
    rw [collect, if_neg hend, NearbyTable.getEntitiesNearby, hn, Nat.add_zero]
  | succ n ih =>
    have hlt : (i : ℤ) < t.nearbyCount := by omega
    have hpush : (List.range (i + 1)).map t.nearbyEntities =
        (List.range i).map t.nearbyEntities ++ [t.nearbyEntities i] := by
      rw [List.range_succ, List.map_append, List.map_singleton]
    have hrest := ih (i := i + 1) (by omega)
    rw [hpush] at hrest
    rw [collect, if_pos hlt]
    exact (steps_loadEntry _ 0 localAddr (agreeBelow_zero _ _)).trans hrest

theorem steps_loadCount (c : NearbyRequest) {addr : MAC}
    (hc : afterCount c t.nearbyCount = search c addr t.nearbyCount 0) :
    nearbySections.Steps (loadCount c, t) (searched c addr t, t) := by
  refine (steps_access rfl ?_).trans (steps_search t.nearbyCount.toNat (Nat.zero_add _).symm ?_)
  · exact congrArg (·, t) hc
  · exact fun j hj => absurd hj (Nat.not_lt_zero j)

theorem steps_storeCount (t : NearbyTable) (n : ℤ) :
    nearbySections.Steps (storeCount n, t) (finished .done, { t with nearbyCount := n }) :=
  steps_access rfl rfl

theorem steps_register (t : NearbyTable) (addr : MAC) :
    nearbySections.Steps (searched (.update (.register addr)) addr t, t)
      (finished .done, t.register addr) := by
  unfold searched NearbyTable.register
  cases hfirst : t.firstIndex addr with
  | some i =>
    rw [if_neg (by simp)]
    exact .refl
  | none =>
    by_cases hroom : t.nearbyCount < maxNearbyEntities
    · rw [if_pos ⟨rfl, hroom⟩]
      change nearbySections.Steps
        (if t.nearbyCount < maxNearbyEntities then _ else _, t) _
      rw [if_pos hroom]
      exact (steps_storeEntry 0 (agreeBelow_zero _ _)).trans (steps_storeCount _ _)
    · rw [if_neg fun h => hroom h.2]
      change nearbySections.Steps
        (if t.nearbyCount < maxNearbyEntities then _ else _, t) _
      rw [if_neg hroom]

theorem steps_unregister (t : NearbyTable) (addr : MAC) :
    nearbySections.Steps (searched (.update (.unregister addr)) addr t, t)
      (finished .done, t.unregister addr) := by
  unfold searched NearbyTable.unregister
  cases t.firstIndex addr with
  | none => exact .refl
  | some i =>
    change nearbySections.Steps (if i < t.nearbyCount - 1 then _ else _, t) _
    by_cases hlt : i < t.nearbyCount - 1
    · rw [if_pos hlt]
      simp only [if_pos hlt]
      have hne : (t.nearbyCount - 1).toNat ≠ i := by omega
      exact (steps_loadLast rfl hne 0 (agreeBelow_zero _ _)).trans (steps_storeCount _ _)
    · rw [if_neg hlt]
      simp only [if_neg hlt]
      exact steps_storeCount t _

end NearbyPlace

theorem nearbySections_implements : nearbySections.Implements NearbyTable.perform := by
  intro c t
  cases c with
  | update call =>
    cases call with
    | register addr =>
      have hload := NearbyPlace.steps_loadCount (t := t) (.update (.register addr)) rfl
      exact ⟨_, hload.trans (NearbyPlace.steps_register t addr), rfl⟩
    | unregister addr =>
      have hload := NearbyPlace.steps_loadCount (t := t) (.update (.unregister addr)) rfl
      exact ⟨_, hload.trans (NearbyPlace.steps_unregister t addr), rfl⟩
    | reset => exact ⟨_, NearbyPlace.steps_storeCount t 0, rfl⟩
  | isEntityNearby addr =>
    refine ⟨_, NearbyPlace.steps_loadCount (.isEntityNearby addr) rfl, ?_⟩
    change NearbyPlace.result (NearbyPlace.searched _ addr t) =
      some (.found (t.isEntityNearby addr))
    unfold NearbyPlace.searched NearbyTable.isEntityNearby
    cases t.firstIndex addr <;> rfl
  | getEntitiesNearby =>
    have hcollect := NearbyPlace.steps_collect (t := t) t.nearbyCount.toNat (Nat.zero_add _).symm
    exact ⟨_, (NearbyPlace.steps_access rfl rfl).trans hcollect, rfl⟩

namespace NearbyPlace

variable {c : NearbyRequest} {count : ℤ} {i : ℕ}

def Within : NearbyPlace → Prop
  | compare _ _ count i _ | loadEntry count i _ _ _ => i < count ∧ count ≤ maxNearbyEntities
  | storeEntry _ count _ => 0 ≤ count ∧ count < maxNearbyEntities
  | loadLast count i _ | storeLast count i _ _ => i < count - 1 ∧ count ≤ maxNearbyEntities
  | storeCount n => 0 ≤ n ∧ n ≤ maxNearbyEntities
  | loadCount _ | finished _ => True

theorem Within.entry_lt {x : NearbyPlace} (h : x.Within) {e : ℕ} (he : x.entry = some e) :
    e < maxNearbyEntities := by
  cases x with
  | loadCount | storeCount | finished => cases he
  | _ =>
    cases he
    simp only [Within] at h
    omega

theorem within_onFound (hi : i < count) (hle : count ≤ maxNearbyEntities) :
    (onFound c count i).Within := by
  cases c with
  | update call =>
    cases call with
    | unregister addr =>
      change (if i < count - 1 then _ else _ : NearbyPlace).Within
      split_ifs with hlt
      · exact ⟨hlt, hle⟩
      · exact ⟨by omega, by omega⟩
    | _ => trivial
  | _ => trivial

theorem within_onMissing (h0 : 0 ≤ count) : (onMissing c count).Within := by
  cases c with
  | update call =>
    cases call with
    | register addr =>
      change (if count < maxNearbyEntities then _ else _ : NearbyPlace).Within
      split_ifs with hlt
      · exact ⟨h0, hlt⟩
      · trivial
    | _ => trivial
  | _ => trivial

theorem within_search (h0 : 0 ≤ count) (hle : count ≤ maxNearbyEntities) :
    (search c addr count i).Within := by
  unfold search
  split_ifs with hlt
  · exact ⟨hlt, hle⟩
  · exact within_onMissing h0

theorem within_collect (hle : count ≤ maxNearbyEntities) (out : List MAC) :
    (collect count i out).Within := by
  unfold collect
  split_ifs with hlt
  · exact ⟨hlt, hle⟩
  · trivial

theorem within_elim {x : NearbyPlace} {f : Fin 6 → NearbyPlace} (hx : x.Within)
    (hf : ∀ k, (f k).Within) (o : Option (Fin 6)) : (o.elim x f).Within := by
  cases o with
  | none => exact hx
  | some k => exact hf k

end NearbyPlace

/-- The count is in its range, and nothing was written past the array. -/
structure NearbyTable.Bounded (t : NearbyTable) : Prop where
  nonneg : 0 ≤ t.nearbyCount
  le : t.nearbyCount ≤ maxNearbyEntities
  outside : ∀ i, maxNearbyEntities ≤ i → t.nearbyEntities i = localAddr

theorem NearbyTable.Bounded.setEntry {t : NearbyTable} (h : t.Bounded) {i : ℕ}
    (hi : i < maxNearbyEntities) (a : MAC) : (t.setEntry i a).Bounded where
  nonneg := h.nonneg
  le := h.le
  outside j hj := (t.setEntry_of_ne a (hi.trans_le hj).ne').trans (h.outside j hj)

theorem NearbyTable.Holds.bounded {t : NearbyTable} {l : NearbyEntities} (h : t.Holds l) :
    t.Bounded where
  nonneg := by
    rw [h.count]
    exact Int.natCast_nonneg _
  le := by
    rw [h.count]
    exact Int.ofNat_le.mpr l.length_le
  outside := h.outside

namespace NearbyPlace

theorem within_afterCount (c : NearbyRequest) {t : NearbyTable} (h : t.Bounded) :
    (afterCount c t.nearbyCount).Within := by
  cases c with
  | update call =>
    cases call with
    | reset => exact ⟨le_rfl, Int.natCast_nonneg _⟩
    | _ => exact within_search h.nonneg h.le
  | isEntityNearby addr => exact within_search h.nonneg h.le
  | getEntitiesNearby => exact within_collect h.le []

theorem within_access {x : NearbyPlace} {t : NearbyTable} (hx : x.Within) (ht : t.Bounded) :
    (x.access t).1.Within ∧ (x.access t).2.Bounded := by
  cases x with
  | loadCount c => exact ⟨within_afterCount c ht, ht⟩
  | compare c addr count i k =>
    simp only [access]
    split_ifs
    · have hfound := within_onFound (c := c) hx.1 hx.2
      exact ⟨within_elim (f := compare c addr count i) hfound (fun _ => hx) _, ht⟩
    · exact ⟨within_search ((Int.natCast_nonneg i).trans hx.1.le) hx.2, ht⟩
  | storeEntry addr count k =>
    have hlt : count.toNat < maxNearbyEntities := by
      have := hx.1
      have := hx.2
      omega
    refine ⟨within_elim (f := storeEntry addr count) ?_ (fun _ => hx) _, ht.setEntry hlt _⟩
    exact ⟨by have := hx.1; omega, hx.2⟩
  | loadLast count i k => exact ⟨hx, ht⟩
  | storeLast count i k octet =>
    have hlt : i < maxNearbyEntities := by
      have := hx.1
      have := hx.2
      omega
    refine ⟨within_elim (f := loadLast count i) ?_ (fun _ => hx) _, ht.setEntry hlt _⟩
    exact ⟨by have := hx.1; omega, by have := hx.2; omega⟩
  | storeCount n => exact ⟨trivial, hx.1, hx.2, ht.outside⟩
  | loadEntry count i k element out =>
    exact ⟨within_elim (f := fun k' => loadEntry count i k' _ out) (within_collect hx.2 _)
      (fun _ => hx) _, ht⟩
  | finished r => exact ⟨trivial, ht⟩

theorem within_steps {x y : NearbyPlace × NearbyTable} (h : nearbySections.Steps x y)
    (hx : x.1.Within ∧ x.2.Bounded) : y.1.Within ∧ y.2.Bounded := by
  induction h with
  | refl => exact hx
  | tail _ hstep ih =>
    rw [← hstep.2]
    exact within_access ih.1 ih.2

theorem within_start (c : NearbyRequest) : (start c).Within := by
  cases c with
  | update call =>
    cases call with
    | reset => exact ⟨le_rfl, Int.natCast_nonneg _⟩
    | _ => trivial
  | _ => trivial

end NearbyPlace

section Threads
variable {ι : Type*}

/-- What the functions are for: questions to a bounded set and changes of it. -/
def NearbyRequest.effect (s : Finset MAC) : NearbyRequest → Finset MAC
  | .update call => NearbyTable.execSet s call
  | _ => s

def NearbyRequest.Answer (s : Finset MAC) : NearbyRequest → NearbyResult → Prop
  | .update _, r => r = .done
  | .isEntityNearby addr, r => r = .found (decide (addr ∈ s))
  | .getEntitiesNearby, r => ∃ l, r = .entities l ∧ l.Nodup ∧ l.toFinset = s

def nearbySet (l : List (ι × NearbyRequest × NearbyResult)) : Finset MAC :=
  l.foldl (fun s e => e.2.1.effect s) ∅

def nearbyLock (ι : Type*) [DecidableEq ι] :
    Machine (State NearbyTable NearbyRequest NearbyPlace NearbyResult ι)
      (SpinLock.Action NearbyRequest ι) :=
  nearbySections.machine NearbyTable.zeroed

theorem NearbyTable.Holds.perform {t : NearbyTable} {l : NearbyEntities} (h : t.Holds l)
    (c : NearbyRequest) : ∃ l', (t.perform c).1.Holds l' := by
  cases c with
  | update call => exact h.exec call
  | _ => exact ⟨l, h⟩

theorem NearbyTable.Holds.answer {t : NearbyTable} {l : NearbyEntities} (h : t.Holds l)
    (c : NearbyRequest) : c.Answer t.entitySet (t.perform c).2 := by
  cases c with
  | update call => rfl
  | isEntityNearby addr =>
    refine congrArg NearbyResult.found ?_
    rw [Bool.eq_iff_iff, decide_eq_true_iff, NearbyTable.entitySet, List.mem_toFinset]
    exact t.firstIndex_isSome addr
  | getEntitiesNearby => exact ⟨_, rfl, h.entities ▸ l.nodup, rfl⟩

theorem replay_holds (l : List (ι × NearbyRequest × NearbyResult)) :
    ∃ e, (replay (fun c t => NearbyTable.perform c t) .zeroed l).Holds e ∧
      (replay (fun c t => NearbyTable.perform c t) .zeroed l).entitySet = nearbySet l := by
  induction l using List.reverseRecOn with
  | nil => exact ⟨_, NearbyTable.holds_zeroed, rfl⟩
  | append_singleton l e ih =>
    obtain ⟨t, c, r⟩ := e
    obtain ⟨e, he, hset⟩ := ih
    have hnext : nearbySet (l ++ [(t, c, r)]) = c.effect (nearbySet l) := by
      unfold nearbySet
      rw [List.foldl_append]
      rfl
    rw [replay_concat, hnext, ← hset]
    obtain ⟨e', he'⟩ := he.perform c
    refine ⟨e', he', ?_⟩
    cases c with
    | update call => exact he.entitySet_exec call
    | _ => rfl

variable [DecidableEq ι] {s : State NearbyTable NearbyRequest NearbyPlace NearbyResult ι}

theorem serial (hs : (nearbyLock ι).Reachable s) :
    Sections.Serial nearbySections NearbyTable.perform .zeroed s :=
  Sections.serial_of_reachable nearbySections_implements hs

theorem within_of_inside (hs : (nearbyLock ι).Reachable s) {t : ι} {c : NearbyRequest}
    {x : NearbyPlace} (hpc : s.pc t = .inside c x) : x.Within ∧ s.data.Bounded := by
  obtain ⟨e, he, -⟩ := replay_holds s.returned
  exact NearbyPlace.within_steps ((serial hs).inside t c x hpc)
    ⟨NearbyPlace.within_start c, he.bounded⟩

/-- However their accesses are interleaved, the calls of any number of threads are the calls of a
history on a set of at most sixteen addresses, in the order in which they clear the lock: each
returns what the set says at that point, and whoever takes the free lock finds that set in the
array. One thread at a time is in its section, no access of it is outside the array, and all
the calls under way can return. -/
theorem nearbyLock_serial [Fintype ι] (hs : (nearbyLock ι).Reachable s) :
    (∀ before t c r after, s.returned = before ++ (t, c, r) :: after →
      c.Answer (nearbySet before) r) ∧
    (s.locked = false → s.data.entitySet = nearbySet s.returned) ∧
    (∀ t u c c' x x', s.pc t = .inside c x → s.pc u = .inside c' x' → u = t) ∧
    (∀ t c x, s.pc t = .inside c x → ∀ e, x.entry = some e → e < maxNearbyEntities) ∧
    ∃ s', nearbySections.Leads .zeroed s s' ∧ ∀ t, s'.pc t = .idle := by
  have hserial := serial hs
  refine ⟨?_, fun hfree => ?_, fun t u c c' x x' ht hu => hserial.other ht hu,
    fun t c x hpc e he => (within_of_inside hs hpc).1.entry_lt he,
    Sections.exists_all_idle nearbySections_implements hs⟩
  · intro before t c r after hreturned
    obtain ⟨e, he, hset⟩ := replay_holds before
    rw [hserial.legal before t c r after hreturned, ← hset]
    exact he.answer c
  · obtain ⟨e, -, hset⟩ := replay_holds s.returned
    rw [hserial.free hfree]
    exact hset

def registerRun : List (SpinLock.Action NearbyRequest Bool) :=
  let addr : MAC := ⟨#v[2, 0, 0, 0, 7, 1]⟩
  [.call false (.update (.register addr)), .call true (.isEntityNearby addr), .testAndSet false,
      .access false, .testAndSet true] ++
    List.replicate 7 (.access false) ++ [.clear false, .testAndSet true] ++
    List.replicate 7 (.access true) ++ [.clear true]

theorem nearbyLock_serial_of_registerRun :
    ∃ s, (nearbyLock Bool).Reachable s ∧ s.returned.length = 2 ∧
      s.data.entitySet = nearbySet s.returned := by
  obtain ⟨s, -, hs, hgoal⟩ := Machine.Reachable.exec_any (M := nearbyLock Bool) (.init rfl)
    registerRun (fun s => s.returned.length = 2 && !s.locked) (by decide)
  rw [Bool.and_eq_true, decide_eq_true_iff, Bool.not_eq_true'] at hgoal
  exact ⟨s, hs, hgoal.1, (nearbyLock_serial hs).2.1 hgoal.2⟩

end Threads
end CommunicationAPI
