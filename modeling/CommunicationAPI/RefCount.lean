import Mathlib.Data.Finset.Card
import Mathlib.Logic.Function.Basic

/-!
# Counting the owners of shared objects

Finitely many handles exist at a time and each owns at most one object. The
number of owners of an object changes by one for the object a handle gives up
and for the one it takes. A heap keeps a counter for every object and destroys
the object when its counter returns to zero. The counters are not bounded: they
stand for those of a program in which no counter exceeds its type.
-/

namespace RefCount

section Owners

variable {ν β : Type*} [DecidableEq β]

def owners (live : Finset ν) (owner : ν → Option β) (b : β) : ℕ :=
  {x ∈ live | owner x = some b}.card

theorem owners_congr {live : Finset ν} {owner owner' : ν → Option β} (b : β)
    (h : ∀ x ∈ live, owner x = owner' x) : owners live owner b = owners live owner' b := by
  unfold owners
  congr 1
  refine Finset.filter_congr fun x hx => ?_
  rw [h x hx]

theorem owners_pos_iff {live : Finset ν} {owner : ν → Option β} {b : β} :
    0 < owners live owner b ↔ ∃ x ∈ live, owner x = some b := by
  unfold owners
  rw [Finset.card_pos]
  exact Finset.filter_nonempty_iff

variable [DecidableEq ν] {live : Finset ν} (owner : ν → Option β) (b : β) {x : ν}

/-- A new handle. -/
theorem owners_insert (hx : x ∉ live) (o : Option β) :
    owners (insert x live) (Function.update owner x o) b =
      owners live owner b + if o = some b then 1 else 0 := by
  have hrest : owners live (Function.update owner x o) b = owners live owner b :=
    owners_congr b fun y hy => Function.update_of_ne (ne_of_mem_of_not_mem hy hx) _ _
  rw [← hrest]
  unfold owners
  rw [Finset.filter_insert, Function.update_self]
  split_ifs with ho
  · exact Finset.card_insert_of_notMem fun h => hx (Finset.mem_filter.mp h).1
  · rfl

/-- A handle goes out of existence. -/
theorem owners_erase (hx : x ∈ live) :
    owners (live.erase x) owner b + (if owner x = some b then 1 else 0) =
      owners live owner b := by
  have h := owners_insert owner b (Finset.notMem_erase x live) (owner x)
  rw [Finset.insert_erase hx, Function.update_eq_self] at h
  exact h.symm

/-- A handle gives up what it owns for something else. -/
theorem owners_update (hx : x ∈ live) (o : Option β) :
    owners live (Function.update owner x o) b + (if owner x = some b then 1 else 0) =
      owners live owner b + if o = some b then 1 else 0 := by
  have hbefore := owners_erase owner b hx
  have hafter := owners_erase (Function.update owner x o) b hx
  have hrest : owners (live.erase x) (Function.update owner x o) b =
      owners (live.erase x) owner b :=
    owners_congr b fun y hy => Function.update_of_ne (Finset.ne_of_mem_erase hy) _ _
  rw [hrest, Function.update_self] at hafter
  omega

theorem owners_take {o : Option β} (hx : x ∈ live) (hnone : owner x = none) :
    owners live (Function.update owner x o) b =
      owners live owner b + if o = some b then 1 else 0 := by
  have hupdate := owners_update owner b hx o
  rwa [hnone, if_neg (Option.some_ne_none b).symm] at hupdate

theorem owners_give (hx : x ∈ live) :
    owners live (Function.update owner x none) b + (if owner x = some b then 1 else 0) =
      owners live owner b := by
  have hupdate := owners_update owner b hx none
  rwa [if_neg (Option.some_ne_none b).symm] at hupdate

end Owners

/-- The counters, the objects that exist and those that have been destroyed. -/
structure Heap (β : Type*) where
  refCount : β → ℤ
  live : Finset β
  destroyed : List β

namespace Heap
variable {β : Type*} [DecidableEq β] (h : Heap β)

def new (b : β) : Heap β where
  refCount := Function.update h.refCount b 1
  live := insert b h.live
  destroyed := h.destroyed

def acquire (b : β) : Heap β :=
  { h with refCount := Function.update h.refCount b (h.refCount b + 1) }

def drop (b : β) : Heap β :=
  let counted := Function.update h.refCount b (h.refCount b - 1)
  if h.refCount b - 1 = 0 then ⟨counted, h.live.erase b, h.destroyed ++ [b]⟩
  else { h with refCount := counted }

def release (o : Option β) : Heap β := o.elim h h.drop

def share (o : Option β) : Heap β := o.elim h h.acquire

def Known (b : β) : Prop := b ∈ h.live ∨ b ∈ h.destroyed

theorem known_new (b c : β) : (h.new b).Known c ↔ c = b ∨ h.Known c := by
  unfold Known new
  rw [Finset.mem_insert, or_assoc]

theorem known_share (o : Option β) (c : β) : (h.share o).Known c ↔ h.Known c := by
  cases o <;> exact Iff.rfl

theorem known_release {o : Option β} (ho : ∀ b, o = some b → b ∈ h.live) (c : β) :
    (h.release o).Known c ↔ h.Known c := by
  cases o with
  | none => exact Iff.rfl
  | some b =>
    have hb := ho b rfl
    unfold release drop Known
    rw [Option.elim_some]
    by_cases hlast : h.refCount b - 1 = 0
    · rw [if_pos hlast]
      dsimp only
      rw [Finset.mem_erase, List.mem_append, List.mem_singleton]
      constructor
      · rintro (⟨-, hlive⟩ | hold | rfl)
        · exact .inl hlive
        · exact .inr hold
        · exact .inl hb
      · rintro (hlive | hold)
        · by_cases hcb : c = b
          · exact .inr (.inr hcb)
          · exact .inl ⟨hcb, hlive⟩
        · exact .inr (.inl hold)
    · rw [if_neg hlast]

end Heap

/-- The counters are right, no handle owns a destroyed object and no object is
destroyed twice. -/
structure Counted {ν β : Type*} [DecidableEq β] (handles : Finset ν) (owner : ν → Option β)
    (h : Heap β) : Prop where
  count : ∀ b ∈ h.live, h.refCount b = owners handles owner b
  positive : ∀ b ∈ h.live, 0 < owners handles owner b
  alive : ∀ x ∈ handles, ∀ b, owner x = some b → b ∈ h.live
  once : ∀ b, h.destroyed.count b ≤ 1
  dead : ∀ b ∈ h.destroyed, b ∉ h.live

namespace Counted

section Rules

variable {ν β : Type*} [DecidableEq β] {handles : Finset ν} {owner owner' : ν → Option β}
  {h : Heap β} {x y : ν} {b : β}

theorem live_of_owners_pos (hc : Counted handles owner h) (hpos : 0 < owners handles owner b) :
    b ∈ h.live := by
  obtain ⟨x, hx, hxb⟩ := owners_pos_iff.mp hpos
  exact hc.alive x hx b hxb

theorem owners_of_not_live (hc : Counted handles owner h) (hb : b ∉ h.live) :
    owners handles owner b = 0 :=
  Nat.eq_zero_of_not_pos fun hpos => hb (hc.live_of_owners_pos hpos)

theorem owners_of_destroyed (hc : Counted handles owner h) (hb : b ∈ h.destroyed) :
    owners handles owner b = 0 := hc.owners_of_not_live (hc.dead b hb)

/-- The heap is as right for any handles as for others that own the same. -/
theorem recount {handles' : Finset ν} (hc : Counted handles owner h)
    (hsame : ∀ b, owners handles' owner' b = owners handles owner b) :
    Counted handles' owner' h where
  count b hb := by
    rw [hsame]
    exact hc.count b hb
  positive b hb := by
    rw [hsame]
    exact hc.positive b hb
  alive x hx b hxb := by
    have hpos := owners_pos_iff.mpr ⟨x, hx, hxb⟩
    rw [hsame] at hpos
    exact hc.live_of_owners_pos hpos
  once := hc.once
  dead := hc.dead

theorem congr (hc : Counted handles owner h) (heq : ∀ x ∈ handles, owner x = owner' x) :
    Counted handles owner' h := hc.recount fun b => (owners_congr b heq).symm

variable [DecidableEq ν]

/-- A handle that owns nothing comes into existence. -/
theorem construct (hc : Counted handles owner h) (hx : x ∉ handles) :
    Counted (insert x handles) (Function.update owner x none) h :=
  hc.recount fun b => owners_insert owner b hx none

/-- A handle that owns nothing goes out of existence. -/
theorem erase (hc : Counted handles owner h) (hx : x ∈ handles) (hnone : owner x = none) :
    Counted (handles.erase x) owner h := by
  refine hc.recount fun b => ?_
  have herase := owners_erase owner b hx
  rwa [hnone, if_neg (Option.some_ne_none b).symm] at herase

/-- A handle that owns nothing gets a new object. -/
theorem new (hc : Counted handles owner h) (hx : x ∈ handles) (hnone : owner x = none)
    (hfresh : b ∉ h.live) (hnever : b ∉ h.destroyed) :
    Counted handles (Function.update owner x (some b)) (h.new b) := by
  have hzero := hc.owners_of_not_live hfresh
  refine ⟨fun c hcb => ?_, fun c hcb => ?_, fun y hy c hyc => ?_, hc.once, fun c hcd => ?_⟩
  · rw [owners_take owner c hx hnone]
    rcases Finset.mem_insert.mp hcb with rfl | hold
    · rw [hzero, if_pos rfl]
      exact Function.update_self c 1 h.refCount
    · have hne : c ≠ b := ne_of_mem_of_not_mem hold hfresh
      rw [if_neg (Option.some_injective β |>.ne hne.symm), Nat.add_zero]
      exact (Function.update_of_ne hne _ _).trans (hc.count c hold)
  · rw [owners_take owner c hx hnone]
    rcases Finset.mem_insert.mp hcb with rfl | hold
    · rw [if_pos rfl]
      exact Nat.succ_pos _
    · exact Nat.add_pos_left (hc.positive c hold) _
  · rcases eq_or_ne y x with rfl | hne
    · rw [Function.update_self, Option.some.injEq] at hyc
      exact hyc ▸ Finset.mem_insert_self b h.live
    · rw [Function.update_of_ne hne] at hyc
      exact Finset.mem_insert_of_mem (hc.alive y hy c hyc)
  · intro hlive
    rcases Finset.mem_insert.mp hlive with rfl | hold
    · exact hnever hcd
    · exact hc.dead c hcd hold

/-- A handle that owns nothing takes what another one owns. -/
theorem share (hc : Counted handles owner h) (hx : x ∈ handles) (hnone : owner x = none)
    (hy : y ∈ handles) :
    Counted handles (Function.update owner x (owner y)) (h.share (owner y)) := by
  cases hyb : owner y with
  | none =>
    refine hc.congr fun z hz => ?_
    rcases eq_or_ne z x with rfl | hne
    · rw [Function.update_self, hnone]
    · rw [Function.update_of_ne hne]
  | some b =>
    have hb := hc.alive y hy b hyb
    refine ⟨fun c hcb => ?_, fun c hcb => ?_, fun z hz c hzc => ?_, hc.once, hc.dead⟩
    · rw [owners_take owner c hx hnone]
      rcases eq_or_ne b c with rfl | hne
      · have hself : (h.share (some b)).refCount b = h.refCount b + 1 :=
          Function.update_self b _ h.refCount
        rw [if_pos rfl, hself, hc.count b hcb]
        rfl
      · rw [if_neg (Option.some_injective β |>.ne hne), Nat.add_zero]
        exact (Function.update_of_ne hne.symm _ _).trans (hc.count c hcb)
    · rw [owners_take owner c hx hnone]
      exact Nat.add_pos_left (hc.positive c hcb) _
    · rcases eq_or_ne z x with rfl | hne
      · rw [Function.update_self, Option.some.injEq] at hzc
        exact hzc ▸ hb
      · rw [Function.update_of_ne hne] at hzc
        exact hc.alive z hz c hzc

/-- What a handle owns passes to one that owns nothing. -/
theorem transfer (hc : Counted handles owner h) (hx : x ∈ handles) (hnone : owner x = none)
    (hy : y ∈ handles) (hne : x ≠ y) :
    Counted handles (Function.update (Function.update owner x (owner y)) y none) h := by
  refine hc.recount fun c => ?_
  have hgive := owners_give (Function.update owner x (owner y)) c hy
  rw [Function.update_of_ne hne.symm, owners_take owner c hx hnone] at hgive
  exact Nat.add_right_cancel hgive

theorem alive_give (hc : Counted handles owner h) :
    ∀ y ∈ handles, ∀ c, Function.update owner x none y = some c → c ∈ h.live := by
  intro y hy c hyc
  rcases eq_or_ne y x with rfl | hne
  · rw [Function.update_self] at hyc
    cases hyc
  · rw [Function.update_of_ne hne] at hyc
    exact hc.alive y hy c hyc

theorem owners_other (hx : x ∈ handles) (hxb : owner x = some b) {c : β} (hne : c ≠ b) :
    owners handles (Function.update owner x none) c = owners handles owner c := by
  have hgive := owners_give owner c hx
  rwa [hxb, if_neg (Option.some_injective β |>.ne hne.symm), Nat.add_zero] at hgive

theorem owners_self (hx : x ∈ handles) (hxb : owner x = some b) :
    owners handles (Function.update owner x none) b + 1 = owners handles owner b := by
  have hgive := owners_give owner b hx
  rwa [hxb, if_pos rfl] at hgive

/-- The last owner destroys the object. -/
theorem drop_last (hc : Counted handles owner h) (hx : x ∈ handles) (hxb : owner x = some b)
    (hlast : h.refCount b - 1 = 0) :
    Counted handles (Function.update owner x none) (h.drop b) := by
  have hb := hc.alive x hx b hxb
  have hzero : owners handles (Function.update owner x none) b = 0 := by
    have hself := owners_self hx hxb
    have hold := hc.count b hb
    omega
  unfold Heap.drop
  rw [if_pos hlast]
  refine ⟨fun c hcb => ?_, fun c hcb => ?_, fun y hy c hyc => ?_, fun c => ?_, fun c hcd => ?_⟩
  · have hne := Finset.ne_of_mem_erase hcb
    rw [owners_other hx hxb hne]
    exact (Function.update_of_ne hne _ _).trans (hc.count c (Finset.mem_of_mem_erase hcb))
  · rw [owners_other hx hxb (Finset.ne_of_mem_erase hcb)]
    exact hc.positive c (Finset.mem_of_mem_erase hcb)
  · refine Finset.mem_erase.mpr ⟨?_, hc.alive_give y hy c hyc⟩
    rintro rfl
    exact absurd hzero (owners_pos_iff.mpr ⟨y, hy, hyc⟩).ne'
  · rw [List.count_append, List.count_singleton]
    split_ifs with hcb
    · have hnot : c ∉ h.destroyed := fun hcd => hc.dead c hcd (beq_iff_eq.mp hcb ▸ hb)
      rw [List.count_eq_zero_of_not_mem hnot]
    · exact hc.once c
  · rcases List.mem_append.mp hcd with hold | hnew
    · exact fun hlive => hc.dead c hold (Finset.mem_of_mem_erase hlive)
    · rw [List.mem_singleton.mp hnew]
      exact Finset.notMem_erase b h.live

/-- Another owner keeps the object. -/
theorem drop_shared (hc : Counted handles owner h) (hx : x ∈ handles) (hxb : owner x = some b)
    (hshared : h.refCount b - 1 ≠ 0) :
    Counted handles (Function.update owner x none) (h.drop b) := by
  have hself := owners_self hx hxb
  have hold := hc.count b (hc.alive x hx b hxb)
  unfold Heap.drop
  rw [if_neg hshared]
  refine ⟨fun c hcb => ?_, fun c hcb => ?_, hc.alive_give, hc.once, hc.dead⟩
  · rcases eq_or_ne c b with rfl | hne
    · refine (Function.update_self c _ _).trans ?_
      omega
    · rw [owners_other hx hxb hne]
      exact (Function.update_of_ne hne _ _).trans (hc.count c hcb)
  · rcases eq_or_ne c b with rfl | hne
    · omega
    · rw [owners_other hx hxb hne]
      exact hc.positive c hcb

/-- A handle gives up what it owns. -/
theorem release (hc : Counted handles owner h) (hx : x ∈ handles) :
    Counted handles (Function.update owner x none) (h.release (owner x)) := by
  cases hxb : owner x with
  | none =>
    have hself : Function.update owner x none = owner := by
      rw [← hxb, Function.update_eq_self]
    rw [hself]
    exact hc
  | some b =>
    by_cases hlast : h.refCount b - 1 = 0
    · exact hc.drop_last hx hxb hlast
    · exact hc.drop_shared hx hxb hlast

end Rules

end Counted

end RefCount
