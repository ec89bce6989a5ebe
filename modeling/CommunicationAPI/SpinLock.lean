import CommunicationAPI.Monitor
import Mathlib.Logic.Relation
import Mathlib.Data.Fintype.Card

/-!
# Critical sections under a spin lock

A flag guards some data. A call sets the flag over and over until it finds it
clear, works on the data with one access after another, and clears the flag.
Other threads may run between any two accesses. In the order in which they
clear the flag the calls are a sequential history.
-/

namespace SpinLock
open TransitionSystem

/-- What a call does while it holds the lock: `access` is one access to the data from a
place in the section, and `result` tells that the section is over. -/
structure Sections (σ κ π ρ : Type*) where
  enter : κ → π
  result : π → Option ρ
  access : π → σ → π × σ

inductive Pc (κ π : Type*)
  | idle
  | spinning (k : κ)
  | inside (k : κ) (x : π)

/-- `returned` records the calls with their results as they clear the flag. -/
structure State (σ κ π ρ ι : Type*) where
  data : σ
  locked : Bool
  pc : ι → Pc κ π
  returned : List (ι × κ × ρ)

inductive Action (κ ι : Type*)
  | call (t : ι) (k : κ)
  | testAndSet (t : ι)
  | access (t : ι)
  | clear (t : ι)

variable {σ κ π ρ ι : Type*}

def Action.Internal : Action κ ι → Prop
  | .call _ _ => False
  | _ => True

def Pc.Holds : Pc κ π → Prop
  | .inside _ _ => True
  | _ => False

namespace State

def start (d : σ) : State σ κ π ρ ι := ⟨d, false, fun _ => .idle, []⟩

variable [DecidableEq ι]

def move (s : State σ κ π ρ ι) (t : ι) (x : Pc κ π) : State σ κ π ρ ι :=
  { s with pc := Function.update s.pc t x }

theorem move_pc_self (s : State σ κ π ρ ι) (t : ι) (x : Pc κ π) : (s.move t x).pc t = x := by
  change Function.update s.pc t x t = x
  rw [Function.update_self]

theorem move_pc_of_ne (s : State σ κ π ρ ι) {t u : ι} (x : Pc κ π) (h : u ≠ t) :
    (s.move t x).pc u = s.pc u := by
  change Function.update s.pc t x u = s.pc u
  rw [Function.update_of_ne h]

end State

def replay (spec : κ → σ → σ × ρ) (d : σ) (l : List (ι × κ × ρ)) : σ :=
  l.foldl (fun d e => (spec e.2.1 d).1) d

/-- Every call of the history returns what it returns on the data it finds. -/
def Legal (spec : κ → σ → σ × ρ) (d : σ) (l : List (ι × κ × ρ)) : Prop :=
  ∀ before t k r after, l = before ++ (t, k, r) :: after → r = (spec k (replay spec d before)).2

section Histories
variable (spec : κ → σ → σ × ρ) (d : σ)

theorem replay_concat (l : List (ι × κ × ρ)) (t : ι) (k : κ) (r : ρ) :
    replay spec d (l ++ [(t, k, r)]) = (spec k (replay spec d l)).1 := by
  unfold replay
  rw [List.foldl_append]
  rfl

theorem legal_nil : Legal spec d ([] : List (ι × κ × ρ)) := by
  intro before t k r after h
  cases before <;> cases h

variable {spec d}

theorem Legal.concat {l : List (ι × κ × ρ)} (hl : Legal spec d l) (t : ι) {k : κ} {r : ρ}
    (hr : r = (spec k (replay spec d l)).2) : Legal spec d (l ++ [(t, k, r)]) := by
  intro before u k' r' after h
  rcases List.eq_nil_or_concat after with rfl | ⟨front, last, rfl⟩
  · obtain ⟨rfl, hlast⟩ := List.append_inj' h rfl
    cases hlast
    exact hr
  · rw [List.concat_eq_append, ← List.cons_append, ← List.append_assoc] at h
    exact hl before u k' r' front (List.append_inj' h rfl).1

end Histories

namespace Sections
variable (S : Sections σ κ π ρ)

def Next (x y : π × σ) : Prop := S.result x.1 = none ∧ S.access x.1 x.2 = y

abbrev Steps : π × σ → π × σ → Prop := Relation.ReflTransGen S.Next

/-- Left alone, every section comes to its end with the data and the result that `spec` says. -/
def Implements (spec : κ → σ → σ × ρ) : Prop :=
  ∀ k d, ∃ x, S.Steps (S.enter k, d) (x, (spec k d).1) ∧ S.result x = some (spec k d).2

variable {S}

theorem steps_of_next {x y : π × σ} (h : S.result x.1 = none) (ha : S.access x.1 x.2 = y) :
    S.Steps x y := .single ⟨h, ha⟩

/-- A section that is on its way is on its way to the end that `spec` says. -/
theorem Implements.remaining {spec : κ → σ → σ × ρ} (h : S.Implements spec) {k : κ} {d : σ}
    {y : π × σ} (hy : S.Steps (S.enter k, d) y) :
    ∃ x, S.Steps y (x, (spec k d).1) ∧ S.result x = some (spec k d).2 := by
  obtain ⟨x, hx, hresult⟩ := h k d
  have hunique : Relator.RightUnique S.Next := fun _ _ _ h₁ h₂ => h₁.2.symm.trans h₂.2
  refine ⟨x, ?_, hresult⟩
  rcases hy.total_of_right_unique hunique hx with hyx | hxy
  · exact hyx
  · -- the section is over where `spec` says, so there is nothing behind it
    rcases Relation.ReflTransGen.cases_head hxy with heq | ⟨z, hz, -⟩
    · rw [heq]
    · rw [hz.1] at hresult
      cases hresult

theorem Implements.eq_of_result {spec : κ → σ → σ × ρ} (h : S.Implements spec) {k : κ} {d d' : σ}
    {x : π} {r : ρ} (hx : S.Steps (S.enter k, d) (x, d')) (hr : S.result x = some r) :
    d' = (spec k d).1 ∧ r = (spec k d).2 := by
  obtain ⟨y, hy, hresult⟩ := h.remaining hx
  rcases Relation.ReflTransGen.cases_head hy with heq | ⟨z, hz, -⟩
  · obtain ⟨rfl, hd⟩ := Prod.mk.inj heq
    rw [hr] at hresult
    exact ⟨hd, Option.some.inj hresult⟩
  · cases hr.symm.trans hz.1

variable {s s' : State σ κ π ρ ι}

/-- The flag is set exactly while some thread is in its section, and only one is. -/
structure Locked (s : State σ κ π ρ ι) (owner : Option ι) : Prop where
  flag : s.locked = owner.isSome
  holds : ∀ t, (s.pc t).Holds ↔ owner = some t

theorem Locked.owner_of_inside {owner : Option ι} (h : Locked s owner) {t : ι} {k : κ} {x : π}
    (hpc : s.pc t = .inside k x) : owner = some t :=
  (h.holds t).mp (by rw [hpc]; exact trivial)

theorem Locked.owner_of_free {owner : Option ι} (h : Locked s owner) (hfree : s.locked = false) :
    owner = none := by
  rw [h.flag] at hfree
  exact Option.isNone_iff_eq_none.mp (by rw [← Option.not_isSome, hfree]; rfl)

/-- The history of the returned calls explains the data and the results, and whoever is in its
section has come there from the data that this history leaves. -/
structure Serial (S : Sections σ κ π ρ) (spec : κ → σ → σ × ρ) (d : σ) (s : State σ κ π ρ ι) :
    Prop where
  lock : ∃ owner, Locked s owner
  legal : Legal spec d s.returned
  free : s.locked = false → s.data = replay spec d s.returned
  inside : ∀ t k x, s.pc t = .inside k x →
    S.Steps (S.enter k, replay spec d s.returned) (x, s.data)

variable {spec : κ → σ → σ × ρ} {d : σ}

theorem serial_start : Serial S spec d (.start d : State σ κ π ρ ι) where
  lock := ⟨none, rfl, fun _ => iff_of_false not_false nofun⟩
  legal := legal_nil spec d
  free _ := rfl
  inside _ _ _ h := nomatch h

theorem Serial.other {t u : ι} {k k' : κ} {x x' : π} (h : Serial S spec d s)
    (ht : s.pc t = .inside k x) (hu : s.pc u = .inside k' x') : u = t := by
  obtain ⟨owner, hlock⟩ := h.lock
  exact Option.some.inj ((hlock.owner_of_inside hu).symm.trans (hlock.owner_of_inside ht))

variable (S) [DecidableEq ι]

def step (s : State σ κ π ρ ι) : Action κ ι → Option (State σ κ π ρ ι)
  | .call t k =>
    match s.pc t with
    | .idle => some (s.move t (.spinning k))
    | _ => none
  | .testAndSet t =>
    match s.pc t with
    | .spinning k =>
      if s.locked then some s
      else some { s.move t (.inside k (S.enter k)) with locked := true }
    | _ => none
  | .access t =>
    match s.pc t with
    | .inside k x =>
      match S.result x with
      | none => some { s.move t (.inside k (S.access x s.data).1) with
          data := (S.access x s.data).2 }
      | some _ => none
    | _ => none
  | .clear t =>
    match s.pc t with
    | .inside k x =>
      match S.result x with
      | none => none
      | some r => some { s.move t .idle with
          locked := false
          returned := s.returned ++ [(t, k, r)] }
    | _ => none

def machine (d : σ) : Machine (State σ κ π ρ ι) (Action κ ι) where
  init s := s = .start d
  step := S.step

inductive Effect (s : State σ κ π ρ ι) : Action κ ι → State σ κ π ρ ι → Prop
  | call {t k} (hpc : s.pc t = .idle) : Effect s (.call t k) (s.move t (.spinning k))
  | spin {t k} (hpc : s.pc t = .spinning k) (hlocked : s.locked = true) :
    Effect s (.testAndSet t) s
  | enter {t k} (hpc : s.pc t = .spinning k) (hfree : s.locked = false) :
    Effect s (.testAndSet t) { s.move t (.inside k (S.enter k)) with locked := true }
  | access {t k x} (hpc : s.pc t = .inside k x) (hresult : S.result x = none) :
    Effect s (.access t) { s.move t (.inside k (S.access x s.data).1) with
      data := (S.access x s.data).2 }
  | clear {t k x r} (hpc : s.pc t = .inside k x) (hresult : S.result x = some r) :
    Effect s (.clear t) { s.move t .idle with
      locked := false
      returned := s.returned ++ [(t, k, r)] }

variable {S} {a : Action κ ι}

theorem step_effect (h : S.step s a = some s') : S.Effect s a s' := by
  cases a with
  | call t k =>
    simp only [step] at h
    split at h
    · cases h; exact .call ‹_›
    · cases h
  | testAndSet t =>
    simp only [step] at h
    split at h
    · split at h
      · cases h; exact .spin ‹_› ‹_›
      · cases h; exact .enter ‹_› (Bool.eq_false_iff.mpr ‹_›)
    · cases h
  | access t =>
    simp only [step] at h
    split at h
    · split at h
      · cases h; exact .access ‹_› ‹_›
      · cases h
    · cases h
  | clear t =>
    simp only [step] at h
    split at h
    · split at h
      · cases h
      · cases h; exact .clear ‹_› ‹_›
    · cases h

theorem locked_step {owner : Option ι} (h : Locked s owner) (hs : S.step s a = some s') :
    ∃ owner', Locked s' owner' := by
  cases step_effect hs with
  | @call t k hpc =>
    exact ⟨owner, h.flag, Monitor.holds_update h.holds (by rw [hpc]; exact Iff.rfl)⟩
  | spin => exact ⟨owner, h⟩
  | @enter t k hpc hfree =>
    exact ⟨some t, rfl, Monitor.holds_update_acquire h.holds (h.owner_of_free hfree) trivial⟩
  | access hpc hresult =>
    exact ⟨owner, h.flag, Monitor.holds_update h.holds (by rw [hpc]; exact Iff.rfl)⟩
  | clear hpc hresult =>
    refine ⟨none, rfl, Monitor.holds_update_release h.holds ?_ not_false⟩
    rw [hpc]
    exact trivial

theorem Serial.step (himpl : S.Implements spec) (h : Serial S spec d s)
    (hs : S.step s a = some s') : Serial S spec d s' := by
  obtain ⟨owner, hlock⟩ := h.lock
  have hlock' := locked_step hlock hs
  cases step_effect hs with
  | @call t k hpc =>
    refine ⟨hlock', h.legal, h.free, fun u k' x hu => ?_⟩
    exact h.inside u k' x (Monitor.eq_of_update hu nofun)
  | spin => exact h
  | @enter t k hpc hfree =>
    refine ⟨hlock', h.legal, nofun, fun u k' x hu => ?_⟩
    rcases eq_or_ne u t with rfl | hne
    · rw [State.move_pc_self] at hu
      cases hu
      change S.Steps _ (_, s.data)
      rw [h.free hfree]
      exact .refl
    · rw [State.move_pc_of_ne _ _ hne] at hu
      have howner := hlock.owner_of_inside hu
      rw [hlock.owner_of_free hfree] at howner
      cases howner
  | @access t k x hpc hresult =>
    have hset : s.locked = true := by
      rw [hlock.flag, hlock.owner_of_inside hpc]
      rfl
    refine ⟨hlock', h.legal, fun hfree => ?_, fun u k' x' hu => ?_⟩
    · cases hset.symm.trans hfree
    · rcases eq_or_ne u t with rfl | hne
      · rw [State.move_pc_self] at hu
        cases hu
        exact (h.inside u k x hpc).tail ⟨hresult, rfl⟩
      · rw [State.move_pc_of_ne _ _ hne] at hu
        exact absurd (h.other hpc hu) hne
  | @clear t k x r hpc hresult =>
    obtain ⟨hdata, hr⟩ := himpl.eq_of_result (h.inside t k x hpc) hresult
    refine ⟨hlock', h.legal.concat t hr, fun _ => ?_, fun u k' x' hu => ?_⟩
    · change s.data = _
      rw [replay_concat]
      exact hdata
    · rcases eq_or_ne u t with rfl | hne
      · rw [State.move_pc_self] at hu
        cases hu
      · rw [State.move_pc_of_ne _ _ hne] at hu
        exact absurd (h.other hpc hu) hne

theorem serial_of_reachable (himpl : S.Implements spec)
    (hs : (S.machine (ι := ι) d).Reachable s) : Serial S spec d s :=
  hs.invariant (fun _ hi => hi ▸ serial_start) fun _ _ _ _ h hstep _ => h.step himpl hstep

def Leads (S : Sections σ κ π ρ) (d : σ) (s s' : State σ κ π ρ ι) : Prop :=
  ∃ as, (∀ a ∈ as, a.Internal) ∧ (S.machine d).exec s as = some s'

theorem Leads.refl (s : State σ κ π ρ ι) : Leads S d s s := ⟨[], by simp, rfl⟩

theorem Leads.head {s₁ : State σ κ π ρ ι} {a : Action κ ι} (hs : S.step s a = some s₁)
    (ha : a.Internal) (h : Leads S d s₁ s') : Leads S d s s' := by
  obtain ⟨as, has, he⟩ := h
  refine ⟨a :: as, List.forall_mem_cons.mpr ⟨ha, has⟩, ?_⟩
  change (S.step s a).bind _ = _
  rw [hs]
  exact he

theorem Leads.trans {s₁ s₂ : State σ κ π ρ ι} (h : Leads S d s s₁) (h' : Leads S d s₁ s₂) :
    Leads S d s s₂ := by
  obtain ⟨as, has, he⟩ := h
  induction as generalizing s with
  | nil =>
    cases he
    exact h'
  | cons a as ih =>
    obtain ⟨ha, has⟩ := List.forall_mem_cons.mp has
    obtain ⟨s', hs, he⟩ := Option.bind_eq_some_iff.mp he
    exact .head hs ha (ih has he)

theorem Leads.reachable (h : Leads S d s s') (hs : (S.machine (ι := ι) d).Reachable s) :
    (S.machine (ι := ι) d).Reachable s' := by
  obtain ⟨as, -, he⟩ := h
  exact hs.exec he

/-- A thread alone in its section comes to the end of it, and no other thread is moved. -/
theorem leads_of_steps {t : ι} {k : κ} {x y : π × σ} {r : ρ} (hxy : S.Steps x y)
    (hr : S.result y.1 = some r) (s : State σ κ π ρ ι) (hpc : s.pc t = .inside k x.1)
    (hdata : s.data = x.2) :
    ∃ s', Leads S d s s' ∧ s'.locked = false ∧ s'.pc = Function.update s.pc t .idle := by
  induction hxy using Relation.ReflTransGen.head_induction_on generalizing s with
  | refl =>
    have hstep : S.step s (.clear t) = some { s.move t .idle with
        locked := false
        returned := s.returned ++ [(t, k, r)] } := by
      simp only [step, hpc, hr]
    exact ⟨_, .head hstep trivial (.refl _), rfl, rfl⟩
  | @head x z hxz _ ih =>
    obtain ⟨hresult, haccess⟩ := hxz
    obtain ⟨s', hlead, hfree, hpc'⟩ := ih
      { s.move t (.inside k z.1) with data := z.2 } (State.move_pc_self s t _) rfl
    have hstep : S.step s (.access t) =
        some { s.move t (.inside k z.1) with data := z.2 } := by
      simp only [step, hpc, hresult, hdata, haccess]
    refine ⟨s', .head hstep trivial hlead, hfree, ?_⟩
    rw [hpc']
    exact Function.update_idem _ _ _

theorem exists_idle_of_inside (himpl : S.Implements spec) (h : Serial S spec d s) {t : ι} {k : κ}
    {x : π} (hpc : s.pc t = .inside k x) :
    ∃ s', Leads S d s s' ∧ s'.locked = false ∧ s'.pc = Function.update s.pc t .idle := by
  obtain ⟨y, hy, hresult⟩ := himpl.remaining (h.inside t k x hpc)
  exact leads_of_steps hy hresult s hpc rfl

def Busy (s : State σ κ π ρ ι) (t : ι) : Prop := s.pc t ≠ .idle

/-- Some thread under way can be brought to the end of its call. -/
theorem exists_returns (himpl : S.Implements spec) (h : Serial S spec d s) {t : ι}
    (ht : Busy s t) :
    ∃ u s', Busy s u ∧ Leads S d s s' ∧ s'.pc = Function.update s.pc u .idle := by
  by_cases hinside : ∃ u k x, s.pc u = .inside k x
  · obtain ⟨u, k, x, hu⟩ := hinside
    obtain ⟨s', hlead, -, hpc⟩ := exists_idle_of_inside himpl h hu
    exact ⟨u, s', by rw [Busy, hu]; nofun, hlead, hpc⟩
  · have hfree : s.locked = false := by
      obtain ⟨owner, hlock⟩ := h.lock
      cases owner with
      | none => exact hlock.flag
      | some u =>
        have hu := (hlock.holds u).mpr rfl
        cases hpc : s.pc u with
        | inside k x => exact absurd ⟨u, k, x, hpc⟩ hinside
        | _ =>
          rw [hpc] at hu
          exact absurd hu not_false
    cases hpc : s.pc t with
    | idle => exact absurd hpc ht
    | inside k x => exact absurd ⟨t, k, x, hpc⟩ hinside
    | spinning k =>
      have hstep : S.step s (.testAndSet t) =
          some { s.move t (.inside k (S.enter k)) with locked := true } := by
        simp only [step, hpc, hfree]
        rfl
      obtain ⟨s', hlead, -, hpc'⟩ :=
        exists_idle_of_inside himpl (h.step himpl hstep) (State.move_pc_self s t _)
      refine ⟨t, s', ht, .head hstep trivial hlead, ?_⟩
      rw [hpc']
      exact Function.update_idem _ _ _

/-- No thread waits for ever: from every state that is reached, all the calls under way can
return without a new one. -/
theorem exists_all_idle [Fintype ι] (himpl : S.Implements spec)
    (hs : (S.machine (ι := ι) d).Reachable s) :
    ∃ s', Leads S d s s' ∧ ∀ t, s'.pc t = .idle := by
  classical
  induction hn : (Finset.univ.filter (Busy s)).card using Nat.strong_induction_on
    generalizing s with
  | _ n ih =>
    by_cases hall : ∀ t, s.pc t = .idle
    · exact ⟨s, .refl s, hall⟩
    · obtain ⟨t, ht⟩ := not_forall.mp hall
      obtain ⟨u, s₁, hu, hlead, hpc⟩ := exists_returns himpl (serial_of_reachable himpl hs) ht
      have hfewer : Finset.univ.filter (Busy s₁) ⊂ Finset.univ.filter (Busy s) := by
        rw [Finset.ssubset_iff_of_subset]
        · refine ⟨u, Finset.mem_filter.mpr ⟨Finset.mem_univ u, hu⟩, fun hmem => ?_⟩
          refine (Finset.mem_filter.mp hmem).2 ?_
          rw [hpc, Function.update_self]
        · intro v hv
          refine Finset.mem_filter.mpr ⟨Finset.mem_univ v, fun hidle => ?_⟩
          refine (Finset.mem_filter.mp hv).2 ?_
          rw [hpc, Function.update_apply]
          split_ifs
          · rfl
          · exact hidle
      obtain ⟨s', hlead', hidle⟩ :=
        ih _ (hn ▸ Finset.card_lt_card hfewer) (hlead.reachable hs) rfl
      exact ⟨s', hlead.trans hlead', hidle⟩

end Sections
end SpinLock
