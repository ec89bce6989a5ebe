import CommunicationAPI.Monitor
import Mathlib.Algebra.BigOperators.Group.Finset.Piecewise
import Mathlib.Algebra.Order.BigOperators.Group.Finset

/-!
# Monitors whose waiting calls take permits

The guard of a waiting call is that a permit is left, and the call takes one. A
call that adds a permit notifies a thread. No notification is lost: every
execution without further calls ends, and where it ends no permit is left or no
thread is asleep.
-/

namespace Monitor
open TransitionSystem

variable {σ κ ι : Type*} [Fintype ι]

def State.total (s : State σ κ ι) (f : Pc κ → ℕ) : ℕ := ∑ t, f (s.pc t)

variable [DecidableEq ι]

/-- A sum over all threads after one of them has moved. -/
theorem sum_update {α : Type*} (g : ι → α) (t : ι) (x : α) (f : α → ℕ) :
    ∑ u, f (Function.update g t x u) + f (g t) = ∑ u, f (g u) + f x := by
  have hmoved : (fun u => f (Function.update g t x u)) =
      Function.update (fun u => f (g u)) t (f x) := Function.comp_update f g t x
  have hrest := Finset.sum_eq_add_sum_sdiff_singleton_of_mem (Finset.mem_univ t) fun u => f (g u)
  rw [hmoved, Finset.sum_update_of_mem (Finset.mem_univ t), hrest]
  omega

theorem State.total_move (s : State σ κ ι) (t : ι) (x : Pc κ) (f : Pc κ → ℕ) :
    (s.move t x).total f + f (s.pc t) = s.total f + f x :=
  sum_update s.pc t x f

namespace Calls

structure Permits (C : Calls σ κ) (permits : σ → ℕ) (waits : κ → Bool) : Prop where
  guard : ∀ k d, C.guard k d = true ↔ (waits k = true → 0 < permits d)
  takes : ∀ k d, waits k = true → 0 < permits d → permits (C.effect k d) + 1 = permits d
  gives : ∀ k d, waits k = false →
    permits (C.effect k d) ≤ permits d + if C.notifies k then 1 else 0
  silent : ∀ k, waits k = true → C.notifies k = false

/-- The threads that may take a permit without being notified, and the notifications to come. -/
def credit (waits : κ → Bool) : Pc κ → ℕ
  | .entering k | .checking k | .acting k => if waits k then 1 else 0
  | .notifying _ => 1
  | .idle | .asleep _ | .leaving _ => 0

/-- A bound for the steps that a thread and the threads it wakes can make without being called. -/
def work (C : Calls σ κ) : Pc κ → ℕ
  | .entering k => if C.notifies k then 9 else 4
  | .checking k => if C.notifies k then 8 else 3
  | .acting k => if C.notifies k then 7 else 2
  | .notifying _ => 6
  | .leaving _ => 1
  | .idle | .asleep _ => 0

variable {C : Calls σ κ} {permits : σ → ℕ} {waits : κ → Bool} {s s' : State σ κ ι}
  {a : Action κ ι} {d : σ}

/-- As long as a thread is asleep, the permits are covered. -/
structure Supplied (permits : σ → ℕ) (waits : κ → Bool) (s : State σ κ ι) : Prop where
  asleep : ∀ t k, s.pc t = .asleep k → waits k = true
  covered : ∀ t k, s.pc t = .asleep k → permits s.data ≤ s.total (credit waits)

section Step

variable {t : ι} {x : Pc κ}

theorem total_of_move (hpc : s'.pc = (s.move t x).pc) (f : Pc κ → ℕ) :
    s'.total f + f (s.pc t) = s.total f + f x := by
  have hmove := s.total_move t x f
  unfold State.total at hmove ⊢
  rw [hpc]
  exact hmove

omit [Fintype ι] in
theorem asleep_of_move (hpc : s'.pc = (s.move t x).pc) (hx : ∀ k, x ≠ .asleep k) {u : ι} {k : κ}
    (hu : s'.pc u = .asleep k) : s.pc u = .asleep k := by
  rw [hpc] at hu
  exact eq_of_update hu (hx k)

theorem Supplied.of_move (h : Supplied permits waits s) (hpc : s'.pc = (s.move t x).pc)
    (hx : ∀ k, x ≠ .asleep k)
    (hcredit : permits s'.data + credit waits (s.pc t) ≤ permits s.data + credit waits x) :
    Supplied permits waits s' := by
  refine ⟨fun u k hu => h.asleep u k (asleep_of_move hpc hx hu), fun u k hu => ?_⟩
  have hcovered := h.covered u k (asleep_of_move hpc hx hu)
  have htotal := total_of_move hpc (credit waits)
  omega

theorem Supplied.step (hC : C.Permits permits waits) (hlock : C.Locked s)
    (h : Supplied permits waits s) (hs : C.step s a = some s') : Supplied permits waits s' := by
  cases step_effect hs with
  | call hpc => exact h.of_move rfl nofun (by rw [hpc]; exact Nat.le_add_right _ _)
  | acquire hpc _ => exact h.of_move rfl nofun (by rw [hpc]; exact le_rfl)
  | pass hpc _ => exact h.of_move rfl nofun (by rw [hpc]; exact le_rfl)
  | @sleep t k hpc hguard =>
    have hfails : ¬ (waits k = true → 0 < permits s.data) := by
      rw [← hC.guard, hguard]
      exact Bool.false_ne_true
    obtain ⟨hwaits, hnone⟩ := Classical.not_imp.mp hfails
    refine ⟨fun u k' hu => ?_, fun u k' hu => ?_⟩
    · rcases eq_or_ne u t with rfl | hne
      · cases (State.move_pc_self s u _).symm.trans hu
        exact hwaits
      · exact h.asleep u k' ((State.move_pc_of_ne s _ hne).symm.trans hu)
    · exact (Nat.le_zero.mp (Nat.not_lt.mp hnone)).trans_le (Nat.zero_le _)
  | @act t k hpc =>
    have hguard := (hC.guard k s.data).mp (hlock.guarded t k hpc)
    refine h.of_move (x := C.next k) rfl ?_ ?_
    · intro k'
      unfold next
      split_ifs <;> exact nofun
    · change permits (C.effect k s.data) + credit waits (s.pc t) ≤ _
      rw [hpc]
      cases hwaits : waits k with
      | true =>
        have htakes := hC.takes k s.data hwaits (hguard hwaits)
        simp only [next, hC.silent k hwaits, credit, hwaits, if_true, Bool.false_eq_true, if_false]
        omega
      | false =>
        have hgives := hC.gives k s.data hwaits
        cases hnotifies : C.notifies k with
        | true =>
          rw [hnotifies, if_pos rfl] at hgives
          simp only [next, hnotifies, credit, hwaits, if_true, Bool.false_eq_true, if_false]
          exact hgives
        | false =>
          rw [hnotifies, if_neg Bool.false_ne_true] at hgives
          simp only [next, hnotifies, credit, hwaits, Bool.false_eq_true, if_false]
          exact hgives
  | @notify t u k k' hpc hwoken =>
    have hne := ne_of_notifying hpc hwoken
    have hasleep : ∀ v k'', ((s.move u (.entering k')).move t (.leaving k)).pc v = .asleep k'' →
        s.pc v = .asleep k'' := fun v k'' hv => eq_of_update (eq_of_update hv nofun) nofun
    refine ⟨fun v k'' hv => h.asleep v k'' (hasleep v k'' hv), fun v k'' hv => ?_⟩
    -- the notification to come becomes a thread on its way
    have hcovered := h.covered v k'' (hasleep v k'' hv)
    have hfirst := s.total_move u (.entering k') (credit waits)
    have hsecond := (s.move u (.entering k')).total_move t (.leaving k) (credit waits)
    rw [State.move_pc_of_ne _ _ hne, hpc] at hsecond
    rw [hwoken] at hfirst
    simp only [credit, h.asleep u k' hwoken, if_true] at hfirst hsecond
    change permits s.data ≤ _
    omega
  | @notifyNone t k hpc hnone =>
    have hasleep : ∀ u k', (s.move t (.leaving k)).pc u ≠ .asleep k' :=
      fun u k' hu => hnone u k' (asleep_of_move rfl nofun hu)
    exact ⟨fun u k hu => absurd hu (hasleep u k), fun u k hu => absurd hu (hasleep u k)⟩
  | release hpc => exact h.of_move rfl nofun (by rw [hpc]; exact le_rfl)
  | wake hpc => exact h.of_move rfl nofun (by rw [hpc]; exact Nat.le_add_right _ _)

end Step

theorem supplied_of_reachable (hC : C.Permits permits waits) (hs : (C.machine d).Reachable s) :
    Supplied permits waits s := by
  refine hs.invariant ?_ fun _ _ _ hr hP hstep _ => hP.step hC (locked_of_reachable hr) hstep
  rintro s rfl
  exact ⟨fun _ _ => nofun, fun _ _ => nofun⟩

theorem total_work_of_move {t : ι} {x : Pc κ} (hpc : s'.pc = (s.move t x).pc)
    (hwork : work C x + 1 ≤ work C (s.pc t)) : s'.total (work C) + 1 ≤ s.total (work C) := by
  have htotal := total_of_move hpc (work C)
  omega

/-- A step that nobody asked for uses up some of the work that is left, and a thread that wakes up
without a notification adds some. -/
theorem total_work_step (hC : C.Permits permits waits) (h : Supplied permits waits s)
    (ha : a.isCall = false) (hs : C.step s a = some s') :
    s'.total (work C) + 1 ≤ s.total (work C) + if a.isWake then 5 else 0 := by
  cases step_effect hs with
  | call => cases ha
  | @wake t k hpc =>
    have hsilent : C.notifies k = false := hC.silent k (h.asleep t k hpc)
    have hmove := s.total_move t (.entering k) (work C)
    rw [hpc] at hmove
    simp only [work, hsilent, Bool.false_eq_true, if_false] at hmove
    simp only [Action.isWake, if_true]
    omega
  | acquire hpc =>
    refine total_work_of_move rfl ?_
    rw [hpc, work, work]
    split_ifs <;> omega
  | pass hpc =>
    refine total_work_of_move rfl ?_
    rw [hpc, work, work]
    split_ifs <;> omega
  | sleep hpc =>
    refine total_work_of_move rfl ?_
    rw [hpc, work, work]
    split_ifs <;> omega
  | @act t k hpc =>
    refine total_work_of_move (x := C.next k) rfl ?_
    rw [hpc, next, work]
    split_ifs <;> exact Nat.le_refl _
  | @notify t u k k' hpc hwoken =>
    have hne := ne_of_notifying hpc hwoken
    -- the thread that is woken waits, so it notifies nobody itself
    have hsilent : C.notifies k' = false := hC.silent k' (h.asleep u k' hwoken)
    have hfirst := s.total_move u (.entering k') (work C)
    have hsecond := (s.move u (.entering k')).total_move t (.leaving k) (work C)
    rw [State.move_pc_of_ne _ _ hne, hpc] at hsecond
    rw [hwoken] at hfirst
    simp only [work, hsilent, Bool.false_eq_true, if_false] at hfirst hsecond
    omega
  | notifyNone hpc =>
    refine total_work_of_move rfl ?_
    rw [hpc, work, work]
    omega
  | release hpc =>
    refine total_work_of_move rfl ?_
    rw [hpc, work, work]

/-- An execution without further calls ends, whatever the order of its steps, unless threads wake
up again and again without a notification. -/
theorem length_le_work (hC : C.Permits permits waits) (hs : (C.machine d).Reachable s)
    {as : List (Action κ ι)} (has : ∀ a ∈ as, a.isCall = false)
    (he : (C.machine d).exec s as = some s') :
    as.length + s'.total (work C) ≤ s.total (work C) + 5 * as.countP Action.isWake :=
  hs.length_le (fun s => s.total (work C)) Action.isWake 5
    (fun _ _ _ hr ha hstep => total_work_step hC (supplied_of_reachable hC hr) ha hstep) has he

/-- Where not every thread is idle or asleep, some thread can move. -/
theorem exists_internal (hlock : C.Locked s) (hrest : ¬ s.Rest) :
    ∃ a, a.Internal ∧ (C.step s a).isSome := by
  obtain ⟨t, ht⟩ := not_forall.mp hrest
  cases howner : s.owner with
  | none =>
    have hfree : ¬ (s.pc t).Holds := by
      rw [hlock.owner, howner]
      exact nofun
    cases hpc : s.pc t with
    | entering k => exact ⟨.acquire t, trivial, by simp [step, hpc, howner]⟩
    | idle | asleep =>
      rw [hpc] at ht
      exact absurd trivial ht
    | checking | acting | notifying | leaving =>
      rw [hpc] at hfree
      exact absurd trivial hfree
  | some u =>
    have hholds : (s.pc u).Holds := (hlock.owner u).mpr howner
    cases hpc : s.pc u with
    | checking k =>
      refine ⟨.check u, trivial, ?_⟩
      simp only [step, hpc]
      split_ifs <;> rfl
    | acting k => exact ⟨.act u, trivial, by simp [step, hpc]⟩
    | notifying k =>
      by_cases hasleep : ∃ v, (s.pc v).isAsleep
      · obtain ⟨v, hv⟩ := hasleep
        obtain ⟨k', hk'⟩ := isAsleep_iff.mp hv
        exact ⟨.notify u (some v), trivial, by simp [step, hpc, hk']⟩
      · exact ⟨.notify u none, trivial, by simp [step, hpc, if_neg hasleep]⟩
    | leaving k => exact ⟨.release u, trivial, by simp [step, hpc]⟩
    | idle | entering | asleep =>
      rw [hpc] at hholds
      exact hholds.elim

/-- Where every thread is idle or asleep, no permit is left or no thread is asleep. -/
theorem rest_permits (hC : C.Permits permits waits) (hs : (C.machine d).Reachable s)
    (hrest : s.Rest) : permits s.data = 0 ∨ ∀ t k, s.pc t ≠ .asleep k := by
  by_cases hasleep : ∃ t k, s.pc t = .asleep k
  · obtain ⟨t, k, ht⟩ := hasleep
    have hcovered := (supplied_of_reachable hC hs).covered t k ht
    have hcredit : s.total (credit waits) = 0 := by
      refine Finset.sum_eq_zero fun u _ => ?_
      have hu := hrest u
      cases hpc : s.pc u with
      | idle | asleep => rfl
      | entering | checking | acting | notifying | leaving =>
        rw [hpc] at hu
        exact hu.elim
    exact .inl (Nat.le_zero.mp (hcredit ▸ hcovered))
  · exact .inr fun t k ht => hasleep ⟨t, k, ht⟩

section Accounting
variable [DecidableEq κ]

def countOf (l : List (ι × κ)) (k : κ) : ℕ := (l.map Prod.snd).count k

def awaits (k : κ) (x : Pc κ) : ℕ := if x.pending = some k then 1 else 0

omit [Fintype ι] [DecidableEq ι] in
theorem countOf_concat (l : List (ι × κ)) (t : ι) (k k' : κ) :
    countOf (l ++ [(t, k')]) k = countOf l k + awaits k (.entering k') := by
  unfold countOf awaits
  rw [List.map_append, List.count_append, List.map_singleton, List.count_singleton]
  simp [Pc.pending]

theorem total_awaits_of_move {t : ι} {x : Pc κ} (k : κ) (hpc : s'.pc = (s.move t x).pc)
    (hpending : x.pending = (s.pc t).pending) : s'.total (awaits k) = s.total (awaits k) := by
  have htotal := total_of_move hpc (awaits k)
  rw [awaits, awaits, hpending] at htotal
  omega

/-- A call that has begun has changed the data or is about to. -/
theorem accounted (hs : (C.machine d).Reachable s) (k : κ) :
    countOf s.called k = countOf s.done k + s.total (awaits k) := by
  refine hs.invariant
    (P := fun s => countOf s.called k = countOf s.done k + s.total (awaits k)) ?_ ?_
  · rintro s rfl
    simp [State.start, countOf, State.total, awaits, Pc.pending]
  · intro s a s' _ hP hstep _
    cases step_effect hstep with
    | @call t k' hpc =>
      have htotal := s.total_move t (.entering k') (awaits k)
      rw [hpc] at htotal
      change countOf (s.called ++ [(t, k')]) k =
        countOf s.done k + (s.move t (.entering k')).total (awaits k)
      have hidle : awaits k .idle = 0 := rfl
      rw [countOf_concat, hP]
      omega
    | @act t k' hpc =>
      have htotal := s.total_move t (C.next k') (awaits k)
      have hnext : awaits k (C.next k') = 0 := by
        unfold next
        split_ifs <;> rfl
      rw [hpc, hnext] at htotal
      change countOf s.called k =
        countOf (s.done ++ [(t, k')]) k + (s.move t (C.next k')).total (awaits k)
      have hsame : awaits k (.acting k') = awaits k (.entering k') := rfl
      rw [countOf_concat, hP]
      omega
    | @notify t u k' k'' hpc hwoken =>
      have hne := ne_of_notifying hpc hwoken
      have hfirst : (s.move u (.entering k'')).total (awaits k) = s.total (awaits k) :=
        total_awaits_of_move k rfl (by rw [hwoken]; rfl)
      have hsecond : ((s.move u (.entering k'')).move t (.leaving k')).total (awaits k) =
          (s.move u (.entering k'')).total (awaits k) :=
        total_awaits_of_move k rfl (by rw [State.move_pc_of_ne _ _ hne, hpc]; rfl)
      rw [hsecond, hfirst]
      exact hP
    | acquire hpc | pass hpc | sleep hpc | notifyNone hpc | release hpc | wake hpc =>
      refine hP.trans (congrArg _ (Eq.symm ?_))
      exact total_awaits_of_move k rfl (by rw [hpc]; rfl)

end Accounting

end Calls
end Monitor
