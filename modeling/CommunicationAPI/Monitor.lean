import CommunicationAPI.Machine
import Mathlib.Data.Fintype.Basic

/-!
# Monitors

A mutex and one condition variable guard some data. A call locks the mutex,
waits on the condition variable until its guard holds, changes the data,
notifies one waiting thread or none, and unlocks the mutex. A thread may also
wake up without having been notified. The calls in the order in which they
change the data are a sequential history.
-/

namespace Monitor
open TransitionSystem

structure Calls (σ κ : Type*) where
  guard : κ → σ → Bool
  effect : κ → σ → σ
  notifies : κ → Bool

/-- Where a thread is. A thread asleep or about to lock the mutex does not hold it. -/
inductive Pc (κ : Type*)
  | idle
  | entering (k : κ)
  | checking (k : κ)
  | asleep (k : κ)
  | acting (k : κ)
  | notifying (k : κ)
  | leaving (k : κ)
  deriving DecidableEq

/-- `called` and `done` record the calls as they begin and as they change the data. -/
structure State (σ κ ι : Type*) where
  data : σ
  owner : Option ι
  pc : ι → Pc κ
  called : List (ι × κ)
  done : List (ι × κ)

inductive Action (κ ι : Type*)
  | call (t : ι) (k : κ)
  | acquire (t : ι)
  /-- The guard is evaluated. If it fails, the thread releases the mutex and falls asleep at once. -/
  | check (t : ι)
  | act (t : ι)
  /-- One thread asleep is notified, or none if there is none. -/
  | notify (t : ι) (woken : Option ι)
  | release (t : ι)
  /-- A thread wakes up without a notification. -/
  | wake (t : ι)

def Action.Internal {κ ι : Type*} : Action κ ι → Prop
  | .call _ _ | .wake _ => False
  | _ => True

def Action.isCall {κ ι : Type*} : Action κ ι → Bool
  | .call _ _ => true
  | _ => false

def Action.isWake {κ ι : Type*} : Action κ ι → Bool
  | .wake _ => true
  | _ => false

variable {σ κ ι : Type*}

namespace Pc

def call : Pc κ → Option κ
  | .idle => none
  | .entering k | .checking k | .asleep k | .acting k | .notifying k | .leaving k => some k

def Holds : Pc κ → Prop
  | .checking _ | .acting _ | .notifying _ | .leaving _ => True
  | _ => False

def pending : Pc κ → Option κ
  | .entering k | .checking k | .asleep k | .acting k => some k
  | _ => none

def isAsleep : Pc κ → Bool
  | .asleep _ => true
  | _ => false

def Resting : Pc κ → Prop
  | .idle | .asleep _ => True
  | _ => False

end Pc

namespace State

def start (d : σ) : State σ κ ι := ⟨d, none, fun _ => .idle, [], []⟩

def Rest (s : State σ κ ι) : Prop := ∀ t, (s.pc t).Resting

variable [DecidableEq ι]

def move (s : State σ κ ι) (t : ι) (x : Pc κ) : State σ κ ι :=
  { s with pc := Function.update s.pc t x }

theorem move_pc_self (s : State σ κ ι) (t : ι) (x : Pc κ) : (s.move t x).pc t = x := by
  change Function.update s.pc t x t = x
  rw [Function.update_self]

theorem move_pc_of_ne (s : State σ κ ι) {t u : ι} (x : Pc κ) (h : u ≠ t) :
    (s.move t x).pc u = s.pc u := by
  change Function.update s.pc t x u = s.pc u
  rw [Function.update_of_ne h]

end State

section Moves

/-! `pos` is where each thread is and `H` says where a thread holds the mutex. -/

variable [DecidableEq ι] {α : Type*} {H : α → Prop} {pos : ι → α} {owner : Option ι} {t : ι}
  {x : α}

theorem holds_update (howner : ∀ u, H (pos u) ↔ owner = some u) (hx : H x ↔ H (pos t)) (u : ι) :
    H (Function.update pos t x u) ↔ owner = some u := by
  rcases eq_or_ne u t with rfl | hu
  · rw [Function.update_self, hx, howner]
  · rw [Function.update_of_ne hu, howner]

theorem holds_update_acquire (howner : ∀ u, H (pos u) ↔ owner = some u)
    (hfree : owner = none) (hx : H x) (u : ι) :
    H (Function.update pos t x u) ↔ some t = some u := by
  rcases eq_or_ne u t with rfl | hu
  · rw [Function.update_self]
    exact iff_of_true hx rfl
  · rw [Function.update_of_ne hu, howner, hfree]
    exact iff_of_false nofun fun h => hu (Option.some.inj h).symm

theorem holds_update_release (howner : ∀ u, H (pos u) ↔ owner = some u)
    (ht : H (pos t)) (hx : ¬ H x) (u : ι) :
    H (Function.update pos t x u) ↔ none = some u := by
  refine iff_of_false ?_ nofun
  rcases eq_or_ne u t with rfl | hu
  · rwa [Function.update_self]
  · rw [Function.update_of_ne hu, howner]
    intro h
    exact hu (Option.some.inj (((howner t).mp ht).symm.trans h)).symm

theorem eq_of_update {y : α} {u : ι} (hu : Function.update pos t x u = y) (hx : x ≠ y) :
    pos u = y := by
  rcases eq_or_ne u t with rfl | hne
  · rw [Function.update_self] at hu
    exact absurd hu hx
  · rwa [Function.update_of_ne hne] at hu

end Moves

namespace Calls
variable [Fintype ι] [DecidableEq ι] (C : Calls σ κ)

def next (k : κ) : Pc κ := if C.notifies k then .notifying k else .leaving k

def step (s : State σ κ ι) : Action κ ι → Option (State σ κ ι)
  | .call t k =>
    match s.pc t with
    | .idle => some { s.move t (.entering k) with called := s.called ++ [(t, k)] }
    | _ => none
  | .acquire t =>
    match s.pc t, s.owner with
    | .entering k, none => some { s.move t (.checking k) with owner := some t }
    | _, _ => none
  | .check t =>
    match s.pc t with
    | .checking k =>
      if C.guard k s.data then some (s.move t (.acting k))
      else some { s.move t (.asleep k) with owner := none }
    | _ => none
  | .act t =>
    match s.pc t with
    | .acting k => some { s.move t (C.next k) with
        data := C.effect k s.data
        done := s.done ++ [(t, k)] }
    | _ => none
  | .notify t woken =>
    match s.pc t, woken with
    | .notifying k, some u =>
      match s.pc u with
      | .asleep k' => some ((s.move u (.entering k')).move t (.leaving k))
      | _ => none
    | .notifying k, none =>
      -- `notify_one` has no effect only if no thread is blocked
      if ∃ u, (s.pc u).isAsleep then none else some (s.move t (.leaving k))
    | _, _ => none
  | .release t =>
    match s.pc t with
    | .leaving _ => some { s.move t .idle with owner := none }
    | _ => none
  | .wake t =>
    match s.pc t with
    | .asleep k => some (s.move t (.entering k))
    | _ => none

def machine (d : σ) : Machine (State σ κ ι) (Action κ ι) where
  init s := s = .start d
  step := C.step

/-- The data after a sequential history of calls, each of which finds its guard true. -/
def replay (d : σ) : List (ι × κ) → Option σ
  | [] => some d
  | (_, k) :: l => if C.guard k d then replay (C.effect k d) l else none

inductive Effect (s : State σ κ ι) : Action κ ι → State σ κ ι → Prop
  | call {t k} (hpc : s.pc t = .idle) :
    Effect s (.call t k) { s.move t (.entering k) with called := s.called ++ [(t, k)] }
  | acquire {t k} (hpc : s.pc t = .entering k) (howner : s.owner = none) :
    Effect s (.acquire t) { s.move t (.checking k) with owner := some t }
  | pass {t k} (hpc : s.pc t = .checking k) (hguard : C.guard k s.data = true) :
    Effect s (.check t) (s.move t (.acting k))
  | sleep {t k} (hpc : s.pc t = .checking k) (hguard : C.guard k s.data = false) :
    Effect s (.check t) { s.move t (.asleep k) with owner := none }
  | act {t k} (hpc : s.pc t = .acting k) :
    Effect s (.act t) { s.move t (C.next k) with
      data := C.effect k s.data
      done := s.done ++ [(t, k)] }
  | notify {t u k k'} (hpc : s.pc t = .notifying k) (hwoken : s.pc u = .asleep k') :
    Effect s (.notify t (some u)) ((s.move u (.entering k')).move t (.leaving k))
  | notifyNone {t k} (hpc : s.pc t = .notifying k) (hnone : ∀ u k', s.pc u ≠ .asleep k') :
    Effect s (.notify t none) (s.move t (.leaving k))
  | release {t k} (hpc : s.pc t = .leaving k) :
    Effect s (.release t) { s.move t .idle with owner := none }
  | wake {t k} (hpc : s.pc t = .asleep k) : Effect s (.wake t) (s.move t (.entering k))

theorem isAsleep_iff {x : Pc κ} : x.isAsleep = true ↔ ∃ k, x = .asleep k := by
  cases x <;> simp [Pc.isAsleep]

variable {C} {s s' : State σ κ ι} {a : Action κ ι}

theorem step_effect (h : C.step s a = some s') : C.Effect s a s' := by
  cases a with
  | call t k =>
    simp only [step] at h
    split at h
    · cases h; exact .call ‹_›
    · cases h
  | acquire t =>
    simp only [step] at h
    split at h
    · cases h; exact .acquire ‹_› ‹_›
    · cases h
  | check t =>
    simp only [step] at h
    split at h
    · split at h
      · cases h; exact .pass ‹_› ‹_›
      · cases h; exact .sleep ‹_› (Bool.eq_false_iff.mpr ‹_›)
    · cases h
  | act t =>
    simp only [step] at h
    split at h
    · cases h; exact .act ‹_›
    · cases h
  | notify t woken =>
    simp only [step] at h
    split at h
    · split at h
      · cases h; exact .notify ‹_› ‹_›
      · cases h
    · split at h
      · cases h
      · rename_i hnone
        cases h
        refine .notifyNone ‹_› fun u k' hu => hnone ⟨u, ?_⟩
        rw [hu, Pc.isAsleep]
    · cases h
  | release t =>
    simp only [step] at h
    split at h
    · cases h; exact .release ‹_›
    · cases h
  | wake t =>
    simp only [step] at h
    split at h
    · cases h; exact .wake ‹_›
    · cases h

omit [Fintype ι] [DecidableEq ι] in
theorem ne_of_notifying {t u : ι} {k k' : κ} (ht : s.pc t = .notifying k)
    (hu : s.pc u = .asleep k') : t ≠ u := by
  rintro rfl
  rw [ht] at hu
  cases hu

theorem call_next (k : κ) : (C.next k).call = some k := by
  unfold next
  split_ifs <;> rfl

omit [Fintype ι] in
theorem call_of_update {pc : ι → Pc κ} {t u : ι} {x : Pc κ} {k : κ}
    (hx : x.call = some k → (pc t).call = some k)
    (hu : (Function.update pc t x u).call = some k) : (pc u).call = some k := by
  rcases eq_or_ne u t with rfl | hne
  · rw [Function.update_self] at hu
    exact hx hu
  · rwa [Function.update_of_ne hne] at hu

/-- A thread begins a call by a call only. -/
theorem call_of_step (h : C.step s a = some s') (ha : a.isCall = false) {u : ι} {k : κ}
    (hu : (s'.pc u).call = some k) : (s.pc u).call = some k := by
  cases step_effect h with
  | call => cases ha
  | acquire hpc | pass hpc | sleep hpc | notifyNone hpc | wake hpc =>
    exact call_of_update (by rw [hpc]; exact id) hu
  | @act t k' hpc => exact call_of_update (by rw [hpc, call_next]; exact id) hu
  | @notify t v k' k'' hpc hwoken =>
    refine call_of_update (by rw [hwoken]; exact id) (call_of_update ?_ hu)
    have hne := ne_of_notifying hpc hwoken
    rw [Function.update_of_ne hne, hpc]
    exact id
  | @release t k' hpc =>
    have hidle : (Pc.idle (κ := κ)).call = some k → (s.pc t).call = some k := nofun
    exact call_of_update hidle hu

omit [Fintype ι] in
theorem pending_update {pc : ι → Pc κ} {t : ι} {x : Pc κ} (hx : x.pending = (pc t).pending)
    (u : ι) : (Function.update pc t x u).pending = (pc u).pending := by
  rcases eq_or_ne u t with rfl | hne
  · rw [Function.update_self, hx]
  · rw [Function.update_of_ne hne]

/-- Only `act` changes the data and what is pending. -/
theorem pending_of_step (h : C.step s a = some s') (hcall : a.isCall = false)
    (hact : ∀ t, a ≠ .act t) : s'.data = s.data ∧ ∀ u, (s'.pc u).pending = (s.pc u).pending := by
  cases step_effect h with
  | call => cases hcall
  | act => exact absurd rfl (hact _)
  | acquire hpc | pass hpc | sleep hpc | notifyNone hpc | release hpc | wake hpc =>
    exact ⟨rfl, pending_update (by rw [hpc]; rfl)⟩
  | @notify t v k' k'' hpc hwoken =>
    have hne := ne_of_notifying hpc hwoken
    have hfirst : ∀ u, (Function.update s.pc v (.entering k'') u).pending = (s.pc u).pending :=
      pending_update (by rw [hwoken]; rfl)
    refine ⟨rfl, fun u => (pending_update ?_ u).trans (hfirst u)⟩
    rw [State.move_pc_of_ne _ _ hne, hpc]
    rfl

/-- The mutex is held by the thread that the position of each thread says. -/
structure Locked (C : Calls σ κ) (s : State σ κ ι) : Prop where
  owner : ∀ t, (s.pc t).Holds ↔ s.owner = some t
  guarded : ∀ t k, s.pc t = .acting k → C.guard k s.data = true

omit [Fintype ι] [DecidableEq ι] in
theorem Locked.unique (h : C.Locked s) {t u : ι} (ht : (s.pc t).Holds) (hu : (s.pc u).Holds) :
    t = u :=
  Option.some.inj (((h.owner t).mp ht).symm.trans ((h.owner u).mp hu))

theorem next_holds (k : κ) : (C.next k).Holds := by
  unfold next
  split_ifs <;> trivial

theorem next_ne_acting (k k' : κ) : C.next k ≠ .acting k' := by
  unfold next
  split_ifs <;> exact nofun

theorem Locked.step (h : C.Locked s) (hs : C.step s a = some s') : C.Locked s' := by
  cases step_effect hs with
  | call hpc =>
    refine ⟨holds_update (H := Pc.Holds) h.owner (by rw [hpc]; rfl), fun u k hu => ?_⟩
    exact h.guarded u k (eq_of_update hu nofun)
  | acquire hpc howner =>
    refine ⟨holds_update_acquire (H := Pc.Holds) h.owner howner trivial, fun u k hu => ?_⟩
    exact h.guarded u k (eq_of_update hu nofun)
  | @pass t k hpc hguard =>
    refine ⟨holds_update (H := Pc.Holds) h.owner (by rw [hpc]; rfl), fun u k' hu => ?_⟩
    rcases eq_or_ne u t with rfl | hne
    · cases (Function.update_self u _ s.pc).symm.trans hu
      exact hguard
    · exact h.guarded u k' ((State.move_pc_of_ne s _ hne).symm.trans hu)
  | sleep hpc hguard =>
    refine ⟨holds_update_release (H := Pc.Holds) h.owner (by rw [hpc]; trivial) id, fun u k hu => ?_⟩
    exact h.guarded u k (eq_of_update hu nofun)
  | @act t k hpc =>
    have ht : (s.pc t).Holds := by rw [hpc]; trivial
    refine ⟨holds_update (H := Pc.Holds) h.owner (iff_of_true (next_holds k) ht), fun u k' hu => ?_⟩
    -- the thread that acts is the only one between its check and its change
    have hacting : s.pc u = .acting k' := eq_of_update hu (next_ne_acting k k')
    have hut : u = t := h.unique (by rw [hacting]; trivial) ht
    subst hut
    exact absurd ((State.move_pc_self s u _).symm.trans hu) (next_ne_acting k k')
  | @notify t u k k' hpc hwoken =>
    have howner := holds_update (H := Pc.Holds) (t := u) (x := .entering k') h.owner (by rw [hwoken]; rfl)
    have hne := ne_of_notifying hpc hwoken
    have ht : ((s.move u (.entering k')).pc t).Holds := by
      rw [State.move_pc_of_ne _ _ hne, hpc]
      trivial
    refine ⟨holds_update (H := Pc.Holds) howner (iff_of_true trivial ht), fun v k'' hv => ?_⟩
    exact h.guarded v k'' (eq_of_update (eq_of_update hv nofun) nofun)
  | notifyNone hpc =>
    refine ⟨holds_update (H := Pc.Holds) h.owner (by rw [hpc]; rfl), fun u k hu => ?_⟩
    exact h.guarded u k (eq_of_update hu nofun)
  | release hpc =>
    refine ⟨holds_update_release (H := Pc.Holds) h.owner (by rw [hpc]; trivial) id, fun u k hu => ?_⟩
    exact h.guarded u k (eq_of_update hu nofun)
  | wake hpc =>
    refine ⟨holds_update (H := Pc.Holds) h.owner (by rw [hpc]; rfl), fun u k hu => ?_⟩
    exact h.guarded u k (eq_of_update hu nofun)

variable {d : σ}

theorem locked_of_reachable (hs : (C.machine d).Reachable s) : C.Locked s := by
  refine hs.invariant ?_ fun _ _ _ _ hP hstep _ => hP.step hstep
  rintro s rfl
  exact ⟨fun t => iff_of_false id nofun, fun _ _ => nofun⟩

omit [Fintype ι] [DecidableEq ι] in
theorem replay_concat (d : σ) (l : List (ι × κ)) (t : ι) (k : κ) :
    C.replay d (l ++ [(t, k)]) =
      (C.replay d l).bind fun d' => if C.guard k d' then some (C.effect k d') else none := by
  induction l generalizing d with
  | nil => rfl
  | cons c l ih =>
    obtain ⟨t', k'⟩ := c
    rw [List.cons_append, replay, replay]
    cases C.guard k' d with
    | true => exact ih _
    | false => rfl

/-- The data is what the calls done so far leave, one after the other. -/
theorem replay_done (hs : (C.machine d).Reachable s) : C.replay d s.done = some s.data := by
  refine hs.invariant (P := fun s => C.replay d s.done = some s.data) ?_ ?_
  · rintro s rfl
    rfl
  · intro s a s' hr hP hstep _
    cases step_effect hstep with
    | @act t k hpc =>
      have hguard : C.guard k s.data = true := (locked_of_reachable hr).guarded t k hpc
      change C.replay d (s.done ++ [(t, k)]) = _
      rw [replay_concat, hP, Option.bind_some, if_pos hguard]
    | _ => exact hP

end Calls
end Monitor
