import CommunicationAPI.Component
import CommunicationAPI.Machine

/-!
# The response thread of a component

The calls of `notify_interest_request` come one after the other, while the
bodies of the threads that they have started go on at their own pace.
-/

namespace CommunicationAPI.ResponseThread
open TransitionSystem

structure Call where
  requestedInterval : Period
  type : TedsType
  reset : Bool

/-- The caller is between two calls, or about to create a thread, or about to assign
the thread to the handle. -/
inductive CallerPc
  | idle | create | assign
  deriving DecidableEq

/-- Where a thread stands in the loop of `response_thread`. -/
inductive BodyPc
  | test | send | sleep
  deriving DecidableEq

/-- The calls still to be made, and the bodies that have not yet returned. -/
structure State where
  component : Component
  calls : List Call
  caller : CallerPc
  bodies : List BodyPc

inductive Action
  | call
  | caller
  | body (k : ℕ)

namespace State
variable (s : State)

def callStep : Option State :=
  match s.caller, s.calls with
  | .idle, c :: cs =>
    let (component, starts) := s.component.setInterest c.requestedInterval c.type c.reset
    some { s with
      component := component, calls := cs, caller := if starts then .create else .idle }
  | _, _ => none

/-- The new thread runs before it is assigned to the handle. -/
def callerStep : Option State :=
  match s.caller with
  | .idle => none
  | .create => some { s with bodies := .test :: s.bodies, caller := .assign }
  | .assign => some { s with component := s.component.assignThread, caller := .idle }

def bodyStep (k : ℕ) : Option State :=
  s.bodies[k]?.map fun pc => match pc with
    | .test =>
      if s.component.responseRunning then { s with bodies := s.bodies.set k .send }
      else { s with bodies := s.bodies.eraseIdx k }
    | .send => { s with bodies := s.bodies.set k .sleep }
    | .sleep => { s with bodies := s.bodies.set k .test }

def step (a : Action) : Option State :=
  if s.component.terminated then none
  else match a with
    | .call => s.callStep
    | .caller => s.callerStep
    | .body k => s.bodyStep k

end State

def responder (calls : List Call) : Machine State Action where
  init s := ∃ type, s = ⟨.construct type, calls, .idle, []⟩
  step := State.step

/-- No thread was assigned to a joinable handle, and at most one body is running. -/
structure Safe (s : State) : Prop where
  alive : s.component.terminated = false
  bodies : s.bodies.length ≤ 1

/-- No interest comes after a stop that comes after an interest. -/
def NeverRestarts (calls : List Call) : Prop :=
  ∀ p z q, [p, z, q].Sublist calls → p.requestedInterval ≠ 0 → z.requestedInterval = 0 →
    q.requestedInterval = 0

def StopsForGood (calls : List Call) : Prop :=
  ∀ z q, [z, q].Sublist calls → z.requestedInterval = 0 → q.requestedInterval = 0

def Stopped (calls : List Call) : Prop := ∀ q ∈ calls, q.requestedInterval = 0

variable {c : Call} {cs : List Call}

theorem NeverRestarts.stop (h : NeverRestarts (c :: cs)) : NeverRestarts cs :=
  fun p z q hsub => h p z q (hsub.cons c)

theorem NeverRestarts.start (h : NeverRestarts (c :: cs)) (hc : c.requestedInterval ≠ 0) :
    StopsForGood cs :=
  fun z q hsub => h c z q (hsub.cons_cons c) hc

theorem StopsForGood.start (h : StopsForGood (c :: cs)) : StopsForGood cs :=
  fun z q hsub => h z q (hsub.cons c)

theorem StopsForGood.stop (h : StopsForGood (c :: cs)) (hc : c.requestedInterval = 0) :
    Stopped cs :=
  fun q hq => h c q ((List.singleton_sublist.mpr hq).cons_cons c) hc

inductive Phase (s : State) : Prop
  | fresh (hrunning : s.component.responseRunning = false) (hhandle : s.component.joinable = false)
      (hcaller : s.caller = .idle) (hbodies : s.bodies = []) (hcalls : NeverRestarts s.calls)
  | created (hrunning : s.component.responseRunning = true)
      (hhandle : s.component.joinable = false) (hcaller : s.caller = .create)
      (hbodies : s.bodies = []) (hcalls : StopsForGood s.calls)
  | started (hrunning : s.component.responseRunning = true)
      (hcaller : s.caller = .assign ∧ s.component.joinable = false ∨ s.caller = .idle)
      (hbodies : s.bodies.length ≤ 1) (hcalls : StopsForGood s.calls)
  | stopped (hrunning : s.component.responseRunning = false) (hcaller : s.caller = .idle)
      (hbodies : s.bodies.length ≤ 1) (hcalls : Stopped s.calls)

/-- The invariant of the runs without a restart. -/
structure Inv (s : State) : Prop where
  alive : s.component.terminated = false
  phase : Phase s

variable {s s' : State}

theorem Inv.safe (h : Inv s) : Safe s := by
  refine ⟨h.alive, ?_⟩
  cases h.phase with
  | fresh _ _ _ hbodies _ => simp [hbodies]
  | created _ _ _ hbodies _ => simp [hbodies]
  | started _ _ hbodies _ => exact hbodies
  | stopped _ _ hbodies _ => exact hbodies

theorem callStep_eq (hs : s.callStep = some s') : s.caller = .idle ∧ ∃ c cs, s.calls = c :: cs ∧
    s' = { s with
      component := (s.component.setInterest c.requestedInterval c.type c.reset).1
      calls := cs
      caller := if (s.component.setInterest c.requestedInterval c.type c.reset).2 then .create
        else .idle } := by
  unfold State.callStep at hs
  split at hs
  · rename_i c cs hcaller hcalls
    cases hs
    exact ⟨hcaller, c, cs, hcalls, rfl⟩
  · cases hs

theorem Inv.call (h : Inv s) (hs : s.callStep = some s') : Inv s' := by
  obtain ⟨hidle, c, cs, hcalls, rfl⟩ := callStep_eq hs
  by_cases hzero : c.requestedInterval = 0
  · rw [Component.setInterest_stop hzero]
    refine ⟨h.alive, ?_⟩
    cases h.phase with
    | fresh _ hhandle _ hbodies hnever =>
      rw [hcalls] at hnever
      exact .fresh rfl hhandle rfl hbodies hnever.stop
    | created _ _ hcaller => cases hidle.symm.trans hcaller
    | started _ _ hbodies hgood =>
      rw [hcalls] at hgood
      exact .stopped rfl rfl hbodies (hgood.stop hzero)
    | stopped _ _ hbodies hstopped =>
      rw [hcalls] at hstopped
      exact .stopped rfl rfl hbodies fun q hq => hstopped q (List.mem_cons_of_mem c hq)
  · rw [Component.setInterest_start hzero]
    refine ⟨h.alive, ?_⟩
    cases h.phase with
    | fresh hrunning hhandle _ hbodies hnever =>
      rw [hcalls] at hnever
      exact .created rfl hhandle (by simp [hrunning]) hbodies (hnever.start hzero)
    | created _ _ hcaller => cases hidle.symm.trans hcaller
    | started hrunning _ hbodies hgood =>
      rw [hcalls] at hgood
      exact .started rfl (.inr (by simp [hrunning])) hbodies hgood.start
    | stopped _ _ _ hstopped =>
      rw [hcalls] at hstopped
      exact absurd (hstopped c List.mem_cons_self) hzero

theorem Inv.caller (h : Inv s) (hs : s.callerStep = some s') : Inv s' := by
  unfold State.callerStep at hs
  split at hs
  · cases hs
  · rename_i hcreate
    cases hs
    refine ⟨h.alive, ?_⟩
    cases h.phase with
    | fresh _ _ hcaller => cases hcreate.symm.trans hcaller
    | created hrunning hhandle _ hbodies hgood =>
      exact .started hrunning (.inl ⟨rfl, hhandle⟩) (by simp [hbodies]) hgood
    | started _ hcaller =>
      rcases hcaller with ⟨hcaller, -⟩ | hcaller
      · cases hcreate.symm.trans hcaller
      · cases hcreate.symm.trans hcaller
    | stopped _ hcaller => cases hcreate.symm.trans hcaller
  · rename_i hassign
    cases hs
    cases h.phase with
    | fresh _ _ hcaller => cases hassign.symm.trans hcaller
    | created _ _ hcaller => cases hassign.symm.trans hcaller
    | started hrunning hcaller hbodies hgood =>
      rcases hcaller with ⟨-, hhandle⟩ | hcaller
      · rw [Component.assignThread_of_not_joinable hhandle]
        exact ⟨h.alive, .started hrunning (.inr rfl) hbodies hgood⟩
      · cases hassign.symm.trans hcaller
    | stopped _ hcaller => cases hassign.symm.trans hcaller

/-- A body changes nothing but itself. -/
theorem bodyStep_eq {k : ℕ} (hs : s.bodyStep k = some s') : ∃ bodies : List BodyPc,
    bodies.length ≤ s.bodies.length ∧ s' = { s with bodies := bodies } := by
  obtain ⟨pc, -, rfl⟩ := Option.map_eq_some_iff.mp hs
  cases pc with
  | test =>
    split_ifs
    · exact ⟨_, (List.length_set ..).le, rfl⟩
    · exact ⟨_, List.length_eraseIdx_le .., rfl⟩
  | send => exact ⟨_, (List.length_set ..).le, rfl⟩
  | sleep => exact ⟨_, (List.length_set ..).le, rfl⟩

theorem Inv.body (h : Inv s) {k : ℕ} (hs : s.bodyStep k = some s') : Inv s' := by
  obtain ⟨bodies, hle, rfl⟩ := bodyStep_eq hs
  refine ⟨h.alive, ?_⟩
  cases h.phase with
  | fresh hrunning hhandle hcaller hbodies hcalls =>
    rw [hbodies] at hle
    exact .fresh hrunning hhandle hcaller (List.length_eq_zero_iff.mp (Nat.le_zero.mp hle)) hcalls
  | created hrunning hhandle hcaller hbodies hcalls =>
    rw [hbodies] at hle
    exact .created hrunning hhandle hcaller (List.length_eq_zero_iff.mp (Nat.le_zero.mp hle)) hcalls
  | started hrunning hcaller hbodies hcalls =>
    exact .started hrunning hcaller (hle.trans hbodies) hcalls
  | stopped hrunning hcaller hbodies hcalls =>
    exact .stopped hrunning hcaller (hle.trans hbodies) hcalls

theorem Inv.step {a : Action} (h : Inv s) (hs : s.step a = some s') : Inv s' := by
  unfold State.step at hs
  rw [if_neg (by simp [h.alive])] at hs
  cases a with
  | call => exact h.call hs
  | caller => exact h.caller hs
  | body k => exact h.body hs

section
variable {calls : List Call}

structure Ready (calls : List Call) (s : State) : Prop where
  reachable : (responder calls).Reachable s
  alive : s.component.terminated = false
  caller : s.caller = .idle
  handle : s.component.responseRunning = true → s.component.joinable = true

def Terminates (calls : List Call) : Prop :=
  ∃ s, (responder calls).Reachable s ∧ s.component.terminated = true

theorem Ready.callStep (h : Ready calls s) (hcalls : s.calls = c :: cs) :
    (responder calls).Reachable { s with
      component := (s.component.setInterest c.requestedInterval c.type c.reset).1
      calls := cs
      caller := if (s.component.setInterest c.requestedInterval c.type c.reset).2 then .create
        else .idle } := by
  apply h.reachable.step (a := .call) _ trivial
  change s.step .call = _
  unfold State.step State.callStep
  rw [if_neg (by simp [h.alive])]
  simp only [h.caller, hcalls]

/-- A stop leaves the handle as it is. -/
theorem Ready.stop (h : Ready calls s) (hcalls : s.calls = c :: cs)
    (hzero : c.requestedInterval = 0) : ∃ t, Ready calls t ∧ t.calls = cs ∧
      t.component.joinable = s.component.joinable ∧ t.component.responseRunning = false := by
  have hreach := h.callStep hcalls
  rw [Component.setInterest_stop hzero] at hreach
  refine ⟨_, ⟨hreach, h.alive, rfl, ?_⟩, rfl, rfl, rfl⟩
  rintro ⟨⟩

/-- An interest makes the handle joinable, or finds it so. -/
theorem Ready.start (h : Ready calls s) (hcalls : s.calls = c :: cs)
    (hpos : c.requestedInterval ≠ 0) :
    if s.component.joinable = true ∧ s.component.responseRunning = false then Terminates calls
    else ∃ t, Ready calls t ∧ t.calls = cs ∧ t.component.joinable = true := by
  have hreach := h.callStep hcalls
  rw [Component.setInterest_start hpos] at hreach
  cases hrunning : s.component.responseRunning with
  | true =>
    have hhandle := h.handle hrunning
    simp only [hrunning, Bool.not_true, Bool.false_eq_true, if_false] at hreach
    rw [if_neg (by simp)]
    exact ⟨_, ⟨hreach, h.alive, rfl, fun _ => hhandle⟩, rfl, hhandle⟩
  | false =>
    simp only [hrunning, Bool.not_false, if_true] at hreach
    let asked := s.component.enable c.requestedInterval c.type c.reset
    have hcreated : (responder calls).Reachable ⟨asked, cs, .assign, .test :: s.bodies⟩ := by
      apply hreach.step (a := .caller) _ trivial
      simp [responder, State.step, State.callerStep, asked, h.alive]
    have hassigned : (responder calls).Reachable
        ⟨asked.assignThread, cs, .idle, .test :: s.bodies⟩ := by
      apply hcreated.step (a := .caller) _ trivial
      simp [responder, State.step, State.callerStep, asked, h.alive]
    cases hhandle : s.component.joinable with
    | true =>
      rw [Component.assignThread_of_joinable (c := asked) hhandle] at hassigned
      rw [if_pos ⟨rfl, rfl⟩]
      exact ⟨_, hassigned, rfl⟩
    | false =>
      rw [Component.assignThread_of_not_joinable (c := asked) hhandle] at hassigned
      rw [if_neg (by simp)]
      exact ⟨_, ⟨hassigned, h.alive, rfl, fun _ => rfl⟩, rfl, rfl⟩

/-- After a stop, the next interest assigns to a joinable handle. -/
theorem Ready.terminates_stopped (h : Ready calls s) (hhandle : s.component.joinable = true)
    (hrunning : s.component.responseRunning = false) {q : Call} (hq : q ∈ s.calls)
    (hpos : q.requestedInterval ≠ 0) : Terminates calls := by
  induction hcalls : s.calls generalizing s with
  | nil =>
    rw [hcalls] at hq
    cases hq
  | cons c cs ih =>
    by_cases hzero : c.requestedInterval = 0
    · obtain ⟨t, ht, htcalls, htjoinable, htrunning⟩ := h.stop hcalls hzero
      rw [hcalls] at hq
      rcases List.mem_cons.mp hq with rfl | hq
      · exact absurd hzero hpos
      · rw [← htcalls] at hq
        exact ih ht (htjoinable.trans hhandle) htrunning hq htcalls
    · have hstart := h.start hcalls hzero
      rwa [if_pos ⟨hhandle, hrunning⟩] at hstart

theorem Ready.terminates_started (h : Ready calls s) (hhandle : s.component.joinable = true)
    {z q : Call} (hsub : [z, q].Sublist s.calls) (hzero : z.requestedInterval = 0)
    (hpos : q.requestedInterval ≠ 0) : Terminates calls := by
  induction hcalls : s.calls generalizing s with
  | nil =>
    rw [hcalls] at hsub
    cases hsub
  | cons c cs ih =>
    rw [hcalls] at hsub
    by_cases hc : c.requestedInterval = 0
    · obtain ⟨t, ht, htcalls, htjoinable, htrunning⟩ := h.stop hcalls hc
      have htail : [q].Sublist cs := hsub.tail
      have hq : q ∈ cs := List.singleton_sublist.mp htail
      rw [← htcalls] at hq
      exact ht.terminates_stopped (htjoinable.trans hhandle) htrunning hq hpos
    · have hstart := h.start hcalls hc
      split_ifs at hstart with hterminates
      · exact hstart
      · obtain ⟨t, ht, htcalls, htjoinable⟩ := hstart
        cases hsub with
        | cons _ hsub =>
          rw [← htcalls] at hsub
          exact ih ht htjoinable hsub htcalls
        | cons_cons => exact absurd hzero hc

theorem Ready.terminates (h : Ready calls s) {p z q : Call} (hsub : [p, z, q].Sublist s.calls)
    (hp : p.requestedInterval ≠ 0) (hzero : z.requestedInterval = 0)
    (hpos : q.requestedInterval ≠ 0) : Terminates calls := by
  induction hcalls : s.calls generalizing s with
  | nil =>
    rw [hcalls] at hsub
    cases hsub
  | cons c cs ih =>
    rw [hcalls] at hsub
    by_cases hc : c.requestedInterval = 0
    · obtain ⟨t, ht, htcalls, -, -⟩ := h.stop hcalls hc
      cases hsub with
      | cons _ hsub =>
        rw [← htcalls] at hsub
        exact ih ht hsub htcalls
      | cons_cons => exact absurd hc hp
    · have hstart := h.start hcalls hc
      split_ifs at hstart with hterminates
      · exact hstart
      · obtain ⟨t, ht, htcalls, htjoinable⟩ := hstart
        have htail : [z, q].Sublist cs := hsub.tail
        rw [← htcalls] at htail
        exact ht.terminates_started htjoinable htail hzero hpos

end

/-- Whatever the threads do, the handle is assigned only while it is not joinable and at
most one body runs, if and only if the component is not asked again after it was stopped. -/
theorem lifecycle_iff (calls : List Call) :
    (∀ s, (responder calls).Reachable s → Safe s) ↔ NeverRestarts calls := by
  constructor
  · intro hsafe p z q hsub hp hzero
    by_contra hpos
    have hready : Ready calls ⟨.construct 0, calls, .idle, []⟩ := by
      refine ⟨.init ⟨0, rfl⟩, rfl, rfl, ?_⟩
      rintro ⟨⟩
    obtain ⟨s, hs, hterminated⟩ := hready.terminates hsub hp hzero hpos
    rw [(hsafe s hs).alive] at hterminated
    cases hterminated
  · intro hnever s hs
    have hinv : Inv s := by
      apply hs.invariant
      · rintro s ⟨type, rfl⟩
        exact ⟨rfl, .fresh rfl rfl rfl rfl hnever⟩
      · exact fun _ _ _ _ hinv hstep _ => hinv.step hstep
    exact hinv.safe

def resubscription : List Call := [⟨2000, 8, false⟩, ⟨0, 8, true⟩, ⟨2000, 8, false⟩]

theorem not_safe_resubscription :
    ∃ s, (responder resubscription).Reachable s ∧ ¬ Safe s := by
  obtain ⟨s, -, hs, hgoal⟩ := Machine.Reachable.exec_any (M := responder resubscription)
    (.init ⟨0, rfl⟩) [.call, .caller, .caller, .call, .call, .caller, .caller]
    (fun s => s.component.terminated) (by decide +kernel)
  refine ⟨s, hs, fun hsafe => ?_⟩
  rw [hsafe.alive] at hgoal
  cases hgoal

end CommunicationAPI.ResponseThread
