import CommunicationAPI.CommunicatorThreads

/-!
# What the threads of a Communicator deliver

The steps that are left without further calls are counted, and so are the calls.
Where no thread can move, the oldest buffers have been popped, as many as there
were receives or updates.
-/

namespace CommunicationAPI.CommunicatorThreads
open TransitionSystem Monitor Semaphore

variable {n : ℕ} {s s' : State n} {a : Action n}

def Prog.work : Prog → ℕ
  | .updating _ => 13
  | .pushed => 12
  | .signaling | .waiting => 2
  | .signaled | .passed => 1
  | .idle => 0

def State.work (s : State n) : ℕ :=
  ∑ t, (s.prog t).work + s.sem.total (Calls.work Semaphore.semaphore)

theorem sum_goto {t : Fin n} {x y : Prog} (hprog : s'.prog = (s.goto t x).prog)
    (hold : s.prog t = y) (f : Prog → ℕ) :
    ∑ u, f (s'.prog u) + f y = ∑ u, f (s.prog u) + f x := by
  rw [hprog, ← hold]
  exact sum_update s.prog t x f

theorem work_of_goto {t : Fin n} {x y : Prog} (hprog : s'.prog = (s.goto t x).prog)
    (hold : s.prog t = y) (hsem : s'.sem.total (Calls.work Semaphore.semaphore) + x.work + 1 ≤
      s.sem.total (Calls.work Semaphore.semaphore) + y.work) : s'.work + 1 ≤ s.work := by
  have hgoto := sum_goto hprog hold Prog.work
  unfold State.work
  omega

theorem Aligned.work_step (h : Aligned s) (ha : a.isCall = false) (hs : s.step a = some s') :
    s'.work + 1 ≤ s.work + if a.isWake then 5 else 0 := by
  cases step_effect hs with
  | update | receive => cases ha
  | push hprog _ => exact work_of_goto rfl hprog (Nat.le_refl _)
  | @callV t sem hprog hsem =>
    obtain ⟨hpc, rfl⟩ := sem_call_eq hsem
    have hmove := s.sem.total_move t (.entering .v) (Calls.work Semaphore.semaphore)
    have hidle : Calls.work Semaphore.semaphore .idle = 0 := rfl
    have hentering : Calls.work Semaphore.semaphore (.entering .v) = 9 := rfl
    rw [hpc, hidle, hentering] at hmove
    refine work_of_goto rfl hprog ?_
    change (s.sem.move t (.entering .v)).total _ + 2 + 1 ≤ s.sem.total _ + 12
    omega
  | semaphore hcall hsem =>
    have hwork := Calls.total_work_step permits (Calls.supplied_of_reachable permits h.sem) hcall
      hsem
    unfold State.work Action.isWake
    dsimp only
    omega
  | returnV hprog _ => exact work_of_goto rfl hprog (Nat.le_refl _)
  | unlock hprog => exact work_of_goto rfl hprog (Nat.le_refl _)
  | returnP hprog _ => exact work_of_goto rfl hprog (Nat.le_refl _)
  | popEmpty hprog _ _ => exact work_of_goto rfl hprog (Nat.le_refl _)
  | pop hprog _ _ => exact work_of_goto rfl hprog (Nat.le_refl _)

/-- No thread is inside a call, except for receivers asleep in `p`. -/
def State.Rest (s : State n) : Prop :=
  ∀ t, s.prog t = .idle ∨ s.prog t = .waiting ∧ (s.sem.pc t).isAsleep = true

/-- Some thread can move as long as not all of them rest. -/
theorem Aligned.exists_internal (h : Aligned s) (hrest : ¬ s.Rest) :
    ∃ a : Action n, a.Internal ∧ (s.step a).isSome := by
  have hlock := Calls.locked_of_reachable h.sem
  have hsemaphore : ¬ s.sem.Rest → ∃ a : Action n, a.Internal ∧ (s.step a).isSome := by
    intro hsem
    obtain ⟨b, hb, hsome⟩ := Calls.exists_internal hlock hsem
    have hcall : b.isCall = false := by
      cases b with
      | call => cases hb
      | _ => rfl
    refine ⟨.semaphore b, hb, ?_⟩
    simp only [State.step, hcall, Bool.false_eq_true, if_false, Option.isSome_map]
    exact hsome
  by_cases hsem : s.sem.Rest
  · have hidle : ∀ t, (s.prog t).semCall = some .v → s.sem.pc t = .idle := by
      intro t ht
      have hpc := hsem t
      cases hx : s.sem.pc t with
      | idle => rfl
      | asleep k =>
        have hcall := h.call t k (by rw [hx]; rfl)
        have hwaits := (Calls.supplied_of_reachable permits h.sem).asleep t k hx
        rw [ht] at hcall
        cases hcall
        cases hwaits
      | entering | checking | acting | notifying | leaving =>
        rw [hx] at hpc
        exact hpc.elim
    cases hmutex : s.mutex with
    | some u =>
      have hholds := (h.owner u).mpr hmutex
      cases hx : s.prog u with
      | pushed =>
        have hpc : s.sem.pc u = .idle := by
          have hcall := h.pc_idle (t := u) (by rw [hx]; rfl)
          cases hy : s.sem.pc u <;> rw [hy] at hcall <;> first | rfl | cases hcall
        exact ⟨.callV u, trivial, by simp [State.step, hx, Calls.step, hpc]⟩
      | signaling =>
        have hpc := hidle u (by rw [hx]; rfl)
        exact ⟨.returnV u, trivial, by simp [State.step, hx, hpc]⟩
      | signaled => exact ⟨.unlock u, trivial, by simp [State.step, hx]⟩
      | idle | updating | waiting | passed =>
        rw [hx] at hholds
        exact hholds.elim
    | none =>
      obtain ⟨t, ht⟩ := not_forall.mp hrest
      have hfree : ¬ (s.prog t).Holds := by
        rw [h.owner, hmutex]
        intro hno
        cases hno
      cases hx : s.prog t with
      | idle => exact absurd (.inl hx) ht
      | updating buf => exact ⟨.push t, trivial, by simp [State.step, hx, hmutex]⟩
      | passed =>
        refine ⟨.pop t, trivial, ?_⟩
        simp only [State.step, hx, hmutex]
        cases s.data <;> rfl
      | waiting =>
        have hpc := hsem t
        cases hy : s.sem.pc t with
        | idle => exact ⟨.returnP t, trivial, by simp [State.step, hx, hy]⟩
        | asleep k => exact absurd (.inr ⟨hx, by rw [hy]; rfl⟩) ht
        | entering | checking | acting | notifying | leaving =>
          rw [hy] at hpc
          exact hpc.elim
      | pushed | signaling | signaled =>
        rw [hx] at hfree
        exact absurd trivial hfree
  · exact hsemaphore hsem

def Prog.isUpdating : Prog → ℕ
  | .updating _ => 1
  | _ => 0

def Prog.isPushed : Prog → ℕ
  | .pushed => 1
  | _ => 0

structure Counted (s : State n) : Prop where
  updates : s.updates = s.pushes.length + ∑ t, (s.prog t).isUpdating
  pushes : s.pushes.length = Calls.countOf s.sem.called .v + ∑ t, (s.prog t).isPushed
  receives : s.receives = Calls.countOf s.sem.called .p

theorem called_of_step {b : Monitor.Action Call (Fin n)} {r r' : Monitor.State ℤ Call (Fin n)}
    (hcall : b.isCall = false) (h : Semaphore.semaphore.step r b = some r') :
    r'.called = r.called := by
  cases Calls.step_effect h with
  | call => cases hcall
  | _ => rfl

/-- One thread has moved, and the counters have changed with the place of the thread. -/
theorem Counted.of_goto (h : Counted s) {t : Fin n} {x y : Prog}
    (hprog : s'.prog = (s.goto t x).prog) (hold : s.prog t = y)
    (hupdates : s'.updates + y.isUpdating + s.pushes.length =
      s.updates + x.isUpdating + s'.pushes.length)
    (hpushes : s'.pushes.length + y.isPushed + Calls.countOf s.sem.called .v =
      s.pushes.length + x.isPushed + Calls.countOf s'.sem.called .v)
    (hreceives : s'.receives + Calls.countOf s.sem.called .p =
      s.receives + Calls.countOf s'.sem.called .p) : Counted s' := by
  have hfirst := sum_goto hprog hold Prog.isUpdating
  have hsecond := sum_goto hprog hold Prog.isPushed
  have hup := h.updates
  have hpush := h.pushes
  have hreceive := h.receives
  refine ⟨?_, ?_, ?_⟩ <;> omega

theorem countOf_begin (r : Monitor.State ℤ Call (Fin n)) (t : Fin n) (k k' : Call) :
    Calls.countOf (r.called ++ [(t, k')]) k = Calls.countOf r.called k + if k' = k then 1 else 0 := by
  rw [Calls.countOf_concat]
  cases k <;> cases k' <;> rfl

theorem Counted.step (h : Counted s) (hs : s.step a = some s') : Counted s' := by
  cases step_effect hs with
  | update hprog =>
    refine h.of_goto rfl hprog ?_ rfl rfl
    change s.updates + 1 + 0 + s.pushes.length = s.updates + 1 + s.pushes.length
    omega
  | @push t buf hprog hmutex =>
    have hlength : (s.pushes ++ [buf]).length = s.pushes.length + 1 := List.length_append
    refine h.of_goto rfl hprog ?_ ?_ rfl
    · change s.updates + 1 + s.pushes.length = s.updates + 0 + (s.pushes ++ [buf]).length
      omega
    · change (s.pushes ++ [buf]).length + 0 + Calls.countOf s.sem.called Call.v =
        s.pushes.length + 1 + Calls.countOf s.sem.called Call.v
      omega
  | @callV t sem hprog hsem =>
    obtain ⟨-, rfl⟩ := sem_call_eq hsem
    have hv := countOf_begin s.sem t .v .v
    have hp := countOf_begin s.sem t .p .v
    refine h.of_goto rfl hprog rfl ?_ ?_
    · change s.pushes.length + 1 + _ = s.pushes.length + 0 + Calls.countOf (s.sem.called ++ _) _
      rw [hv, if_pos rfl]
      omega
    · change s.receives + _ = s.receives + Calls.countOf (s.sem.called ++ _) _
      rw [hp, if_neg nofun, Nat.add_zero]
  | semaphore hcall hsem =>
    have hcalled := called_of_step hcall hsem
    refine ⟨h.updates, ?_, ?_⟩
    · rw [hcalled]
      exact h.pushes
    · rw [hcalled]
      exact h.receives
  | @receive t sem hprog hsem =>
    obtain ⟨-, rfl⟩ := sem_call_eq hsem
    have hv := countOf_begin s.sem t .v .p
    have hp := countOf_begin s.sem t .p .p
    refine h.of_goto rfl hprog rfl ?_ ?_
    · change s.pushes.length + 0 + _ = s.pushes.length + 0 + Calls.countOf (s.sem.called ++ _) _
      rw [hv, if_neg nofun]
      omega
    · change s.receives + 1 + _ = s.receives + Calls.countOf (s.sem.called ++ _) _
      rw [hp, if_pos rfl]
      omega
  | returnV hprog _ => exact h.of_goto rfl hprog rfl rfl rfl
  | unlock hprog => exact h.of_goto rfl hprog rfl rfl rfl
  | returnP hprog _ => exact h.of_goto rfl hprog rfl rfl rfl
  | popEmpty hprog _ _ => exact h.of_goto rfl hprog rfl rfl rfl
  | pop hprog _ _ => exact h.of_goto rfl hprog rfl rfl rfl

theorem counted_of_reachable (hs : (machine n).Reachable s) : Counted s := by
  refine hs.invariant ?_ fun _ _ _ _ hP hstep _ => hP.step hstep
  rintro s rfl
  refine ⟨?_, ?_, rfl⟩
  · simp [start, Prog.isUpdating]
  · simp [start, Prog.isPushed, Monitor.State.start, Calls.countOf]

theorem Aligned.sem_rest (h : Aligned s) (hrest : s.Rest) : s.sem.Rest := by
  intro t
  rcases hrest t with hidle | ⟨-, hasleep⟩
  · have hcall := h.pc_idle (t := t) (by rw [hidle]; rfl)
    cases hx : s.sem.pc t <;> rw [hx] at hcall <;> trivial
  · obtain ⟨k, hk⟩ := Calls.isAsleep_iff.mp hasleep
    rw [hk]
    trivial

theorem passed_rest (hrest : s.Rest) : s.queue.passed = ∅ := by
  refine passed_ext (fun _ hk => absurd hk (Finset.notMem_empty _)) fun t => ?_
  refine iff_of_false ?_ (Finset.notMem_empty _)
  rcases hrest t with hidle | ⟨hwaiting, hasleep⟩
  · rw [State.claims, hidle]
    exact Bool.false_ne_true
  · obtain ⟨k, hk⟩ := Calls.isAsleep_iff.mp hasleep
    rw [State.claims, hwaiting, hk]
    exact Bool.false_ne_true

theorem Aligned.mutex_rest (h : Aligned s) (hrest : s.Rest) : s.mutex = none := by
  cases hmutex : s.mutex with
  | none => rfl
  | some t =>
    have hholds := (h.owner t).mpr hmutex
    rcases hrest t with hidle | ⟨hwaiting, -⟩
    · rw [hidle] at hholds
      exact hholds.elim
    · rw [hwaiting] at hholds
      exact hholds.elim

/-- Where no thread can move, every update has pushed, and the oldest buffers have been popped,
as many as there were receives or updates. -/
theorem popped_at_rest (hs : (machine n).Reachable s) (hrest : s.Rest) :
    s.pushes.length = s.updates ∧
      s.pops.map Prod.snd = s.pushes.take (min s.receives s.updates) := by
  have haligned := aligned_of_reachable hs
  have hcounted := counted_of_reachable hs
  have hqueue := CommunicatorQueue.accounted_of_reachable (queue_reachable hs)
  have hupdating : ∑ t, (s.prog t).isUpdating = 0 := Finset.sum_eq_zero fun t _ => by
    rcases hrest t with hidle | ⟨hwaiting, -⟩
    · rw [hidle]; rfl
    · rw [hwaiting]; rfl
  have hpushed : ∑ t, (s.prog t).isPushed = 0 := Finset.sum_eq_zero fun t _ => by
    rcases hrest t with hidle | ⟨hwaiting, -⟩
    · rw [hidle]; rfl
    · rw [hwaiting]; rfl
  obtain ⟨hv, hp⟩ := completed_at_rest haligned.sem (haligned.sem_rest hrest)
  have hcount := (count_of_replay (Calls.replay_done haligned.sem)).1
  have hlength := hqueue.length
  have hmutex : s.queue.mutex = none := congrArg (Option.map s.holder) (haligned.mutex_rest hrest)
  rw [CommunicatorQueue.unsignaled_free hmutex, passed_rest hrest, Finset.card_empty] at hlength
  change s.sem.data + _ + 0 = (s.data.length : ℤ) at hlength
  have horder : s.pops.map Prod.snd ++ s.data = s.pushes := by
    have hall := hqueue.order
    change (s.pops.map _).map Prod.snd ++ s.data = s.pushes at hall
    rwa [List.map_map] at hall
  have hsum : s.pops.length + s.data.length = s.pushes.length := by
    rw [← horder, List.length_append, List.length_map]
  have hup := hcounted.updates
  have hpush := hcounted.pushes
  have hreceive := hcounted.receives
  have hpops : s.pops.length = min s.receives s.updates := by omega
  refine ⟨by omega, ?_⟩
  rw [← horder, ← hpops, List.take_left' (List.length_map _)]

/-- The counter is an `int` as long as there are fewer than 2^31 updates. -/
theorem count_le_updates (hs : (machine n).Reachable s) :
    0 ≤ s.sem.data ∧ s.sem.data ≤ s.updates := by
  have hcounted := counted_of_reachable hs
  have hup := hcounted.updates
  have hpush := hcounted.pushes
  obtain ⟨hlow, hhigh⟩ := count_bounds (aligned_of_reachable hs).sem
  omega

/-- The threads do to the queue what its atomic steps do; an execution without further calls
ends, up to the receivers that wake up without a notification, and does not end while a thread can
go on; and where it ends no buffer is left in the queue while a receiver waits. -/
theorem communicator_exact (hs : (machine n).Reachable s) (hupdates : s.updates < 2 ^ 31) :
    CommunicatorQueue.machine.Reachable s.queue ∧
      (0 ≤ s.sem.data ∧ s.sem.data < 2 ^ 31) ∧
      (∀ as s', (∀ a ∈ as, a.isCall = false) → (machine n).exec s as = some s' →
        as.length ≤ s.work + 5 * as.countP Action.isWake) ∧
      (¬ s.Rest → ∃ a : Action n, a.Internal ∧ (s.step a).isSome) ∧
      (s.Rest → s.pushes.length = s.updates ∧
        s.pops.map Prod.snd = s.pushes.take (min s.receives s.updates)) := by
  obtain ⟨hlow, hhigh⟩ := count_le_updates hs
  refine ⟨queue_reachable hs, ⟨hlow, hhigh.trans_lt (by exact_mod_cast hupdates)⟩,
    fun as s' has he => ?_, (aligned_of_reachable hs).exists_internal, popped_at_rest hs⟩
  have hlength := hs.length_le State.work Action.isWake 5
    (fun _ _ _ hr ha hstep => (aligned_of_reachable hr).work_step ha hstep) has he
  exact (Nat.le_add_right _ _).trans hlength

def handoverRun : List (Action 2) :=
  [.receive 0, .semaphore (.acquire 0), .semaphore (.check 0),
    .update 1 ⟨7, ⟨⟨broadcastAddr, localAddr, 0⟩, fun _ => 0, 0⟩⟩, .push 1, .callV 1,
    .semaphore (.acquire 1), .semaphore (.check 1), .semaphore (.act 1),
    .semaphore (.notify 1 (some 0)), .semaphore (.release 1), .returnV 1, .unlock 1,
    .semaphore (.acquire 0), .semaphore (.check 0), .semaphore (.act 0), .semaphore (.release 0),
    .returnP 0, .pop 0]

def Prog.isIdle : Prog → Bool
  | .idle => true
  | _ => false

theorem communicator_exact_of_handoverRun :
    ∃ s : State 2, (machine 2).Reachable s ∧ s.receives = 1 ∧ s.updates = 1 ∧
      s.pops.map Prod.snd = s.pushes.take 1 := by
  obtain ⟨s, -, hs, hgoal⟩ := Machine.Reachable.exec_any (M := machine 2) (.init rfl) handoverRun
    (fun s => (s.prog 0).isIdle && (s.prog 1).isIdle && decide (s.receives = 1 ∧ s.updates = 1))
    (by decide)
  rw [Bool.and_eq_true, Bool.and_eq_true] at hgoal
  obtain ⟨⟨hzero, hone⟩, hcalls⟩ := hgoal
  obtain ⟨hreceives, hupdates⟩ := of_decide_eq_true hcalls
  have hidle : ∀ t, (s.prog t).isIdle = true
    | 0 => hzero
    | 1 => hone
  have hrest : s.Rest := fun t => by
    have ht := hidle t
    cases hx : s.prog t <;> rw [hx] at ht <;> first | exact .inl rfl | cases ht
  have hbound : s.updates < 2 ^ 31 := by
    rw [hupdates]
    decide
  have hpops := ((communicator_exact hs hbound).2.2.2.2 hrest).2
  rw [hreceives, hupdates] at hpops
  exact ⟨s, hs, hreceives, hupdates, hpops⟩

end CommunicationAPI.CommunicatorThreads
