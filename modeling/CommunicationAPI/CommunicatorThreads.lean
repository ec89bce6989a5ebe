import CommunicationAPI.CommunicatorQueue
import CommunicationAPI.Semaphore

/-!
# The queue of a Communicator over its two mutexes

The threads of a Communicator with the steps that they make inside the
semaphore. A step of these threads is a step of the queue or none of its steps.
-/

namespace CommunicationAPI.CommunicatorThreads
open TransitionSystem Monitor Semaphore

/-- Where a thread is in `queue_incoming_buffer` or in `receive`. -/
inductive Prog
  | idle
  | updating (buf : Buffer)
  | pushed
  | signaling
  | signaled
  | waiting
  | passed

/-- `updates` and `receives` count the calls, `pushes` and `pops` what they do to the queue. -/
structure State (n : ℕ) where
  data : List Buffer
  mutex : Option (Fin n)
  sem : Monitor.State ℤ Call (Fin n)
  prog : Fin n → Prog
  updates : ℕ
  receives : ℕ
  pushes : List Buffer
  pops : List (Fin n × Buffer)

inductive Action (n : ℕ)
  | update (t : Fin n) (buf : Buffer)
  /-- `lock_guard lock(_mutex); _data.push_back(buf)`. -/
  | push (t : Fin n)
  | callV (t : Fin n)
  | semaphore (a : Monitor.Action Call (Fin n))
  | returnV (t : Fin n)
  | unlock (t : Fin n)
  | receive (t : Fin n)
  | returnP (t : Fin n)
  /-- The section of `receive`. -/
  | pop (t : Fin n)

def Action.isCall {n : ℕ} : Action n → Bool
  | .update _ _ | .receive _ => true
  | _ => false

def Action.isWake {n : ℕ} : Action n → Bool
  | .semaphore a => a.isWake
  | _ => false

/-- A step that is no call and no wake-up without a notification. -/
def Action.Internal {n : ℕ} : Action n → Prop
  | .update _ _ | .receive _ => False
  | .semaphore a => a.Internal
  | _ => True

variable {n : ℕ}

namespace State

def goto (s : State n) (t : Fin n) (x : Prog) : State n :=
  { s with prog := Function.update s.prog t x }

theorem goto_self (s : State n) (t : Fin n) (x : Prog) : (s.goto t x).prog t = x := by
  change Function.update s.prog t x t = x
  rw [Function.update_self]

theorem goto_of_ne (s : State n) {t u : Fin n} (x : Prog) (h : u ≠ t) :
    (s.goto t x).prog u = s.prog u := by
  change Function.update s.prog t x u = s.prog u
  rw [Function.update_of_ne h]

def step (s : State n) : Action n → Option (State n)
  | .update t buf =>
    match s.prog t with
    | .idle => some { s.goto t (.updating buf) with updates := s.updates + 1 }
    | _ => none
  | .push t =>
    match s.prog t, s.mutex with
    | .updating buf, none => some { s.goto t .pushed with
        data := s.data ++ [buf]
        mutex := some t
        pushes := s.pushes ++ [buf] }
    | _, _ => none
  | .callV t =>
    match s.prog t with
    | .pushed => (Semaphore.semaphore.step s.sem (.call t .v)).map fun sem =>
        { s.goto t .signaling with sem := sem }
    | _ => none
  | .semaphore a =>
    if a.isCall then none else (Semaphore.semaphore.step s.sem a).map fun sem => { s with sem := sem }
  | .returnV t =>
    match s.prog t, s.sem.pc t with
    | .signaling, .idle => some (s.goto t .signaled)
    | _, _ => none
  | .unlock t =>
    match s.prog t with
    | .signaled => some { s.goto t .idle with mutex := none }
    | _ => none
  | .receive t =>
    match s.prog t with
    | .idle => (Semaphore.semaphore.step s.sem (.call t .p)).map fun sem =>
        { s.goto t .waiting with
          sem := sem
          receives := s.receives + 1 }
    | _ => none
  | .returnP t =>
    match s.prog t, s.sem.pc t with
    | .waiting, .idle => some (s.goto t .passed)
    | _, _ => none
  | .pop t =>
    match s.prog t, s.mutex, s.data with
    -- an empty queue makes `receive` return false
    | .passed, none, [] => some (s.goto t .idle)
    | .passed, none, buf :: rest => some { s.goto t .idle with
        data := rest
        pops := s.pops ++ [(t, buf)] }
    | _, _, _ => none

end State

def start (n : ℕ) : State n := ⟨[], none, .start 0, fun _ => .idle, 0, 0, [], []⟩

def machine (n : ℕ) : Machine (State n) (Action n) where
  init s := s = start n
  step := State.step

inductive Effect (s : State n) : Action n → State n → Prop
  | update {t buf} (hprog : s.prog t = .idle) :
    Effect s (.update t buf) { s.goto t (.updating buf) with updates := s.updates + 1 }
  | push {t buf} (hprog : s.prog t = .updating buf) (hmutex : s.mutex = none) :
    Effect s (.push t) { s.goto t .pushed with
      data := s.data ++ [buf]
      mutex := some t
      pushes := s.pushes ++ [buf] }
  | callV {t sem} (hprog : s.prog t = .pushed)
      (hsem : Semaphore.semaphore.step s.sem (.call t .v) = some sem) :
    Effect s (.callV t) { s.goto t .signaling with sem := sem }
  | semaphore {a sem} (hcall : a.isCall = false)
      (hsem : Semaphore.semaphore.step s.sem a = some sem) :
    Effect s (.semaphore a) { s with sem := sem }
  | returnV {t} (hprog : s.prog t = .signaling) (hpc : s.sem.pc t = .idle) :
    Effect s (.returnV t) (s.goto t .signaled)
  | unlock {t} (hprog : s.prog t = .signaled) :
    Effect s (.unlock t) { s.goto t .idle with mutex := none }
  | receive {t sem} (hprog : s.prog t = .idle)
      (hsem : Semaphore.semaphore.step s.sem (.call t .p) = some sem) :
    Effect s (.receive t) { s.goto t .waiting with
      sem := sem
      receives := s.receives + 1 }
  | returnP {t} (hprog : s.prog t = .waiting) (hpc : s.sem.pc t = .idle) :
    Effect s (.returnP t) (s.goto t .passed)
  | popEmpty {t} (hprog : s.prog t = .passed) (hmutex : s.mutex = none) (hdata : s.data = []) :
    Effect s (.pop t) (s.goto t .idle)
  | pop {t buf rest} (hprog : s.prog t = .passed) (hmutex : s.mutex = none)
      (hdata : s.data = buf :: rest) :
    Effect s (.pop t) { s.goto t .idle with
      data := rest
      pops := s.pops ++ [(t, buf)] }

variable {s s' : State n} {a : Action n}

theorem step_effect (h : s.step a = some s') : Effect s a s' := by
  cases a with
  | update t buf =>
    simp only [State.step] at h
    split at h
    · cases h; exact .update ‹_›
    · cases h
  | push t =>
    simp only [State.step] at h
    split at h
    · cases h; exact .push ‹_› ‹_›
    · cases h
  | callV t =>
    simp only [State.step] at h
    split at h
    · obtain ⟨sem, hsem, rfl⟩ := Option.map_eq_some_iff.mp h
      exact .callV ‹_› hsem
    · cases h
  | semaphore a =>
    simp only [State.step] at h
    split at h
    · cases h
    · obtain ⟨sem, hsem, rfl⟩ := Option.map_eq_some_iff.mp h
      exact .semaphore (Bool.eq_false_iff.mpr ‹_›) hsem
  | returnV t =>
    simp only [State.step] at h
    split at h
    · cases h; exact .returnV ‹_› ‹_›
    · cases h
  | unlock t =>
    simp only [State.step] at h
    split at h
    · cases h; exact .unlock ‹_›
    · cases h
  | receive t =>
    simp only [State.step] at h
    split at h
    · obtain ⟨sem, hsem, rfl⟩ := Option.map_eq_some_iff.mp h
      exact .receive ‹_› hsem
    · cases h
  | returnP t =>
    simp only [State.step] at h
    split at h
    · cases h; exact .returnP ‹_› ‹_›
    · cases h
  | pop t =>
    simp only [State.step] at h
    split at h
    · cases h; exact .popEmpty ‹_› ‹_› ‹_›
    · cases h; exact .pop ‹_› ‹_› ‹_›
    · cases h

def Prog.Holds : Prog → Prop
  | .pushed | .signaling | .signaled => True
  | _ => False

def Prog.semCall : Prog → Option Call
  | .signaling => some .v
  | .waiting => some .p
  | _ => none

structure Aligned (s : State n) : Prop where
  sem : (Semaphore.semaphore.machine 0).Reachable s.sem
  call : ∀ t k, (s.sem.pc t).call = some k → (s.prog t).semCall = some k
  owner : ∀ t, (s.prog t).Holds ↔ s.mutex = some t

theorem aligned_start : Aligned (start n) :=
  ⟨.init rfl, fun _ _ => nofun, fun _ => iff_of_false id nofun⟩

section Steps

variable {t : Fin n}

theorem Aligned.pc_idle (h : Aligned s) (ht : (s.prog t).semCall = none) :
    (s.sem.pc t).call = none := by
  cases hcall : (s.sem.pc t).call with
  | none => rfl
  | some k => exact absurd (h.call t k hcall) (by rw [ht]; exact nofun)

/-- A thread outside the semaphore goes on. -/
theorem Aligned.call_goto (h : Aligned s) (ht : (s.sem.pc t).call = none) (x : Prog) :
    ∀ u k, (s.sem.pc u).call = some k → ((s.goto t x).prog u).semCall = some k := by
  intro u k hu
  change (Function.update s.prog t x u).semCall = some k
  rcases eq_or_ne u t with rfl | hne
  · rw [ht] at hu
    cases hu
  · rw [Function.update_of_ne hne]
    exact h.call u k hu

theorem sem_call_eq {sem : Monitor.State ℤ Call (Fin n)} {k : Call}
    (h : Semaphore.semaphore.step s.sem (.call t k) = some sem) :
    s.sem.pc t = .idle ∧
      sem = { s.sem.move t (.entering k) with called := s.sem.called ++ [(t, k)] } := by
  cases Calls.step_effect h with
  | call hpc => exact ⟨hpc, rfl⟩

/-- A thread begins a call of the semaphore. -/
theorem Aligned.call_begin (h : Aligned s) {sem : Monitor.State ℤ Call (Fin n)} {k : Call}
    {x : Prog} (hx : x.semCall = some k)
    (hsem : Semaphore.semaphore.step s.sem (.call t k) = some sem) :
    ∀ u k', (sem.pc u).call = some k' → ((s.goto t x).prog u).semCall = some k' := by
  obtain ⟨-, rfl⟩ := sem_call_eq hsem
  intro u k' hu
  change (Function.update s.prog t x u).semCall = some k'
  rcases eq_or_ne u t with rfl | hne
  · rw [Function.update_self, hx]
    rwa [State.move_pc_self] at hu
  · rw [Function.update_of_ne hne]
    rw [State.move_pc_of_ne _ _ hne] at hu
    exact h.call u k' hu

theorem Aligned.step (h : Aligned s) (hs : s.step a = some s') : Aligned s' := by
  cases step_effect hs with
  | @update t buf hprog =>
    refine ⟨h.sem, h.call_goto (h.pc_idle (by rw [hprog]; rfl)) _, ?_⟩
    exact holds_update (H := Prog.Holds) h.owner (by rw [hprog]; rfl)
  | @push t buf hprog hmutex =>
    refine ⟨h.sem, h.call_goto (h.pc_idle (by rw [hprog]; rfl)) _, ?_⟩
    exact holds_update_acquire (H := Prog.Holds) h.owner hmutex trivial
  | @callV t sem hprog hsem =>
    refine ⟨Machine.Reaches.step (a := .call t .v) h.sem hsem trivial, h.call_begin rfl hsem, ?_⟩
    exact holds_update (H := Prog.Holds) h.owner (by rw [hprog]; rfl)
  | semaphore hcall hsem =>
    refine ⟨h.sem.step hsem trivial, fun u k hu => ?_, h.owner⟩
    exact h.call u k (Calls.call_of_step hsem hcall hu)
  | @returnV t hprog hpc =>
    refine ⟨h.sem, h.call_goto (by rw [hpc]; rfl) _, ?_⟩
    exact holds_update (H := Prog.Holds) h.owner (by rw [hprog]; rfl)
  | @unlock t hprog =>
    refine ⟨h.sem, h.call_goto (h.pc_idle (by rw [hprog]; rfl)) _, ?_⟩
    exact holds_update_release (H := Prog.Holds) h.owner (by rw [hprog]; trivial) id
  | @receive t sem hprog hsem =>
    refine ⟨Machine.Reaches.step (a := .call t .p) h.sem hsem trivial, h.call_begin rfl hsem, ?_⟩
    exact holds_update (H := Prog.Holds) h.owner (by rw [hprog]; rfl)
  | @returnP t hprog hpc =>
    refine ⟨h.sem, h.call_goto (by rw [hpc]; rfl) _, ?_⟩
    exact holds_update (H := Prog.Holds) h.owner (by rw [hprog]; rfl)
  | @popEmpty t hprog hmutex hdata =>
    refine ⟨h.sem, h.call_goto (h.pc_idle (by rw [hprog]; rfl)) _, ?_⟩
    exact holds_update (H := Prog.Holds) h.owner (by rw [hprog]; rfl)
  | @pop t buf rest hprog hmutex hdata =>
    refine ⟨h.sem, h.call_goto (h.pc_idle (by rw [hprog]; rfl)) _, ?_⟩
    exact holds_update (H := Prog.Holds) h.owner (by rw [hprog]; rfl)

end Steps

theorem aligned_of_reachable (hs : (machine n).Reachable s) : Aligned s := by
  refine hs.invariant ?_ fun _ _ _ _ hP hstep _ => hP.step hstep
  rintro s rfl
  exact aligned_start

def claimsAt : Prog → Option Call → Bool
  | .passed, _ => true
  | .waiting, pending => pending.isNone
  | _, _ => false

def holderAt (t : ℕ) : Prog → Option Call → CommunicatorQueue.Holder
  | .pushed, _ => .pushed t
  | .signaling, pending => if pending.isSome then .pushed t else .signaled t
  | _, _ => .signaled t

namespace State

def claims (s : State n) (t : Fin n) : Bool := claimsAt (s.prog t) (s.sem.pc t).pending

def holder (s : State n) (t : Fin n) : CommunicatorQueue.Holder :=
  holderAt t (s.prog t) (s.sem.pc t).pending

def queue (s : State n) : CommunicatorQueue.State where
  data := s.data
  count := s.sem.data
  mutex := s.mutex.map s.holder
  passed := (Finset.univ.filter fun t => s.claims t = true).map Fin.valEmbedding
  pushes := s.pushes
  pops := s.pops.map fun e => (e.1.val, e.2)

end State

theorem mem_passed {s : State n} {t : Fin n} : t.val ∈ s.queue.passed ↔ s.claims t = true := by
  unfold State.queue
  rw [Finset.mem_map]
  constructor
  · rintro ⟨u, hu, hut⟩
    obtain rfl : u = t := Fin.val_injective hut
    exact (Finset.mem_filter.mp hu).2
  · intro ht
    exact ⟨t, Finset.mem_filter.mpr ⟨Finset.mem_univ t, ht⟩, rfl⟩

theorem passed_ext {s : State n} {m : Finset ℕ} (hlt : ∀ k ∈ m, k < n)
    (h : ∀ t : Fin n, s.claims t = true ↔ t.val ∈ m) : s.queue.passed = m := by
  ext k
  constructor
  · intro hk
    obtain ⟨t, ht, rfl⟩ := Finset.mem_map.mp hk
    exact (h t).mp (Finset.mem_filter.mp ht).2
  · intro hk
    exact mem_passed.mpr ((h ⟨k, hlt k hk⟩).mpr hk)

theorem lt_of_mem_passed {s : State n} {k : ℕ} (hk : k ∈ s.queue.passed) : k < n := by
  obtain ⟨t, -, rfl⟩ := Finset.mem_map.mp hk
  exact t.isLt

theorem queue_ext {q q' : CommunicatorQueue.State} (hdata : q.data = q'.data)
    (hcount : q.count = q'.count) (hmutex : q.mutex = q'.mutex) (hpassed : q.passed = q'.passed)
    (hpushes : q.pushes = q'.pushes) (hpops : q.pops = q'.pops) : q = q' := by
  cases q
  cases q'
  cases hdata
  cases hcount
  cases hmutex
  cases hpassed
  cases hpushes
  cases hpops
  rfl

section Simulation

variable {t : Fin n}

theorem claims_eq (hprog : ∀ u, u ≠ t → s'.prog u = s.prog u)
    (hpending : ∀ u, u ≠ t → (s'.sem.pc u).pending = (s.sem.pc u).pending)
    (ht : s'.claims t = s.claims t) (u : Fin n) : s'.claims u = s.claims u := by
  rcases eq_or_ne u t with rfl | hu
  · exact ht
  · rw [State.claims, hprog u hu, hpending u hu]
    rfl

theorem passed_eq (h : ∀ u, s'.claims u = s.claims u) : s'.queue.passed = s.queue.passed :=
  passed_ext (fun _ => lt_of_mem_passed) fun u => by rw [h, mem_passed]

/-- A step that does not show in the queue, made by a thread between two places that are the
same to the queue. -/
theorem queue_eq (hdata : s'.data = s.data) (hcount : s'.sem.data = s.sem.data)
    (hmutex : s'.mutex = s.mutex) (hpushes : s'.pushes = s.pushes) (hpops : s'.pops = s.pops)
    (hprog : ∀ u, u ≠ t → s'.prog u = s.prog u)
    (hpending : ∀ u, u ≠ t → (s'.sem.pc u).pending = (s.sem.pc u).pending)
    (hclaims : s'.claims t = s.claims t) (hholder : s'.holder t = s.holder t) :
    s'.queue = s.queue := by
  have hholders : s'.holder = s.holder := by
    funext u
    rcases eq_or_ne u t with rfl | hu
    · exact hholder
    · rw [State.holder, hprog u hu, hpending u hu]
      rfl
  refine queue_ext hdata hcount ?_ (passed_eq (claims_eq hprog hpending hclaims)) hpushes ?_
  · change s'.mutex.map s'.holder = s.mutex.map s.holder
    rw [hholders, hmutex]
  · change s'.pops.map _ = s.pops.map _
    rw [hpops]

theorem queue_update {buf : Buffer} (hprog : s.prog t = .idle) :
    State.queue { s.goto t (.updating buf) with updates := s.updates + 1 } = s.queue := by
  refine queue_eq rfl rfl rfl rfl rfl (fun _ => s.goto_of_ne _) (fun _ _ => rfl) ?_ ?_
  · simp only [State.claims, State.goto_self, hprog, claimsAt]
  · simp only [State.holder, State.goto_self, hprog, holderAt]

theorem queue_callV {sem : Monitor.State ℤ Call (Fin n)} (hprog : s.prog t = .pushed)
    (hsem : Semaphore.semaphore.step s.sem (.call t .v) = some sem) :
    State.queue { s.goto t .signaling with sem := sem } = s.queue := by
  obtain ⟨-, rfl⟩ := sem_call_eq hsem
  refine queue_eq rfl rfl rfl rfl rfl (fun _ => s.goto_of_ne _) (fun u hu => ?_) ?_ ?_
  · rw [State.move_pc_of_ne _ _ hu]
  · simp only [State.claims, State.goto_self, hprog, claimsAt]
  · simp only [State.holder, State.goto_self, hprog, holderAt, State.move_pc_self, Pc.pending,
      Option.isSome_some, if_true]

theorem queue_receive {sem : Monitor.State ℤ Call (Fin n)} (hprog : s.prog t = .idle)
    (hsem : Semaphore.semaphore.step s.sem (.call t .p) = some sem) :
    State.queue { s.goto t .waiting with sem := sem, receives := s.receives + 1 } = s.queue := by
  obtain ⟨-, rfl⟩ := sem_call_eq hsem
  refine queue_eq rfl rfl rfl rfl rfl (fun _ => s.goto_of_ne _) (fun u hu => ?_) ?_ ?_
  · rw [State.move_pc_of_ne _ _ hu]
  · simp only [State.claims, State.goto_self, hprog, claimsAt, State.move_pc_self, Pc.pending,
      Option.isNone_some]
  · simp only [State.holder, State.goto_self, hprog, holderAt]

theorem queue_returnV (hprog : s.prog t = .signaling) (hpc : s.sem.pc t = .idle) :
    (s.goto t .signaled).queue = s.queue := by
  refine queue_eq rfl rfl rfl rfl rfl (fun _ => s.goto_of_ne _) (fun _ _ => rfl) ?_ ?_
  · simp only [State.claims, State.goto_self, hprog, claimsAt]
  · have hpending : (s.sem.pc t).pending = none := by rw [hpc]; rfl
    change holderAt t ((s.goto t .signaled).prog t) (s.sem.pc t).pending = _
    rw [State.holder, State.goto_self, hprog, hpending]
    rfl

theorem queue_returnP (hprog : s.prog t = .waiting) (hpc : s.sem.pc t = .idle) :
    (s.goto t .passed).queue = s.queue := by
  refine queue_eq rfl rfl rfl rfl rfl (fun _ => s.goto_of_ne _) (fun _ _ => rfl) ?_ ?_
  · have hpending : (s.sem.pc t).pending = none := by rw [hpc]; rfl
    change claimsAt ((s.goto t .passed).prog t) (s.sem.pc t).pending = _
    rw [State.claims, State.goto_self, hprog, hpending]
    rfl
  · simp only [State.holder, State.goto_self, hprog, holderAt]

theorem queue_semaphore {b : Monitor.Action Call (Fin n)} {sem : Monitor.State ℤ Call (Fin n)}
    (hcall : b.isCall = false) (hact : ∀ u, b ≠ .act u)
    (hsem : Semaphore.semaphore.step s.sem b = some sem) :
    State.queue { s with sem := sem } = s.queue := by
  obtain ⟨hdata, hpending⟩ := Calls.pending_of_step hsem hcall hact
  have hholder : State.holder { s with sem := sem } = s.holder := by
    funext u
    rw [State.holder, hpending u]
    rfl
  refine queue_ext rfl hdata ?_ (passed_eq fun u => ?_) rfl rfl
  · exact congrArg (fun f => s.mutex.map f) hholder
  · rw [State.claims, hpending u]
    rfl

theorem claims_false (hprog : s.prog t ≠ .passed) (hwaiting : s.prog t ≠ .waiting) :
    t.val ∉ s.queue.passed := by
  rw [mem_passed, State.claims]
  cases hx : s.prog t with
  | passed => exact absurd hx hprog
  | waiting => exact absurd hx hwaiting
  | _ => exact Bool.false_ne_true

theorem queue_push {buf : Buffer} (hprog : s.prog t = .updating buf) (hmutex : s.mutex = none) :
    CommunicatorQueue.machine.step s.queue (.pushBack t buf) =
      some (State.queue { s.goto t .pushed with
        data := s.data ++ [buf]
        mutex := some t
        pushes := s.pushes ++ [buf] }) := by
  have hfree : s.queue.mutex = none := congrArg (Option.map s.holder) hmutex
  have hidle : s.queue.Idle t := by
    refine ⟨claims_false (by rw [hprog]; exact nofun) (by rw [hprog]; exact nofun), ?_, ?_⟩
    · rw [hfree]; exact nofun
    · rw [hfree]; exact nofun
  change (if s.queue.mutex = none ∧ s.queue.Idle t then _ else none) = _
  rw [if_pos ⟨hfree, hidle⟩]
  refine congrArg some (queue_ext rfl rfl ?_ ?_ rfl rfl)
  · change some (CommunicatorQueue.Holder.pushed t.val) = some (State.holder _ t)
    simp only [State.holder, State.goto_self, holderAt]
  · refine (passed_eq (claims_eq (t := t) (fun _ => s.goto_of_ne _) (fun _ _ => rfl) ?_)).symm
    simp only [State.claims, State.goto_self, hprog, claimsAt]

theorem Aligned.queue_mutex (h : Aligned s) {y : Prog} (hy : s.prog t = y) (hholds : y.Holds) :
    s.queue.mutex = some (holderAt t y (s.sem.pc t).pending) := by
  have hmutex : s.mutex = some t := (h.owner t).mp (by rw [hy]; exact hholds)
  change s.mutex.map s.holder = _
  rw [hmutex, Option.map_some, State.holder, hy]

theorem holderAt_cases (k : ℕ) (x : Prog) (pending : Option Call) :
    holderAt k x pending = .pushed k ∨ holderAt k x pending = .signaled k := by
  unfold holderAt
  split
  · exact .inl rfl
  · split_ifs
    · exact .inl rfl
    · exact .inr rfl
  · exact .inr rfl

/-- A thread that does not hold the mutex is not the holder that the queue sees. -/
theorem Aligned.mutex_ne (h : Aligned s) (ht : ¬ (s.prog t).Holds) :
    s.queue.mutex ≠ some (.pushed t) ∧ s.queue.mutex ≠ some (.signaled t) := by
  change s.mutex.map s.holder ≠ _ ∧ s.mutex.map s.holder ≠ _
  cases hmutex : s.mutex with
  | none => exact ⟨nofun, nofun⟩
  | some u =>
    have hne : u.val ≠ t.val := by
      intro hut
      obtain rfl : u = t := Fin.val_injective hut
      exact ht ((h.owner u).mpr hmutex)
    rw [Option.map_some, State.holder]
    rcases holderAt_cases u (s.prog u) (s.sem.pc u).pending with hu | hu
    · rw [hu]
      exact ⟨fun heq => hne (CommunicatorQueue.Holder.pushed.inj (Option.some.inj heq)), nofun⟩
    · rw [hu]
      exact ⟨nofun, fun heq => hne (CommunicatorQueue.Holder.signaled.inj (Option.some.inj heq))⟩

theorem pending_next (k : Call) : (Semaphore.semaphore.next k).pending = none := by
  unfold Calls.next
  split_ifs <;> rfl

/-- `v` counts while the Communicator's mutex is held. -/
theorem Aligned.queue_actV (h : Aligned s) (hpc : s.sem.pc t = .acting .v) :
    CommunicatorQueue.machine.step s.queue (.v t) =
      some (State.queue { s with sem := { s.sem.move t (Semaphore.semaphore.next .v) with
        data := s.sem.data + 1
        done := s.sem.done ++ [(t, .v)] } }) := by
  have hprog : s.prog t = .signaling := by
    have hcall := h.call t .v (by rw [hpc]; rfl)
    cases hx : s.prog t <;> rw [hx] at hcall <;> first | rfl | cases hcall
  have hmutex : s.mutex = some t := (h.owner t).mp (by rw [hprog]; trivial)
  have hpushed : s.queue.mutex = some (.pushed t) := by
    rw [h.queue_mutex hprog trivial, hpc]
    rfl
  change (if s.queue.mutex = some (.pushed t.val) then _ else none) = _
  rw [if_pos hpushed]
  refine congrArg some (queue_ext rfl rfl ?_ ?_ rfl rfl)
  · change some (CommunicatorQueue.Holder.signaled t.val) = s.mutex.map _
    rw [hmutex, Option.map_some]
    simp only [State.holder, hprog, holderAt, State.move_pc_self, pending_next, Option.isSome_none,
      Bool.false_eq_true, if_false]
  · refine Eq.symm (passed_eq (s := s) (claims_eq (t := t) (fun _ _ => rfl) (fun u hu => ?_) ?_))
    · exact congrArg Pc.pending (State.move_pc_of_ne _ _ hu)
    · simp only [State.claims, hprog, claimsAt]

/-- `p` takes one from the count, and the thread may pop. -/
theorem Aligned.queue_actP (h : Aligned s) (hpc : s.sem.pc t = .acting .p) :
    CommunicatorQueue.machine.step s.queue (.p t) =
      some (State.queue { s with sem := { s.sem.move t (Semaphore.semaphore.next .p) with
        data := s.sem.data - 1
        done := s.sem.done ++ [(t, .p)] } }) := by
  have hprog : s.prog t = .waiting := by
    have hcall := h.call t .p (by rw [hpc]; rfl)
    cases hx : s.prog t <;> rw [hx] at hcall <;> first | rfl | cases hcall
  have hpositive : 0 < s.queue.count :=
    of_decide_eq_true ((Calls.locked_of_reachable h.sem).guarded t .p hpc)
  have hclaims : s.claims t = false := by
    simp only [State.claims, hprog, claimsAt, hpc, Pc.pending, Option.isNone_some]
  have hidle : s.queue.Idle t := by
    refine ⟨?_, h.mutex_ne (by rw [hprog]; exact id)⟩
    rw [mem_passed, hclaims]
    exact Bool.false_ne_true
  change (if 0 < s.queue.count ∧ s.queue.Idle t then _ else none) = _
  rw [if_pos ⟨hpositive, hidle⟩]
  refine congrArg some (queue_ext rfl rfl ?_ ?_ rfl rfl)
  · refine congrArg (fun f => s.mutex.map f) ?_
    funext u
    rcases eq_or_ne u t with rfl | hu
    · simp only [State.holder, hprog, holderAt]
    · simp only [State.holder, State.move_pc_of_ne _ _ hu]
  · refine (passed_ext ?_ fun u => ?_).symm
    · intro k hk
      rcases Finset.mem_insert.mp hk with rfl | hk
      · exact t.isLt
      · exact lt_of_mem_passed hk
    · rw [Finset.mem_insert, mem_passed]
      rcases eq_or_ne u t with rfl | hu
      · simp [State.claims, hprog, claimsAt, State.move_pc_self, pending_next]
      · have hval : u.val ≠ t.val := fun heq => hu (Fin.val_injective heq)
        simp only [State.claims, State.move_pc_of_ne _ _ hu, hval, false_or]

theorem Aligned.queue_unlock (h : Aligned s) (hprog : s.prog t = .signaled) :
    CommunicatorQueue.machine.step s.queue (.unlock t) =
      some (State.queue { s.goto t .idle with mutex := none }) := by
  have hsignaled : s.queue.mutex = some (.signaled t) := h.queue_mutex hprog trivial
  change (if s.queue.mutex = some (.signaled t.val) then _ else none) = _
  rw [if_pos hsignaled]
  refine congrArg some (queue_ext rfl rfl rfl ?_ rfl rfl)
  refine (passed_eq (claims_eq (t := t) (fun _ => s.goto_of_ne _) (fun _ _ => rfl) ?_)).symm
  simp only [State.claims, State.goto_self, hprog, claimsAt]

theorem queue_passed_goto (s' : State n) (hprog : s'.prog = (s.goto t .idle).prog)
    (hsem : s'.sem = s.sem) : s'.queue.passed = s.queue.passed.erase t.val := by
  refine passed_ext (fun k hk => lt_of_mem_passed (Finset.mem_of_mem_erase hk)) fun u => ?_
  rw [Finset.mem_erase, mem_passed, State.claims, hprog, hsem]
  rcases eq_or_ne u t with rfl | hu
  · rw [State.goto_self]
    exact iff_of_false Bool.false_ne_true fun hne => hne.1 rfl
  · have hval : u.val ≠ t.val := fun heq => hu (Fin.val_injective heq)
    rw [State.goto_of_ne _ _ hu, State.claims, and_iff_right hval]

theorem queue_pop (hprog : s.prog t = .passed) (hmutex : s.mutex = none)
    (hstep : s.step (.pop t) = some s') :
    CommunicatorQueue.machine.step s.queue (.pop t) = some s'.queue := by
  have hfree : s.queue.mutex = none := congrArg (Option.map s.holder) hmutex
  have hpassed : t.val ∈ s.queue.passed := by
    rw [mem_passed, State.claims, hprog]
    rfl
  change (if s.queue.mutex = none ∧ t.val ∈ s.queue.passed then _ else none) = _
  rw [if_pos ⟨hfree, hpassed⟩]
  cases step_effect hstep with
  | popEmpty _ _ hdata =>
    have hqueue : s.queue.data = [] := hdata
    rw [hqueue]
    refine congrArg some (queue_ext hdata.symm rfl ?_ (queue_passed_goto _ rfl rfl).symm rfl rfl)
    exact hfree.trans (congrArg (Option.map _) hmutex).symm
  | pop _ _ hdata =>
    have hqueue : s.queue.data = _ := hdata
    rw [hqueue]
    refine congrArg some (queue_ext rfl rfl ?_ (queue_passed_goto _ rfl rfl).symm rfl ?_)
    · exact hfree.trans (congrArg (Option.map _) hmutex).symm
    · change s.pops.map _ ++ [_] = (s.pops ++ [_]).map _
      rw [List.map_append]
      rfl

end Simulation

/-- The threads do to the queue what its steps do. -/
theorem Aligned.simulates (h : Aligned s) (hs : s.step a = some s') :
    s'.queue = s.queue ∨ ∃ b, CommunicatorQueue.machine.step s.queue b = some s'.queue := by
  cases step_effect hs with
  | update hprog => exact .inl (queue_update hprog)
  | push hprog hmutex => exact .inr ⟨_, queue_push hprog hmutex⟩
  | callV hprog hsem => exact .inl (queue_callV hprog hsem)
  | @semaphore b sem hcall hsem =>
    by_cases hact : ∀ u, b ≠ .act u
    · exact .inl (queue_semaphore hcall hact hsem)
    · obtain ⟨u, hu⟩ := not_forall_not.mp hact
      subst hu
      cases Calls.step_effect hsem with
      | @act u k hpc =>
        cases k with
        | v => exact .inr ⟨_, h.queue_actV hpc⟩
        | p => exact .inr ⟨_, h.queue_actP hpc⟩
  | returnV hprog hpc => exact .inl (queue_returnV hprog hpc)
  | unlock hprog => exact .inr ⟨_, h.queue_unlock hprog⟩
  | receive hprog hsem => exact .inl (queue_receive hprog hsem)
  | returnP hprog hpc => exact .inl (queue_returnP hprog hpc)
  | popEmpty hprog hmutex => exact .inr ⟨_, queue_pop hprog hmutex hs⟩
  | pop hprog hmutex => exact .inr ⟨_, queue_pop hprog hmutex hs⟩

theorem queue_reachable (hs : (machine n).Reachable s) :
    CommunicatorQueue.machine.Reachable s.queue := by
  refine hs.simulate State.queue ?_ fun r a s' hr hstep =>
    (aligned_of_reachable hr).simulates hstep
  rintro s rfl
  refine queue_ext rfl rfl rfl (passed_ext (fun _ hk => absurd hk (Finset.notMem_empty _))
    fun u => ?_) rfl rfl
  exact iff_of_false Bool.false_ne_true (Finset.notMem_empty _)

end CommunicationAPI.CommunicatorThreads
