import CommunicationAPI.ShmTickets
import CommunicationAPI.ShmUndo

/-!
# The range of the adjustments

The kernel keeps an adjustment between -32768 and 32767 and refuses a `semop`
that would take it out of this range. A lock is taken and given back by the same
process. A client semaphore is posted by the processes that send and waited for
by the one that receives, and `WRITER_WAIT_SEM` the other way round: their
adjustments follow the traffic of each process.
-/

namespace CommunicationAPI.ShmUndo
open TransitionSystem BinarySemaphore CommunicationAPI.ShmEngine

inductive Event
  /-- A `send` has notified the clients of these entries. -/
  | sent (clients : List ClientSlot)
  /-- `receive_zerocopy` goes on to a message, as the client of an entry. -/
  | received (i : ClientSlot)
  /-- A `send` goes on that had to wait for room. -/
  | delayed
  /-- A `release_frame` lets such a `send` go on. -/
  | resumed

def eventOf (s : ShmEngine.State) : ShmEngine.Action → Option Event
  | .sender w .ok =>
    match s.sender w with
    | .notifyScan _ _ [] clients => some (.sent clients)
    | .waitWriter _ _ => some .delayed
    | _ => none
  | .receiver p .ok =>
    match (s.process p).engine, (s.process p).receiver with
    | .running i, .wait => some (.received i)
    | _, _ => none
  | .releaser _ .signal .ok => some .resumed
  | _ => none

/-- The traffic of each process since it began. -/
structure Watched where
  kernel : State
  traffic : ℕ → List Event

def Watched.step (owner : ℕ → ℕ) (c : Watched) (b : Action) : Option Watched :=
  (c.kernel.step owner b).map fun kernel =>
    match b with
    | .ring a => ⟨kernel, Function.update c.traffic (caller owner a)
        (c.traffic (caller owner a) ++ (eventOf c.kernel.ring a).toList)⟩
    | .exit p => ⟨kernel, Function.update c.traffic p []⟩

def watched (owner : ℕ → ℕ) : Machine Watched Action where
  init c := c = ⟨start, fun _ => []⟩
  step := Watched.step owner

/-- Every adjustment is one that the kernel keeps. -/
def InRange (s : State) : Prop :=
  ∀ p x, -32768 ≤ s.undo p x ∧ s.undo p x ≤ 32767

/-- Every client semaphore is at most `BUFFER_SLOTS`. -/
def KeepsUp (c : Watched) : Prop := ∀ i, c.kernel.ring.sem.client i ≤ bufferSlots

def sentTo (i : ClientSlot) (l : List Event) : ℕ :=
  l.countP fun e => match e with
    | .sent clients => clients.contains i
    | _ => false

def receivedAs (i : ClientSlot) (l : List Event) : ℕ :=
  l.countP fun e => match e with
    | .received j => decide (j = i)
    | _ => false

def delays (l : List Event) : ℕ :=
  l.countP fun e => match e with
    | .delayed => true
    | _ => false

def resumptions (l : List Event) : ℕ :=
  l.countP fun e => match e with
    | .resumed => true
    | _ => false

/-- A process has not received far more messages as a client than it has sent to that client
itself, nor sent far more, and has not been delayed far more often than it has resumed others. -/
structure Balanced (l : List Event) : Prop where
  received : ∀ i, receivedAs i l ≤ sentTo i l + 32767
  sent : ∀ i, sentTo i l ≤ receivedAs i l + 32768
  delayed : delays l ≤ resumptions l + 32767
  resumed : resumptions l ≤ delays l + 32768

/-- The semaphores that one process posts and another waits for. -/
inductive Signal
  | writerWait
  | client (i : ClientSlot)

def Signal.sem : Signal → Sem
  | .writerWait => .writerWait
  | .client i => .client i

def Event.takes : Event → Signal → Bool
  | .received j, .client i => decide (j = i)
  | .delayed, .writerWait => true
  | _, _ => false

def Event.gives : Event → Signal → Bool
  | .sent clients, .client i => clients.contains i
  | .resumed, .writerWait => true
  | _, _ => false

def takes (s : ShmEngine.State) (a : ShmEngine.Action) (x : Signal) : Bool :=
  (eventOf s a).any fun e => e.takes x

def gives (s : ShmEngine.State) (a : ShmEngine.Action) (x : Signal) : Bool :=
  (eventOf s a).any fun e => e.gives x

section
variable {s s' : ShmEngine.State} {a : ShmEngine.Action}

theorem event_sender (s : ShmEngine.State) (w : ℕ) (o : Outcome) :
    (∀ i, takes s (.sender w o) (.client i) = false) ∧
      gives s (.sender w o) .writerWait = false := by
  cases o with
  | ok =>
    unfold takes gives eventOf
    dsimp only
    split <;> exact ⟨fun _ => rfl, rfl⟩
  | _ => exact ⟨fun _ => rfl, rfl⟩

theorem event_receiver (s : ShmEngine.State) (p : ℕ) (o : Outcome) :
    takes s (.receiver p o) .writerWait = false ∧ ∀ x, gives s (.receiver p o) x = false := by
  cases o with
  | ok =>
    unfold takes gives eventOf
    dsimp only
    split <;> exact ⟨rfl, fun _ => rfl⟩
  | _ => exact ⟨rfl, fun _ => rfl⟩

theorem takes_releaser (s : ShmEngine.State) (p : ℕ) (x : ReleasePc) (o : Outcome) (y : Signal) :
    takes s (.releaser p x o) y = false := by
  cases x <;> cases o <;> rfl

theorem gives_client (s : ShmEngine.State) (a : ShmEngine.Action) (i : ClientSlot) :
    gives s a (.client i) = (postedBy s a).contains i := by
  cases a with
  | sender w o =>
    cases o with
    | ok =>
      unfold gives eventOf postedBy
      dsimp only
      cases s.sender w with
      | notifyScan c t todo clients => cases todo <;> rfl
      | _ => rfl
    | _ => rfl
  | receiver p o =>
    cases o with
    | ok =>
      unfold gives eventOf postedBy
      dsimp only
      split <;> rfl
    | _ => rfl
  | releaser p x o => cases x <;> cases o <;> rfl
  | _ => rfl

theorem receiver_client {p : ℕ} {o : Outcome} (h : receiverStep s p o = some s') (i : ClientSlot) :
    s'.sem.client i + (takes s (.receiver p o) (.client i)).toNat = s.sem.client i := by
  obtain ⟨j, hj, he⟩ := receiverStep_effect h
  by_cases hwait : (s.process p).receiver = .wait
  · cases o with
    | ok =>
      simp only [receiverStep, hj, hwait, if_true] at h
      split_ifs at h with hpos
      cases h
      simp only [takes, eventOf, hj, hwait, Option.any_some, Event.takes, State.setReceiver,
        State.setProcess]
      by_cases hij : j = i
      · subst hij
        simp only [Function.update_self, decide_true, Bool.toNat_true]
        omega
      · simp [hij, Function.update_of_ne (Ne.symm hij)]
    | _ =>
      simp only [receiverStep, hj, hwait] at h
      cases h
      rfl
  · have htakes : takes s (.receiver p o) (.client i) = false := by
      cases o <;> simp [takes, eventOf, hj, hwait]
    rw [htakes]
    cases he with
    | wait hpc => exact absurd hpc hwait
    | _ => rfl

theorem client_step (h : ShmEngine.step s a = some s') (i : ClientSlot) :
    s'.sem.client i + (takes s a (.client i)).toNat =
      s.sem.client i + (gives s a (.client i)).toNat := by
  cases hprocess : a.process with
  | none =>
    have htakes : takes s a (.client i) = false := by
      cases a with
      | send => rfl
      | sender w o => exact (event_sender s w o).1 i
      | _ => cases hprocess
    rw [client_of_sender h hprocess, htakes, gives_client]
    by_cases hi : i ∈ postedBy s a <;> simp [hi]
  | some p =>
    have hgives : gives s a (.client i) = false := by
      rw [gives_client, postedBy_of_process hprocess]
      rfl
    rw [hgives]
    have still (hclient : s'.sem.client = s.sem.client) (htakes : takes s a (.client i) = false) :
        s'.sem.client i + (takes s a (.client i)).toNat = s.sem.client i + Bool.toNat false := by
      rw [hclient, htakes]
    cases step_effect h with
    | send | sender => cases hprocess
    | construct _ he | destroy _ he | engine he => exact still (by cases he <;> rfl) rfl
    | stop | release => exact still rfl rfl
    | releaser _ _ he => exact still (by cases he <;> rfl) (takes_releaser ..)
    | receiver => exact receiver_client h i

theorem sender_writerWait {w : ℕ} {o : Outcome} (h : senderStep s w o = some s') :
    s'.sem.writerWait + (takes s (.sender w o) .writerWait).toNat = s.sem.writerWait := by
  by_cases hwait : ∃ c t, s.sender w = .waitWriter c t
  · obtain ⟨c, t, hpc⟩ := hwait
    cases o with
    | ok =>
      simp only [senderStep, hpc] at h
      split_ifs at h with hpos
      cases h
      simp only [takes, eventOf, hpc, Option.any_some, Event.takes, State.setSender, Bool.toNat_true]
      omega
    | _ =>
      simp only [senderStep, hpc] at h
      cases h
      rfl
  · have htakes : takes s (.sender w o) .writerWait = false := by
      cases o with
      | ok =>
        unfold takes eventOf
        dsimp only
        split
        · rfl
        · exact absurd ⟨_, _, ‹_›⟩ hwait
        · rfl
      | _ => rfl
    rw [htakes]
    cases senderStep_effect h with
    | wake c t hpc => exact absurd ⟨c, t, hpc⟩ hwait
    | _ => rfl

theorem releaser_writerWait {p : ℕ} {x : ReleasePc} {o : Outcome}
    (h : releaserStep s p x o = some s') :
    s'.sem.writerWait = s.sem.writerWait + (gives s (.releaser p x o) .writerWait).toNat := by
  obtain ⟨i, hi, hx, he⟩ := releaserStep_effect h
  cases x with
  | signal =>
    simp only [releaserStep, hi, if_pos hx] at h
    cases o <;> cases h <;> rfl
  | _ =>
    cases he with
    | signal hsignal | signalFail hsignal => cases hsignal
    | _ => rfl

theorem writerWait_step (h : ShmEngine.step s a = some s') :
    s'.sem.writerWait + (takes s a .writerWait).toNat =
      s.sem.writerWait + (gives s a .writerWait).toNat := by
  cases step_effect h with
  | @send w c _ hidle he =>
    simp only [ShmEngine.step, hidle] at h
    cases h
    rfl
  | @sender w o _ he =>
    rw [(event_sender s w o).2]
    exact sender_writerWait h
  | construct _ he | destroy _ he | engine he => cases he <;> rfl
  | stop | release => rfl
  | @receiver p o _ _ _ he =>
    rw [(event_receiver s p o).1, (event_receiver s p o).2]
    cases he <;> rfl
  | @releaser p x o _ _ _ _ he =>
    rw [takes_releaser]
    exact releaser_writerWait h

/-- What a step takes from a semaphore and gives to it is its change. -/
theorem signal_step (h : ShmEngine.step s a = some s') (x : Signal) :
    value s'.sem x.sem + (takes s a x).toNat = value s.sem x.sem + (gives s a x).toNat := by
  cases x with
  | writerWait => exact writerWait_step h
  | client i => exact client_step h i

theorem countP_toList {α : Type*} (o : Option α) (p : α → Bool) :
    o.toList.countP p = (o.any p).toNat := by
  cases o with
  | none => rfl
  | some a => cases h : p a <;> simp [h]

end

def Claims (owner : ℕ → ℕ) (s : State) (w : ℕ) : Prop :=
  s.exited (owner w) = false ∧ (s.ring.sender w).claims = true

def ClaimLedger (owner : ℕ → ℕ) (s : State) : Prop :=
  Adjusted s.ring.sem.claim (fun p => s.undo p .claim) owner (Claims owner s)

variable {owner : ℕ → ℕ} {s s' : State}

theorem claimLedger_start : ClaimLedger owner start :=
  .start owner fun _ h => Bool.false_ne_true h.2

section
variable {a : ShmEngine.Action} {ring : ShmEngine.State}

theorem undo_moved_self (x : Sem) : (s.moved owner a ring).undo (caller owner a) x =
    s.undo (caller owner a) x - (value ring.sem x - value s.ring.sem x) := by
  simp [State.moved, State.record]

theorem undo_moved_of_ne {p : ℕ} (hp : p ≠ caller owner a) :
    (s.moved owner a ring).undo p = s.undo p := by
  simp [State.moved, hp]

theorem undo_moved_same {x : Sem} (h : value ring.sem x = value s.ring.sem x) (p : ℕ) :
    (s.moved owner a ring).undo p x = s.undo p x := by
  by_cases hp : p = caller owner a
  · rw [hp, undo_moved_self, h, sub_self, sub_zero]
  · rw [undo_moved_of_ne hp]

theorem undo_ended_self (p : ℕ) (x : Sem) : (s.ended p).undo p x = 0 := by
  simp [State.ended]

theorem undo_ended_of_ne {p q : ℕ} (hq : q ≠ p) : (s.ended p).undo q = s.undo q := by
  simp [State.ended, hq]

theorem ClaimLedger.same (h : ClaimLedger owner s)
    (hsem : ring.sem.claim = s.ring.sem.claim)
    (hclaims : ∀ w, (ring.sender w).claims = true → (s.ring.sender w).claims = true) :
    ClaimLedger owner (s.moved owner a ring) := by
  have hvalue : value ring.sem .claim = value s.ring.sem .claim := hsem
  have hundo : (fun p => (s.moved owner a ring).undo p .claim) = fun p => s.undo p .claim :=
    funext (undo_moved_same hvalue)
  unfold ClaimLedger
  rw [hundo]
  change Adjusted ring.sem.claim _ _ _
  rw [hsem]
  exact Adjusted.shrink h fun w hw => ⟨hw.1, hclaims w hw.2⟩

/-- A step of sending thread `w`. -/
theorem ClaimLedger.sender (h : ClaimLedger owner s) {w : ℕ} (ha : caller owner a = owner w)
    (hexited : s.exited (caller owner a) = false) (he : SenderEffect s.ring w ring) :
    ClaimLedger owner (s.moved owner a ring) := by
  rw [ha] at hexited
  have hmoved (pc : SendPc) (v : ℕ)
      (hv : (Function.update s.ring.sender w pc v).claims = true) :
      v = w ∧ pc.claims = true ∨ v ≠ w ∧ (s.ring.sender v).claims = true := by
    by_cases hvw : v = w
    · subst v
      exact .inl ⟨rfl, by simpa using hv⟩
    · exact .inr ⟨hvw, by simpa [hvw] using hv⟩
  have hkeeps (pc : SendPc) (hpc : pc.claims = true → (s.ring.sender w).claims = true) (v : ℕ)
      (hv : (Function.update s.ring.sender w pc v).claims = true) :
      (s.ring.sender v).claims = true := by
    rcases hmoved pc v hv with ⟨rfl, hnew⟩ | ⟨-, hold⟩
    · exact hpc hnew
    · exact hold
  cases he with
  | stutter => exact h.same rfl fun _ hv => hv
  | move pc b hm => exact h.same rfl (hkeeps pc hm.claims)
  | acquire c hpc hpos =>
    refine Adjusted.acquire h hpos (x := w) ?_ ?_ ?_
    · rw [← ha, undo_moved_self]
      simp only [value, State.setSender]
      omega
    · intro p hp
      rw [← ha] at hp
      rw [undo_moved_of_ne hp]
    · rintro v ⟨hv, hclaims⟩
      rcases hmoved _ v hclaims with ⟨rfl, -⟩ | ⟨-, hold⟩
      · exact .inl rfl
      · exact .inr ⟨hv, hold⟩
  | draw c t hpc => exact h.same rfl (hkeeps _ fun _ => by rw [hpc]; rfl)
  | release c t hpc =>
    refine Adjusted.release h (x := w) ⟨hexited, by rw [hpc]; rfl⟩ ?_ ?_ ?_
    · rw [← ha, undo_moved_self]
      simp only [value, State.setSender]
      omega
    · intro p hp
      rw [← ha] at hp
      rw [undo_moved_of_ne hp]
    · rintro v ⟨hv, hclaims⟩
      rcases hmoved _ v hclaims with ⟨-, hnew⟩ | ⟨hvw, hold⟩
      · cases hnew
      · exact ⟨⟨hv, hold⟩, hvw⟩
  | wake c t hpc => exact h.same rfl (hkeeps _ (by rintro ⟨⟩))
  | store c t st todo hpc => exact h.same rfl (hkeeps _ (by rintro ⟨⟩))
  | publish c t hpc => exact h.same rfl (hkeeps _ (by rintro ⟨⟩))
  | notify c t ops hpc => exact h.same rfl (hkeeps _ (by rintro ⟨⟩))

theorem ClaimLedger.moved (h : ClaimLedger owner s)
    (hexited : s.exited (caller owner a) = false) (hs : ShmEngine.step s.ring a = some ring) :
    ClaimLedger owner (s.moved owner a ring) := by
  have side (hside : SenderSide s.ring ring) : ClaimLedger owner (s.moved owner a ring) :=
    h.same hside.claimSem fun w hw => by rwa [hside.sender] at hw
  cases step_effect hs with
  | send _ he | sender he => exact h.sender rfl hexited he
  | construct _ he | destroy _ he | engine he => exact side he.senderSide
  | receiver _ he => exact side he.senderSide
  | releaser _ _ he => exact side he.senderSide
  | stop | release => exact side ⟨rfl, rfl, rfl, rfl, rfl, rfl, rfl⟩

theorem ClaimLedger.ended (h : ClaimLedger owner s) (p : ℕ) : ClaimLedger owner (s.ended p) := by
  refine Adjusted.exit h (p := p) rfl (undo_ended_self p _) ?_ ?_
  · intro q hq
    rw [undo_ended_of_ne hq]
  · rintro w ⟨hexited, hclaims⟩
    have hw : owner w ≠ p := by
      intro heq
      simp [State.ended, heq] at hexited
    exact ⟨⟨by simpa [State.ended, hw] using hexited, hclaims⟩, hw⟩

/-- A step on a signal goes into the adjustment of its caller. -/
theorem undo_signal (hs : ShmEngine.step s.ring a = some ring) (x : Signal) :
    (s.moved owner a ring).undo (caller owner a) x.sem =
      s.undo (caller owner a) x.sem + (takes s.ring a x).toNat - (gives s.ring a x).toNat := by
  have hchange := signal_step hs x
  rw [undo_moved_self]
  omega

end

/-- Nothing but the signals can leave the range, and their adjustments follow the traffic. -/
structure Kept (owner : ℕ → ℕ) (c : Watched) : Prop where
  registry : Registry c.kernel.ring
  ledger : Ledger c.kernel.ring c.kernel.undo
  claims : ClaimLedger owner c.kernel
  audit : ∀ p x, c.kernel.undo p x.sem =
    (c.traffic p).countP (fun e => e.takes x) - (c.traffic p).countP (fun e => e.gives x)

theorem kept_start : Kept owner ⟨start, fun _ => []⟩ where
  registry := registry_initial
  ledger := .start
  claims := claimLedger_start
  audit _ _ := rfl

variable {c c' : Watched} {b : Action}

theorem Kept.step (h : Kept owner c) (hs : (watched owner).step c b = some c') :
    Kept owner c' := by
  obtain ⟨kernel, hkernel, rfl⟩ := Option.map_eq_some_iff.mp hs
  obtain ⟨hregistry, hledger⟩ := locks_step h.registry h.ledger hkernel
  rcases step_cases hkernel with ⟨a, ring, rfl, hexited, hring, rfl⟩ | ⟨p, rfl, -, rfl⟩
  · refine ⟨hregistry, hledger, h.claims.moved hexited hring, fun p x => ?_⟩
    dsimp only
    by_cases hp : p = caller owner a
    · rw [hp, undo_signal hring, h.audit, Function.update_self, List.countP_append,
        List.countP_append, countP_toList, countP_toList]
      unfold takes gives
      push_cast
      omega
    · rw [undo_moved_of_ne hp, h.audit, Function.update_of_ne hp]
  · refine ⟨hregistry, hledger, h.claims.ended p, fun q x => ?_⟩
    dsimp only
    by_cases hq : q = p
    · rw [hq, undo_ended_self, Function.update_self]
      rfl
    · rw [undo_ended_of_ne hq, h.audit, Function.update_of_ne hq]

theorem kept_of_reachable (hs : (watched owner).Reachable c) : Kept owner c := by
  refine hs.invariant ?_ fun _ _ _ _ hkept hstep _ => hkept.step hstep
  rintro c rfl
  exact kept_start

/-- The adjustments of the locks stay in range by themselves. -/
theorem Kept.inRange_iff (h : Kept owner c) : InRange c.kernel ↔
    ∀ p (x : Signal), -32768 ≤ c.kernel.undo p x.sem ∧ c.kernel.undo p x.sem ≤ 32767 := by
  constructor
  · exact fun hrange p x => hrange p x.sem
  · intro hsignals p x
    cases x with
    | registry => rcases h.ledger.zero_or_one p with heq | heq <;> rw [heq] <;> omega
    | claim =>
      have hclaim : c.kernel.undo p .claim = 0 ∨ c.kernel.undo p .claim = 1 :=
        h.claims.zero_or_one p
      omega
    | writerWait => exact hsignals p .writerWait
    | client i => exact hsignals p (.client i)

theorem balanced_iff {l : List Event} : Balanced l ↔ ∀ x : Signal,
    l.countP (fun e => e.takes x) ≤ l.countP (fun e => e.gives x) + 32767 ∧
      l.countP (fun e => e.gives x) ≤ l.countP (fun e => e.takes x) + 32768 := by
  have hreceived : ∀ i, l.countP (fun e => e.takes (.client i)) = receivedAs i l := by
    intro i
    exact List.countP_congr fun e _ => by cases e <;> rfl
  have hsent : ∀ i, l.countP (fun e => e.gives (.client i)) = sentTo i l := by
    intro i
    exact List.countP_congr fun e _ => by cases e <;> rfl
  have hdelays : l.countP (fun e => e.takes .writerWait) = delays l :=
    List.countP_congr fun e _ => by cases e <;> rfl
  have hresumptions : l.countP (fun e => e.gives .writerWait) = resumptions l :=
    List.countP_congr fun e _ => by cases e <;> rfl
  constructor
  · intro h x
    cases x with
    | writerWait =>
      rw [hdelays, hresumptions]
      exact ⟨h.delayed, h.resumed⟩
    | client i =>
      rw [hreceived, hsent]
      exact ⟨h.received i, h.sent i⟩
  · intro h
    have hwriter := h .writerWait
    rw [hdelays, hresumptions] at hwriter
    refine ⟨fun i => ?_, fun i => ?_, hwriter.1, hwriter.2⟩
    · rw [← hreceived, ← hsent]
      exact (h (.client i)).1
    · rw [← hreceived, ← hsent]
      exact (h (.client i)).2

/-- In every state of every run, the adjustments are in range if and only if the traffic of each
process is balanced. The kernel refuses the step that ends this. -/
theorem inRange_iff_balanced (hs : (watched owner).Reachable c) :
    InRange c.kernel ↔ ∀ p, Balanced (c.traffic p) := by
  have hkept := kept_of_reachable hs
  rw [hkept.inRange_iff]
  refine forall_congr' fun p => ?_
  rw [balanced_iff]
  refine forall_congr' fun x => ?_
  rw [hkept.audit]
  omega

/-- A process that has not done much is balanced. -/
theorem balanced_of_length {l : List Event} (h : l.length ≤ 32767) : Balanced l := by
  refine balanced_iff.mpr fun x => ?_
  have htakes := l.countP_le_length (p := fun e => e.takes x)
  have hgives := l.countP_le_length (p := fun e => e.gives x)
  omega

theorem length_traffic_step (hs : (watched owner).step c b = some c') (p : ℕ) :
    (c'.traffic p).length ≤ (c.traffic p).length + 1 := by
  obtain ⟨kernel, -, rfl⟩ := Option.map_eq_some_iff.mp hs
  cases b with
  | ring a =>
    by_cases hp : p = caller owner a
    · subst hp
      simp only [Function.update_self, List.length_append]
      cases eventOf c.kernel.ring a <;> simp
    · simp [Function.update_of_ne hp]
  | exit q =>
    by_cases hp : p = q
    · simp [hp]
    · simp [Function.update_of_ne hp]

theorem length_traffic_exec {as : List Action} (he : (watched owner).exec c as = some c') (p : ℕ) :
    (c'.traffic p).length ≤ (c.traffic p).length + as.length := by
  induction as generalizing c with
  | nil =>
    cases he
    exact Nat.le_refl _
  | cons b as ih =>
    obtain ⟨r, hstep, he⟩ := Option.bind_eq_some_iff.mp he
    have hfirst := length_traffic_step hstep p
    have hrest := ih he
    rw [List.length_cons]
    omega

/-- Process 0 sends to itself and to process 1, which receives and ends. -/
theorem inRange_of_leaveRun :
    ∃ c, (watched id).exec ⟨start, fun _ => []⟩ (leaveRun 0 [0, 1]) = some c ∧
      c.kernel.undo 0 (.client 1) = -1 ∧ InRange c.kernel := by
  have hrun : ((watched id).exec ⟨start, fun _ => []⟩ (leaveRun 0 [0, 1])).any
      (fun c => c.kernel.undo 0 (.client 1) = -1) = true := by decide +kernel
  obtain ⟨c, hc, hgoal⟩ := (Option.any_eq_true _ _).mp hrun
  have hlength : (leaveRun 0 [0, 1]).length ≤ 32767 := by decide +kernel
  refine ⟨c, hc, of_decide_eq_true hgoal, ?_⟩
  refine (inRange_iff_balanced (Machine.Reachable.exec (.init rfl) hc)).mpr fun p => ?_
  have htraffic := length_traffic_exec hc p
  exact balanced_of_length (htraffic.trans (by simpa using hlength))

def receiver (n : ℕ) : Process := { engine := .running 0, nextSequenceToRead := n + 1 }

/-- The ring after `n` messages, with the sending thread at `pc` and `client` notifications
that process 0 has not taken. -/
def sending (n : ℕ) (pc : SendPc) (claim publish client : ℕ) (buffer : RingSlot → MessageSlot)
    (history : History) : ShmEngine.State where
  block :=
    { claimSequenceId := claim
      publishSequenceId := publish
      clientRegistry := Function.update (fun _ => ⟨false, 0, 0⟩) 0 ⟨true, 0, n⟩
      buffer := buffer
      writerIsBlocked := false }
  sem :=
    { registry := 1
      claim := 1
      writerWait := 0
      client := Function.update (fun _ => 0) 0 client }
  sender := Function.update (fun _ => .idle) 1 pc
  process := Function.update (fun _ => {}) 0 (receiver n)
  history := history

def calm (n : ℕ) (buffer : RingSlot → MessageSlot) (history : History) : ShmEngine.State :=
  sending n .idle (n + 1) n 0 buffer history

def otherClients : List ClientSlot := (List.finRange 15).map Fin.succ

theorem allClients_cons : allClients = 0 :: otherClients := List.finRange_succ

theorem ne_zero_of_mem_otherClients : ∀ i ∈ otherClients, i ≠ 0 := by
  intro i hi
  obtain ⟨j, -, rfl⟩ := List.mem_map.mp hi
  exact Fin.succ_ne_zero j

section
variable {n claim publish client : ℕ} {buffer : RingSlot → MessageSlot} {history : History}

def advance (k : ℕ) : List ShmEngine.Action := List.replicate k (.sender 1 .ok)

theorem exec_advance_succ {s : ShmEngine.State} (s' : ShmEngine.State) (k : ℕ)
    (h : ShmEngine.step s (.sender 1 .ok) = some s') :
    ShmEngine.machine.exec s (advance (k + 1)) = ShmEngine.machine.exec s' (advance k) := by
  have hstep : ShmEngine.machine.step s (.sender 1 .ok) = some s' := h
  unfold advance
  rw [List.replicate_succ, Machine.exec, hstep, Option.bind_some]

theorem exec_register : ∃ buffer history,
    ShmEngine.machine.exec initial (registerActions 0 0) = some (calm 0 buffer history) := by
  refine ⟨initial.block.buffer,
    { initial.history with joinedAt := Function.update initial.history.joinedAt 0 0 }, ?_⟩
  simp [Machine.exec, ShmEngine.machine, registerActions, initial, calm, sending, receiver,
    ShmEngine.step, engineStep, List.replicate, allClients_cons]

/-- The ticket `n + 1` is drawn. -/
theorem exec_claim : ∃ history', ShmEngine.machine.exec (calm n buffer history)
    (.send 1 emptyCall :: advance 4) =
      some (sending n (startScan emptyCall (n + 1)) (n + 2) n 0 buffer history') := by
  refine ⟨{ history with drawn := Function.update history.drawn (n + 1) (some emptyCall) }, ?_⟩
  simp [Machine.exec, ShmEngine.machine, advance, calm, sending, ShmEngine.step, senderStep,
    List.replicate]

/-- A loop of the sender over the entries passes those that are not active. -/
theorem exec_pass (pc : List ClientSlot → SendPc) (k : ℕ) {todo : List ClientSlot}
    (hpass : ∀ i rest, i ≠ 0 → ShmEngine.step
      (sending n (pc (i :: rest)) claim publish client buffer history) (.sender 1 .ok) =
        some (sending n (pc rest) claim publish client buffer history))
    (htodo : ∀ i ∈ todo, i ≠ 0) :
    ShmEngine.machine.exec (sending n (pc todo) claim publish client buffer history)
        (advance (todo.length + k)) =
      ShmEngine.machine.exec (sending n (pc []) claim publish client buffer history)
        (advance k) := by
  induction todo with
  | nil => rw [List.length_nil, Nat.zero_add]
  | cons i todo ih =>
    rw [List.length_cons, Nat.add_right_comm]
    rw [exec_advance_succ _ _ (hpass i todo (htodo i List.mem_cons_self))]
    exact ih fun j hj => htodo j (List.mem_cons_of_mem i hj)

/-- Entry 0 is close enough behind. -/
theorem exec_wait : ShmEngine.machine.exec
    (sending n (startScan emptyCall (n + 1)) claim publish client buffer history) (advance 18) =
      some (sending n (.write emptyCall (n + 1) (emptyCall.stores (n + 1))) claim publish client
        buffer history) := by
  have hlength : otherClients.length + 1 = 16 := by decide
  unfold startScan
  rw [allClients_cons]
  rw [exec_advance_succ (sending n (.scanLastRead emptyCall (n + 1) 0 otherClients (n + 1))
    claim publish client buffer history) 17 (by simp [sending, ShmEngine.step, senderStep])]
  rw [exec_advance_succ (sending n (.scanActive emptyCall (n + 1) otherClients n true)
    claim publish client buffer history) 16 (by simp [sending, ShmEngine.step, senderStep])]
  rw [← hlength, exec_pass (fun todo => .scanActive emptyCall (n + 1) todo n true) 1
    (fun i rest hi => by simp [sending, ShmEngine.step, senderStep, hi])
    ne_zero_of_mem_otherClients]
  rw [exec_advance_succ (sending n
    (.write emptyCall (n + 1) (emptyCall.stores (n + 1))) claim publish client buffer history) 0
    (by simp [sending, ShmEngine.step, senderStep, hasRoom, bufferSlots])]
  rfl

def Filled (n : ℕ) (buffer : RingSlot → MessageSlot) : Prop :=
  (buffer (ringSlot n)).sequenceId = n ∧ (buffer (ringSlot n)).frame.header.type = htons 0x88B5

theorem exec_write : ∃ buffer', Filled (n + 1) buffer' ∧ ShmEngine.machine.exec
    (sending n (.write emptyCall (n + 1) (emptyCall.stores (n + 1))) claim n client buffer history)
    (advance 6) =
      some (sending n (.notifyScan emptyCall (n + 1) allClients []) claim (n + 1) client buffer'
        history) := by
  refine ⟨Function.update buffer (ringSlot (n + 1))
    ⟨n + 1, { buffer (ringSlot (n + 1)) |>.frame with
      header := ⟨broadcastAddr, localAddr, htons 0x88B5⟩, dataLength := 0 }⟩, ⟨?_, ?_⟩, ?_⟩
  · rw [Function.update_self]
  · rw [Function.update_self]
  · simp [Machine.exec, ShmEngine.machine, advance, sending, ShmEngine.step, senderStep,
      List.replicate, SendCall.stores, SendCall.copyStores, emptyCall, SlotStore.apply]

theorem exec_notify : ∃ history', ShmEngine.machine.exec
    (sending n (.notifyScan emptyCall (n + 1) allClients []) claim publish 0 buffer history)
    (advance 17) = some (sending n .idle claim publish 1 buffer history') := by
  have hlength : otherClients.length + 1 = 16 := by decide
  have hclient : (fun i => if i ∈ [(0 : ClientSlot)] then
      (Function.update (fun _ => 0) 0 0 : ClientSlot → ℕ) i + 1
        else (Function.update (fun _ => 0) 0 0 : ClientSlot → ℕ) i) =
      Function.update (fun _ => 0) 0 1 := by
    funext i
    by_cases hi : i = 0
    · simp [hi]
    · simp [hi]
  refine ⟨{ history with posted := fun i =>
    if i ∈ [(0 : ClientSlot)] then insert (n + 1) (history.posted i) else history.posted i }, ?_⟩
  rw [allClients_cons]
  rw [exec_advance_succ (sending n (.notifyScan emptyCall (n + 1) otherClients [0])
    claim publish 0 buffer history) 16 (by simp [sending, ShmEngine.step, senderStep])]
  rw [← hlength, exec_pass (fun todo => .notifyScan emptyCall (n + 1) todo [0]) 1
    (fun i rest hi => by simp [sending, ShmEngine.step, senderStep, hi])
    ne_zero_of_mem_otherClients]
  have hstep : ShmEngine.step
      (sending n (.notifyScan emptyCall (n + 1) [] [0]) claim publish 0 buffer history)
      (.sender 1 .ok) = some (sending n .idle claim publish 1 buffer { history with
        posted := fun i => if i ∈ [(0 : ClientSlot)] then insert (n + 1) (history.posted i)
          else history.posted i }) := by
    simp only [sending, ShmEngine.step, senderStep, Function.update_self, if_true, hclient,
      State.setSender, Function.update_idem]
  rw [exec_advance_succ _ 0 hstep]
  rfl

/-- Process 0 takes the message and acknowledges it. -/
theorem exec_receive (hfilled : Filled (n + 1) buffer) : ∃ history', ShmEngine.machine.exec
    (sending n .idle (n + 2) (n + 1) 1 buffer history)
    (receiveActions 0 ++ releaseActions 0 (n + 1)) = some (calm (n + 1) buffer history') := by
  have htype : ntohs (htons 0x88B5) = 0x88B5 := by decide
  refine ⟨{ history with
    waits := Function.update history.waits 0 (history.waits 0 + 1)
    handedUp := Function.update history.handedUp 0 (history.handedUp 0 ++ [viewAt (n + 1)])
    released := Function.update history.released 0 (history.released 0 ++ [n + 1]) }, ?_⟩
  simp [Machine.exec, ShmEngine.machine, receiveActions, releaseActions, calm, sending, receiver,
    ShmEngine.step, receiverStep, releaserStep, List.replicate, hfilled.1, hfilled.2, htype, viewAt]

end

/-- A state of the run, with the adjustment that process 1 has for its receiver. -/
structure Along (c : Watched) (ring : ShmEngine.State) (adjustment : ℤ) : Prop where
  reaches : (watched id).Reaches (fun _ _ c' => KeepsUp c') c
  alive : ∀ p, c.kernel.exited p = false
  ring : c.kernel.ring = ring
  undo : c.kernel.undo 1 (.client 0) = adjustment

def drawnFrom (p : ℕ) (ring ring' : ShmEngine.State) : ℤ :=
  if p = 1 then ring.sem.client 0 - ring'.sem.client 0 else 0

theorem Along.step {c : Watched} {ring ring' : ShmEngine.State} {adjustment : ℤ}
    (h : Along c ring adjustment) {a : ShmEngine.Action} (hs : ShmEngine.step ring a = some ring')
    (hkeeps : ∀ i, ring'.sem.client i ≤ bufferSlots) :
    ∃ c', Along c' ring' (adjustment + drawnFrom (caller id a) ring ring') := by
  have hring := h.ring
  subst hring
  have hkernel : c.kernel.step id (.ring a) = some (c.kernel.moved id a ring') := by
    simp [State.step, State.moved, h.alive, hs]
  have hstep : (watched id).step c (.ring a) = some ⟨c.kernel.moved id a ring',
      Function.update c.traffic (caller id a)
        (c.traffic (caller id a) ++ (eventOf c.kernel.ring a).toList)⟩ := by
    simp [watched, Watched.step, hkernel]
  refine ⟨_, h.reaches.step hstep hkeeps, h.alive, rfl, ?_⟩
  simp only [drawnFrom]
  split_ifs with hcaller
  · rw [← hcaller, undo_moved_self, hcaller, h.undo]
    simp only [value]
    omega
  · rw [undo_moved_of_ne (Ne.symm hcaller), h.undo, add_zero]

/-- A step posts a client once at most. -/
theorem client_le_succ {s s' : ShmEngine.State} {a : ShmEngine.Action}
    (h : ShmEngine.step s a = some s') (i : ClientSlot) : s'.sem.client i ≤ s.sem.client i + 1 := by
  have hchange := client_step h i
  have hgives := Bool.toNat_le (gives s a (.client i))
  omega

theorem Along.exec {as : List ShmEngine.Action} {c : Watched} {ring ring' : ShmEngine.State}
    {adjustment : ℤ} (h : Along c ring adjustment) {p : ℕ} (has : ∀ a ∈ as, caller id a = p)
    (hkeeps : ∀ i, ring.sem.client i + as.length ≤ bufferSlots)
    (he : ShmEngine.machine.exec ring as = some ring') :
    ∃ c', Along c' ring' (adjustment + drawnFrom p ring ring') := by
  induction as generalizing c ring adjustment with
  | nil =>
    cases he
    refine ⟨c, ?_⟩
    simpa [drawnFrom] using h
  | cons a as ih =>
    obtain ⟨mid, hmid, he⟩ := Option.bind_eq_some_iff.mp he
    have hle := client_le_succ hmid
    simp only [List.length_cons] at hkeeps
    obtain ⟨c', hc'⟩ := h.step hmid fun i => by
      have := hkeeps i
      have := hle i
      omega
    obtain ⟨c'', hc''⟩ := ih hc' (fun b hb => has b (List.mem_cons_of_mem a hb))
      (fun i => by
        have := hkeeps i
        have := hle i
        omega) he
    refine ⟨c'', ?_⟩
    have hsum : adjustment + drawnFrom (caller id a) ring mid + drawnFrom p mid ring' =
        adjustment + drawnFrom p ring ring' := by
      rw [has a List.mem_cons_self]
      unfold drawnFrom
      split_ifs <;> omega
    rwa [← hsum]

theorem caller_advance (k : ℕ) : ∀ a ∈ advance k, caller id a = 1 := by
  intro a ha
  rw [List.eq_of_mem_replicate ha]
  rfl

/-- After `n` messages the adjustment of the sender is `-n`. -/
theorem drift (n : ℕ) : ∃ c buffer history, Along c (calm n buffer history) (-n) := by
  have hquiet (s : ShmEngine.State) (hs : s.sem.client = Function.update (fun _ => 0) 0 0)
      (k : ℕ) (hk : k ≤ bufferSlots) (i : ClientSlot) : s.sem.client i + k ≤ bufferSlots := by
    rw [hs, Function.update_eq_self]
    simpa using hk
  induction n with
  | zero =>
    have hstart : Along ⟨start, fun _ => []⟩ initial 0 :=
      ⟨.init rfl, fun _ => rfl, rfl, rfl⟩
    obtain ⟨buffer, history, hregister⟩ := exec_register
    obtain ⟨c, hc⟩ := hstart.exec (p := 0) (by decide)
      (hquiet _ (by simp [initial]) _ (by decide)) hregister
    exact ⟨c, buffer, history, by simpa [drawnFrom] using hc⟩
  | succ n ih =>
    obtain ⟨c, buffer, history, hc⟩ := ih
    obtain ⟨history₁, hclaim⟩ := @exec_claim n buffer history
    obtain ⟨buffer', hfilled, hwrite⟩ := @exec_write n (n + 2) 0 buffer history₁
    obtain ⟨history₂, hnotify⟩ := @exec_notify n (n + 2) (n + 1) buffer' history₁
    obtain ⟨history₃, hreceive⟩ := @exec_receive n buffer' history₂ hfilled
    obtain ⟨c₁, hc₁⟩ := hc.exec (p := 1) (by simp [advance, caller])
      (hquiet _ rfl _ (by decide)) hclaim
    obtain ⟨c₂, hc₂⟩ := hc₁.exec (caller_advance 18) (hquiet _ rfl _ (by decide)) exec_wait
    obtain ⟨c₃, hc₃⟩ := hc₂.exec (caller_advance 6) (hquiet _ rfl _ (by decide)) hwrite
    obtain ⟨c₄, hc₄⟩ := hc₃.exec (caller_advance 17) (hquiet _ rfl _ (by decide)) hnotify
    have hone (i : ClientSlot) : (sending n .idle (n + 2) (n + 1) 1 buffer' history₂).sem.client i +
        (receiveActions 0 ++ releaseActions 0 (n + 1)).length ≤ bufferSlots := by
      simp only [sending, Function.update_apply]
      split_ifs <;> simp [receiveActions, releaseActions, bufferSlots]
    obtain ⟨c₅, hc₅⟩ := hc₄.exec (p := 0)
      (by simp [receiveActions, releaseActions, caller]) hone hreceive
    refine ⟨c₅, buffer', history₃, ?_⟩
    have hsum : (-n : ℤ) + -1 = -(n + 1 : ℕ) := by omega
    rw [← hsum]
    simpa [drawnFrom, calm, sending] using hc₅

/-- The kernel accepts every `semop` of a run in which the reader keeps up, until one would take
an adjustment out of the range. -/
theorem not_inRange_drift : ∃ c b c',
    (watched id).Reaches (fun _ _ c' => KeepsUp c' ∧ InRange c'.kernel) c ∧ InRange c.kernel ∧
      (watched id).step c b = some c' ∧ KeepsUp c' ∧ ¬ InRange c'.kernel := by
  obtain ⟨c, buffer, history, hc⟩ := drift 32769
  have hstart : InRange start := fun p x => by simp [start]
  rcases hc.reaches.stays_or_leaves (P := fun c => InRange c.kernel)
    (fun c hinit => by rw [hinit]; exact hstart) with ⟨-, hrange⟩ | hleaves
  · have hlow := (hrange 1 (.client 0)).1
    rw [hc.undo] at hlow
    omega
  · obtain ⟨c, b, c', hreach, hrange, hstep, hkeeps, hout⟩ := hleaves
    exact ⟨c, b, c', hreach, hrange, hstep, hkeeps, hout⟩

end CommunicationAPI.ShmUndo
