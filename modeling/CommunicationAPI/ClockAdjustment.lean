import CommunicationAPI.Machine
import CommunicationAPI.PtpSynchronizers

/-!
# The timestamps behind a clock adjustment

The slave's two entry points are called in any order, with any messages, and
each attempt to set the system clock succeeds or fails. The history keeps the
SYNC accepted since the last offset was computed, every computation of an
offset, and the slave before and after every call that throws.
-/

namespace CommunicationAPI.ClockAdjustment
open Octets TransitionSystem

structure Exchange where
  master : Address
  t1 : Timestamp
  t2 : Timestamp
  t3 : Timestamp

/-- An offset was computed, and the clock set, on behalf of a DELAY_RESPONSE that
carries `t4`. `exchange` is the SYNC accepted since the offset before. -/
structure Adjustment where
  exchange : Option Exchange
  source : Address
  t4 : Timestamp
  reading : Timestamp
  trueMasterTime : Timestamp

structure Throw where
  before : SlaveSynchronizer
  after : SlaveSynchronizer

structure State where
  sync : SlaveSynchronizer
  exchange : Option Exchange
  adjustments : List Adjustment
  throws : List Throw

inductive Action
  | request (g : Gateway) (clock : SystemClock) (myAddress : Address)
  | message (g : Gateway) (clock : SystemClock) (payload : Memory) (size : ℕ)
      (source dest : Address)

/-- The slave waits in state `state` for a message of type `type`, and this is one. -/
def Awaits (h : SlaveSynchronizer) (state : SlaveState) (type : SyncType) (payload : Memory)
    (size : ℕ) : Prop :=
  h.state = state ∧ payload 0 = type.code ∧ TimePayload.stampedSize ≤ size

instance (h : SlaveSynchronizer) (state : SlaveState) (type : SyncType) (payload : Memory)
    (size : ℕ) : Decidable (Awaits h state type payload size) :=
  inferInstanceAs (Decidable (_ ∧ _ ∧ _))

namespace State
variable (s : State)

def message (clock : SystemClock) (payload : Memory) (size : ℕ) (source : Address)
    (outcome : SyncOutcome SlaveSynchronizer) : State where
  sync := outcome.state
  exchange :=
    if outcome.clockSet.isSome then none
    else if Awaits s.sync .awaitingSync .sync payload size then
      some ⟨source, TimePayload.timestamp payload, clock.reading 0, clock.reading 1⟩
    else s.exchange
  adjustments := match outcome.clockSet with
    | some time =>
      ⟨s.exchange, source, TimePayload.timestamp payload, clock.reading 0, time⟩ :: s.adjustments
    | none => s.adjustments
  throws := if outcome.error.isSome then ⟨s.sync, outcome.state⟩ :: s.throws else s.throws

def step : Action → Option State
  | .request g clock myAddress =>
    some { s with sync := (s.sync.requestSynchronization g clock myAddress).state }
  | .message g clock payload size source dest =>
    some (s.message clock payload size source
      (s.sync.handlePtpMessage g clock payload size source dest))

end State

def initial : State := ⟨.construct, none, [], []⟩

def slave : Machine State Action where
  init s := s = initial
  step := State.step

/-- The offset is that of one SYNC and of a response of the same master. -/
def Adjustment.Coherent (a : Adjustment) : Prop :=
  ∃ e, a.exchange = some e ∧ a.source = e.master ∧
    a.trueMasterTime =
      (a.reading.toInt64 - SlaveSynchronizer.offset e.t1 e.t2 e.t3 a.t4).toUInt64

structure Coherent (s : State) : Prop where
  adjustments : ∀ a ∈ s.adjustments, a.Coherent
  throws : ∀ t ∈ s.throws, t.after = t.before

/-- An accepted DELAY_RESPONSE comes from the master of the accepted SYNC and finds a
clock that can be set. -/
def Undisturbed : StepCondition State Action := fun s a _ =>
  match a with
  | .request .. => True
  | .message _ clock payload size source _ =>
    Awaits s.sync .awaitingDelayResp .delayResponse payload size →
      (∀ e, s.exchange = some e → source = e.master) ∧ clock.settable = true

/-- The same, but for a failure that finds nothing to clear. -/
def Harmless (s : State) : Action → Prop
  | .request .. => True
  | .message _ clock payload size source _ =>
    Awaits s.sync .awaitingDelayResp .delayResponse payload size →
      (∀ e, s.exchange = some e → source = e.master) ∧
        (clock.settable = true ∨
          s.sync.t1 = 0 ∧ s.sync.t2 = 0 ∧ s.sync.t3 = 0 ∧ s.sync.t4 = 0)

section
variable {h : SlaveSynchronizer} (g : Gateway) (clock : SystemClock) {payload : Memory} {size : ℕ}
  (source dest : Address)

def synced (h : SlaveSynchronizer) (clock : SystemClock) (payload : Memory) :
    SlaveSynchronizer :=
  { h with
    t1 := TimePayload.timestamp payload, t2 := clock.reading 0, t3 := clock.reading 1
    state := .awaitingDelayResp }

theorem handle_sync (hawaits : Awaits h .awaitingSync .sync payload size) :
    ∃ sent, h.handlePtpMessage g clock payload size source dest =
      ⟨synced h clock payload, sent, none, none⟩ := by
  obtain ⟨hstate, htype, hsize⟩ := hawaits
  have hheader : ¬ size < TimePayload.headerSize := by
    unfold TimePayload.stampedSize at hsize
    unfold TimePayload.headerSize
    omega
  have hwaiting : ¬ h.state ≠ .awaitingSync := fun hno => hno hstate
  unfold SlaveSynchronizer.handlePtpMessage SlaveSynchronizer.receiveSync
  rw [if_neg hheader, if_pos htype, if_neg (Nat.not_lt.mpr hsize), if_neg hwaiting]
  exact ⟨_, rfl⟩

theorem handle_delayResp (hawaits : Awaits h .awaitingDelayResp .delayResponse payload size) :
    h.handlePtpMessage g clock payload size source dest = h.receiveDelayResp clock payload := by
  obtain ⟨hstate, htype, hsize⟩ := hawaits
  have hheader : ¬ size < TimePayload.headerSize := by
    unfold TimePayload.stampedSize at hsize
    unfold TimePayload.headerSize
    omega
  have hother : ¬ payload 0 = SyncType.sync.code := by
    rw [htype]
    decide
  unfold SlaveSynchronizer.handlePtpMessage
  rw [if_neg hheader, if_neg hother, if_pos htype, if_neg (Nat.not_lt.mpr hsize)]

/-- Any other message leaves the slave as it was. -/
theorem handle_other (hsync : ¬ Awaits h .awaitingSync .sync payload size)
    (hresp : ¬ Awaits h .awaitingDelayResp .delayResponse payload size) :
    (h.handlePtpMessage g clock payload size source dest).state = h ∧
      (h.handlePtpMessage g clock payload size source dest).clockSet = none := by
  unfold Awaits at hsync hresp
  unfold SlaveSynchronizer.handlePtpMessage SlaveSynchronizer.receiveSync
    SlaveSynchronizer.receiveDelayResp
  split_ifs with hheader htype hsize hstate htype' hsize' hstate' hquiet
  · exact ⟨rfl, rfl⟩
  · exact ⟨rfl, rfl⟩
  · exact ⟨rfl, rfl⟩
  · exact absurd ⟨not_not.mp hstate, htype, Nat.not_lt.mp hsize⟩ hsync
  · exact ⟨rfl, rfl⟩
  · exact ⟨rfl, rfl⟩
  · exact absurd ⟨not_not.mp hstate', htype', Nat.not_lt.mp hsize'⟩ hresp
  · exact ⟨rfl, rfl⟩
  · exact ⟨rfl, rfl⟩

theorem receiveDelayResp_eq (payload : Memory) (hstate : h.state = .awaitingDelayResp) :
    h.receiveDelayResp clock payload =
      { state := ⟨0, 0, 0, 0, if clock.settable then .synchronized else .awaitingDelayResp⟩
        sent := none
        clockSet := some ((clock.reading 0).toInt64 - SlaveSynchronizer.offset h.t1 h.t2 h.t3
          (TimePayload.timestamp payload)).toUInt64
        error := if clock.settable then none else some "Failed to adjust clock skew" } := by
  have hwaiting : ¬ h.state ≠ .awaitingDelayResp := fun hno => hno hstate
  unfold SlaveSynchronizer.receiveDelayResp SlaveSynchronizer.synchronize
  rw [if_neg hwaiting]
  cases clock.settable with
  | false => simp [hstate]
  | true => simp

end

/-- The timestamps are those of the SYNC accepted since the last offset. -/
structure Inv (s : State) : Prop where
  coherent : Coherent s
  stored : ∀ e, s.exchange = some e → s.sync.t1 = e.t1 ∧ s.sync.t2 = e.t2 ∧ s.sync.t3 = e.t3
  pending : s.sync.state = .awaitingDelayResp → ∃ e, s.exchange = some e

variable {s s' : State}

section
variable (g : Gateway) (clock : SystemClock) {payload : Memory} {size : ℕ} (source dest : Address)

theorem message_sync (hawaits : Awaits s.sync .awaitingSync .sync payload size) :
    s.message clock payload size source
        (s.sync.handlePtpMessage g clock payload size source dest) =
      { s with
        sync := synced s.sync clock payload
        exchange :=
          some ⟨source, TimePayload.timestamp payload, clock.reading 0, clock.reading 1⟩ } := by
  obtain ⟨sent, houtcome⟩ := handle_sync g clock source dest hawaits
  rw [houtcome]
  unfold State.message
  simp only [if_pos hawaits]
  rfl

theorem message_other (hsync : ¬ Awaits s.sync .awaitingSync .sync payload size)
    (hresp : ¬ Awaits s.sync .awaitingDelayResp .delayResponse payload size) :
    ∃ throws, (∀ t ∈ throws, t ∈ s.throws ∨ t.after = t.before) ∧
      s.message clock payload size source
        (s.sync.handlePtpMessage g clock payload size source dest) =
          { s with throws := throws } := by
  obtain ⟨hstate, hclock⟩ := handle_other g clock source dest hsync hresp
  unfold State.message
  simp only [hstate, hclock, if_neg hsync]
  refine ⟨_, ?_, rfl⟩
  intro t ht
  split_ifs at ht
  · rcases List.mem_cons.mp ht with rfl | hold
    · exact .inr rfl
    · exact .inl hold
  · exact .inl ht

def adjustment (s : State) (clock : SystemClock) (payload : Memory) (source : Address) :
    Adjustment where
  exchange := s.exchange
  source := source
  t4 := TimePayload.timestamp payload
  reading := clock.reading 0
  trueMasterTime := ((clock.reading 0).toInt64 - SlaveSynchronizer.offset s.sync.t1 s.sync.t2
    s.sync.t3 (TimePayload.timestamp payload)).toUInt64

def cleared (state : SlaveState) : SlaveSynchronizer := ⟨0, 0, 0, 0, state⟩

theorem cleared_eq_iff {h : SlaveSynchronizer} {state : SlaveState} (hstate : h.state = state) :
    cleared state = h ↔ h.t1 = 0 ∧ h.t2 = 0 ∧ h.t3 = 0 ∧ h.t4 = 0 := by
  constructor
  · rintro rfl
    exact ⟨rfl, rfl, rfl, rfl⟩
  · rintro ⟨h1, h2, h3, h4⟩
    cases h
    cases h1
    cases h2
    cases h3
    cases h4
    cases hstate
    rfl

theorem message_delayResp
    (hawaits : Awaits s.sync .awaitingDelayResp .delayResponse payload size) :
    s.message clock payload size source
        (s.sync.handlePtpMessage g clock payload size source dest) =
      { sync := cleared (if clock.settable then .synchronized else .awaitingDelayResp)
        exchange := none
        adjustments := adjustment s clock payload source :: s.adjustments
        throws := if clock.settable then s.throws
          else ⟨s.sync, cleared .awaitingDelayResp⟩ :: s.throws } := by
  rw [handle_delayResp g clock source dest hawaits, receiveDelayResp_eq clock payload hawaits.1]
  cases hclock : clock.settable with
  | false => simp [State.message, adjustment, cleared]
  | true => simp [State.message, adjustment, cleared]

end

/-- The step of an accepted SYNC. -/
theorem Inv.sync (h : Inv s) (source : Address) (clock : SystemClock) (payload : Memory) :
    Inv { s with
      sync := synced s.sync clock payload
      exchange := some ⟨source, TimePayload.timestamp payload, clock.reading 0, clock.reading 1⟩ } where
  coherent := ⟨h.coherent.adjustments, h.coherent.throws⟩
  stored e he := by
    cases he
    exact ⟨rfl, rfl, rfl⟩
  pending _ := ⟨_, rfl⟩

theorem Inv.request (h : Inv s) (g : Gateway) (clock : SystemClock) (myAddress : Address) :
    Inv { s with sync := (s.sync.requestSynchronization g clock myAddress).state } := by
  unfold SlaveSynchronizer.requestSynchronization
  split_ifs with hstate
  · refine ⟨⟨h.coherent.adjustments, h.coherent.throws⟩, h.stored, ?_⟩
    intro hwaiting
    cases hwaiting
  · exact ⟨⟨h.coherent.adjustments, h.coherent.throws⟩, h.stored, h.pending⟩

theorem Inv.other (h : Inv s) {throws : List Throw}
    (hthrows : ∀ t ∈ throws, t ∈ s.throws ∨ t.after = t.before) :
    Inv { s with throws := throws } := by
  refine ⟨⟨h.coherent.adjustments, ?_⟩, h.stored, h.pending⟩
  intro t ht
  rcases hthrows t ht with hold | hsame
  · exact h.coherent.throws t hold
  · exact hsame

/-- An offset is coherent if and only if the response comes from the master of the SYNC. -/
theorem Inv.adjustment_iff (h : Inv s) (hstate : s.sync.state = .awaitingDelayResp)
    (clock : SystemClock) (payload : Memory) (source : Address) :
    (adjustment s clock payload source).Coherent ↔
      ∀ e, s.exchange = some e → source = e.master := by
  obtain ⟨e, he⟩ := h.pending hstate
  obtain ⟨h1, h2, h3⟩ := h.stored e he
  constructor
  · rintro ⟨e', he', hsource, -⟩ e'' he''
    change s.exchange = some e' at he'
    rw [he'] at he''
    cases he''
    exact hsource
  · intro hsource
    refine ⟨e, he, hsource e he, ?_⟩
    unfold adjustment
    rw [h1, h2, h3]

/-- The state after an accepted DELAY_RESPONSE is coherent if and only if the response
was harmless. -/
theorem Inv.delayResp_iff (h : Inv s) (hstate : s.sync.state = .awaitingDelayResp)
    (clock : SystemClock) (payload : Memory) (source : Address) :
    Coherent
        { sync := cleared (if clock.settable then .synchronized else .awaitingDelayResp)
          exchange := none
          adjustments := adjustment s clock payload source :: s.adjustments
          throws := if clock.settable then s.throws
            else ⟨s.sync, cleared .awaitingDelayResp⟩ :: s.throws } ↔
      (∀ e, s.exchange = some e → source = e.master) ∧ (clock.settable = true ∨
        s.sync.t1 = 0 ∧ s.sync.t2 = 0 ∧ s.sync.t3 = 0 ∧ s.sync.t4 = 0) := by
  rw [← h.adjustment_iff hstate clock payload source]
  constructor
  · intro hcoherent
    refine ⟨hcoherent.adjustments _ List.mem_cons_self, ?_⟩
    cases hclock : clock.settable with
    | true => exact .inl rfl
    | false =>
      right
      exact (cleared_eq_iff hstate).mp
        (hcoherent.throws ⟨s.sync, cleared .awaitingDelayResp⟩ (by simp [hclock]))
  · rintro ⟨hadjustment, hclock⟩
    constructor
    · intro a ha
      rcases List.mem_cons.mp ha with rfl | ha
      · exact hadjustment
      · exact h.coherent.adjustments a ha
    · intro t ht
      split_ifs at ht with hset
      · exact h.coherent.throws t ht
      · rcases List.mem_cons.mp ht with rfl | ht
        · exact (cleared_eq_iff hstate).mpr (hclock.resolve_left hset)
        · exact h.coherent.throws t ht

/-- What an action does, in a state with the invariant. -/
theorem Inv.step_iff {a : Action} (h : Inv s) (hs : slave.step s a = some s') :
    (Coherent s' ↔ Harmless s a) ∧ (Undisturbed s a s' → Inv s') := by
  cases a with
  | request g clock myAddress =>
    cases hs
    have hinv := h.request g clock myAddress
    exact ⟨⟨fun _ => trivial, fun _ => hinv.coherent⟩, fun _ => hinv⟩
  | message g clock payload size source dest =>
    cases hs
    by_cases hresp : Awaits s.sync .awaitingDelayResp .delayResponse payload size
    · rw [message_delayResp g clock source dest hresp, h.delayResp_iff hresp.1]
      constructor
      · exact ⟨fun hharmless _ => hharmless, fun hharmless => hharmless hresp⟩
      · intro hok
        obtain ⟨hsource, hclock⟩ := hok hresp
        have hcoherent := (h.delayResp_iff hresp.1 clock payload source).mpr
          ⟨hsource, .inl hclock⟩
        refine ⟨hcoherent, ?_, ?_⟩
        · intro e he
          cases he
        · intro hstate
          rw [hclock] at hstate
          cases hstate
    · have hinv : Inv (s.message clock payload size source
          (s.sync.handlePtpMessage g clock payload size source dest)) := by
        by_cases hsync : Awaits s.sync .awaitingSync .sync payload size
        · rw [message_sync g clock source dest hsync]
          exact h.sync source clock payload
        · obtain ⟨throws, hthrows, heq⟩ := message_other g clock source dest hsync hresp
          rw [heq]
          exact h.other hthrows
      exact ⟨⟨fun _ hresp' => absurd hresp' hresp, fun _ => hinv.coherent⟩, fun _ => hinv⟩

theorem inv_initial : Inv initial := by
  refine ⟨⟨?_, ?_⟩, ?_, ?_⟩
  · intro a ha
    cases ha
  · intro t ht
    cases ht
  · intro e he
    cases he
  · intro hstate
    cases hstate

/-- Every offset is that of one exchange with one master, and every call that throws
changes nothing, as long as each accepted DELAY_RESPONSE comes from the master of the
SYNC and finds a clock that can be set. The first one that does not is at fault, unless
the failure finds all timestamps zero. -/
theorem coherent_iff_harmless (hs : slave.Reaches Undisturbed s) :
    Coherent s ∧ ∀ a s', slave.step s a = some s' → (Coherent s' ↔ Harmless s a) := by
  have h : Inv s := by
    apply hs.invariant
    · rintro s rfl
      exact inv_initial
    · exact fun _ _ _ _ hinv hstep hok => (hinv.step_iff hstep).2 hok
  exact ⟨h.coherent, fun a s' hstep => (h.step_iff hstep).1⟩

def undisturbed (s : State) (a : Action) (_ : State) : Bool :=
  match a with
  | .request .. => true
  | .message _ clock payload size source _ =>
    !decide (Awaits s.sync .awaitingDelayResp .delayResponse payload size) ||
      (s.exchange.all (fun e => source = e.master) && clock.settable)

theorem undisturbed_sound (s : State) (a : Action) (s' : State)
    (h : undisturbed s a s' = true) : Undisturbed s a s' := by
  cases a with
  | request => trivial
  | message g clock payload size source dest =>
    intro hawaits
    simp only [undisturbed, decide_eq_true hawaits, Bool.not_true, Bool.false_or,
      Bool.and_eq_true, Option.all_eq_true, decide_eq_true_eq] at h
    exact h

def earlyClock (settable : Bool) : SystemClock := ⟨fun i => UInt64.ofNat (500 + i), settable⟩

def stampedMessage (type : SyncType) (t : Timestamp) (settable : Bool) : Action :=
  .message (northGateway 2 7) (earlyClock settable)
    (store (fun _ => 0) 0 (TimePayload.stamped type t)) TimePayload.stampedSize
    (northGateway 1 7).externalAddress (northGateway 2 7).externalAddress

def startRequest : Action :=
  .request (northGateway 2 7) (earlyClock true) (northGateway 2 7).externalAddress

def exchangeRun : List Action :=
  [startRequest, stampedMessage .sync 1000 true, stampedMessage .delayResponse 1002 true]

theorem coherent_of_exchangeRun :
    ∃ s, slave.execIf undisturbed initial exchangeRun = some s ∧ s.adjustments.length = 1 ∧
      Coherent s ∧ ∀ a s', slave.step s a = some s' → (Coherent s' ↔ Harmless s a) := by
  have hrun : (slave.execIf undisturbed initial exchangeRun).any
      (fun s => s.adjustments.length = 1) = true := by decide +kernel
  obtain ⟨s, hs, hgoal⟩ := (Option.any_eq_true _ _).mp hrun
  have hreach := Machine.Reaches.execIf undisturbed_sound (.init rfl) hs
  exact ⟨s, hs, of_decide_eq_true hgoal, coherent_iff_harmless hreach⟩

def repeatedRun : List Action :=
  [startRequest, stampedMessage .sync 1000 true, stampedMessage .delayResponse 1002 false,
    stampedMessage .delayResponse 1002 true]

theorem not_coherent_repeatedRun :
    ∃ s, slave.exec initial repeatedRun = some s ∧ slave.Reachable s ∧ ¬ Coherent s := by
  obtain ⟨s, hexec, hs, hgoal⟩ := Machine.Reachable.exec_any (M := slave) (.init rfl) repeatedRun
    (fun s => s.adjustments.any fun a => a.exchange.isNone) (by decide +kernel)
  refine ⟨s, hexec, hs, fun hcoherent => ?_⟩
  obtain ⟨a, ha, hnone⟩ := List.any_eq_true.mp hgoal
  obtain ⟨e, he, -⟩ := hcoherent.adjustments a ha
  rw [he] at hnone
  cases hnone

end CommunicationAPI.ClockAdjustment
