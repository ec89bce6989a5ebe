import CommunicationAPI.ClockAdjustment
import CommunicationAPI.OffsetEstimate
import CommunicationAPI.PtpProgress

/-!
# The accuracy of an exchange

One exchange of a slave with one master, over the link: the START, the SYNC, the
DELAY_REQUEST and the DELAY_RESPONSE go through both protocols, and each station
reads its own clock. The stations may have moved between two of their calls.
-/

namespace CommunicationAPI.PtpAccuracy
open Octets ShmEngine PtpExchange

/-- A station as each of its calls finds it. -/
structure Party where
  gateway : ℕ → Gateway
  clock : ℕ → SystemClock
  /-- The buffer that a frame is received in, before it is. -/
  memory : ℕ → Memory

abbrev Message := Memory × ℕ × Address × Address

namespace Party
variable (p : Party) (k : ℕ)

def receive (o : Option Output) : Option Message :=
  (outputLinks o.toList).head?.bind fun f =>
    outputPtp ((p.gateway k).handleReceive (p.memory k) f).2

def answer (m : Message) : Option Output :=
  (MasterSynchronizer.handlePtpMessage (p.gateway k) (p.clock k) m.1 m.2.1 m.2.2.1).sent

def handle (h : SlaveSynchronizer) (m : Message) : SyncOutcome SlaveSynchronizer :=
  h.handlePtpMessage (p.gateway k) (p.clock k) m.1 m.2.1 m.2.2.1 m.2.2.2

def request (h : SlaveSynchronizer) : SyncOutcome SlaveSynchronizer :=
  h.requestSynchronization (p.gateway k) (p.clock k) (p.gateway k).externalAddress

end Party

/-- An exchange: what the last call of the slave leaves behind, if each message has
reached the other side. The slave is called three times and the master twice. -/
def exchange (slave master : Party) (h : SlaveSynchronizer) :
    Option (SyncOutcome SlaveSynchronizer) :=
  let started := slave.request 0 h
  (master.receive 0 started.sent).bind fun start =>
  (slave.receive 1 (master.answer 0 start)).bind fun sync =>
  let synced := slave.handle 1 started.state sync
  (master.receive 1 synced.sent).bind fun delayRequest =>
  (slave.receive 2 (master.answer 1 delayRequest)).map fun delayResponse =>
  slave.handle 2 synced.state delayResponse

structure TimeVal where
  sec : UInt64
  usec : UInt64

def newTime (newTimeMs : UInt64) : TimeVal where
  sec := newTimeMs / 1000
  usec := (newTimeMs % 1000) * 1000

def TimeVal.micros (t : TimeVal) : ℕ := t.sec.toNat * 1000000 + t.usec.toNat

/-- The slave's clock is `theta` ahead of the master's. The SYNC takes `d1` and the
DELAY_REQUEST `d2`, and the slave sets its clock when the master's shows `now`. -/
structure Timed (slave master : Party) (theta d1 d2 now : ℤ) : Prop where
  forward_nonneg : 0 ≤ d1
  backward_nonneg : 0 ≤ d2
  sync : (((slave.clock 1).reading 0).toNat : ℤ) =
    ((master.clock 0).reading 0).toNat + d1 + theta
  answered : ((slave.clock 1).reading 0).toNat ≤ ((slave.clock 1).reading 1).toNat
  delayRequest : (((master.clock 1).reading 0).toNat : ℤ) =
    ((slave.clock 1).reading 1).toNat - theta + d2
  responded : (((master.clock 1).reading 0).toNat : ℤ) ≤ now
  set : (((slave.clock 2).reading 0).toNat : ℤ) = now + theta
  lt_t1 : ((master.clock 0).reading 0).toNat < 2 ^ 61
  lt_t2 : ((slave.clock 1).reading 0).toNat < 2 ^ 61
  lt_t3 : ((slave.clock 1).reading 1).toNat < 2 ^ 61
  lt_t4 : ((master.clock 1).reading 0).toNat < 2 ^ 61
  lt_set : ((slave.clock 2).reading 0).toNat < 2 ^ 61

/-- Every value that `synchronize` computes is the exact one. -/
structure Exact (t1 t2 t3 t4 reading : Timestamp) : Prop where
  casts : ∀ t ∈ [t1, t2, t3, t4, reading], t.toInt64.toInt = t.toNat
  forward : (t2.toInt64 - t1.toInt64).toInt = t2.toNat - t1.toNat
  backward : (t4.toInt64 - t3.toInt64).toInt = t4.toNat - t3.toNat
  difference : ((t2.toInt64 - t1.toInt64) - (t4.toInt64 - t3.toInt64)).toInt =
    ((t2.toNat : ℤ) - t1.toNat) - (t4.toNat - t3.toNat)
  offset : (SlaveSynchronizer.offset t1 t2 t3 t4).toInt =
    OffsetEstimate.offset t1.toNat t2.toNat t3.toNat t4.toNat
  time : (reading.toInt64 - SlaveSynchronizer.offset t1 t2 t3 t4).toInt =
    reading.toNat - OffsetEstimate.offset t1.toNat t2.toNat t3.toNat t4.toNat

structure Carries (m : Message) (payload : List UInt8) : Prop where
  size : m.2.1 = payload.length
  octets : load m.1 0 payload.length = payload

section
variable {p : Party} {k : ℕ} {m : Message} {g : Gateway} {src dst : Address}

/-- A received message carries the payload that was sent. -/
theorem carries_of_receive {s : Segment} (hs : s.type = .ptp)
    (h : p.receive k (g.send src dst s.getBytes) = some m) : Carries m s.payload := by
  obtain ⟨f, hf, hm⟩ := Option.bind_eq_some_iff.mp h
  have hsent := Gateway.sent_of_mem (List.mem_of_mem_head? hf)
  by_cases haccepts : (p.gateway k).Accepts f
  · rw [(Gateway.system_received (p.memory k) haccepts hsent.has).2 hs] at hm
    cases hm
    exact ⟨hsent.has.payloadSize_eq hsent.length_le, hsent.has.load_payload (p.memory k)⟩
  · rw [(Gateway.system_refused (p.memory k) haccepts hsent.has).ptp] at hm
    cases hm

theorem Carries.head {type : UInt8} {rest : List UInt8} (h : Carries m (type :: rest)) :
    m.1 0 = type := by
  have hhead := headD_load m.1 0 (Nat.succ_pos rest.length) 0
  rw [← hhead]
  exact congrArg (fun l : List UInt8 => l.headD 0) h.octets

/-- The timestamp arrives as it was sent. -/
theorem Carries.timestamp {type : SyncType} {t : Timestamp}
    (h : Carries m (TimePayload.stamped type t)) : TimePayload.timestamp m.1 = t := by
  have hlength : (TimePayload.stamped type t).length = 9 := by simp [TimePayload.stamped]
  have hload : load m.1 1 8 = encode 8 t.toNat := by
    have hdrop := congrArg (List.drop 1) h.octets
    rw [hlength, load_drop] at hdrop
    exact hdrop
  unfold TimePayload.timestamp
  rw [hload, decode_encode t.toNat_lt]
  exact UInt64.ofNat_toNat

theorem Carries.stampedSize {type : SyncType} {t : Timestamp}
    (h : Carries m (TimePayload.stamped type t)) : m.2.1 = TimePayload.stampedSize := by
  rw [h.size]
  simp [TimePayload.stamped, TimePayload.stampedSize]

/-- A master answers a request with the time at which it handles it. -/
theorem answer_eq {type : SyncType} (htype : type = .start ∨ type = .delayRequest)
    (h : Carries m (TimePayload.plain type)) :
    p.answer k m = (p.gateway k).send (p.gateway k).externalAddress m.2.2.1
      (Segment.getBytes ⟨.ptp, (p.clock k).reading 0,
        TimePayload.stamped (replyTo type) ((p.clock k).reading 0)⟩) := by
  have hsize : m.2.1 = TimePayload.headerSize := h.size
  unfold Party.answer
  rw [hsize, master_handle htype h.head]
  rfl

/-- The slave asks for the delay when it handles a SYNC that it waits for. -/
theorem handle_sync {h : SlaveSynchronizer} {t : Timestamp} (hstate : h.state = .awaitingSync)
    (hcarries : Carries m (TimePayload.stamped .sync t)) :
    p.handle k h m =
      { state := ⟨t, (p.clock k).reading 0, (p.clock k).reading 1, h.t4, .awaitingDelayResp⟩
        sent := (p.gateway k).send m.2.2.2 m.2.2.1
          (Segment.getBytes ⟨.ptp, (p.clock k).reading 1, TimePayload.plain .delayRequest⟩)
        clockSet := none
        error := none } := by
  have hwaiting : ¬ h.state ≠ .awaitingSync := fun hno => hno hstate
  unfold Party.handle
  rw [hcarries.stampedSize, slave_handle_sync hcarries.head]
  unfold SlaveSynchronizer.receiveSync
  rw [if_neg hwaiting, hcarries.timestamp]
  rfl

theorem handle_delayResp {h : SlaveSynchronizer} {t : Timestamp}
    (hstate : h.state = .awaitingDelayResp)
    (hcarries : Carries m (TimePayload.stamped .delayResponse t)) :
    (p.handle k h m).clockSet = some (((p.clock k).reading 0).toInt64 -
      SlaveSynchronizer.offset h.t1 h.t2 h.t3 t).toUInt64 := by
  unfold Party.handle
  rw [hcarries.stampedSize, slave_handle_delayResp hcarries.head,
    ClockAdjustment.receiveDelayResp_eq _ _ hstate, hcarries.timestamp]

end

section
variable {slave master : Party} {h : SlaveSynchronizer}
  {outcome : SyncOutcome SlaveSynchronizer}

/-- The slave had no exchange under way. -/
theorem request_of_received (hreceived : (master.receive 0 (slave.request 0 h).sent).isSome) :
    (slave.request 0 h).state.state = .awaitingSync ∧ (slave.request 0 h).sent =
      SlaveSynchronizer.sendStart (slave.gateway 0) (slave.clock 0)
        (slave.gateway 0).externalAddress := by
  unfold Party.request SlaveSynchronizer.requestSynchronization at hreceived ⊢
  split_ifs at hreceived ⊢ with hstate
  · exact ⟨rfl, rfl⟩
  · cases hreceived

/-- The four readings of an exchange end up in one offset. -/
theorem exchange_clockSet (hrun : exchange slave master h = some outcome) :
    outcome.clockSet = some (((slave.clock 2).reading 0).toInt64 -
      SlaveSynchronizer.offset ((master.clock 0).reading 0) ((slave.clock 1).reading 0)
        ((slave.clock 1).reading 1) ((master.clock 1).reading 0)).toUInt64 := by
  obtain ⟨start, hstart, hrun⟩ := Option.bind_eq_some_iff.mp hrun
  obtain ⟨sync, hsync, hrun⟩ := Option.bind_eq_some_iff.mp hrun
  obtain ⟨delayRequest, hrequest, hrun⟩ := Option.bind_eq_some_iff.mp hrun
  obtain ⟨delayResponse, hresponse, rfl⟩ := Option.map_eq_some_iff.mp hrun
  obtain ⟨hawaiting, hsent⟩ := request_of_received (Option.isSome_of_eq_some hstart)
  rw [hsent] at hstart
  rw [answer_eq (.inl rfl) (carries_of_receive rfl hstart)] at hsync
  have hsynced := handle_sync (p := slave) (k := 1) hawaiting (carries_of_receive rfl hsync)
  rw [hsynced] at hrequest ⊢
  rw [answer_eq (.inr rfl) (carries_of_receive rfl hrequest)] at hresponse
  exact handle_delayResp rfl (carries_of_receive rfl hresponse)

end

/-- No intermediate of the computation leaves the range of 64 bits. -/
theorem exact_of_lt {t1 t2 t3 t4 reading : Timestamp}
    (hlt : ∀ t ∈ [t1, t2, t3, t4, reading], t.toNat < 2 ^ 61) : Exact t1 t2 t3 t4 reading := by
  have hcasts : ∀ t ∈ [t1, t2, t3, t4, reading], t.toInt64.toInt = t.toNat := by
    intro t ht
    have := hlt t ht
    exact OffsetEstimate.toInt_toInt64 (by omega)
  simp only [List.forall_mem_cons] at hlt
  obtain ⟨h1, h2, h3, h4, hr, -⟩ := hlt
  have hc1 := hcasts t1 (by simp)
  have hc2 := hcasts t2 (by simp)
  have hc3 := hcasts t3 (by simp)
  have hc4 := hcasts t4 (by simp)
  have hcr := hcasts reading (by simp)
  have hforward : (t2.toInt64 - t1.toInt64).toInt = t2.toNat - t1.toNat := by
    rw [OffsetEstimate.toInt_sub_of_fits, hc1, hc2]
    rw [hc1, hc2]
    constructor <;> omega
  have hbackward : (t4.toInt64 - t3.toInt64).toInt = t4.toNat - t3.toNat := by
    rw [OffsetEstimate.toInt_sub_of_fits, hc3, hc4]
    rw [hc3, hc4]
    constructor <;> omega
  have hdifference : ((t2.toInt64 - t1.toInt64) - (t4.toInt64 - t3.toInt64)).toInt =
      ((t2.toNat : ℤ) - t1.toNat) - (t4.toNat - t3.toNat) := by
    rw [OffsetEstimate.toInt_sub_of_fits, hforward, hbackward]
    rw [hforward, hbackward]
    constructor <;> omega
  have hoffset : (SlaveSynchronizer.offset t1 t2 t3 t4).toInt =
      OffsetEstimate.offset t1.toNat t2.toNat t3.toNat t4.toNat := by
    unfold SlaveSynchronizer.offset OffsetEstimate.offset
    rw [OffsetEstimate.toInt_div_two, hdifference]
  refine ⟨hcasts, hforward, hbackward, hdifference, hoffset, ?_⟩
  rw [OffsetEstimate.toInt_sub_of_fits, hcr, hoffset]
  rw [hcr, hoffset]
  have hround := OffsetEstimate.two_mul_tdiv_two
    (((t2.toNat : ℤ) - t1.toNat) - (t4.toNat - t3.toNat))
  rw [abs_le] at hround
  unfold OffsetEstimate.offset
  constructor <;> omega

/-- The seconds and microseconds are those of the milliseconds. -/
theorem micros_newTime (t : UInt64) : (newTime t).micros = 1000 * t.toNat := by
  have hmod : t.toNat % 1000 * 1000 < 2 ^ 64 := by omega
  unfold newTime TimeVal.micros
  rw [UInt64.toNat_div, UInt64.toNat_mul, UInt64.toNat_mod]
  change t.toNat / 1000 * 1000000 + t.toNat % 1000 * 1000 % 2 ^ 64 = _
  rw [Nat.mod_eq_of_lt hmod]
  omega

namespace Timed
variable {slave master : Party} {theta d1 d2 now : ℤ}

theorem exact (h : Timed slave master theta d1 d2 now) :
    Exact ((master.clock 0).reading 0) ((slave.clock 1).reading 0) ((slave.clock 1).reading 1)
      ((master.clock 1).reading 0) ((slave.clock 2).reading 0) := by
  apply exact_of_lt
  simp only [List.forall_mem_cons, List.not_mem_nil, false_implies, implies_true, and_true]
  exact ⟨h.lt_t1, h.lt_t2, h.lt_t3, h.lt_t4, h.lt_set⟩

/-- The readings are the stamps of one message each way. -/
theorem stamps (h : Timed slave master theta d1 d2 now) :
    OffsetEstimate.Exchange theta d1 d2 ((master.clock 0).reading 0).toNat
      ((slave.clock 1).reading 0).toNat ((slave.clock 1).reading 1).toNat
      ((master.clock 1).reading 0).toNat :=
  ⟨h.sync, h.delayRequest⟩

/-- Both delays lie before the instant at which the slave sets its clock. -/
theorem delays_le (h : Timed slave master theta d1 d2 now) : d1 + d2 ≤ now := by
  have hsync := h.sync
  have hrequest := h.delayRequest
  have hanswered := h.answered
  have hresponded := h.responded
  omega

/-- The error is too small to make the new time negative. -/
theorem time_nonneg (h : Timed slave master theta d1 d2 now) {e : ℤ}
    (he : 2 * |e| ≤ |d1 - d2| + 1) : 0 ≤ now + e := by
  have hd1 := h.forward_nonneg
  have hd2 := h.backward_nonneg
  have hle := h.delays_le
  have hlow : -|e| ≤ e := neg_abs_le e
  have hasym : |d1 - d2| ≤ d1 + d2 := by
    rw [abs_le]
    constructor <;> omega
  omega

end Timed

/-- The slave sets its clock to the time of the master, but for half the asymmetry of
the delays and the rounding, whichever clock is ahead. With equal delays the time is
that of the master. -/
theorem exchange_accuracy {slave master : Party} {h : SlaveSynchronizer}
    {outcome : SyncOutcome SlaveSynchronizer} {theta d1 d2 now : ℤ}
    (hrun : exchange slave master h = some outcome) (ht : Timed slave master theta d1 d2 now) :
    Exact ((master.clock 0).reading 0) ((slave.clock 1).reading 0) ((slave.clock 1).reading 1)
        ((master.clock 1).reading 0) ((slave.clock 2).reading 0) ∧
      ∃ time e, outcome.clockSet = some time ∧ ((newTime time).micros : ℤ) = 1000 * (now + e) ∧
        2 * |e| ≤ |d1 - d2| + 1 ∧ (d1 = d2 → e = 0) := by
  have hexact := ht.exact
  have htime := hexact.time
  have herror := ht.stamps.offset_error
  have hequal := ht.stamps.offset_eq
  generalize OffsetEstimate.offset ((master.clock 0).reading 0).toNat
    ((slave.clock 1).reading 0).toNat ((slave.clock 1).reading 1).toNat
    ((master.clock 1).reading 0).toNat = estimate at htime herror hequal
  have hnew : (((slave.clock 2).reading 0).toInt64 - SlaveSynchronizer.offset
      ((master.clock 0).reading 0) ((slave.clock 1).reading 0) ((slave.clock 1).reading 1)
      ((master.clock 1).reading 0)).toInt = now + (theta - estimate) := by
    rw [htime, ht.set]
    ring
  refine ⟨hexact, _, theta - estimate, exchange_clockSet hrun, ?_, herror, ?_⟩
  · rw [micros_newTime, Nat.cast_mul, OffsetEstimate.toNat_toUInt64, hnew]
    · norm_num
    · rw [hnew]
      exact ht.time_nonneg herror
  · intro hd
    rw [hequal hd, sub_self]

def inNorth (n : UInt8) (readings : ℕ → ℕ → Timestamp) : Party :=
  ⟨fun _ => northGateway n 7, fun k => ⟨readings k, true⟩, fun _ _ => 0⟩

def behind : Party := inNorth 2 fun k i => if k = 1 then UInt64.ofNat (504 + i) else 510

def ahead : Party := inNorth 1 fun k _ => if k = 0 then 1000 else 1006

theorem behind_timed : Timed behind ahead (-500) 4 1 1010 := by
  constructor <;> decide

/-- The slave sets its clock to 1008, two too few. -/
theorem exchange_accuracy_behind :
    ∃ outcome, exchange behind ahead .construct = some outcome ∧
      ∃ time e, outcome.clockSet = some time ∧
        ((newTime time).micros : ℤ) = 1000 * (1010 + e) ∧ 2 * |e| ≤ |(4 : ℤ) - 1| + 1 := by
  have hcompletes : (exchange behind ahead .construct).isSome = true := by decide +kernel
  obtain ⟨outcome, hrun⟩ := Option.isSome_iff_exists.mp hcompletes
  obtain ⟨-, time, e, hset, hmicros, herror, -⟩ := exchange_accuracy hrun behind_timed
  exact ⟨outcome, hrun, time, e, hset, hmicros, herror⟩

end CommunicationAPI.PtpAccuracy
