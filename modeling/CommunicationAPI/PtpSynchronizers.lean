import CommunicationAPI.SystemMessages

/-!
# Clock synchronization

A slave asks for the time with a broadcast START. A master answers with SYNC,
the slave sends DELAY_REQUEST to it, and the master's DELAY_RESPONSE lets the
slave compute its offset and set its clock.
-/

namespace CommunicationAPI
open Octets ShmEngine

inductive SyncType
  | sync | delayRequest | delayResponse | start
  deriving DecidableEq, Repr

def SyncType.code : SyncType → UInt8
  | .sync => 0
  | .delayRequest => 1
  | .delayResponse => 2
  | .start => 3

abbrev Timestamp := UInt64

namespace TimePayload

def headerSize : ℕ := 1

def stampedSize : ℕ := 9

def plain (type : SyncType) : List UInt8 := [type.code]

def stamped (type : SyncType) (t : Timestamp) : List UInt8 := type.code :: encode 8 t.toNat

def timestamp (payload : Memory) : Timestamp := UInt64.ofNat (decode (load payload 1 8))

end TimePayload

/-- The system clock during one call: its readings in order, and whether the
attempt to set it succeeds. -/
structure SystemClock where
  reading : ℕ → Timestamp
  settable : Bool

/-- What a call of a synchronizer leaves behind, whether it returns or throws. -/
structure SyncOutcome (σ : Type) where
  state : σ
  sent : Option Output
  /-- The argument of `Clock::setClockAbruptly`, if it was called. -/
  clockSet : Option Timestamp
  error : Option String

namespace SyncOutcome
variable {σ : Type} (s : σ)

def done : SyncOutcome σ := ⟨s, none, none, none⟩

def sending (o : Option Output) : SyncOutcome σ := ⟨s, o, none, none⟩

def throw (error : String) : SyncOutcome σ := ⟨s, none, none, some error⟩

end SyncOutcome

inductive SlaveState
  | synchronized | awaitingSync | awaitingDelayResp
  deriving DecidableEq, Repr

structure SlaveSynchronizer where
  t1 : Timestamp
  t2 : Timestamp
  t3 : Timestamp
  t4 : Timestamp
  state : SlaveState

namespace SlaveSynchronizer

def construct : SlaveSynchronizer := ⟨0, 0, 0, 0, .synchronized⟩

variable (h : SlaveSynchronizer) (g : Gateway) (clock : SystemClock)

/-- The message that `request_synchronization` sends. -/
def sendStart (myAddress : Address) : Option Output :=
  g.send myAddress ⟨broadcastAddr, 0⟩
    (Segment.getBytes ⟨.ptp, clock.reading 0, TimePayload.plain .start⟩)

def requestSynchronization (myAddress : Address) : SyncOutcome SlaveSynchronizer :=
  if h.state = .synchronized then
    .sending { h with state := .awaitingSync } (sendStart g clock myAddress)
  else .done h

/-- `send_delay_req`. The reading of the clock is the second one of the call. -/
def sendDelayReq (myAddress masterAddress : Address) : SyncOutcome SlaveSynchronizer :=
  let t3 := clock.reading 1
  .sending { h with t3 := t3 } (g.send myAddress masterAddress
    (Segment.getBytes ⟨.ptp, t3, TimePayload.plain .delayRequest⟩))

def receiveSync (payload : Memory) (source dest : Address) : SyncOutcome SlaveSynchronizer :=
  if h.state ≠ .awaitingSync then .throw h "Slave was not waiting for SYNC"
  else sendDelayReq
    { h with t1 := TimePayload.timestamp payload, t2 := clock.reading 0, state := .awaitingDelayResp }
    g clock dest source

def offset (t1 t2 t3 t4 : Timestamp) : Int64 :=
  ((t2.toInt64 - t1.toInt64) - (t4.toInt64 - t3.toInt64)) / 2

/-- `synchronize`: the timestamps are cleared before the clock is set. -/
def synchronize : SyncOutcome SlaveSynchronizer :=
  let trueMasterTime := (clock.reading 0).toInt64 - offset h.t1 h.t2 h.t3 h.t4
  { state := { h with t1 := 0, t2 := 0, t3 := 0, t4 := 0 }
    sent := none
    clockSet := some trueMasterTime.toUInt64
    error := if clock.settable then none else some "Failed to adjust clock skew" }

def receiveDelayResp (payload : Memory) : SyncOutcome SlaveSynchronizer :=
  if h.state ≠ .awaitingDelayResp then .throw h "Slave was not waiting for DELAY_RESP"
  else
    let outcome := synchronize { h with t4 := TimePayload.timestamp payload } clock
    if outcome.error.isNone then
      { outcome with state := { outcome.state with state := .synchronized } }
    else outcome

def handlePtpMessage (payload : Memory) (size : ℕ) (source dest : Address) :
    SyncOutcome SlaveSynchronizer :=
  if size < TimePayload.headerSize then
    .throw h "PTP payload is too small to contain a header."
  else if payload 0 = SyncType.sync.code then
    if size < TimePayload.stampedSize then .throw h "PTP SYNC payload size mismatch."
    else h.receiveSync g clock payload source dest
  else if payload 0 = SyncType.delayResponse.code then
    if size < TimePayload.stampedSize then .throw h "PTP DELAY_RESP payload size mismatch."
    else h.receiveDelayResp clock payload
  else if payload 0 = SyncType.delayRequest.code ∨ payload 0 = SyncType.start.code then .done h
  else .throw h "Unknown SyncType received when handling PTP message"

theorem receiveDelayResp_sent {payload : Memory} :
    (h.receiveDelayResp clock payload).sent = none := by
  unfold receiveDelayResp synchronize
  split_ifs with hstate hsettable
  · rfl
  · rfl
  · rfl

end SlaveSynchronizer

namespace MasterSynchronizer
variable (g : Gateway) (clock : SystemClock)

/-- `receive_start` and `receive_delay_req`: an answer stamped with the time. -/
def answer (type : SyncType) (source : Address) : SyncOutcome Unit :=
  .sending () (g.send g.externalAddress source
    (Segment.getBytes ⟨.ptp, clock.reading 0, TimePayload.stamped type (clock.reading 0)⟩))

def handlePtpMessage (payload : Memory) (size : ℕ) (source : Address) : SyncOutcome Unit :=
  if size < TimePayload.headerSize then
    .throw () "PTP payload is too small to contain a header."
  else if payload 0 = SyncType.start.code then
    if size < TimePayload.headerSize then .throw () "PTP Start payload size mismatch."
    else answer g clock .sync source
  else if payload 0 = SyncType.delayRequest.code then
    if size < TimePayload.headerSize then .throw () "PTP DELAY_REQ payload size mismatch."
    else answer g clock .delayResponse source
  else if payload 0 = SyncType.delayResponse.code ∨ payload 0 = SyncType.sync.code then .done ()
  else .throw () "Unknown SyncType received when handling PTP message"

end MasterSynchronizer
end CommunicationAPI
