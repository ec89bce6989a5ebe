import CommunicationAPI.Communicator
import CommunicationAPI.TedsHandler

/-!
# Publishing and subscribing by TEDS type

A consumer listens for the responses of a type and broadcasts its interest. A
producer that listens for the requests of the type answers in a loop.
-/

namespace CommunicationAPI
open Octets ShmEngine

/-- What `Communicator::receive` makes of a buffer. -/
structure Message where
  type : UInt8
  source : Address
  payload : List UInt8

def messageCapacity : ℕ := 1024

/-- `Protocol::receive` and the rest of `Communicator::receive`. -/
def receiveMessage (frame : Frame) : Option Message :=
  let dataSize := (frame.dataLength + uint32 - (packetHeaderSize + macSize)) % uint32
  let totalSegmentSize := min messageCapacity dataSize
  if totalSegmentSize < segmentHeaderSize then none
  else some {
    type := frame.data packetHeaderSize
    source := ⟨frame.header.shost, Packet.sport frame.data⟩
    payload := load frame.data (packetHeaderSize + segmentHeaderSize)
      (totalSegmentSize - segmentHeaderSize) }

/-- The `switch` of `receiver_loop`, as far as it concerns this handler. Octets beyond the
payload are left from earlier messages. -/
def TedsHandler.dispatch (h : TedsHandler) (rest : Memory) (m : Message) : TedsHandler :=
  if m.type = MsgType.teds.code then h.handleTedsMessage m.source (store rest 0 m.payload) else h

/-- One turn of `receiver_loop` for a buffer of the queue. -/
def TedsHandler.receiverTurn (h : TedsHandler) (rest : Memory) (frame : Frame) : TedsHandler :=
  (receiveMessage frame).elim h fun m => h.dispatch rest m

def interestSegment (baseType : TedsType) (interval : Period) : Segment :=
  ⟨.teds, 0, Teds.createRequestPayload baseType interval⟩

def sendInterestMessage (shared : SharedInfo) (address : Address) (baseType : TedsType)
    (interval : Period) : Option SendCall :=
  shared.send address ⟨broadcastAddr, typeBasedRoutingPort⟩
    (interestSegment baseType interval).getBytes

def Reading.isTrue (v : Reading) : Bool := v &&& 0x7FFFFFFF ≠ 0

def responseSegment (timestamp : UInt64) (type : TedsType) (v : Reading) : Segment :=
  ⟨.teds, timestamp, Teds.createResponsePayload type v⟩

def sendResponse (shared : SharedInfo) (address : Address) (timestamp : UInt64) (type : TedsType)
    (v : Reading) : Option SendCall :=
  if v.isTrue then
    shared.send address ⟨broadcastAddr, typeBasedRoutingPort⟩
      (responseSegment timestamp type v).getBytes
  else none

/-- A frame on a bus with the segment of a broadcast for type listeners: from a component
of the vehicle, or from its gateway on behalf of another vehicle. -/
structure OnBus (s : Segment) (c : SendCall) : Prop where
  packet : ∃ loc key src dst h, c = packetCall loc key src dst s.getBytes h ∧
    dst.port = typeBasedRoutingPort

/-- Subscribing to responses and to requests of `t` brings the two together. -/
structure PubSub (t : TedsType) (period : Period) (v : Reading) : Prop where
  interest_sent : ∀ shared address, ∃ c, sendInterestMessage shared address t period = some c ∧
    OnBus (interestSegment t period) c
  interest_received : ∀ c, OnBus (interestSegment t period) c →
    ∀ rest external (e : Endpoints) o, (o, Teds.makeRequestType t) ∈ e.typeObserved →
      o ∈ e.recipients external (busFrame rest c)
  interest_handled : ∀ c, OnBus (interestSegment t period) c →
    ∀ rest rest' (h : TedsHandler), (h.receiverTurn rest' (busFrame rest c)).component =
      h.component.notifyInterestRequest period (Teds.makeRequestType t) false
  response_sent : ∀ c : Component, c.terminated = false → ∀ shared address timestamp,
    ∃ call, sendResponse shared address timestamp
        (c.notifyInterestRequest period (Teds.makeRequestType t) false).responseType v =
          some call ∧
      OnBus (responseSegment timestamp (Teds.makeRequestType t) v) call
  response_received : ∀ timestamp c,
    OnBus (responseSegment timestamp (Teds.makeRequestType t) v) c →
      ∀ rest external (e : Endpoints), e.recipients external (busFrame rest c) =
        e.typeObserved.notify (Teds.makeResponseType t)

theorem load_shift (m : Memory) (k off n : ℕ) :
    load (fun i => m (k + i)) off n = load m (k + off) n := by
  simp [load, Nat.add_assoc]

structure HoldsTeds (frame : Frame) (type : TedsType) (content : UInt32) : Prop where
  dport_eq : Packet.dport frame.data = typeBasedRoutingPort
  dataLength_eq : frame.dataLength = packetHeaderSize + (segmentHeaderSize + 8) + macSize
  type_eq : frame.data packetHeaderSize = MsgType.teds.code
  payload_eq : load frame.data (packetHeaderSize + segmentHeaderSize) 8 = Teds.payload type content

theorem length_getBytes_teds (timestamp : UInt64) (type : TedsType) (content : UInt32) :
    (Segment.getBytes ⟨.teds, timestamp, Teds.payload type content⟩).length =
      segmentHeaderSize + 8 := by
  rw [Segment.length_getBytes, Teds.length_payload]

section
variable {timestamp : UInt64} {type : TedsType} {content : UInt32} {c : SendCall} {frame : Frame}

theorem OnBus.holdsTeds (h : OnBus ⟨.teds, timestamp, Teds.payload type content⟩ c)
    (rest : Memory) : HoldsTeds (busFrame rest c) type content := by
  obtain ⟨loc, key, src, dst, hsize, rfl, hport⟩ := h.packet
  have hholds : Packet.Holds (busFrame rest (packetCall loc key src dst _ hsize)).data loc
      src.port dst.port _ key := busFrame_packetCall_holds hsize rest
  constructor
  · rw [hholds.dport_eq, hport]
  · rw [← length_getBytes_teds timestamp type content]
    exact length_packetCall hsize
  · exact hholds.type_eq (Segment.head_getBytes _)
  · have hsegment := hholds.segment_eq
    have hbytes : Segment.getBytes ⟨.teds, timestamp, Teds.payload type content⟩ =
        (MsgType.teds.code :: encode 8 timestamp.toNat) ++ Teds.payload type content := rfl
    rw [length_getBytes_teds, load_append] at hsegment
    exact (List.append_inj (hsegment.trans hbytes) (by simp [segmentHeaderSize])).2

theorem HoldsTeds.frameType_eq (h : HoldsTeds frame type content) : frameType frame = type := by
  have hsize : (frame.dataLength + uint32 - (packetHeaderSize + macSize + segmentHeaderSize)) %
      uint32 = 8 := by
    rw [h.dataLength_eq]
    rfl
  have hpayload : load (fun i => frame.data (packetHeaderSize + (segmentHeaderSize + i))) 0 8 =
      Teds.payload type content := by
    rw [← h.payload_eq]
    simp only [← Nat.add_assoc]
    exact load_shift ..
  unfold frameType Teds.extractType
  rw [hsize, if_neg (by simpa using h.type_eq), if_neg (by decide)]
  exact (Teds.payload_fields hpayload).1

theorem HoldsTeds.recipients_eq (h : HoldsTeds frame type content) (htype : type ≠ Teds.invalid)
    (external : Option Gateway) (e : Endpoints) :
    e.recipients external frame = e.typeObserved.notify type := by
  have hnotifies : outputNotifies (updateLocal external frame) = [typeBasedRoutingPort] := by
    by_cases hdhost : frame.header.dhost = broadcastAddr
    · rw [outputNotifies_broadcast hdhost, if_pos h.dport_eq]
    · rw [updateLocal_unicast external hdhost, h.dport_eq]
      rfl
  unfold Endpoints.recipients Endpoints.listeners
  rw [hnotifies, List.flatMap_singleton, if_pos rfl, h.frameType_eq, if_pos htype]

theorem HoldsTeds.receiveMessage_eq (h : HoldsTeds frame type content) :
    receiveMessage frame = some ⟨MsgType.teds.code, ⟨frame.header.shost, Packet.sport frame.data⟩,
      Teds.payload type content⟩ := by
  have hsize : min messageCapacity ((frame.dataLength + uint32 - (packetHeaderSize + macSize)) %
      uint32) = segmentHeaderSize + 8 := by
    rw [h.dataLength_eq]
    decide
  unfold receiveMessage
  simp only [hsize]
  rw [if_neg (by decide), Nat.add_sub_cancel_left, h.payload_eq, h.type_eq]

/-- A request is dispatched with the period that it carries. -/
theorem HoldsTeds.receiverTurn_component {t : TedsType} {period : Period}
    (h : HoldsTeds frame (Teds.makeRequestType t) period) (rest : Memory) (handler : TedsHandler) :
    (handler.receiverTurn rest frame).component =
      handler.component.notifyInterestRequest period (Teds.makeRequestType t) false := by
  have hload := load_store rest 0 (Teds.payload (Teds.makeRequestType t) period)
  rw [Teds.length_payload] at hload
  obtain ⟨htype, hperiod⟩ := Teds.payload_fields hload
  unfold TedsHandler.receiverTurn
  rw [h.receiveMessage_eq, Option.elim_some]
  unfold TedsHandler.dispatch
  rw [if_pos rfl]
  unfold TedsHandler.handleTedsMessage
  rw [htype, hperiod, if_pos (Teds.isRequest_makeRequestType t)]

end

/-- A gateway that shares the key puts the broadcasts of another on its own bus. -/
theorem OnBus.relayed {g g' : Gateway} {s : Segment} {c : SendCall} (h : OnBus s c)
    (htype : s.type.IsData) (haddress : g.address ≠ g'.address)
    (hquadrant : g.quadrant = g'.quadrant)
    (hkey : g.shared.sessionKey = g'.shared.sessionKey) (hdst : c.dstMac = broadcastAddr)
    (rest rest' : Memory) :
    ∃ f c', outputLinks (g.receiveLocal rest c) = [f] ∧
      outputBuses (g'.handleReceive rest' f).2 = [c'] ∧ OnBus s c' := by
  obtain ⟨loc, key, src, dst, hsize, rfl, hport⟩ := h.packet
  have hreceived := Gateway.handleReceive_packet (g := g') g.shared.sessionKey
    ⟨g.address.1, src.port⟩ dst rest' haddress hquadrant hsize htype s.head_getBytes
  rw [if_pos hkey] at hreceived
  refine ⟨_, packetCall g'.shared.location g'.shared.sessionKey ⟨g.address.1, src.port⟩
    ⟨localAddr, dst.port⟩ _ hsize, (Gateway.outputs_broadcast loc key src rest hdst hsize).2,
      ?_, ?_⟩
  · rw [hreceived]
    rfl
  · exact ⟨_, _, _, _, hsize, rfl, hport⟩

theorem sent_teds (shared : SharedInfo) (address : Address) (timestamp : UInt64) (type : TedsType)
    (content : UInt32) :
    ∃ c, shared.send address ⟨broadcastAddr, typeBasedRoutingPort⟩
        (Segment.getBytes ⟨.teds, timestamp, Teds.payload type content⟩) = some c ∧
      OnBus ⟨.teds, timestamp, Teds.payload type content⟩ c := by
  have hsize : packetHeaderSize +
      (Segment.getBytes ⟨.teds, timestamp, Teds.payload type content⟩).length + macSize ≤ mtu := by
    rw [length_getBytes_teds]
    decide
  refine ⟨packetCall shared.location shared.sessionKey address
    ⟨broadcastAddr, typeBasedRoutingPort⟩ _ hsize, ?_, ⟨_, _, _, _, hsize, rfl, rfl⟩⟩
  unfold SharedInfo.send
  rw [call_sendFrame, dif_pos hsize]

theorem notifyInterestRequest_responseType {c : Component} {period : Period} {type : TedsType}
    (hlive : c.terminated = false) (hperiod : period ≠ 0) :
    (c.notifyInterestRequest period type false).responseType = type := by
  unfold Component.notifyInterestRequest
  rw [if_neg (by simp [hlive]), Component.setInterest_start hperiod]
  unfold Component.assignThread
  dsimp only
  split_ifs <;> rfl

theorem response_recipients {t : TedsType} {v : Reading} {timestamp : UInt64} {c : SendCall}
    (h : OnBus (responseSegment timestamp (Teds.makeRequestType t) v) c) (rest : Memory)
    (external : Option Gateway) (e : Endpoints) :
    e.recipients external (busFrame rest c) =
      e.typeObserved.notify (Teds.makeResponseType (Teds.makeRequestType t)) := by
  exact (OnBus.holdsTeds h rest).recipients_eq (Teds.makeResponseType_ne_invalid _) external e

/-- The response to a request without metadata must be the one that is listened for. -/
theorem PubSub.responseType_eq {t : TedsType} {period : Period} {v : Reading}
    (h : PubSub t period v) :
    Teds.makeResponseType (Teds.makeRequestType t) = Teds.makeResponseType t := by
  let e : Endpoints := { Endpoints.empty with typeObserved := [(0, Teds.makeResponseType t)] }
  obtain ⟨call, hsent, hcall⟩ := sent_teds ⟨0, .north, .empty⟩ ⟨localAddr, 1⟩ 0
    (Teds.makeResponseType (Teds.makeRequestType t)) v
  have hreceived := h.response_received 0 call hcall (fun _ => 0) none e
  rw [response_recipients hcall] at hreceived
  have hmem : 0 ∈ e.typeObserved.notify (Teds.makeResponseType t) :=
    Observed.mem_notify.mpr (List.mem_singleton_self _)
  rw [← hreceived, Observed.mem_notify, List.mem_singleton] at hmem
  exact congrArg Prod.snd hmem

theorem PubSub.isTrue {t : TedsType} {period : Period} {v : Reading} (h : PubSub t period v) :
    v.isTrue = true := by
  have hlive : (Component.construct t).terminated = false := rfl
  obtain ⟨call, hsent, -⟩ := h.response_sent _ hlive ⟨0, .north, .empty⟩ ⟨localAddr, 1⟩ 0
  by_contra hzero
  unfold sendResponse at hsent
  rw [if_neg hzero] at hsent
  cases hsent

/-- Publishing and subscribing meet if and only if the type carries no metadata and the
reading is not zero. -/
theorem pubSub_iff {t : TedsType} {period : Period} {v : Reading}
    (hbase : Teds.getBaseType t ≠ 0) (hperiod : period ≠ 0) :
    PubSub t period v ↔ t &&& Teds.metadataMask = 0 ∧ v.isTrue = true := by
  rw [← Teds.makeResponseType_makeRequestType]
  constructor
  · intro h
    exact ⟨h.responseType_eq, h.isTrue⟩
  · rintro ⟨htype, hvalue⟩
    constructor
    · exact fun shared address => sent_teds shared address 0 _ period
    · intro c hc rest external e o hmem
      rw [(OnBus.holdsTeds hc rest).recipients_eq hbase external e]
      exact Observed.mem_notify.mpr hmem
    · intro c hc rest rest' h
      exact (OnBus.holdsTeds hc rest).receiverTurn_component rest' h
    · intro c hlive shared address timestamp
      rw [notifyInterestRequest_responseType hlive hperiod]
      unfold sendResponse
      rw [if_pos hvalue]
      exact sent_teds shared address timestamp _ v
    · intro timestamp c hc rest external e
      rw [response_recipients hc, htype]

/-- The type of an amount, and a reading of one. -/
theorem pubSub_plain : PubSub 8 100 0x3F800000 :=
  (pubSub_iff (by decide) (by decide)).mpr (by decide)

/-- An amount in floating point: the responses are those of the plain type. -/
theorem not_pubSub_format :
    ¬ ∀ (t : TedsType) (period : Period) (v : Reading), Teds.getBaseType t ≠ 0 → period ≠ 0 →
        PubSub t period v := by
  intro h
  have heq := (h 0x08000008 100 0x3F800000 (by decide) (by decide)).responseType_eq
  revert heq
  decide

end CommunicationAPI
