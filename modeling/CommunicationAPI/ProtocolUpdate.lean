import CommunicationAPI.GroupHandlers
import CommunicationAPI.Membership
import CommunicationAPI.PtpSynchronizers

/-!
# A frame of the link and the handlers

The external side of `Protocol::update` together with the handlers that it calls.
A handler that throws ends the call. Frames that the gateway drops pass through
the list of nearby vehicles first.
-/

namespace CommunicationAPI
open Octets ShmEngine

/-- `_synchronizer`. A master has no state. -/
inductive Synchronizer
  | slave (h : SlaveSynchronizer)
  | master

inductive GroupHandler
  | member
  | leader (h : GroupLeaderHandler) (membership : Membership.State)

/-- The protocol of a gateway. `bus` lists what has been sent into the ring of the
shared block. -/
structure ProtocolState where
  gateway : Gateway
  synchronizer : Synchronizer
  groupHandler : GroupHandler
  bus : List SendCall

structure Moment where
  clock : SystemClock
  timestamp : UInt64
  now : Membership.Timepoint

inductive Discard
  | tooSmall
  | systemError (what : String)
  | wrongMac

structure UpdateOutcome where
  state : ProtocolState
  links : List WireFrame
  discard : Option Discard

def Gateway.Addressed (g : Gateway) (frame : Frame) : Prop :=
  g.address.1 = frame.header.dhost ∨ broadcastAddr = frame.header.dhost

instance (g : Gateway) (frame : Frame) : Decidable (g.Addressed frame) :=
  inferInstanceAs (Decidable (_ ∨ _))

def Gateway.verifies (g : Gateway) (frame : Frame) : Bool :=
  generateMac (load frame.data 0 (frame.dataLength - macSize)) g.shared.sessionKey =
    UInt64.ofNat (decode (load frame.data (frame.dataLength - macSize) macSize))

def Frame.source (frame : Frame) : Address := ⟨frame.header.shost, Packet.sport frame.data⟩

def Frame.dest (frame : Frame) : Address := ⟨frame.header.dhost, Packet.dport frame.data⟩

namespace ProtocolState
variable (s : ProtocolState) (t : Moment)

/-- A call of `Protocol::send` by the gateway. -/
def emit (o : Option Output) : ProtocolState := { s with bus := s.bus ++ outputBuses o.toList }

def register (addr : MAC) : ProtocolState :=
  { s with gateway.shared.nearby := s.gateway.shared.nearby.register addr }

/-- A handler has called `send` once, or has thrown. -/
def answered (o : Option Output) (error : Option String) : UpdateOutcome where
  state := s.emit o
  links := outputLinks o.toList
  discard := error.map .systemError

/-- The handlers of `filter_system_messages`; all else goes out as it is. -/
def handle : Output → UpdateOutcome
  | .ptp payload size source dest =>
    match s.synchronizer with
    | .slave h =>
      let outcome := h.handlePtpMessage s.gateway t.clock payload size source dest
      { s with synchronizer := .slave outcome.state }.answered outcome.sent outcome.error
    | .master =>
      let outcome := MasterSynchronizer.handlePtpMessage s.gateway t.clock payload size source
      s.answered outcome.sent outcome.error
  | .group payload size source =>
    match s.groupHandler with
    | .member =>
      { s with gateway := GroupMemberHandler.handleGroupMessage s.gateway payload size }.answered
        none none
    | .leader h membership =>
      match h.handleGroupMessage s.gateway t.timestamp payload source with
      | some (client, answer) =>
        { s with groupHandler := .leader h (membership.heartbeatUpdate client t.now) }.answered
          answer none
      | none => s.answered none none
  | o => s.answered (some o) none

def update (frame : Frame) : UpdateOutcome :=
  let s := s.register frame.header.shost
  if frame.dataLength < packetHeaderSize + macSize then ⟨s, [], some .tooSmall⟩
  else match s.gateway.filterSystemMessages frame frame.source frame.dest with
    | some message => s.handle t message
    | none =>
      if s.gateway.verifies frame then
        s.answered (s.gateway.send frame.source ⟨localAddr, Packet.dport frame.data⟩
          (load frame.data packetHeaderSize
            (frame.dataLength - packetHeaderSize - macSize))) none
      else ⟨s, [], some .wrongMac⟩

def handleReceive (rest : Memory) (f : WireFrame) : UpdateOutcome :=
  let frame := Gateway.receivedFrame rest f
  if f.header.shost = s.gateway.address.1 then ⟨s, [], none⟩
  else if s.gateway.filterLocation frame then ⟨s, [], none⟩
  else if ntohs frame.header.type = ethernetProtocolNumber then s.update t frame
  else ⟨s, [], none⟩

end ProtocolState

namespace Frame
variable (frame : Frame)

/-- `final_type` of `filter_system_messages`. -/
def segmentType : UInt8 := frame.data packetHeaderSize

def systemPayload : Memory := fun i => frame.data (packetHeaderSize + (segmentHeaderSize + i))

def systemPayloadSize : ℕ :=
  (frame.dataLength + 2 ^ 64 - (packetHeaderSize + macSize + segmentHeaderSize)) % 2 ^ 64

def IsSystem : Prop :=
  frame.segmentType = MsgType.ptp.code ∨ frame.segmentType = MsgType.group.code

instance : Decidable frame.IsSystem :=
  inferInstanceAs (Decidable (frame.segmentType = MsgType.ptp.code ∨
    frame.segmentType = MsgType.group.code))

end Frame

theorem Gateway.filterSystemMessages_eq (g : Gateway) (frame : Frame) :
    g.filterSystemMessages frame frame.source frame.dest =
      if g.Addressed frame then
        if frame.segmentType = MsgType.ptp.code then
          some (.ptp frame.systemPayload frame.systemPayloadSize frame.source frame.dest)
        else if frame.segmentType = MsgType.group.code then
          some (.group frame.systemPayload frame.systemPayloadSize frame.source)
        else none
      else none := rfl

theorem Gateway.filterSystemMessages_eq_none {g : Gateway} {frame : Frame} :
    g.filterSystemMessages frame frame.source frame.dest = none ↔
      (g.Addressed frame → ¬ frame.IsSystem) := by
  rw [g.filterSystemMessages_eq frame]
  unfold Frame.IsSystem
  split_ifs with haddressed hptp hgroup
  · simp [haddressed, hptp]
  · simp [haddressed, hgroup]
  · simp [hptp, hgroup]
  · simp [haddressed]

namespace Gateway

/-- The gateway knows the source of every frame afterwards, if there is room. -/
theorem updateExternal_state (g : Gateway) (frame : Frame) : (g.updateExternal frame).1 =
    { g with shared.nearby := g.shared.nearby.register frame.header.shost } := by
  unfold updateExternal
  simp only
  by_cases hsmall : frame.dataLength < packetHeaderSize + macSize
  · rw [if_pos hsmall]
  · rw [if_neg hsmall]
    split
    · rfl
    · split_ifs <;> rfl

theorem updateExternal_outputs (g : Gateway) (frame : Frame) : (g.updateExternal frame).2 =
    if frame.dataLength < packetHeaderSize + macSize then []
    else (g.filterSystemMessages frame frame.source frame.dest).elim
      (if g.verifies frame then (g.send frame.source ⟨localAddr, Packet.dport frame.data⟩
        (load frame.data packetHeaderSize
          (frame.dataLength - packetHeaderSize - macSize))).toList else [])
      fun message => [message] := by
  have hregistered : ∀ nearby, (Gateway.mk g.address g.quadrant
      ⟨g.shared.sessionKey, g.shared.location, nearby⟩).filterSystemMessages frame
        ⟨frame.header.shost, Packet.sport frame.data⟩
        ⟨frame.header.dhost, Packet.dport frame.data⟩ =
      g.filterSystemMessages frame frame.source frame.dest := fun _ => rfl
  unfold updateExternal
  simp only [hregistered]
  by_cases hsmall : frame.dataLength < packetHeaderSize + macSize
  · rw [if_pos hsmall, if_pos hsmall]
  rw [if_neg hsmall, if_neg hsmall]
  cases hmessage : g.filterSystemMessages frame frame.source frame.dest with
  | some message => rfl
  | none =>
    simp only [Option.elim_none]
    by_cases hmac : g.verifies frame = true
    · have hequal := of_decide_eq_true hmac
      rw [if_pos hmac, if_neg (not_not.mpr hequal), send_local rfl, send_local rfl]
      rfl
    · have hdiffer : ¬ _ = _ := fun hequal => hmac (decide_eq_true hequal)
      rw [if_neg hmac, if_pos hdiffer]

end Gateway

namespace ProtocolState

@[simp] theorem emit_none (s : ProtocolState) : s.emit none = s := by
  simp [emit, outputBuses]

theorem foldl_bus (s : ProtocolState) (t : Moment) (x : Sending) :
    (x.output .bus).toList.foldl (fun s o => (s.handle t o).state) s = s.emit (x.output .bus) := by
  cases x with
  | refused => exact (emit_none s).symm
  | sent c => rfl
  | overrun => rfl

/-- What is sent for a frame that goes to the bus. -/
def relay (s : ProtocolState) (frame : Frame) : Option Output :=
  s.gateway.send frame.source ⟨localAddr, Packet.dport frame.data⟩
    (load frame.data packetHeaderSize (frame.dataLength - packetHeaderSize - macSize))

inductive UpdateCase (s : ProtocolState) (t : Moment) (frame : Frame) : UpdateOutcome → Prop
  | small : frame.dataLength < packetHeaderSize + macSize →
      UpdateCase s t frame ⟨s.register frame.header.shost, [], some .tooSmall⟩
  | ptp : packetHeaderSize + macSize ≤ frame.dataLength → s.gateway.Addressed frame →
      frame.segmentType = MsgType.ptp.code →
      UpdateCase s t frame ((s.register frame.header.shost).handle t
        (.ptp frame.systemPayload frame.systemPayloadSize frame.source frame.dest))
  | group : packetHeaderSize + macSize ≤ frame.dataLength → s.gateway.Addressed frame →
      frame.segmentType = MsgType.group.code →
      UpdateCase s t frame ((s.register frame.header.shost).handle t
        (.group frame.systemPayload frame.systemPayloadSize frame.source))
  | relayed : packetHeaderSize + macSize ≤ frame.dataLength →
      (s.gateway.Addressed frame → ¬ frame.IsSystem) → s.gateway.verifies frame = true →
      UpdateCase s t frame
        ((s.register frame.header.shost).answered (s.relay frame) none)
  | wrongMac : packetHeaderSize + macSize ≤ frame.dataLength →
      (s.gateway.Addressed frame → ¬ frame.IsSystem) → s.gateway.verifies frame = false →
      UpdateCase s t frame ⟨s.register frame.header.shost, [], some .wrongMac⟩

variable {s : ProtocolState} {t : Moment} {frame : Frame}

theorem update_case (s : ProtocolState) (t : Moment) (frame : Frame) :
    UpdateCase s t frame (s.update t frame) := by
  have hfilter : (s.register frame.header.shost).gateway.filterSystemMessages frame frame.source
      frame.dest = s.gateway.filterSystemMessages frame frame.source frame.dest := rfl
  have hverifies : (s.register frame.header.shost).gateway.verifies frame =
      s.gateway.verifies frame := rfl
  unfold update
  simp only [hfilter, hverifies]
  by_cases hsmall : frame.dataLength < packetHeaderSize + macSize
  · rw [if_pos hsmall]
    exact .small hsmall
  have hlength := Nat.not_lt.mp hsmall
  rw [if_neg hsmall]
  cases hmessage : s.gateway.filterSystemMessages frame frame.source frame.dest with
  | none =>
    have hnone := Gateway.filterSystemMessages_eq_none.mp hmessage
    cases hmac : s.gateway.verifies frame with
    | true => exact .relayed hlength hnone hmac
    | false => exact .wrongMac hlength hnone hmac
  | some message =>
    rw [s.gateway.filterSystemMessages_eq frame] at hmessage
    split_ifs at hmessage with haddressed hptp hgroup
    · cases hmessage
      exact .ptp hlength haddressed hptp
    · cases hmessage
      exact .group hlength haddressed hgroup

/-- The call handles what the gateway makes of the frame. -/
theorem update_state (s : ProtocolState) (t : Moment) (frame : Frame) :
    (s.update t frame).state =
      (s.gateway.updateExternal frame).2.foldl (fun s o => (s.handle t o).state)
        { s with gateway := (s.gateway.updateExternal frame).1 } := by
  have hregister : { s with gateway := (s.gateway.updateExternal frame).1 } =
      s.register frame.header.shost := by
    rw [Gateway.updateExternal_state]
    rfl
  have hfilter : (s.register frame.header.shost).gateway.filterSystemMessages frame frame.source
      frame.dest = s.gateway.filterSystemMessages frame frame.source frame.dest := rfl
  have hverifies : (s.register frame.header.shost).gateway.verifies frame =
      s.gateway.verifies frame := rfl
  rw [hregister, Gateway.updateExternal_outputs]
  unfold update
  simp only [hfilter, hverifies]
  by_cases hsmall : frame.dataLength < packetHeaderSize + macSize
  · rw [if_pos hsmall, if_pos hsmall]
    rfl
  rw [if_neg hsmall, if_neg hsmall]
  cases hmessage : s.gateway.filterSystemMessages frame frame.source frame.dest with
  | some message => rfl
  | none =>
    cases hmac : s.gateway.verifies frame with
    | false => rfl
    | true =>
      simp only [Option.elim_none, if_true]
      rw [Gateway.send_local rfl, Gateway.send_local rfl]
      exact (foldl_bus (s.register frame.header.shost) t _).symm

end ProtocolState
end CommunicationAPI
