import CommunicationAPI.EndToEnd

/-!
# System messages

PTP and group segments end at the gateway that receives them: the payload of
the segment is passed to the handler of its type.
-/

namespace CommunicationAPI
open Octets ShmEngine

def MsgType.IsSystem (t : MsgType) : Prop := t = .ptp ∨ t = .group

structure WireFrame.Has (f : WireFrame) (sport dport : Port) (s : Segment) : Prop where
  type_eq : ntohs f.header.type = ethernetProtocolNumber
  packet : ∃ loc key, f.data = Packet.octets loc sport dport s.getBytes key

def WireFrame.stamp (f : WireFrame) : Option UInt8 := f.data[0]?

def WireFrame.payload (rest : Memory) (f : WireFrame) : Memory := fun i =>
  store rest 0 f.data (packetHeaderSize + (segmentHeaderSize + i))

def WireFrame.payloadSize (f : WireFrame) : ℕ :=
  (f.data.length + 2 ^ 64 - (packetHeaderSize + macSize + segmentHeaderSize)) % 2 ^ 64

namespace WireFrame.Has
variable {f : WireFrame} {sp dp : Port} {s : Segment}

theorem getElem?_data (h : f.Has sp dp s) {i : ℕ} (hi : i < s.payload.length) :
    f.data[packetHeaderSize + (segmentHeaderSize + i)]? = s.payload[i]? := by
  obtain ⟨loc, key, hdata⟩ := h.packet
  have hseg : i + segmentHeaderSize < s.getBytes.length := by
    rw [Segment.length_getBytes]
    omega
  have hheader : (Packet.header loc sp dp).length = packetHeaderSize := Packet.length_header
  rw [hdata, Packet.octets, List.append_assoc,
    List.getElem?_append_right (by omega), List.getElem?_append_left (by omega)]
  have hsub : packetHeaderSize + (segmentHeaderSize + i) - (Packet.header loc sp dp).length =
      8 + i + 1 := by
    rw [hheader, segmentHeaderSize]
    omega
  rw [hsub, Segment.getBytes, List.getElem?_cons_succ, List.getElem?_append_right (by simp)]
  simp

theorem payload_apply (h : f.Has sp dp s) (rest : Memory) {i : ℕ} (hi : i < s.payload.length) :
    f.payload rest i = s.payload[i] := by
  have hat := h.getElem?_data hi
  rw [List.getElem?_eq_getElem hi] at hat
  unfold WireFrame.payload store
  rw [if_pos (Nat.zero_le _), Nat.sub_zero, List.getD_eq_getElem?_getD, hat]
  rfl

theorem load_payload (h : f.Has sp dp s) (rest : Memory) :
    load (f.payload rest) 0 s.payload.length = s.payload := by
  apply List.ext_getElem
  · exact length_load _ _ _
  · intro i hi hi'
    simp [load, h.payload_apply rest hi']

theorem length_data (h : f.Has sp dp s) :
    f.data.length = overhead + s.payload.length := by
  obtain ⟨loc, key, hdata⟩ := h.packet
  rw [hdata, Packet.length_octets, Segment.length_getBytes, overhead]
  omega

theorem payloadSize_eq (h : f.Has sp dp s) (hsize : f.data.length ≤ mtu) :
    f.payloadSize = s.payload.length := by
  have hlength := h.length_data
  unfold WireFrame.payloadSize
  unfold mtu at hsize
  unfold overhead at hlength
  omega

theorem payload_zero (h : f.Has sp dp s) (rest : Memory) {t : UInt8}
    (ht : s.payload.head? = some t) : f.payload rest 0 = t := by
  have hpos : 0 < s.payload.length := by
    cases hs : s.payload with
    | nil => simp [hs] at ht
    | cons => simp
  rw [h.payload_apply rest hpos]
  rw [List.head?_eq_getElem?, List.getElem?_eq_getElem hpos] at ht
  exact Option.some.inj ht

theorem holds (h : f.Has sp dp s) (rest : Memory) :
    ∃ loc key, Packet.Holds (Gateway.receivedFrame rest f).data loc sp dp s.getBytes key := by
  obtain ⟨loc, key, hdata⟩ := h.packet
  use loc, key
  unfold Gateway.receivedFrame
  rw [hdata]
  exact Packet.holds_store rest

theorem segment_type (h : f.Has sp dp s) (rest : Memory) :
    (Gateway.receivedFrame rest f).data packetHeaderSize = s.type.code := by
  obtain ⟨loc, key, hholds⟩ := h.holds rest
  exact hholds.type_eq s.head_getBytes

theorem source (h : f.Has sp dp s) (rest : Memory) :
    Packet.sport (Gateway.receivedFrame rest f).data = sp ∧
      Packet.dport (Gateway.receivedFrame rest f).data = dp := by
  obtain ⟨loc, key, hholds⟩ := h.holds rest
  exact ⟨hholds.sport_eq, hholds.dport_eq⟩

end WireFrame.Has

def outputGroup (l : List Output) : Option (Memory × ℕ × Address) :=
  l.findSome? fun o => match o with
    | .group payload size source => some (payload, size, source)
    | _ => none

def outputPtp (l : List Output) : Option (Memory × ℕ × Address × Address) :=
  l.findSome? fun o => match o with
    | .ptp payload size source dest => some (payload, size, source, dest)
    | _ => none

structure NoMessage (l : List Output) : Prop where
  group : outputGroup l = none
  ptp : outputPtp l = none

/-- The station sees the frame: it is another's, from its quadrant and addressed to it. -/
structure Gateway.Accepts (g : Gateway) (f : WireFrame) : Prop where
  foreign : f.header.shost ≠ g.address.1
  quadrant : f.stamp = some g.quadrant.code
  dest : f.header.dhost = g.address.1 ∨ f.header.dhost = broadcastAddr

namespace Gateway
variable {g : Gateway} {f : WireFrame} {sp dp : Port} {s : Segment}

def systemMessage (rest : Memory) (f : WireFrame) (type : MsgType) (sp dp : Port) :
    Option Output :=
  match type with
  | .ptp => some (.ptp (f.payload rest) f.payloadSize ⟨f.header.shost, sp⟩ ⟨f.header.dhost, dp⟩)
  | .group => some (.group (f.payload rest) f.payloadSize ⟨f.header.shost, sp⟩)
  | _ => none

theorem updateExternal_message {frame : Frame} {o : Output}
    (hlength : packetHeaderSize + macSize ≤ frame.dataLength)
    (ho : g.filterSystemMessages frame ⟨frame.header.shost, Packet.sport frame.data⟩
      ⟨frame.header.dhost, Packet.dport frame.data⟩ = some o) : (g.updateExternal frame).2 = [o] := by
  have hregistered : ∀ nearby, (Gateway.mk g.address g.quadrant
      ⟨g.shared.sessionKey, g.shared.location, nearby⟩).filterSystemMessages frame
        ⟨frame.header.shost, Packet.sport frame.data⟩
        ⟨frame.header.dhost, Packet.dport frame.data⟩ = some o := fun _ => ho
  unfold updateExternal
  simp only [if_neg (Nat.not_lt.mpr hlength), hregistered]

theorem filterSystemMessages_received (rest : Memory) (hhas : f.Has sp dp s)
    (hsystem : s.type.IsSystem) (hdest : f.header.dhost = g.address.1 ∨
      f.header.dhost = broadcastAddr) :
    g.filterSystemMessages (receivedFrame rest f) ⟨f.header.shost, sp⟩ ⟨f.header.dhost, dp⟩ =
      systemMessage rest f s.type sp dp := by
  have htype : (receivedFrame rest f).data (packetHeaderSize + 0) = s.type.code :=
    hhas.segment_type rest
  unfold filterSystemMessages
  simp only [htype]
  rw [if_pos (hdest.imp Eq.symm Eq.symm)]
  rcases hsystem with hs | hs
  · rw [hs]
    rfl
  · rw [hs]
    rfl

/-- A system message reaches the handler of its type. -/
theorem handleReceive_system (rest : Memory) (haccepts : g.Accepts f) (hhas : f.Has sp dp s)
    (hsystem : s.type.IsSystem) :
    (g.handleReceive rest f).2 = (systemMessage rest f s.type sp dp).toList := by
  have hloc : Packet.location (receivedFrame rest f).data = g.quadrant.code := by
    have hstamp := haccepts.quadrant
    unfold WireFrame.stamp at hstamp
    simp [Packet.location, receivedFrame, store, hstamp]
  have hlength : packetHeaderSize + macSize ≤ (receivedFrame rest f).dataLength := by
    have hdata : (receivedFrame rest f).dataLength = overhead + s.payload.length := hhas.length_data
    rw [hdata, overhead]
    omega
  obtain ⟨hsport, hdport⟩ := hhas.source rest
  have hfilter := filterSystemMessages_received (g := g) rest hhas hsystem haccepts.dest
  rw [handleReceive_eq rest haccepts.foreign hloc hhas.type_eq]
  obtain ⟨o, ho⟩ : ∃ o, systemMessage rest f s.type sp dp = some o := by
    rcases hsystem with hs | hs
    · rw [hs]
      exact ⟨_, rfl⟩
    · rw [hs]
      exact ⟨_, rfl⟩
  rw [ho] at hfilter ⊢
  apply updateExternal_message hlength
  rw [hsport, hdport]
  exact hfilter

theorem system_received (rest : Memory) (haccepts : g.Accepts f) (hhas : f.Has sp dp s) :
    (s.type = .group → outputGroup (g.handleReceive rest f).2 =
        some (f.payload rest, f.payloadSize, ⟨f.header.shost, sp⟩)) ∧
      (s.type = .ptp → outputPtp (g.handleReceive rest f).2 =
        some (f.payload rest, f.payloadSize, ⟨f.header.shost, sp⟩, ⟨f.header.dhost, dp⟩)) := by
  constructor
  · intro ht
    rw [handleReceive_system rest haccepts hhas (.inr ht), ht]
    rfl
  · intro ht
    rw [handleReceive_system rest haccepts hhas (.inl ht), ht]
    rfl

theorem updateExternal_noMessage {frame : Frame}
    (hdest : ¬ (g.address.1 = frame.header.dhost ∨ broadcastAddr = frame.header.dhost)) :
    NoMessage (g.updateExternal frame).2 := by
  have hnone : ∀ nearby, (Gateway.mk g.address g.quadrant
      ⟨g.shared.sessionKey, g.shared.location, nearby⟩).filterSystemMessages frame
        ⟨frame.header.shost, Packet.sport frame.data⟩
        ⟨frame.header.dhost, Packet.dport frame.data⟩ = none := by
    intro nearby
    unfold filterSystemMessages
    rw [if_neg hdest]
  unfold updateExternal
  simp only [hnone]
  split_ifs
  · exact ⟨rfl, rfl⟩
  · exact ⟨rfl, rfl⟩
  · rw [send_local rfl, sendFrame_eq]
    split_ifs <;> exact ⟨rfl, rfl⟩

/-- A frame that the station does not accept reaches no handler. -/
theorem system_refused (rest : Memory) (hrefused : ¬ g.Accepts f) (hhas : f.Has sp dp s) :
    NoMessage (g.handleReceive rest f).2 := by
  obtain ⟨loc, key, hdata⟩ := hhas.packet
  by_cases hforeign : f.header.shost = g.address.1
  · rw [handleReceive_own rest hforeign]
    exact ⟨rfl, rfl⟩
  have hstamp : f.stamp = some loc.code := by
    unfold WireFrame.stamp
    rw [hdata]
    rfl
  have hlocation : Packet.location (receivedFrame rest f).data = loc.code := by
    simp [Packet.location, receivedFrame, store, hdata, Packet.octets, Packet.header]
  by_cases hquadrant : loc.code = g.quadrant.code
  · rw [handleReceive_eq rest hforeign (hlocation.trans hquadrant) hhas.type_eq]
    apply updateExternal_noMessage
    intro hdest
    exact hrefused ⟨hforeign, by rw [hstamp, hquadrant], hdest.imp Eq.symm Eq.symm⟩
  · have hfiltered : g.filterLocation (receivedFrame rest f) = true := by
      unfold filterLocation
      rw [hlocation]
      simpa using hquadrant
    unfold handleReceive
    unfold receivedFrame at hfiltered
    simp only [if_neg hforeign, hfiltered, if_true]
    exact ⟨rfl, rfl⟩

/-- The external side of the gateway changes nothing but the nearby list. -/
theorem handleReceive_fst (rest : Memory) (f : WireFrame) : ∃ nearby,
    (g.handleReceive rest f).1 = { g with shared.nearby := nearby } := by
  unfold handleReceive
  simp only
  split_ifs
  · exact ⟨g.shared.nearby, rfl⟩
  · exact ⟨g.shared.nearby, rfl⟩
  · use g.shared.nearby.register f.header.shost
    unfold updateExternal
    simp only
    split_ifs
    · rfl
    · split <;> rfl
    · split <;> rfl
  · exact ⟨g.shared.nearby, rfl⟩

theorem handleReceive_address (g : Gateway) (rest : Memory) (f : WireFrame) :
    (g.handleReceive rest f).1.address = g.address := by
  obtain ⟨nearby, hg⟩ := g.handleReceive_fst rest f
  rw [hg]

theorem handleReceive_sessionKey (g : Gateway) (rest : Memory) (f : WireFrame) :
    (g.handleReceive rest f).1.shared.sessionKey = g.shared.sessionKey := by
  obtain ⟨nearby, hg⟩ := g.handleReceive_fst rest f
  rw [hg]

/-- A frame that the gateway has put on the link to carry a segment. -/
structure Sent (g : Gateway) (src dst : Address) (s : Segment) (f : WireFrame) : Prop where
  has : f.Has src.port dst.port s
  shost : f.header.shost = g.address.1
  dhost : f.header.dhost = dst.paddr
  stamp : f.stamp = some g.quadrant.code
  length_le : f.data.length ≤ mtu

theorem sent_packet {src dst : Address}
    (h : packetHeaderSize + s.getBytes.length + macSize ≤ mtu) :
    g.Sent src dst s (rawSend g.address
      (packetCall g.quadrant g.shared.sessionKey src dst s.getBytes h)) where
  has := ⟨ntohs_htons _, _, _, rfl⟩
  shost := rfl
  dhost := rfl
  stamp := rfl
  length_le := (packetCall g.quadrant g.shared.sessionKey src dst s.getBytes h).size_le

theorem outputLinks_send (src dst : Address) (hown : dst.paddr ≠ g.address.1)
    (hlocal : dst.paddr ≠ localAddr) (hsize : overhead + s.payload.length ≤ mtu) :
    ∃ f, outputLinks (g.send src dst s.getBytes).toList = [f] ∧ g.Sent src dst s f := by
  have h : packetHeaderSize + s.getBytes.length + macSize ≤ mtu := by
    rw [Segment.length_getBytes]
    unfold overhead at hsize
    omega
  unfold send
  rw [if_pos ⟨hown, hlocal⟩, sendFrame_eq, dif_pos h]
  exact ⟨_, rfl, sent_packet h⟩

theorem sent_of_mem {src dst : Address}
    (hf : f ∈ outputLinks (g.send src dst s.getBytes).toList) : g.Sent src dst s f := by
  unfold send at hf
  split_ifs at hf
  · rw [outputLinks_link, call_sendFrame] at hf
    split_ifs at hf with h
    · cases List.mem_singleton.mp hf
      exact sent_packet h
    · cases hf
  · rw [outputLinks_bus] at hf
    cases hf

end Gateway
end CommunicationAPI
