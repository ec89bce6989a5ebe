import CommunicationAPI.MacTampering

/-!
# Frames brought to the minimum length by the link

`RawSocketEngine::send` leaves padding to the operating system, and the NIC of
the receiver takes the number of octets received for the length of the packet.
A packet short enough to be padded is then read with its end in the padding.
-/

namespace CommunicationAPI
open Octets

def minimumData : ℕ := 46

/-- The frame as a link delivers it that fills up short frames with zeros. -/
def WireFrame.padded (f : WireFrame) : WireFrame :=
  ⟨f.header, f.data ++ List.replicate (minimumData - f.data.length) 0⟩

theorem WireFrame.padded_eq_self {f : WireFrame} (h : minimumData ≤ f.data.length) :
    f.padded = f := by
  unfold padded
  rw [Nat.sub_eq_zero_of_le h, List.replicate_zero, List.append_nil]

theorem WireFrame.length_padded {f : WireFrame} (h : f.data.length ≤ minimumData) :
    f.padded.data.length = minimumData := by
  unfold padded
  rw [List.length_append, List.length_replicate]
  omega

/-- The segment is a message that the filter takes from every frame to this address. -/
def Gateway.TakesSegment (g : Gateway) (dst : MAC) (segment : List UInt8) : Prop :=
  (g.address.1 = dst ∨ broadcastAddr = dst) ∧
    (segment.head? = some MsgType.ptp.code ∨ segment.head? = some MsgType.group.code)

/-- The gateway accepts the frame and puts one frame on its bus, whose readers
find the segment and the ports. -/
def Gateway.RelaysExactly (g : Gateway) (rest : Memory) (f : WireFrame) (sp dp : Port)
    (segment : List UInt8) : Prop :=
  g.verifies (receivedFrame rest f) = true ∧
    ∃ c, outputBuses (g.handleReceive rest f).2 = [c] ∧ c.Delivers sp dp segment

namespace Gateway
variable {g : Gateway} {sender : InterfaceAddress} {key : SessionKey} {src dst : Address}
  {segment : List UInt8} (h : packetHeaderSize + segment.length + macSize ≤ mtu) (rest : Memory)

/-- What a gateway of the same quadrant finds in a frame made by `_send_frame`. -/
theorem received_holds (loc : Quadrant) :
    Packet.Holds (receivedFrame rest (rawSend sender (packetCall loc key src dst segment h))).data
      loc src.port dst.port segment key :=
  Packet.holds_store rest

/-- Zeros behind a packet leave the packet in place. -/
theorem padded_holds (loc : Quadrant) :
    Packet.Holds
      (receivedFrame rest (rawSend sender (packetCall loc key src dst segment h)).padded).data
      loc src.port dst.port segment key := by
  rw [Packet.holds_iff]
  change load (store rest 0 (Packet.octets loc src.port dst.port segment key ++ _)) 0 _ = _
  rw [load_store_of_le rest (by simp), List.drop_zero, ← Packet.length_octets, List.take_left]

/-- The frame reaches `update`, padded or not. -/
theorem handleReceive_holds {f : WireFrame} {loc : Quadrant} {sp dp : Port}
    (hholds : Packet.Holds (receivedFrame rest f).data loc sp dp segment key)
    (hsource : f.header.shost ≠ g.address.1) (hloc : loc = g.quadrant)
    (htype : ntohs f.header.type = ethernetProtocolNumber) :
    g.handleReceive rest f = g.updateExternal (receivedFrame rest f) := by
  refine handleReceive_eq rest hsource ?_ htype
  rw [hholds.location_eq, hloc]

theorem takesSegment_iff {frame : Frame} {loc : Quadrant} {sp dp : Port}
    (hholds : Packet.Holds frame.data loc sp dp segment key)
    (hdst : frame.header.dhost = dst.paddr) (hsegment : segment ≠ []) :
    (g.Addressed frame ∧ frame.IsSystem) ↔ g.TakesSegment dst.paddr segment := by
  obtain ⟨b, l, rfl⟩ := List.exists_cons_of_ne_nil hsegment
  have htype : frame.segmentType = b := hholds.type_eq rfl
  unfold Addressed Frame.IsSystem TakesSegment
  rw [hdst, htype, List.head?_cons, Option.some.injEq, Option.some.injEq]

/-- A call of `send` that ends on the link has put a complete packet there. -/
theorem send_eq_link {f : WireFrame} (hsend : g.send src dst segment = some (.link f)) :
    ∃ h : packetHeaderSize + segment.length + macSize ≤ mtu,
      f = rawSend g.address (packetCall g.quadrant g.shared.sessionKey src dst segment h) := by
  unfold send at hsend
  rw [sendFrame_eq, sendFrame_eq] at hsend
  by_cases h : packetHeaderSize + segment.length + macSize ≤ mtu
  · rw [dif_pos h, dif_pos h] at hsend
    split_ifs at hsend
    · cases hsend
      exact ⟨h, rfl⟩
    · cases hsend
  · rw [dif_neg h, dif_neg h] at hsend
    split_ifs at hsend <;> cases hsend

theorem verifies_of_holds {frame : Frame} {loc : Quadrant} {sp dp : Port}
    (hholds : Packet.Holds frame.data loc sp dp segment g.shared.sessionKey)
    (hlength : frame.dataLength = packetHeaderSize + segment.length + macSize) :
    g.verifies frame = true := by
  have hchecked : frame.dataLength - macSize = packetHeaderSize + segment.length := by omega
  unfold verifies
  rw [hchecked, hholds.checked, hholds.mac, decode_macOctets]
  exact decide_eq_true rfl

/-- A complete packet is relayed exactly, unless the filter takes it. -/
theorem relaysExactly_iff {f : WireFrame} {loc : Quadrant}
    (hholds : Packet.Holds (receivedFrame rest f).data loc src.port dst.port segment
      g.shared.sessionKey)
    (hlength : f.data.length = packetHeaderSize + segment.length + macSize)
    (hfits : packetHeaderSize + segment.length + macSize ≤ mtu)
    (hreach : g.handleReceive rest f = g.updateExternal (receivedFrame rest f)) :
    g.RelaysExactly rest f src.port dst.port segment ↔
      ¬ (g.Addressed (receivedFrame rest f) ∧ (receivedFrame rest f).IsSystem) := by
  have hverifies := verifies_of_holds hholds hlength
  unfold RelaysExactly
  rw [hreach]
  constructor
  · rintro ⟨-, c, hc, -⟩
    have hne : outputBuses (g.updateExternal (receivedFrame rest f)).2 ≠ [] := by
      rw [hc]
      exact List.cons_ne_nil _ _
    have hrelays := (outputBuses_updateExternal (hlength.le.trans hfits)).1.mp hne
    exact fun htaken => hrelays.2.1 htaken.1 htaken.2
  · intro hnot
    have hnone : g.filterSystemMessages (receivedFrame rest f) (receivedFrame rest f).source
        (receivedFrame rest f).dest = none :=
      filterSystemMessages_eq_none.mpr fun haddressed hsystem => hnot ⟨haddressed, hsystem⟩
    have hsmall : ¬ (receivedFrame rest f).dataLength < packetHeaderSize + macSize := by
      change ¬ f.data.length < _
      omega
    have hsize : (receivedFrame rest f).dataLength - packetHeaderSize - macSize =
        segment.length := by
      change f.data.length - _ - _ = _
      omega
    have hsource : (receivedFrame rest f).source = ⟨f.header.shost, src.port⟩ := by
      unfold Frame.source
      rw [hholds.sport_eq]
      rfl
    refine ⟨hverifies, packetCall g.shared.location g.shared.sessionKey
      ⟨f.header.shost, src.port⟩ ⟨localAddr, dst.port⟩ segment hfits, ?_,
      packetCall_delivers hfits⟩
    rw [updateExternal_outputs, if_neg hsmall, hnone, Option.elim_none, if_pos hverifies, hsize,
      hholds.segment_eq, hholds.dport_eq, hsource, send_local rfl, sendFrame_eq, dif_pos hfits]
    rfl

/-- A packet read up to the end of its padding is relayed with another length, if at all. -/
theorem not_relaysExactly_padded {f : WireFrame}
    (hlength : f.data.length < minimumData) {sp dp : Port}
    (hpacket : f.data.length = packetHeaderSize + segment.length + macSize)
    (hreach : g.handleReceive rest f.padded = g.updateExternal (receivedFrame rest f.padded)) :
    ¬ g.RelaysExactly rest f.padded sp dp segment := by
  rintro ⟨-, c, hc, hdelivers⟩
  rw [hreach] at hc
  have hpadded : (receivedFrame rest f.padded).dataLength = minimumData :=
    WireFrame.length_padded hlength.le
  have hrelayed := (outputBuses_updateExternal (by rw [hpadded]; decide)).2 c
    (by rw [hc]; exact List.mem_singleton_self c) rest
  have hsegment := congrArg List.length (hdelivers.segment_eq rest)
  rw [length_load, hrelayed.dataLength, hpadded] at hsegment
  unfold minimumData packetHeaderSize macSize at *
  omega

/-- A segment that a gateway sends over the link survives padding if and only if
its packet is too long to be padded and the filter of the receiver does not take it. -/
theorem survives_padding_iff (A B : Gateway) (src dst : Address) (segment : List UInt8)
    (f : WireFrame) (rest : Memory) (hsend : A.send src dst segment = some (.link f))
    (haddress : A.address ≠ B.address) (hquadrant : A.quadrant = B.quadrant)
    (hkey : A.shared.sessionKey = B.shared.sessionKey) :
    (∀ f', f' = f ∨ f' = f.padded → B.RelaysExactly rest f' src.port dst.port segment) ↔
      33 ≤ segment.length ∧ ¬ B.TakesSegment dst.paddr segment := by
  obtain ⟨h, rfl⟩ := send_eq_link hsend
  rw [hkey] at hsend ⊢
  let f := rawSend A.address (packetCall A.quadrant B.shared.sessionKey src dst segment h)
  have hsource : f.header.shost ≠ B.address.1 := fun heq => haddress (Subtype.ext heq)
  have hlength : f.data.length = packetHeaderSize + segment.length + macSize := length_packetCall h
  have hholds : Packet.Holds (receivedFrame rest f).data A.quadrant src.port dst.port segment
      B.shared.sessionKey := received_holds h rest A.quadrant
  have hpadded : Packet.Holds (receivedFrame rest f.padded).data A.quadrant src.port dst.port
      segment B.shared.sessionKey := padded_holds h rest A.quadrant
  have hreach := handleReceive_holds rest hholds hsource hquadrant (ntohs_htons _)
  have hreachPadded := handleReceive_holds rest hpadded hsource hquadrant (ntohs_htons _)
  have hexact := relaysExactly_iff rest hholds hlength h hreach
  constructor
  · intro hall
    have hlong : 33 ≤ segment.length := by
      by_contra hshort
      refine not_relaysExactly_padded rest ?_ hlength hreachPadded (hall _ (.inr rfl))
      rw [hlength]
      unfold packetHeaderSize macSize minimumData
      omega
    refine ⟨hlong, ?_⟩
    rw [← takesSegment_iff hholds rfl (List.ne_nil_of_length_pos (by omega))]
    exact hexact.mp (hall _ (.inl rfl))
  · rintro ⟨hlong, hnot⟩
    have hself : f.padded = f := by
      refine WireFrame.padded_eq_self ?_
      rw [hlength]
      unfold packetHeaderSize macSize minimumData
      omega
    rw [← takesSegment_iff hholds rfl (List.ne_nil_of_length_pos (by omega))] at hnot
    rintro f' (rfl | rfl)
    · exact hexact.mpr hnot
    · rw [show WireFrame.padded _ = f from hself]
      exact hexact.mpr hnot

def broadcastSegment (n : ℕ) : List UInt8 := MsgType.teds.code :: List.replicate n 1

theorem northGateway_send (n : ℕ)
    (h : packetHeaderSize + (broadcastSegment n).length + macSize ≤ mtu) :
    (northGateway 1 7).send ⟨localAddr, 5⟩ ⟨broadcastAddr, 0⟩ (broadcastSegment n) =
      some (.link (rawSend (northGateway 1 7).address
        (packetCall .north 7 ⟨localAddr, 5⟩ ⟨broadcastAddr, 0⟩ (broadcastSegment n) h))) := by
  rw [send_broadcast rfl, sendFrame_eq, dif_pos h]
  rfl

theorem survives_padding_of_long_segment :
    ∃ f, (northGateway 1 7).send ⟨localAddr, 5⟩ ⟨broadcastAddr, 0⟩ (broadcastSegment 40) =
        some (.link f) ∧
      ∀ f', f' = f ∨ f' = f.padded →
        (northGateway 2 7).RelaysExactly (fun _ => 0) f' 5 0 (broadcastSegment 40) := by
  have hsend := northGateway_send 40 (by decide)
  refine ⟨_, hsend, ?_⟩
  refine (survives_padding_iff (northGateway 1 7) (northGateway 2 7) ⟨localAddr, 5⟩
    ⟨broadcastAddr, 0⟩ (broadcastSegment 40) _ (fun _ => 0) hsend
    (northGateway_address_inj.not.mpr (by decide)) rfl rfl).mpr ⟨by decide, ?_⟩
  rintro ⟨-, hptp | hgroup⟩
  · exact absurd hptp (by decide)
  · exact absurd hgroup (by decide)

/-- A segment of 17 octets is accepted as it was sent and rejected once padded. -/
theorem short_segment_lost_in_padding :
    ∃ f, (northGateway 1 7).send ⟨localAddr, 5⟩ ⟨broadcastAddr, 0⟩ (broadcastSegment 16) =
        some (.link f) ∧
      (northGateway 2 7).verifies (receivedFrame (fun _ => 0) f) = true ∧
      (northGateway 2 7).verifies (receivedFrame (fun _ => 0) f.padded) = false ∧
      ¬ (northGateway 2 7).RelaysExactly (fun _ => 0) f.padded 5 0 (broadcastSegment 16) := by
  have hrejected : (northGateway 2 7).verifies (receivedFrame (fun _ => 0)
      (rawSend (northGateway 1 7).address (packetCall .north 7 ⟨localAddr, 5⟩ ⟨broadcastAddr, 0⟩
        (broadcastSegment 16) (by decide))).padded) = false := by
    decide +kernel
  refine ⟨_, northGateway_send 16 (by decide), ?_, hrejected, fun hrelays => ?_⟩
  · exact verifies_of_holds (received_holds _ _ .north) rfl
  · exact absurd hrelays.1 (by rw [hrejected]; exact Bool.false_ne_true)

end Gateway
end CommunicationAPI
