import CommunicationAPI.Protocol

/-!
# From one bus to another

A component's broadcast is framed for the bus, framed again for the link by its
own gateway and framed a third time by every gateway that accepts it.
-/

namespace CommunicationAPI
open Octets ShmEngine

/-- A slot that carries a call holds the frame of that call. -/
theorem ShmEngine.MessageSlot.Carries.frame_eq {slot : MessageSlot} {c : SendCall} {t : ℕ}
    (h : slot.Carries c t) : slot.frame = busFrame slot.frame.data c := by
  have hdata : slot.frame.data = store slot.frame.data 0 c.data := by
    funext i
    by_cases hi : i < c.data.length
    · rw [h.data i hi]
      simp [store, hi]
    · rw [store_apply_of_le _ _ (by omega)]
  unfold busFrame
  rw [← h.header, ← h.dataLength, ← hdata]

/-- What a reader of the bus makes of a call: the ports and the segment, whatever
the octets behind the data. -/
structure ShmEngine.SendCall.Delivers (c : SendCall) (sport dport : Port)
    (segment : List UInt8) : Prop where
  sport_eq : ∀ rest, Packet.sport (busFrame rest c).data = sport
  dport_eq : ∀ rest, Packet.dport (busFrame rest c).data = dport
  segment_eq : ∀ rest, load (busFrame rest c).data packetHeaderSize
    ((busFrame rest c).dataLength - packetHeaderSize - macSize) = segment

section
variable {loc : Quadrant} {key : SessionKey} {src dst : Address} {segment : List UInt8}
  (h : packetHeaderSize + segment.length + macSize ≤ mtu)

theorem busFrame_packetCall_holds (rest : Memory) :
    Packet.Holds (busFrame rest (packetCall loc key src dst segment h)).data loc src.port dst.port
      segment key :=
  Packet.holds_store rest

@[simp] theorem length_packetCall :
    (packetCall loc key src dst segment h).data.length =
      packetHeaderSize + segment.length + macSize :=
  Packet.length_octets

theorem packetCall_delivers :
    (packetCall loc key src dst segment h).Delivers src.port dst.port segment where
  sport_eq rest := (busFrame_packetCall_holds h rest).sport_eq
  dport_eq rest := (busFrame_packetCall_holds h rest).dport_eq
  segment_eq rest := by
    have hsize : (busFrame rest (packetCall loc key src dst segment h)).dataLength -
        packetHeaderSize - macSize = segment.length := by
      simp only [busFrame, length_packetCall]
      omega
    rw [hsize]
    exact (busFrame_packetCall_holds h rest).segment_eq

end

/-- The messages of the application: control and TEDS segments. -/
def MsgType.IsData (t : MsgType) : Prop := t = .control ∨ t = .teds

instance : DecidablePred MsgType.IsData := fun t =>
  inferInstanceAs (Decidable (t = .control ∨ t = .teds))

/-- `sizeof` of everything in a packet but the segment's payload. -/
def overhead : ℕ := packetHeaderSize + segmentHeaderSize + macSize

def outputBuses (l : List Output) : List SendCall :=
  l.filterMap fun o => match o with
    | .bus c => some c
    | _ => none

def outputLinks (l : List Output) : List WireFrame :=
  l.filterMap fun o => match o with
    | .link f => some f
    | _ => none

section
variable (x : Sending) (f : SendCall → WireFrame)

theorem outputBuses_bus : outputBuses (x.output .bus).toList = x.call.toList := by
  cases x <;> rfl

theorem outputLinks_bus : outputLinks (x.output .bus).toList = [] := by
  cases x <;> rfl

theorem outputBuses_link : outputBuses (x.output fun c => .link (f c)).toList = [] := by
  cases x <;> rfl

theorem outputLinks_link :
    outputLinks (x.output fun c => .link (f c)).toList = x.call.toList.map f := by
  cases x <;> rfl

end

theorem localAddr_ne_broadcastAddr : localAddr ≠ broadcastAddr := by decide

namespace Gateway
variable {g : Gateway} {src dst : Address} {data segment : List UInt8}

theorem send_broadcast (hdst : dst.paddr = broadcastAddr) :
    g.send src dst data = (sendFrame g.quadrant g.shared.sessionKey src dst data).output
      fun c => .link (rawSend g.address c) := by
  unfold send
  rw [if_pos]
  rw [hdst]
  exact ⟨g.address.2.symm, localAddr_ne_broadcastAddr.symm⟩

theorem send_local (hdst : dst.paddr = localAddr) :
    g.send src dst data =
      (sendFrame g.shared.location g.shared.sessionKey src dst data).output .bus := by
  unfold send
  rw [if_neg fun h => h.2 hdst]

theorem receiveLocal_eq {c : SendCall} (rest : Memory) (hc : c.protocol = ethernetProtocolNumber) :
    g.receiveLocal rest c = g.updateLocal (busFrame rest c) := by
  have htype : ntohs (busFrame rest c).header.type = ethernetProtocolNumber := by
    rw [← hc]
    exact ntohs_htons _
  unfold receiveLocal
  simp only [if_pos htype]

variable {loc : Quadrant} {key : SessionKey}

/-- The gateway frames a broadcast it finds on its bus again and puts it on the link. -/
theorem receiveLocal_broadcast (rest : Memory) (hdst : dst.paddr = broadcastAddr)
    (h : packetHeaderSize + segment.length + macSize ≤ mtu) :
    g.receiveLocal rest (packetCall loc key src dst segment h) =
      .link (rawSend g.address (packetCall g.quadrant g.shared.sessionKey
        ⟨g.address.1, src.port⟩ dst segment h)) ::
        if dst.port = typeBasedRoutingPort then [.notify dst.port] else [] := by
  have hholds : Packet.Holds (busFrame rest (packetCall loc key src dst segment h)).data loc
      src.port dst.port segment key := busFrame_packetCall_holds h rest
  have hsize : (packetHeaderSize + segment.length + macSize + uint32 -
      (packetHeaderSize + macSize)) % uint32 = segment.length := by
    have hseg : segment.length ≤ mtu := by omega
    unfold mtu at hseg
    unfold uint32
    omega
  have hdhost : (busFrame rest (packetCall loc key src dst segment h)).header.dhost = dst.paddr :=
    rfl
  have hlength : (busFrame rest (packetCall loc key src dst segment h)).dataLength =
      packetHeaderSize + segment.length + macSize := length_packetCall h
  rw [receiveLocal_eq rest rfl]
  unfold updateLocal
  simp only [hholds.dport_eq, hholds.sport_eq, hdhost, hlength, hsize, hholds.segment_eq]
  rw [if_pos hdst, send_broadcast hdst, sendFrame_eq, dif_pos h]
  rfl

theorem outputs_broadcast (loc : Quadrant) (key : SessionKey) (src : Address) (rest : Memory)
    (hdst : dst.paddr = broadcastAddr)
    (h : packetHeaderSize + segment.length + macSize ≤ mtu) :
    outputBuses (g.receiveLocal rest (packetCall loc key src dst segment h)) = [] ∧
      outputLinks (g.receiveLocal rest (packetCall loc key src dst segment h)) =
        [rawSend g.address (packetCall g.quadrant g.shared.sessionKey
          ⟨g.address.1, src.port⟩ dst segment h)] := by
  rw [receiveLocal_broadcast rest hdst h]
  split_ifs <;> exact ⟨rfl, rfl⟩

def receivedFrame (rest : Memory) (f : WireFrame) : Frame :=
  ⟨f.header, store rest 0 f.data, f.data.length⟩

theorem handleReceive_own (rest : Memory) {f : WireFrame} (hf : f.header.shost = g.address.1) :
    g.handleReceive rest f = (g, []) := by
  unfold handleReceive
  rw [if_pos hf]

/-- A frame of another station in the quadrant reaches the protocol. -/
theorem handleReceive_eq (rest : Memory) {f : WireFrame} (hf : f.header.shost ≠ g.address.1)
    (hloc : Packet.location (receivedFrame rest f).data = g.quadrant.code)
    (htype : ntohs f.header.type = ethernetProtocolNumber) :
    g.handleReceive rest f = g.updateExternal (receivedFrame rest f) := by
  unfold receivedFrame at hloc
  unfold handleReceive filterLocation receivedFrame
  rw [if_neg hf]
  simp [hloc, htype]

theorem filterSystemMessages_data {frame : Frame} {source dest : Address} {t : MsgType}
    (ht : t.IsData) (hframe : frame.data packetHeaderSize = t.code) :
    g.filterSystemMessages frame source dest = none := by
  unfold filterSystemMessages
  simp only [Nat.add_zero, hframe]
  rcases ht with rfl | rfl <;> simp [MsgType.code]

/-- The gateway puts a frame of the link on its bus if and only if it was
authenticated with the gateway's own key. -/
theorem updateExternal_packet {frame : Frame} {sp dp : Port} {t : MsgType}
    (hholds : Packet.Holds frame.data loc sp dp segment key)
    (hlength : frame.dataLength = packetHeaderSize + segment.length + macSize)
    (h : packetHeaderSize + segment.length + macSize ≤ mtu)
    (ht : t.IsData) (hsegment : segment.head? = some t.code) :
    (g.updateExternal frame).2 =
      if key = g.shared.sessionKey then
        [.bus (packetCall g.shared.location g.shared.sessionKey ⟨frame.header.shost, sp⟩
          ⟨localAddr, dp⟩ segment h)]
      else [] := by
  have hchecked : frame.dataLength - macSize = packetHeaderSize + segment.length := by omega
  have hsize : frame.dataLength - packetHeaderSize - macSize = segment.length := by omega
  have hexpected : ∀ k : SessionKey,
      (generateMac (Packet.header loc sp dp ++ segment) k ≠
        generateMac (Packet.header loc sp dp ++ segment) key) ↔ ¬ key = k := by
    intro k
    rw [ne_eq, generateMac_inj, eq_comm]
  unfold updateExternal
  simp only [filterSystemMessages_data ht (hholds.type_eq hsegment)]
  rw [if_neg (by omega)]
  simp only [hchecked, hsize, hholds.checked, hholds.mac, hholds.segment_eq, decode_macOctets,
    hholds.sport_eq, hholds.dport_eq]
  split_ifs with hmac hkey hkey
  · exact absurd hkey ((hexpected _).mp hmac)
  · rfl
  · rw [send_local rfl, sendFrame_eq, dif_pos h]
    rfl
  · exact absurd (fun hk => hmac ((hexpected _).mpr hk)) (by simpa using hkey)

/-- A frame that another gateway of the quadrant put on the link. -/
theorem handleReceive_packet (key : SessionKey) (src dst : Address) {sender : InterfaceAddress}
    {t : MsgType} (rest : Memory) (hsender : sender ≠ g.address) (hloc : loc = g.quadrant)
    (h : packetHeaderSize + segment.length + macSize ≤ mtu)
    (ht : t.IsData) (hsegment : segment.head? = some t.code) :
    (g.handleReceive rest (rawSend sender (packetCall loc key src dst segment h))).2 =
      if key = g.shared.sessionKey then
        [.bus (packetCall g.shared.location g.shared.sessionKey ⟨sender.1, src.port⟩
          ⟨localAddr, dst.port⟩ segment h)]
      else [] := by
  have hholds : Packet.Holds
      (receivedFrame rest (rawSend sender (packetCall loc key src dst segment h))).data loc
      src.port dst.port segment key := Packet.holds_store rest
  rw [handleReceive_eq rest, updateExternal_packet hholds (length_packetCall h) h ht hsegment]
  · rfl
  · exact fun heq => hsender (Subtype.ext heq)
  · rw [hholds.location_eq, hloc]
  · exact ntohs_htons _

end Gateway

/-- A broadcast of a component of vehicle `A` reaches the bus of vehicle `B`
exactly once and unchanged if the two gateways use one key, and never otherwise. -/
theorem deliversEndToEnd (A B : Gateway) (shared : SharedInfo) (src : Address) (dport : Port)
    (s : Segment) (rest rest' : Memory) (haddress : A.address ≠ B.address)
    (hquadrant : B.quadrant = A.quadrant) (htype : s.type.IsData)
    (hsize : overhead + s.payload.length ≤ mtu) :
    ∃ c f, shared.send src ⟨broadcastAddr, dport⟩ s.getBytes = some c ∧
      outputLinks (A.receiveLocal rest c) = [f] ∧
      if A.shared.sessionKey = B.shared.sessionKey then
        ∃ c', outputBuses (B.handleReceive rest' f).2 = [c'] ∧
          c'.Delivers src.port dport s.getBytes
      else outputBuses (B.handleReceive rest' f).2 = [] := by
  have h : packetHeaderSize + s.getBytes.length + macSize ≤ mtu := by
    rw [Segment.length_getBytes]
    unfold overhead at hsize
    omega
  let c := packetCall shared.location shared.sessionKey src ⟨broadcastAddr, dport⟩ s.getBytes h
  let onLink := packetCall A.quadrant A.shared.sessionKey ⟨A.address.1, src.port⟩
    ⟨broadcastAddr, dport⟩ s.getBytes h
  have hreceived := Gateway.handleReceive_packet (g := B) A.shared.sessionKey
    ⟨A.address.1, src.port⟩ ⟨broadcastAddr, dport⟩ rest' haddress hquadrant.symm h htype
    s.head_getBytes
  use c, rawSend A.address onLink
  refine ⟨?_, ?_, ?_⟩
  · unfold SharedInfo.send
    rw [call_sendFrame, dif_pos h]
  · exact (Gateway.outputs_broadcast _ _ _ rest rfl h).2
  · rw [hreceived]
    split_ifs
    · exact ⟨_, rfl, packetCall_delivers h⟩
    · rfl

def northGateway (n : UInt8) (key : SessionKey) : Gateway where
  address := ⟨⟨#v[2, 0, 0, 0, 0, n]⟩, by simp [broadcastAddr]⟩
  quadrant := .north
  shared := ⟨key, .north, .empty⟩

theorem northGateway_address_inj {n m : UInt8} {key key' : SessionKey} :
    (northGateway n key).address = (northGateway m key').address ↔ n = m := by
  simp [northGateway, Subtype.ext_iff]

theorem deliversEndToEnd_of_two_vehicles :
    ∃ c f, (northGateway 1 7).shared.send ⟨localAddr, 5⟩ ⟨broadcastAddr, 0⟩
        (Segment.getBytes ⟨.teds, 3, [1, 2]⟩) = some c ∧
      outputLinks ((northGateway 1 7).receiveLocal (fun _ => 0) c) = [f] ∧
      ∃ c', outputBuses ((northGateway 2 7).handleReceive (fun _ => 0) f).2 = [c'] ∧
        c'.Delivers 5 0 (Segment.getBytes ⟨.teds, 3, [1, 2]⟩) := by
  have h := deliversEndToEnd (northGateway 1 7) (northGateway 2 7) (northGateway 1 7).shared
    ⟨localAddr, 5⟩ 0 ⟨.teds, 3, [1, 2]⟩ (fun _ => 0) (fun _ => 0)
    (northGateway_address_inj.not.mpr (by decide)) rfl (Or.inr rfl) (by decide)
  exact h

end CommunicationAPI
