import CommunicationAPI.NearbyEntities
import CommunicationAPI.Segment
import CommunicationAPI.ShmWindow
import CommunicationAPI.XorCrypto

/-!
# Packets and the protocol of a gateway

A packet is a location octet, two packed 16-bit ports, the segment and an
8-octet authentication code. The gateway forwards local broadcasts to the link
and authenticated link traffic to its own bus.
-/

namespace CommunicationAPI
open Octets ShmEngine

inductive Quadrant
  | north | east | south | west
  deriving DecidableEq, Repr

def Quadrant.code : Quadrant → UInt8
  | .north => 0
  | .east => 1
  | .south => 2
  | .west => 3

def ethernetProtocolNumber : UInt16 := 0x88B5

def packetHeaderSize : ℕ := 5

def typeBasedRoutingPort : Port := 0

def uint32 : ℕ := 2 ^ 32

namespace Packet

def location (data : Memory) : UInt8 := data 0

def sport (data : Memory) : Port := UInt16.ofNat (decode (load data 1 2))

def dport (data : Memory) : Port := UInt16.ofNat (decode (load data 3 2))

def header (location : Quadrant) (sport dport : Port) : List UInt8 :=
  location.code :: (encode 2 sport.toNat ++ encode 2 dport.toNat)

def octets (location : Quadrant) (sport dport : Port) (segment : List UInt8)
    (key : SessionKey) : List UInt8 :=
  header location sport dport ++ segment ++
    macOctets (generateMac (header location sport dport ++ segment) key)

end Packet

/-- How a call of `_send_frame` ends. -/
inductive Sending
  | refused
  | sent (c : SendCall)
  /-- The total has wrapped and passed the check: the copy of the segment leaves the frame. -/
  | overrun

def Sending.call : Sending → Option SendCall
  | .sent c => some c
  | _ => none

/-- `total_size`, in 32 bits. -/
def totalSize (size : ℕ) : ℕ := (packetHeaderSize + size + macSize) % uint32

/-- `Protocol::_send_frame`, up to the call of the engine's `send`. The packet
is built in a fresh frame whose contents do not matter. -/
def sendFrame (location : Quadrant) (key : SessionKey) (src dst : Address) (data : List UInt8) :
    Sending :=
  if mtu < totalSize data.length then .refused
  else if h : packetHeaderSize + data.length + macSize ≤ mtu then
    let frame : Memory := fun _ => 0
    let frame := store frame 0 (Packet.header location src.port dst.port)
    let frame := store frame packetHeaderSize data
    let mac := generateMac (load frame 0 (packetHeaderSize + data.length)) key
    let frame := store frame (packetHeaderSize + data.length) (macOctets mac)
    .sent ⟨some src.paddr, dst.paddr, ethernetProtocolNumber,
      load frame 0 (packetHeaderSize + data.length + macSize), by rwa [length_load]⟩
  else .overrun

/-- The hardware address of a network interface; the broadcast address is none. -/
abbrev InterfaceAddress := { m : MAC // m ≠ broadcastAddr }

structure WireFrame where
  header : Header
  data : List UInt8

/-- `RawSocketEngine::send`: the source address is always the interface's own. -/
def rawSend (address : InterfaceAddress) (c : SendCall) : WireFrame :=
  ⟨⟨c.dstMac, address.1, htons c.protocol⟩, c.data⟩

structure SharedInfo where
  sessionKey : SessionKey
  location : Quadrant
  nearby : NearbyEntities

/-- The frame that `Protocol::send` of a component hands to the engine, if there is one. -/
def SharedInfo.send (shared : SharedInfo) (src dst : Address) (data : List UInt8) :
    Option SendCall :=
  (sendFrame shared.location shared.sessionKey src dst data).call

/-- A gateway: its external interface, with the quadrant of that NIC, and the
shared block of its bus. -/
structure Gateway where
  address : InterfaceAddress
  quadrant : Quadrant
  shared : SharedInfo

inductive Output
  /-- A frame sent on the local bus. -/
  | bus (c : SendCall)
  /-- A frame sent on the link. -/
  | link (f : WireFrame)
  /-- A buffer offered to the communicators at a port. -/
  | notify (port : Port)
  /-- A message passed to the clock synchronizer. -/
  | ptp (payload : Memory) (size : ℕ) (source dest : Address)
  /-- A message passed to the group handler. -/
  | group (payload : Memory) (size : ℕ) (source : Address)
  /-- A write beyond a frame. Nothing is known of what comes after it. -/
  | overrun

def Sending.output (f : SendCall → Output) : Sending → Option Output
  | .refused => none
  | .sent c => some (f c)
  | .overrun => some .overrun

/-- The frame in which a reader of the bus finds the arguments of a `send`.
Octets beyond the data are left from earlier frames. -/
def busFrame (rest : Memory) (c : SendCall) : Frame where
  header := ⟨c.dstMac, c.srcMac.getD localAddr, htons c.protocol⟩
  data := store rest 0 c.data
  dataLength := c.data.length

namespace Gateway
variable (g : Gateway)

def externalAddress : Address := ⟨g.address.1, 0⟩

def send (src dst : Address) (data : List UInt8) : Option Output :=
  if dst.paddr ≠ g.address.1 ∧ dst.paddr ≠ localAddr then
    (sendFrame g.quadrant g.shared.sessionKey src dst data).output fun c =>
      .link (rawSend g.address c)
  else (sendFrame g.shared.location g.shared.sessionKey src dst data).output .bus

/-- `Protocol::update`, called by the local NIC. -/
def updateLocal (frame : Frame) : List Output :=
  let dport := Packet.dport frame.data
  if frame.header.dhost = broadcastAddr then
    let payloadSize := (frame.dataLength + uint32 - (packetHeaderSize + macSize)) % uint32
    (g.send ⟨g.address.1, Packet.sport frame.data⟩ ⟨frame.header.dhost, dport⟩
      (load frame.data packetHeaderSize payloadSize)).toList ++
        if dport = typeBasedRoutingPort then [.notify dport] else []
  else [.notify dport]

/-- The receiver thread of the local NIC offers a frame by its EtherType. -/
def receiveLocal (rest : Memory) (c : SendCall) : List Output :=
  let frame := busFrame rest c
  if ntohs frame.header.type = ethernetProtocolNumber then g.updateLocal frame else []

def filterSystemMessages (frame : Frame) (source dest : Address) : Option Output :=
  if g.address.1 = dest.paddr ∨ broadcastAddr = dest.paddr then
    let segment : Memory := fun i => frame.data (packetHeaderSize + i)
    let payload : Memory := fun i => segment (segmentHeaderSize + i)
    let payloadSize := (frame.dataLength + 2 ^ 64 -
      (packetHeaderSize + macSize + segmentHeaderSize)) % 2 ^ 64
    if segment 0 = MsgType.ptp.code then some (.ptp payload payloadSize source dest)
    else if segment 0 = MsgType.group.code then some (.group payload payloadSize source)
    else none
  else none

/-- `Protocol::update`, called by the external NIC with a network buffer. -/
def updateExternal (frame : Frame) : Gateway × List Output :=
  let dport := Packet.dport frame.data
  let source : Address := ⟨frame.header.shost, Packet.sport frame.data⟩
  let dest : Address := ⟨frame.header.dhost, dport⟩
  let g := { g with shared.nearby := g.shared.nearby.register source.paddr }
  if frame.dataLength < packetHeaderSize + macSize then (g, [])
  else match g.filterSystemMessages frame source dest with
    | some message => (g, [message])
    | none =>
      let dataToCheckSize := frame.dataLength - macSize
      let expectedMac := generateMac (load frame.data 0 dataToCheckSize) g.shared.sessionKey
      let receivedMac := UInt64.ofNat (decode (load frame.data dataToCheckSize macSize))
      if expectedMac ≠ receivedMac then (g, [])
      else (g, (g.send source ⟨localAddr, dport⟩
        (load frame.data packetHeaderSize (frame.dataLength - packetHeaderSize - macSize))).toList)

/-- `NIC::filter_location`: the frame is not from the quadrant of this NIC. -/
def filterLocation (frame : Frame) : Bool :=
  decide (Packet.location frame.data ≠ g.quadrant.code)

/-- One turn of the loop of `NIC::handle_receive`, for a frame of the link. Octets
beyond the data received are left from the stack. -/
def handleReceive (rest : Memory) (f : WireFrame) : Gateway × List Output :=
  if f.header.shost = g.address.1 then (g, [])
  else
    let frame : Frame := ⟨f.header, store rest 0 f.data, f.data.length⟩
    if g.filterLocation frame then (g, [])
    else if ntohs frame.header.type = ethernetProtocolNumber then g.updateExternal frame
    else (g, [])

end Gateway

namespace Packet
variable {m : Memory} {loc : Quadrant} {sp dp : Port} {segment : List UInt8} {key : SessionKey}

@[simp] theorem length_header : (header loc sp dp).length = packetHeaderSize := by
  simp [header, packetHeaderSize]

@[simp] theorem length_octets :
    (octets loc sp dp segment key).length = packetHeaderSize + segment.length + macSize := by
  simp [octets, macOctets, Nat.add_assoc]

structure Holds (m : Memory) (loc : Quadrant) (sp dp : Port) (segment : List UInt8)
    (key : SessionKey) : Prop where
  checked : load m 0 (packetHeaderSize + segment.length) = header loc sp dp ++ segment
  mac : load m (packetHeaderSize + segment.length) macSize =
    macOctets (generateMac (header loc sp dp ++ segment) key)

theorem holds_iff : Holds m loc sp dp segment key ↔
    load m 0 (packetHeaderSize + segment.length + macSize) = octets loc sp dp segment key := by
  rw [load_append, octets, Nat.zero_add]
  constructor
  · intro h
    rw [h.checked, h.mac]
  · intro h
    obtain ⟨hchecked, hmac⟩ := List.append_inj h (by simp)
    exact ⟨hchecked, hmac⟩

theorem holds_store (rest : Memory) :
    Holds (store rest 0 (octets loc sp dp segment key)) loc sp dp segment key := by
  rw [holds_iff, ← length_octets, load_store]

namespace Holds

theorem header_eq (h : Holds m loc sp dp segment key) :
    load m 0 packetHeaderSize = header loc sp dp := by
  have hc := h.checked
  rw [load_append] at hc
  exact (List.append_inj hc (by simp)).1

theorem segment_eq (h : Holds m loc sp dp segment key) :
    load m packetHeaderSize segment.length = segment := by
  have hc := h.checked
  rw [load_append] at hc
  simpa using (List.append_inj hc (by simp)).2

theorem fields (h : Holds m loc sp dp segment key) :
    load m 0 1 = [loc.code] ∧ load m 1 2 = encode 2 sp.toNat ∧
      load m 3 2 = encode 2 dp.toNat := by
  have hh := h.header_eq
  have hsplit : load m 0 packetHeaderSize = load m 0 1 ++ (load m 1 2 ++ load m 3 2) := by
    rw [← load_append m 1 2 2, ← load_append m 0 1 4]
    rfl
  rw [hsplit, header, ← List.singleton_append] at hh
  obtain ⟨hloc, hports⟩ := List.append_inj hh (by simp)
  obtain ⟨hsport, hdport⟩ := List.append_inj hports (by simp)
  exact ⟨hloc, hsport, hdport⟩

theorem location_eq (h : Holds m loc sp dp segment key) : location m = loc.code := by
  unfold location
  have hloc := h.fields.1
  simpa [load] using hloc

theorem decode_port (p : Port) : UInt16.ofNat (decode (encode 2 p.toNat)) = p := by
  have hlt : p.toNat < 256 ^ 2 := p.toNat_lt
  rw [decode_encode hlt, UInt16.ofNat_toNat]

theorem sport_eq (h : Holds m loc sp dp segment key) : sport m = sp := by
  unfold sport
  rw [h.fields.2.1, decode_port]

theorem dport_eq (h : Holds m loc sp dp segment key) : dport m = dp := by
  unfold dport
  rw [h.fields.2.2, decode_port]

theorem type_eq (h : Holds m loc sp dp segment key) {t : UInt8} (ht : segment.head? = some t) :
    m packetHeaderSize = t := by
  cases segment with
  | nil => cases ht
  | cons b l =>
      cases ht
      have hs := h.segment_eq
      rw [List.length_cons, Nat.add_comm, load_append, ← List.singleton_append] at hs
      have hfirst := (List.append_inj hs (by simp)).1
      simpa [load] using hfirst

end Holds
end Packet

/-- What `_send_frame` hands to the engine when the frame can hold the packet. -/
def packetCall (loc : Quadrant) (key : SessionKey) (src dst : Address) (segment : List UInt8)
    (h : packetHeaderSize + segment.length + macSize ≤ mtu) : SendCall where
  srcMac := some src.paddr
  dstMac := dst.paddr
  protocol := ethernetProtocolNumber
  data := Packet.octets loc src.port dst.port segment key
  size_le := by rwa [Packet.length_octets]

theorem load_packet (m : Memory) (loc : Quadrant) (sp dp : Port) (segment mac : List UInt8)
    (hmac : mac.length = macSize) :
    load (store (store (store m 0 (Packet.header loc sp dp)) packetHeaderSize segment)
        (packetHeaderSize + segment.length) mac) 0 (packetHeaderSize + segment.length + macSize) =
      load (store (store m 0 (Packet.header loc sp dp)) packetHeaderSize segment) 0
        (packetHeaderSize + segment.length) ++ mac := by
  rw [load_append, Nat.zero_add, ← hmac, load_store, load_store_of_disjoint _ mac (by omega)]

theorem load_checked (m : Memory) (loc : Quadrant) (sp dp : Port) (segment : List UInt8) :
    load (store (store m 0 (Packet.header loc sp dp)) packetHeaderSize segment) 0
      (packetHeaderSize + segment.length) = Packet.header loc sp dp ++ segment := by
  rw [load_append, Nat.zero_add, load_store, load_store_of_disjoint _ segment (by omega)]
  have hheader : (Packet.header loc sp dp).length = packetHeaderSize := Packet.length_header
  rw [← hheader, load_store]

theorem totalSize_of_le {size : ℕ} (h : packetHeaderSize + size + macSize ≤ mtu) :
    totalSize size = packetHeaderSize + size + macSize :=
  Nat.mod_eq_of_lt (h.trans_lt (by decide))

/-- `_send_frame` sends a complete packet, if the frame can hold it. -/
theorem sendFrame_eq (loc : Quadrant) (key : SessionKey) (src dst : Address)
    (segment : List UInt8) :
    sendFrame loc key src dst segment =
      if h : packetHeaderSize + segment.length + macSize ≤ mtu then
        .sent (packetCall loc key src dst segment h)
      else if mtu < totalSize segment.length then .refused
      else .overrun := by
  unfold sendFrame packetCall
  simp only [load_checked]
  by_cases h : packetHeaderSize + segment.length + macSize ≤ mtu
  · have hpasses : ¬ mtu < totalSize segment.length := by
      rw [totalSize_of_le h]
      exact Nat.not_lt.mpr h
    rw [dif_pos h, if_neg hpasses, dif_pos h]
    congr 2
    rw [load_packet _ _ _ _ _ _ (by simp [macOctets]), load_checked]
    rfl
  · rw [dif_neg h, dif_neg h]

/-- The copy leaves the frame exactly where the total of a 32-bit size wraps. -/
theorem sendFrame_overrun_iff {data : List UInt8} (hsize : data.length < uint32) (loc : Quadrant)
    (key : SessionKey) (src dst : Address) :
    sendFrame loc key src dst data = .overrun ↔
      uint32 ≤ packetHeaderSize + data.length + macSize := by
  rw [sendFrame_eq]
  constructor
  · intro hoverrun
    by_contra hrange
    have htotal : totalSize data.length = packetHeaderSize + data.length + macSize :=
      Nat.mod_eq_of_lt (Nat.not_le.mp hrange)
    rw [htotal] at hoverrun
    split_ifs at hoverrun with hfits hlarge
    exact hlarge (Nat.not_le.mp hfits)
  · intro hwraps
    have hlarge : ¬ packetHeaderSize + data.length + macSize ≤ mtu := by
      unfold uint32 at hwraps
      unfold mtu
      omega
    have hpasses : ¬ mtu < totalSize data.length := by
      unfold totalSize
      rw [Nat.mod_eq_sub_mod hwraps]
      refine Nat.not_lt.mpr ((Nat.mod_le _ _).trans ?_)
      unfold packetHeaderSize macSize mtu
      unfold uint32 at *
      omega
    rw [dif_neg hlarge, if_neg hpasses]

theorem call_sendFrame (loc : Quadrant) (key : SessionKey) (src dst : Address)
    (segment : List UInt8) :
    (sendFrame loc key src dst segment).call =
      if h : packetHeaderSize + segment.length + macSize ≤ mtu then
        some (packetCall loc key src dst segment h)
      else none := by
  rw [sendFrame_eq]
  split_ifs <;> rfl

end CommunicationAPI
