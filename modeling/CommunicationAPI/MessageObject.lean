import CommunicationAPI.PubSub
import CommunicationAPI.SegmentCodec

/-!
# Objects of the class `Message`

`Communicator::receive` copies a segment into the buffer of a message and removes
the header in place. A `Message` is what a reader sees of such an object.
-/

namespace CommunicationAPI
open Octets ShmEngine

/-- `std::vector<char>`. Memory past the size is allocated up to the capacity. -/
structure CharVector where
  storage : Memory
  size : ℕ
  capacity : ℕ
  size_le : size ≤ capacity

namespace CharVector
variable (v : CharVector)

def empty (memory : Memory) : CharVector := ⟨memory, 0, 0, le_rfl⟩

def toList : List UInt8 := load v.storage 0 v.size

def write (l : List UInt8) : CharVector := { v with storage := store v.storage 0 l }

/-- `resize`. New elements are zero. Past the capacity there is a new allocation. -/
def resize (n : ℕ) : CharVector where
  storage := fun i => if v.size ≤ i ∧ i < n then 0 else v.storage i
  size := n
  capacity := if n ≤ v.capacity then v.capacity else max (2 * v.size) n
  size_le := by split_ifs <;> omega

end CharVector

structure MessageObject where
  source : Address
  destination : Address
  type : UInt8
  payload : CharVector
  timestamp : UInt64

def segmentSize (frame : Frame) : ℕ :=
  (frame.dataLength + uint32 - (packetHeaderSize + macSize)) % uint32

def int32 (n : ℕ) : ℤ := if n < 2 ^ 31 then n else n - uint32

/-- `Protocol::receive`: the buffer after the call, and the result. `data()` is null
as long as nothing is allocated. -/
def protocolReceive (frame : Frame) (v : CharVector) (size : ℕ) : CharVector × ℤ :=
  if v.capacity = 0 then (v, -1)
  else
    let bytesToCopy := min size (segmentSize frame)
    (v.write (load frame.data packetHeaderSize bytesToCopy), int32 bytesToCopy)

namespace MessageObject
variable (m : MessageObject)

def ofSize (memory : Memory) (uninitialized : UInt64) (bufferSize : ℕ) : MessageObject where
  source := {}
  destination := {}
  type := MsgType.control.code
  payload := (CharVector.empty memory).resize bufferSize
  timestamp := uninitialized

def unpack (frame : Frame) (totalSegmentSize : ℕ) : MessageObject where
  source := ⟨frame.header.shost, Packet.sport frame.data⟩
  destination := m.destination
  type := m.payload.storage 0
  payload := (m.payload.write (load m.payload.storage segmentHeaderSize
    (totalSegmentSize - segmentHeaderSize))).resize (totalSegmentSize - segmentHeaderSize)
  timestamp := UInt64.ofNat (decode (load m.payload.storage 1 8))

/-- `Communicator::receive`, on the buffer of a frame. The capacity is passed as an
`unsigned int`. -/
def receive (frame : Frame) : Bool × MessageObject :=
  let received := protocolReceive frame m.payload (m.payload.capacity % uint32)
  let m := { m with payload := received.1 }
  if received.2 ≤ 0 then (false, m)
  else if received.2 < segmentHeaderSize then (false, m)
  else (true, m.unpack frame received.2.toNat)

def view : Message := ⟨m.type, m.source, m.payload.toList⟩

end MessageObject

def Communicator.receive (c : Communicator) (m : MessageObject) :
    Bool × MessageObject × Communicator :=
  match c.data with
  | [] => (false, m, c)
  | buf :: rest => ((m.receive buf.frame).1, (m.receive buf.frame).2, { c with data := rest })

namespace CharVector
variable {v : CharVector} {l : List UInt8} {n : ℕ}

@[simp] theorem length_toList : v.toList.length = v.size := length_load _ _ _

@[simp] theorem write_size : (v.write l).size = v.size := rfl

@[simp] theorem write_capacity : (v.write l).capacity = v.capacity := rfl

@[simp] theorem resize_size : (v.resize n).size = n := rfl

/-- Elements that were there stay, the others are zero. -/
theorem toList_resize (v : CharVector) (n : ℕ) :
    (v.resize n).toList = (load v.storage 0 n).take v.size ++ List.replicate (n - v.size) 0 := by
  apply List.ext_getElem
  · simp
    omega
  · intro i hi hi'
    have hn : i < n := by simpa using hi
    simp only [toList, resize, load, List.getElem_map, List.getElem_range, Nat.zero_add]
    by_cases hsize : v.size ≤ i
    · rw [List.getElem_append_right (by simp; omega), List.getElem_replicate, if_pos ⟨hsize, hn⟩]
    · rw [List.getElem_append_left (by simp; omega), if_neg (by omega)]
      simp

end CharVector

/-- A frame with a segment of the given octets, as `_send_frame` builds it. -/
structure Frame.Carries (frame : Frame) (bytes : List UInt8) : Prop where
  dataLength_eq : frame.dataLength = packetHeaderSize + bytes.length + macSize
  dataLength_le : frame.dataLength ≤ mtu
  segment_eq : load frame.data packetHeaderSize bytes.length = bytes

theorem busFrame_carries {loc : Quadrant} {key : SessionKey} {src dst : Address}
    {bytes : List UInt8} (h : packetHeaderSize + bytes.length + macSize ≤ mtu) (rest : Memory) :
    (busFrame rest (packetCall loc key src dst bytes h)).Carries bytes where
  dataLength_eq := length_packetCall h
  dataLength_le := (packetCall loc key src dst bytes h).size_le
  segment_eq := (busFrame_packetCall_holds h rest).segment_eq

theorem Frame.Carries.segmentSize_eq {frame : Frame} {bytes : List UInt8}
    (h : frame.Carries bytes) : segmentSize frame = bytes.length := by
  have hlength := h.dataLength_eq
  have hle := h.dataLength_le
  unfold mtu at hle
  unfold segmentSize uint32
  omega

theorem Frame.Carries.load_eq {frame : Frame} {bytes : List UInt8} (h : frame.Carries bytes)
    {k n : ℕ} (hle : k + n ≤ bytes.length) :
    load frame.data (packetHeaderSize + k) n = (bytes.drop k).take n := by
  calc load frame.data (packetHeaderSize + k) n
      = ((load frame.data packetHeaderSize bytes.length).drop k).take n := by
        rw [load_drop, load_take, min_eq_left (by omega)]
    _ = (bytes.drop k).take n := by rw [h.segment_eq]

namespace MessageObject
variable {m : MessageObject} {frame : Frame} {bytes : List UInt8}

def copied (m : MessageObject) (bytes : List UInt8) : ℕ :=
  min (m.payload.capacity % uint32) bytes.length

def filled (m : MessageObject) (bytes : List UInt8) : MessageObject :=
  { m with payload := m.payload.write (bytes.take (m.copied bytes)) }

theorem copied_le : m.copied bytes ≤ bytes.length := min_le_right _ _

theorem copied_le_capacity : m.copied bytes ≤ m.payload.capacity :=
  (min_le_left _ _).trans (Nat.mod_le _ _)

theorem int32_copied (h : frame.Carries bytes) : int32 (m.copied bytes) = m.copied bytes := by
  have hcopied : m.copied bytes ≤ bytes.length := copied_le
  have hlength := h.dataLength_eq
  have hle := h.dataLength_le
  unfold mtu at hle
  unfold int32
  rw [if_pos (by omega)]

theorem protocolReceive_eq (h : frame.Carries bytes) (hpos : 0 < m.copied bytes) :
    protocolReceive frame m.payload (m.payload.capacity % uint32) =
      ((m.filled bytes).payload, (m.copied bytes : ℤ)) := by
  have hcapacity : m.payload.capacity ≠ 0 :=
    Nat.ne_zero_of_lt (hpos.trans_le copied_le_capacity)
  have hload : load frame.data packetHeaderSize (m.copied bytes) = bytes.take (m.copied bytes) :=
    h.load_eq (k := 0) (by rw [Nat.zero_add]; exact copied_le)
  have hint := int32_copied h (m := m)
  unfold copied at hload hint
  unfold protocolReceive filled copied
  rw [if_neg hcapacity]
  simp only [h.segmentSize_eq, hload, hint]

/-- Too few octets for a header. -/
theorem receive_of_lt (h : frame.Carries bytes) (hlt : m.copied bytes < segmentHeaderSize) :
    (m.receive frame).1 = false := by
  rcases Nat.eq_zero_or_pos (m.copied bytes) with hzero | hpos
  · have hresult : (protocolReceive frame m.payload (m.payload.capacity % uint32)).2 ≤ 0 := by
      unfold protocolReceive
      split_ifs
      · exact neg_nonpos.mpr zero_le_one
      · unfold copied at hzero
        simp only [h.segmentSize_eq, hzero]
        decide
    unfold receive
    simp only [if_pos hresult]
  · unfold receive
    simp only [protocolReceive_eq h hpos]
    rw [if_neg (by omega), if_pos (by exact_mod_cast hlt)]

theorem receive_of_le (h : frame.Carries bytes) (hle : segmentHeaderSize ≤ m.copied bytes) :
    m.receive frame = (true, (m.filled bytes).unpack frame (m.copied bytes)) := by
  have hpos : 0 < m.copied bytes := lt_of_lt_of_le (by decide) hle
  unfold receive
  simp only [protocolReceive_eq h hpos]
  rw [if_neg (by omega), if_neg (by omega), Int.toNat_natCast]
  rfl

theorem load_filled (m : MessageObject) (bytes : List UInt8) :
    load (m.filled bytes).payload.storage 0 (m.copied bytes) = bytes.take (m.copied bytes) := by
  have hlength : (bytes.take (m.copied bytes)).length = m.copied bytes :=
    List.length_take_of_le copied_le
  calc load (m.filled bytes).payload.storage 0 (m.copied bytes)
      = load (m.filled bytes).payload.storage 0 (bytes.take (m.copied bytes)).length := by
        rw [hlength]
    _ = bytes.take (m.copied bytes) := load_store m.payload.storage 0 _

theorem load_filled_drop (k : ℕ) :
    load (m.filled bytes).payload.storage k (m.copied bytes - k) =
      (bytes.drop k).take (m.copied bytes - k) := by
  rw [← List.drop_take, ← load_filled, load_drop, Nat.zero_add]

/-- The header is that of the segment. -/
theorem unpack_header (hle : segmentHeaderSize ≤ m.copied bytes) :
    ((m.filled bytes).unpack frame (m.copied bytes)).type = (RawSegment.ofBytes bytes).type ∧
      ((m.filled bytes).unpack frame (m.copied bytes)).timestamp =
        (RawSegment.ofBytes bytes).timestamp := by
  unfold segmentHeaderSize at hle
  have hload := load_filled m bytes
  constructor
  · have hfirst := headD_load (m.filled bytes).payload.storage 0 (by omega : 0 < m.copied bytes) 0
    rw [hload] at hfirst
    change (m.filled bytes).payload.storage 0 = bytes.headD 0
    rw [← hfirst, List.headD_eq_head?_getD, List.headD_eq_head?_getD,
      List.head?_take, if_neg (by omega)]
  · have hrest := @load_filled_drop m bytes 1
    have htake : load (m.filled bytes).payload.storage 1 8 = (bytes.drop 1).take 8 := by
      calc load (m.filled bytes).payload.storage 1 8
          = (load (m.filled bytes).payload.storage 1 (m.copied bytes - 1)).take 8 := by
            rw [load_take, min_eq_left (by omega)]
        _ = (bytes.drop 1).take 8 := by
            rw [hrest, List.take_take, min_eq_left (by omega)]
    change UInt64.ofNat (decode (load (m.filled bytes).payload.storage 1 8)) = _
    rw [htake]
    rfl

theorem unpack_payload :
    ((m.filled bytes).unpack frame (m.copied bytes)).payload.toList =
      ((bytes.drop segmentHeaderSize).take (m.copied bytes - segmentHeaderSize)).take
          m.payload.size ++
        List.replicate (m.copied bytes - segmentHeaderSize - m.payload.size) 0 := by
  have hpayload := @load_filled_drop m bytes segmentHeaderSize
  have hstore : load ((m.filled bytes).payload.write (load (m.filled bytes).payload.storage
      segmentHeaderSize (m.copied bytes - segmentHeaderSize))).storage 0
        (m.copied bytes - segmentHeaderSize) =
      load (m.filled bytes).payload.storage segmentHeaderSize
        (m.copied bytes - segmentHeaderSize) := by
    have hload := load_store (m.filled bytes).payload.storage 0
      (load (m.filled bytes).payload.storage segmentHeaderSize
        (m.copied bytes - segmentHeaderSize))
    rwa [length_load] at hload
  change (CharVector.resize _ _).toList = _
  rw [CharVector.toList_resize, hstore, hpayload]
  rfl

structure Holds (m : MessageObject) (s : RawSegment) : Prop where
  type : m.type = s.type
  timestamp : m.timestamp = s.timestamp
  payload : m.payload.toList = s.payload

/-- The copy takes the whole segment, and what `resize` sets to zero is zero already. -/
structure Fits (m : MessageObject) (bytes : List UInt8) : Prop where
  length_le : bytes.length ≤ m.payload.capacity % uint32
  zeros : ∀ b ∈ bytes.drop (segmentHeaderSize + m.payload.size), b = 0

theorem Fits.copied_eq (h : m.Fits bytes) : m.copied bytes = bytes.length :=
  min_eq_right h.length_le

theorem holds_unpack_iff (hle : segmentHeaderSize ≤ m.copied bytes) :
    ((m.filled bytes).unpack frame (m.copied bytes)).Holds (RawSegment.ofBytes bytes) ↔
      m.Fits bytes := by
  have hcopied : m.copied bytes ≤ bytes.length := copied_le
  have htail : bytes.drop (segmentHeaderSize + m.payload.size) =
      (bytes.drop segmentHeaderSize).drop m.payload.size := by rw [List.drop_drop]
  have hlist : bytes.drop segmentHeaderSize = (bytes.drop segmentHeaderSize).take m.payload.size ++
      (bytes.drop segmentHeaderSize).drop m.payload.size := (List.take_append_drop _ _).symm
  have hall : (bytes.drop segmentHeaderSize).take (bytes.length - segmentHeaderSize) =
      bytes.drop segmentHeaderSize := List.take_of_length_le (by rw [List.length_drop])
  constructor
  · intro h
    have hpayload := @unpack_payload m frame bytes
    rw [h.payload] at hpayload
    change bytes.drop segmentHeaderSize = _ at hpayload
    have hwhole : m.copied bytes = bytes.length := by
      have hlength := congrArg List.length hpayload
      simp only [List.length_append, List.length_take, List.length_drop,
        List.length_replicate] at hlength
      omega
    constructor
    · unfold copied at hwhole
      exact (min_eq_right_iff.mp hwhole)
    · rw [hwhole, hall] at hpayload
      have hzeros : (bytes.drop segmentHeaderSize).drop m.payload.size =
          List.replicate (bytes.length - segmentHeaderSize - m.payload.size) 0 :=
        List.append_cancel_left (hlist.symm.trans hpayload)
      intro b hb
      rw [htail, hzeros] at hb
      exact List.eq_of_mem_replicate hb
  · intro h
    obtain ⟨htype, htimestamp⟩ := @unpack_header m frame bytes hle
    refine ⟨htype, htimestamp, ?_⟩
    have hzeros : (bytes.drop segmentHeaderSize).drop m.payload.size =
        List.replicate (bytes.length - segmentHeaderSize - m.payload.size) 0 := by
      apply List.eq_replicate_iff.mpr
      rw [← htail]
      refine ⟨?_, h.zeros⟩
      rw [List.length_drop]
      omega
    rw [unpack_payload, h.copied_eq, hall, ← hzeros]
    exact hlist.symm

@[simp] theorem ofSize_size (memory : Memory) (t : UInt64) (n : ℕ) :
    (ofSize memory t n).payload.size = n := rfl

@[simp] theorem ofSize_capacity (memory : Memory) (t : UInt64) (n : ℕ) :
    (ofSize memory t n).payload.capacity = n := by
  change (if n ≤ 0 then 0 else max (2 * 0) n) = n
  split_ifs <;> omega

/-- The octets of a segment leave nothing to zero in a new object. -/
theorem fits_ofSize_iff {memory : Memory} {t : UInt64} {n : ℕ} (h : bytes.length ≤ n) :
    (ofSize memory t n).Fits bytes ↔ bytes.length ≤ n % uint32 := by
  have hdrop : bytes.drop (segmentHeaderSize + (ofSize memory t n).payload.size) = [] :=
    List.drop_of_length_le (by rw [ofSize_size]; omega)
  constructor
  · intro hfits
    simpa using hfits.length_le
  · intro hle
    constructor
    · rwa [ofSize_capacity]
    · rw [hdrop]
      simp

/-- A reader of a new message sees what `receiveMessage` computes. -/
theorem receiveMessage_eq_view (h : frame.Carries bytes) (memory : Memory) (t : UInt64) :
    receiveMessage frame =
      if ((ofSize memory t messageCapacity).receive frame).1 then
        some ((ofSize memory t messageCapacity).receive frame).2.view
      else none := by
  have hcopied : min messageCapacity ((frame.dataLength + uint32 - (packetHeaderSize + macSize)) %
      uint32) = (ofSize memory t messageCapacity).copied bytes := by
    change min messageCapacity (segmentSize frame) = _
    rw [h.segmentSize_eq, copied, ofSize_capacity]
    rfl
  unfold receiveMessage
  simp only [hcopied]
  by_cases hlt : (ofSize memory t messageCapacity).copied bytes < segmentHeaderSize
  · rw [if_pos hlt, receive_of_lt h hlt]
    rfl
  · have hle : segmentHeaderSize ≤ (ofSize memory t messageCapacity).copied bytes :=
      Nat.not_lt.mp hlt
    have hlength : (ofSize memory t messageCapacity).copied bytes ≤ bytes.length := copied_le
    have hpos : 0 < bytes.length := by
      unfold segmentHeaderSize at hle
      omega
    have htype : frame.data packetHeaderSize = (RawSegment.ofBytes bytes).type := by
      have hfirst := headD_load frame.data packetHeaderSize hpos 0
      rw [h.segment_eq] at hfirst
      exact hfirst.symm
    have hpayload : load frame.data (packetHeaderSize + segmentHeaderSize)
        ((ofSize memory t messageCapacity).copied bytes - segmentHeaderSize) =
        (bytes.drop segmentHeaderSize).take
          ((ofSize memory t messageCapacity).copied bytes - segmentHeaderSize) :=
      h.load_eq (by omega)
    have hsize : (ofSize memory t messageCapacity).copied bytes ≤ messageCapacity :=
      (min_le_left _ _).trans (by rw [ofSize_capacity]; decide)
    have hzero : (ofSize memory t messageCapacity).copied bytes - segmentHeaderSize -
        messageCapacity = 0 := by omega
    rw [if_neg hlt, receive_of_le h hle, if_pos rfl, htype, hpayload]
    unfold view
    rw [(unpack_header hle).1, unpack_payload, ofSize_size, List.take_take, min_eq_right (by omega),
      hzero, List.replicate_zero, List.append_nil]
    rfl

/-- A message that is received is the whole segment that was sent, and a segment that does
not fit the object is refused. -/
structure Whole (m : MessageObject) (bytes : List UInt8) (result : Bool × MessageObject) :
    Prop where
  equal : result.1 = true → ∃ s, RawSegment.fromBytes bytes = .ok s ∧ result.2.Holds s
  refused : m.payload.capacity < bytes.length → result.1 = false

theorem whole_iff (h : frame.Carries bytes) :
    Whole m bytes (m.receive frame) ↔ m.copied bytes < segmentHeaderSize ∨ m.Fits bytes := by
  by_cases hlt : m.copied bytes < segmentHeaderSize
  · have hrefused := receive_of_lt h hlt
    constructor
    · exact fun _ => .inl hlt
    · refine fun _ => ⟨fun htrue => ?_, fun _ => hrefused⟩
      rw [hrefused] at htrue
      cases htrue
  · have hle : segmentHeaderSize ≤ m.copied bytes := Nat.not_lt.mp hlt
    have hbytes : segmentHeaderSize ≤ bytes.length := hle.trans copied_le
    rw [receive_of_le h hle]
    constructor
    · intro hwhole
      obtain ⟨s, hs, hholds⟩ := hwhole.equal rfl
      rw [RawSegment.fromBytes_of_le hbytes] at hs
      cases hs
      exact .inr ((holds_unpack_iff hle).mp hholds)
    · rintro (hshort | hfits)
      · exact absurd hshort hlt
      · constructor
        · exact fun _ => ⟨_, RawSegment.fromBytes_of_le hbytes, (holds_unpack_iff hle).mpr hfits⟩
        · intro hlong
          have hcapacity := hfits.length_le.trans (Nat.mod_le _ _)
          omega

/-- The two decoders agree on an octet string. -/
structure Agrees (bytes : List UInt8) (result : Bool × MessageObject) : Prop where
  refused : result.1 = false ↔ ∃ e, RawSegment.fromBytes bytes = .error e
  accepted : ∀ s, RawSegment.fromBytes bytes = .ok s → result.2.Holds s

theorem agrees_iff (h : frame.Carries bytes) {memory : Memory} {t : UInt64} {n : ℕ}
    (hn : bytes.length ≤ n) :
    Agrees bytes ((ofSize memory t n).receive frame) ↔
      bytes.length < segmentHeaderSize ∨ bytes.length ≤ n % uint32 := by
  rw [← fits_ofSize_iff hn]
  by_cases hshort : bytes.length < segmentHeaderSize
  · have hrefused : ((ofSize memory t n).receive frame).1 = false :=
      receive_of_lt h (copied_le.trans_lt hshort)
    refine ⟨fun _ => .inl hshort, fun _ => ⟨?_, ?_⟩⟩
    · rw [RawSegment.fromBytes_error_iff]
      exact ⟨fun _ => hshort, fun _ => hrefused⟩
    · intro s hs
      rw [RawSegment.fromBytes_of_lt hshort] at hs
      cases hs
  · have hbytes : segmentHeaderSize ≤ bytes.length := Nat.not_lt.mp hshort
    have hok := RawSegment.fromBytes_of_le hbytes
    have hno : ¬ ∃ e, RawSegment.fromBytes bytes = .error e :=
      fun herror => hshort (RawSegment.fromBytes_error_iff.mp herror)
    constructor
    · intro hagrees
      right
      by_cases hlt : (ofSize memory t n).copied bytes < segmentHeaderSize
      · exact absurd (hagrees.refused.mp (receive_of_lt h hlt)) hno
      · have hle := Nat.not_lt.mp hlt
        have hholds := hagrees.accepted _ hok
        rw [receive_of_le h hle] at hholds
        exact (holds_unpack_iff hle).mp hholds
    · rintro (hlt | hfits)
      · exact absurd hlt hshort
      · have hle : segmentHeaderSize ≤ (ofSize memory t n).copied bytes := by
          rwa [hfits.copied_eq]
        rw [receive_of_le h hle]
        constructor
        · constructor
          · intro hfalse
            cases hfalse
          · exact fun herror => absurd herror hno
        · intro s hs
          rw [hok] at hs
          cases hs
          exact (holds_unpack_iff hle).mpr hfits

end MessageObject

theorem Communicator.receive_cons {c : Communicator} {buf : Buffer} {rest : List Buffer}
    (hdata : c.data = buf :: rest) (m : MessageObject) :
    ((c.receive m).1, (c.receive m).2.1) = m.receive buf.frame := by
  unfold Communicator.receive
  rw [hdata]

/-- Receiving into any object yields the whole segment or refuses it, if and only if the
copy and the elements of the object cover the segment, or there is too little of it for
a header. -/
theorem receive_whole_iff (c : Communicator) (m : MessageObject) {buf : Buffer}
    {rest : List Buffer} {bytes : List UInt8} (hdata : c.data = buf :: rest)
    (hcarries : buf.frame.Carries bytes) :
    m.Whole bytes ((c.receive m).1, (c.receive m).2.1) ↔
      m.copied bytes < segmentHeaderSize ∨ m.Fits bytes := by
  rw [Communicator.receive_cons hdata]
  exact MessageObject.whole_iff hcarries

/-- The codec is a bijection between segments and long enough octet strings. Receiving into
a new object decodes the same way, if the capacity survives its conversion. -/
theorem codec_agrees_iff (c : Communicator) (memory : Memory) (t : UInt64) (n : ℕ) {buf : Buffer}
    {rest : List Buffer} {bytes : List UInt8} (hdata : c.data = buf :: rest)
    (hcarries : buf.frame.Carries bytes) (hn : bytes.length ≤ n) :
    ((∀ s : RawSegment, RawSegment.fromBytes s.getBytes = .ok s) ∧
      (∀ b : List UInt8, segmentHeaderSize ≤ b.length →
        ∃ s, RawSegment.fromBytes b = .ok s ∧ s.getBytes = b) ∧
      ∀ b : List UInt8, (∃ e, RawSegment.fromBytes b = .error e) ↔ b.length < segmentHeaderSize) ∧
    (MessageObject.Agrees bytes ((c.receive (.ofSize memory t n)).1,
        (c.receive (.ofSize memory t n)).2.1) ↔
      bytes.length < segmentHeaderSize ∨ bytes.length ≤ n % uint32) := by
  refine ⟨⟨RawSegment.fromBytes_getBytes, ?_, fun _ => RawSegment.fromBytes_error_iff⟩, ?_⟩
  · intro b h
    exact ⟨_, RawSegment.fromBytes_of_le h, RawSegment.getBytes_ofBytes h⟩
  · rw [Communicator.receive_cons hdata]
    exact MessageObject.agrees_iff hcarries hn

def queued (bytes : List UInt8) (h : packetHeaderSize + bytes.length + macSize ≤ mtu) :
    Communicator where
  address := ⟨localAddr, 6⟩
  subscribedTypes := []
  data := [⟨0, busFrame (fun _ => 0)
    (packetCall .north 7 ⟨localAddr, 5⟩ ⟨localAddr, 6⟩ bytes h)⟩]

theorem queued_data (bytes : List UInt8) (h : packetHeaderSize + bytes.length + macSize ≤ mtu) :
    ∃ buf, (queued bytes h).data = [buf] ∧ buf.frame.Carries bytes :=
  ⟨_, rfl, busFrame_carries h _⟩

/-- The message of `receiver_loop`, and a short segment. -/
theorem receive_whole_teds :
    MessageObject.Whole (.ofSize (fun _ => 0) 0 1024) (RawSegment.getBytes ⟨1, 3, [1, 2]⟩)
      (((queued (RawSegment.getBytes ⟨1, 3, [1, 2]⟩) (by decide)).receive
          (.ofSize (fun _ => 0) 0 1024)).1,
        ((queued (RawSegment.getBytes ⟨1, 3, [1, 2]⟩) (by decide)).receive
          (.ofSize (fun _ => 0) 0 1024)).2.1) := by
  obtain ⟨buf, hdata, hcarries⟩ := queued_data (RawSegment.getBytes ⟨1, 3, [1, 2]⟩) (by decide)
  have hlength : (RawSegment.getBytes ⟨1, 3, [1, 2]⟩).length ≤ 1024 := by decide
  exact (receive_whole_iff _ _ hdata hcarries).mpr
    (.inr ((MessageObject.fits_ofSize_iff hlength).mpr hlength))

/-- A segment of one octet more than the message of `receiver_loop` can hold is cut. -/
theorem not_receive_whole_long :
    ¬ ∀ (c : Communicator) (m : MessageObject) (buf : Buffer) (rest : List Buffer)
        (bytes : List UInt8), c.data = buf :: rest → buf.frame.Carries bytes →
        m.Whole bytes ((c.receive m).1, (c.receive m).2.1) := by
  intro h
  have hlength : (RawSegment.getBytes ⟨1, 0, List.replicate 1016 0⟩).length = 1025 := by
    rw [RawSegment.length_getBytes, List.length_replicate]
    rfl
  obtain ⟨buf, hdata, hcarries⟩ :=
    queued_data (RawSegment.getBytes ⟨1, 0, List.replicate 1016 0⟩) (by rw [hlength]; decide)
  have hwhole := h _ (.ofSize (fun _ => 0) 0 1024) buf [] _ hdata hcarries
  rw [Communicator.receive_cons hdata, MessageObject.whole_iff hcarries] at hwhole
  rcases hwhole with hshort | hfits
  · unfold MessageObject.copied at hshort
    rw [hlength, MessageObject.ofSize_capacity] at hshort
    exact absurd hshort (by decide)
  · have hle := hfits.length_le
    rw [hlength, MessageObject.ofSize_capacity] at hle
    exact absurd hle (by decide)

/-- A type that no `MsgType` has. -/
theorem codec_agrees_unknown :
    MessageObject.Agrees (RawSegment.getBytes ⟨200, 3, [1, 2]⟩)
      (((queued (RawSegment.getBytes ⟨200, 3, [1, 2]⟩) (by decide)).receive
          (.ofSize (fun _ => 0) 0 11)).1,
        ((queued (RawSegment.getBytes ⟨200, 3, [1, 2]⟩) (by decide)).receive
          (.ofSize (fun _ => 0) 0 11)).2.1) := by
  obtain ⟨buf, hdata, hcarries⟩ := queued_data (RawSegment.getBytes ⟨200, 3, [1, 2]⟩) (by decide)
  exact (codec_agrees_iff _ _ _ 11 hdata hcarries (by decide)).2.mpr (.inr (by decide))

/-- A capacity of 2^32 becomes 0, and a segment without payload is refused. -/
theorem not_agrees_capacity :
    ¬ ∀ (c : Communicator) (buf : Buffer) (rest : List Buffer) (bytes : List UInt8)
        (memory : Memory) (t : UInt64) (n : ℕ), c.data = buf :: rest →
        buf.frame.Carries bytes → bytes.length ≤ n →
          MessageObject.Agrees bytes ((c.receive (.ofSize memory t n)).1,
            (c.receive (.ofSize memory t n)).2.1) := by
  intro h
  obtain ⟨buf, hdata, hcarries⟩ := queued_data (RawSegment.getBytes ⟨1, 0, []⟩) (by decide)
  have hn : (RawSegment.getBytes ⟨1, 0, []⟩).length ≤ 2 ^ 32 := by decide
  have hagrees := h _ buf [] _ (fun _ => 0) 0 (2 ^ 32) hdata hcarries hn
  rw [Communicator.receive_cons hdata, MessageObject.agrees_iff hcarries hn] at hagrees
  exact absurd hagrees (by decide)

end CommunicationAPI
