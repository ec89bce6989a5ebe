import CommunicationAPI.HandlerReads

/-!
# Encoding and decoding control envelopes

An envelope is a packed header of five octets and a vector. The length in the
header, the octets available and the length of the vector are kept apart.
-/

namespace CommunicationAPI.EnvelopeCodec
open Octets ControlEnvelope

structure Header where
  type : UInt8
  payloadLen : UInt32
  deriving DecidableEq, Repr

structure Packet where
  header : Header
  payload : List UInt8
  deriving DecidableEq, Repr

def Header.octets (h : Header) : List UInt8 := h.type :: encode 4 h.payloadLen.toNat

def readHeader (src : Memory) : Header := ⟨src 0, UInt32.ofNat (payloadLen src)⟩

namespace Packet

def totalSize (p : Packet) : ℕ := headerSize + p.payload.length

def serialize (p : Packet) (dst : Memory) : Memory :=
  store (store dst 0 p.header.octets) headerSize p.payload

def octets (p : Packet) : List UInt8 := p.header.octets ++ p.payload

end Packet

def fromBuffer (src : Memory) (size : ℕ) : Packet where
  header := readHeader src
  payload := load src headerSize (bytesToCopy src size)

/-- `create_envelope`, for an object of `size` octets at `packetData`. -/
def createEnvelope (packetData : Memory) (size : ℕ) (type : UInt8) : Packet where
  header := ⟨type, UInt32.ofNat size⟩
  payload := load packetData 0 (UInt32.ofNat size).toNat

/-- The announced length is that of the vector. -/
def Packet.Exact (p : Packet) : Prop := p.header.payloadLen.toNat = p.payload.length

theorem createEnvelope_exact (packetData : Memory) (size : ℕ) (type : UInt8) :
    (createEnvelope packetData size type).Exact :=
  (length_load packetData 0 _).symm

theorem length_header_octets (h : Header) : h.octets.length = headerSize := by
  unfold Header.octets
  rw [List.length_cons, length_encode]
  rfl

theorem payloadLen_lt (src : Memory) : payloadLen src < 2 ^ 32 := by
  have h := decode_lt (load src 1 4)
  rw [length_load] at h
  have hpow : 256 ^ 4 = 2 ^ 32 := by norm_num
  rw [← hpow]
  exact h

theorem toNat_header_payloadLen (src : Memory) :
    (readHeader src).payloadLen.toNat = payloadLen src := by
  change (UInt32.ofNat (payloadLen src)).toNat = payloadLen src
  rw [UInt32.toNat_ofNat']
  exact Nat.mod_eq_of_lt (payloadLen_lt src)

/-- A header is a type and a length. -/
theorem load_headerSize (src : Memory) :
    load src 0 headerSize = load src 0 1 ++ load src 1 4 := load_append src 0 1 4

/-- A header that lies in memory reads back. -/
theorem load_header {src : Memory} {h : Header} (hsrc : load src 0 headerSize = h.octets) :
    readHeader src = h := by
  rw [load_headerSize, Header.octets, ← List.singleton_append] at hsrc
  obtain ⟨htype, hlength⟩ := List.append_inj hsrc (by simp)
  have hdecoded : payloadLen src = h.payloadLen.toNat := by
    unfold payloadLen
    rw [hlength]
    exact decode_encode h.payloadLen.toNat_lt
  unfold readHeader
  rw [hdecoded, UInt32.ofNat_toNat]
  congr 1
  exact (List.cons.inj htype).1

/-- The header read from a buffer has the octets of the buffer. -/
theorem octets_load_header (src : Memory) :
    (readHeader src).octets = load src 0 headerSize := by
  have hencoded := encode_decode (load src 1 4)
  rw [length_load] at hencoded
  unfold Header.octets
  rw [toNat_header_payloadLen, payloadLen, hencoded, load_headerSize]
  rfl

theorem length_octets (p : Packet) : p.octets.length = p.totalSize := by
  unfold Packet.octets Packet.totalSize
  rw [List.length_append, length_header_octets]

/-- `serialize` fills `total_size` octets. -/
theorem load_serialize (p : Packet) (dst : Memory) :
    load (p.serialize dst) 0 p.totalSize = p.octets := by
  have hheader : load (p.serialize dst) 0 headerSize = p.header.octets := by
    unfold Packet.serialize
    rw [load_store_of_disjoint _ _ (.inl (by simp)), ← length_header_octets p.header, load_store]
  have hpayload : load (p.serialize dst) headerSize p.payload.length = p.payload :=
    load_store _ headerSize p.payload
  unfold Packet.totalSize Packet.octets
  rw [load_append, hheader, Nat.zero_add, hpayload]

/-- A packet whose length is announced correctly is read back from any buffer that
begins with it. -/
theorem fromBuffer_of_load {p : Packet} (hp : p.Exact) {src : Memory} {size : ℕ}
    (hsrc : load src 0 p.totalSize = p.octets) (hsize : p.totalSize ≤ size) :
    fromBuffer src size = p := by
  unfold Packet.totalSize Packet.octets at hsrc
  rw [load_append, Nat.zero_add] at hsrc
  obtain ⟨hheader, hpayload⟩ := List.append_inj hsrc (by rw [length_load, length_header_octets])
  have hload := load_header hheader
  have hannounced : payloadLen src = p.payload.length := by
    rw [← toNat_header_payloadLen, hload, hp]
  have hcopied : bytesToCopy src size = p.payload.length := by
    unfold Packet.totalSize at hsize
    rw [bytesToCopy_eq]
    unfold heldSize
    rw [hannounced]
    omega
  unfold fromBuffer
  rw [hload, hcopied, hpayload]

theorem length_payload_fromBuffer (src : Memory) (size : ℕ) :
    (fromBuffer src size).payload.length = bytesToCopy src size :=
  length_load src headerSize _

/-- A decoded packet holds the announced octets as far as they are there. -/
theorem totalSize_fromBuffer (src : Memory) (size : ℕ) :
    (fromBuffer src size).totalSize =
      headerSize + min (fromBuffer src size).header.payloadLen.toNat (size - headerSize) := by
  have hheader : (fromBuffer src size).header.payloadLen.toNat = payloadLen src :=
    toNat_header_payloadLen src
  unfold Packet.totalSize
  rw [length_payload_fromBuffer, hheader, bytesToCopy_eq]
  rfl

theorem octets_fromBuffer (src : Memory) (size : ℕ) :
    (fromBuffer src size).octets = load src 0 (fromBuffer src size).totalSize := by
  unfold Packet.totalSize
  rw [length_payload_fromBuffer, load_append, Nat.zero_add, ← octets_load_header]
  rfl

/-- An envelope is read back from behind its serialized form whatever follows, and what
is read from a buffer of at least five octets is written back as the part of the
buffer that holds it, of that length. -/
theorem envelope_codec (packetData dst rest : Memory) (size : ℕ) (type : UInt8)
    (x b : List UInt8) :
    fromBuffer
        (store ((createEnvelope packetData size type).serialize dst)
          (createEnvelope packetData size type).totalSize x)
        ((createEnvelope packetData size type).totalSize + x.length) =
      createEnvelope packetData size type ∧
      (headerSize ≤ b.length →
        (fromBuffer (store rest 0 b) b.length).totalSize = headerSize +
            min (fromBuffer (store rest 0 b) b.length).header.payloadLen.toNat
              (b.length - headerSize) ∧
          load ((fromBuffer (store rest 0 b) b.length).serialize dst) 0
              (fromBuffer (store rest 0 b) b.length).totalSize =
            b.take (headerSize +
              min (fromBuffer (store rest 0 b) b.length).header.payloadLen.toNat
                (b.length - headerSize))) := by
  constructor
  · refine fromBuffer_of_load (createEnvelope_exact packetData size type) ?_ (Nat.le_add_right _ _)
    rw [load_store_of_disjoint _ _ (.inl (by simp)), load_serialize]
  · intro hb
    have htotal := totalSize_fromBuffer (store rest 0 b) b.length
    refine ⟨htotal, ?_⟩
    rw [load_serialize, octets_fromBuffer, htotal, load_store_of_le rest (by omega),
      List.drop_zero]

def truncated : List UInt8 := [1, 2, 0, 0, 0, 7]

theorem envelope_codec_of_truncated :
    (fromBuffer (store (fun _ => 0) 0 truncated) truncated.length).totalSize = 6 ∧
      load ((fromBuffer (store (fun _ => 0) 0 truncated) truncated.length).serialize fun _ => 0) 0
        (fromBuffer (store (fun _ => 0) 0 truncated) truncated.length).totalSize = truncated := by
  have h := (envelope_codec (fun _ => 0) (fun _ => 0) (fun _ => 0) 0 1 [] truncated).2 (by decide)
  have hannounced : (fromBuffer (store (fun _ => 0) 0 truncated)
      truncated.length).header.payloadLen = 2 := by decide
  rw [hannounced] at h
  exact h

/-- What the handlers decode is what the codec decodes. -/
theorem controlEnvelope_fromBuffer (heap src : Memory) (size : ℕ) :
    (ControlEnvelope.fromBuffer heap src size).type = (fromBuffer src size).header.type ∧
      (ControlEnvelope.fromBuffer heap src size).size = (fromBuffer src size).payload.length ∧
      load (ControlEnvelope.fromBuffer heap src size).payload 0
        (ControlEnvelope.fromBuffer heap src size).size = (fromBuffer src size).payload := by
  have hlength : (load src headerSize (bytesToCopy src size)).length = bytesToCopy src size :=
    length_load src headerSize _
  unfold ControlEnvelope.fromBuffer fromBuffer
  dsimp only
  refine ⟨rfl, hlength.symm, ?_⟩
  have hstored := load_store heap 0 (load src headerSize (bytesToCopy src size))
  rw [hlength] at hstored
  exact hstored

end CommunicationAPI.EnvelopeCodec
