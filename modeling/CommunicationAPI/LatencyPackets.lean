import CommunicationAPI.EnvelopeCodec

/-!
# Packets of the latency test

A PING carries the time and the name of its sender. The ECHO repeats both.
-/

namespace CommunicationAPI
open Octets ShmEngine

namespace LatencyTest

inductive Kind
  | ping | echo
  deriving DecidableEq, Repr

def Kind.code : Kind → ℕ
  | .ping => LatencyTest.ping
  | .echo => LatencyTest.echo

/-- `LatencyTest::Packet`. The octets between the type and the sender are not initialized. -/
structure Packet where
  kind : Kind
  padding : Vector UInt8 4
  senderId : UInt64
  timestamp : UInt64
  deriving DecidableEq

namespace Packet
variable (p : Packet)

def size : ℕ := headerSize + 8

def octets : List UInt8 :=
  encode 4 p.kind.code ++ (p.padding.toList ++ (encode 8 p.senderId.toNat ++
    encode 8 p.timestamp.toNat))

def envelope : EnvelopeCodec.Packet :=
  EnvelopeCodec.createEnvelope (store (fun _ => 0) 0 p.octets) size ControlEnvelope.latency

def controlPayload : List UInt8 :=
  load (p.envelope.serialize fun _ => 0) 0 p.envelope.totalSize

def segment : Segment := ⟨.control, 0, p.controlPayload⟩

end Packet

variable {p : Packet} {payload : Memory}

theorem length_octets (p : Packet) : p.octets.length = Packet.size := by
  simp [Packet.octets, Packet.size, headerSize]

theorem payload_envelope (p : Packet) : p.envelope.payload = p.octets := by
  have hload := load_store (fun _ => 0) 0 p.octets
  rw [length_octets] at hload
  exact hload

theorem totalSize_envelope (p : Packet) : p.envelope.totalSize = 29 := by
  unfold EnvelopeCodec.Packet.totalSize
  rw [payload_envelope, length_octets]
  rfl

theorem controlPayload_eq (p : Packet) : p.controlPayload = p.envelope.octets :=
  EnvelopeCodec.load_serialize _ _

theorem length_controlPayload (p : Packet) : p.controlPayload.length = 29 := by
  unfold Packet.controlPayload
  rw [length_load, totalSize_envelope]

/-- The fields of a packet that lies in memory. -/
theorem fields_of_load (h : load payload 0 Packet.size = p.octets) :
    type payload = p.kind.code ∧ senderId payload = p.senderId ∧
      timestamp payload = p.timestamp := by
  have hsplit : load payload 0 4 ++ (load payload 4 4 ++ (load payload 8 8 ++
      load payload 16 8)) = p.octets := by
    rw [← h, ← load_append payload 8 8 8, ← load_append payload 4 4 16,
      ← load_append payload 0 4 20]
    rfl
  unfold Packet.octets at hsplit
  obtain ⟨htype, hsplit⟩ := List.append_inj hsplit (by simp)
  obtain ⟨-, hsplit⟩ := List.append_inj hsplit (by simp)
  obtain ⟨hsender, htime⟩ := List.append_inj hsplit (by simp)
  refine ⟨?_, ?_, ?_⟩
  · unfold type
    rw [htype]
    cases p.kind <;> rfl
  · unfold senderId
    rw [hsender, decode_encode p.senderId.toNat_lt, UInt64.ofNat_toNat]
  · unfold timestamp headerSize
    rw [htime, decode_encode p.timestamp.toNat_lt, UInt64.ofNat_toNat]

/-- What the handler finds in a message with a packet. -/
theorem fromBuffer_packet (heap : Memory) {m : MessageObject}
    (hm : m.payload.toList = p.controlPayload) :
    (ControlEnvelope.fromBuffer heap m.payload.storage m.payload.size).type =
        ControlEnvelope.latency ∧
      load (ControlEnvelope.fromBuffer heap m.payload.storage m.payload.size).payload 0
        Packet.size = p.octets := by
  have hsize : m.payload.size = p.envelope.totalSize := by
    rw [← CharVector.length_toList, hm, length_controlPayload, totalSize_envelope]
  have hload : load m.payload.storage 0 p.envelope.totalSize = p.envelope.octets := by
    rw [← hsize, ← controlPayload_eq]
    exact hm
  have hread : EnvelopeCodec.fromBuffer m.payload.storage m.payload.size = p.envelope :=
    EnvelopeCodec.fromBuffer_of_load (EnvelopeCodec.createEnvelope_exact _ _ _) hload hsize.ge
  obtain ⟨htype, hlength, hpayload⟩ :=
    EnvelopeCodec.controlEnvelope_fromBuffer heap m.payload.storage m.payload.size
  rw [hread, payload_envelope] at hpayload
  rw [hread, payload_envelope, length_octets] at hlength
  rw [hlength] at hpayload
  rw [hread] at htype
  exact ⟨htype, hpayload⟩

theorem fields_of_segment {p q : Packet} (h : p.segment = q.segment) :
    p.kind = q.kind ∧ p.senderId = q.senderId ∧ p.timestamp = q.timestamp := by
  have hoctets : p.envelope.octets = q.envelope.octets := by
    rw [← controlPayload_eq, ← controlPayload_eq]
    exact congrArg Segment.payload h
  have hpayload : p.octets = q.octets := by
    rw [← payload_envelope, ← payload_envelope]
    exact (List.append_inj' hoctets (by rw [payload_envelope, payload_envelope, length_octets,
      length_octets])).2
  have hload := load_store (fun _ => 0) 0 p.octets
  rw [length_octets] at hload
  obtain ⟨htype, hsender, htime⟩ := fields_of_load hload
  rw [hpayload] at hload
  obtain ⟨htype', hsender', htime'⟩ := fields_of_load hload
  rw [hpayload] at htype hsender htime
  refine ⟨?_, hsender.symm.trans hsender', htime.symm.trans htime'⟩
  have hcode := htype.symm.trans htype'
  revert hcode
  cases p.kind <;> cases q.kind <;> decide

end LatencyTest

/-- A PING is echoed to where it came from, with its own time and sender. -/
theorem controlHandling_ping (mySenderId : UInt64) (heap : Memory) {m : MessageObject}
    {p : LatencyTest.Packet} (hm : m.payload.toList = p.controlPayload) (hp : p.kind = .ping) :
    (controlHandling mySenderId heap m).effect =
      some (.sendEcho ⟨if m.source.paddr = localAddr then localAddr else broadcastAddr, 1000⟩
        p.timestamp p.senderId) := by
  obtain ⟨htype, hload⟩ := LatencyTest.fromBuffer_packet heap hm
  obtain ⟨hkind, hsender, htime⟩ := LatencyTest.fields_of_load hload
  rw [hp] at hkind
  have hping : LatencyTest.type (ControlEnvelope.fromBuffer heap m.payload.storage
      m.payload.size).payload = LatencyTest.ping := hkind
  unfold controlHandling
  simp only [if_pos htype, if_pos hping, hsender, htime]

/-- An ECHO is measured by the sender that it names, and triggers nothing. -/
theorem controlHandling_echo (mySenderId : UInt64) (heap : Memory) {m : MessageObject}
    {p : LatencyTest.Packet} (hm : m.payload.toList = p.controlPayload) (hp : p.kind = .echo) :
    (controlHandling mySenderId heap m).effect =
      if p.senderId = mySenderId then some (.computeRtt p.timestamp m.source) else none := by
  obtain ⟨htype, hload⟩ := LatencyTest.fromBuffer_packet heap hm
  obtain ⟨hkind, hsender, htime⟩ := LatencyTest.fields_of_load hload
  rw [hp] at hkind
  have hecho : LatencyTest.type (ControlEnvelope.fromBuffer heap m.payload.storage
      m.payload.size).payload = LatencyTest.echo := hkind
  have hping : LatencyTest.type (ControlEnvelope.fromBuffer heap m.payload.storage
      m.payload.size).payload ≠ LatencyTest.ping := by
    rw [hecho]
    decide
  unfold controlHandling
  simp only [if_pos htype, if_neg hping]
  simp only [hecho, hsender, htime, true_and]
  split_ifs <;> rfl

end CommunicationAPI
