import CommunicationAPI.MessageObject

/-!
# What the handlers read

The dispatch in `receiver_loop` and the handlers behind it, with every read they
make of the message's payload and of the payload of a decoded envelope.
-/

namespace CommunicationAPI
open Octets ShmEngine

/-- A read of `size` octets at `offset`, in a buffer of `length` octets. -/
structure Access where
  offset : ℕ
  size : ℕ
  length : ℕ
  deriving DecidableEq, Repr

def Access.InBounds (a : Access) : Prop := a.offset + a.size ≤ a.length

instance : DecidablePred Access.InBounds := fun a =>
  inferInstanceAs (Decidable (a.offset + a.size ≤ a.length))

@[simp] theorem Access.inBounds_mk (offset size length : ℕ) :
    (⟨offset, size, length⟩ : Access).InBounds ↔ offset + size ≤ length := Iff.rfl

inductive Effect
  /-- `notify_interest_request`, for a subscriber. -/
  | interest (type : TedsType) (period : Period) (source : Address)
  /-- The actuator applies a value. -/
  | apply (value : Reading)
  | sendEcho (dest : Address) (timestamp senderId : UInt64)
  | computeRtt (timestamp : UInt64) (source : Address)

/-- The reads that handling a message makes, and its effect. -/
structure Handling where
  reads : List Access
  effect : Option Effect

def applyValueFromPayload (payload : CharVector) : Handling where
  reads := [⟨Teds.headerSize, 4, payload.size⟩]
  effect := some (.apply (Teds.intervalMs payload.storage))

/-- `TEDSHandler::handleTEDSMessage`. -/
def tedsHandling (m : MessageObject) : Handling :=
  let type := Teds.headerType m.payload.storage
  let headerRead : Access := ⟨0, Teds.headerSize, m.payload.size⟩
  if Teds.isRequest type then
    { reads := [headerRead, ⟨Teds.headerSize, 4, m.payload.size⟩]
      effect := some (.interest type (Teds.intervalMs m.payload.storage) m.source) }
  else
    { reads := headerRead :: (applyValueFromPayload m.payload).reads
      effect := (applyValueFromPayload m.payload).effect }

def TedsHandler.after (h : TedsHandler) : Option Effect → TedsHandler
  | some (.interest type period source) =>
    { component := h.component.notifyInterestRequest period type false
      subscribers := h.subscribers.set type (subscribe source period (h.subscribers.get type)) }
  | _ => h

theorem handleTedsMessage_eq_after (h : TedsHandler) (m : MessageObject) :
    h.handleTedsMessage m.source m.payload.storage = h.after (tedsHandling m).effect := by
  unfold TedsHandler.handleTedsMessage tedsHandling
  dsimp only
  split_ifs <;> rfl

namespace ControlEnvelope

def headerSize : ℕ := 5

def latency : UInt8 := 1

/-- A decoded packet. Its payload is a vector of `size` octets. -/
structure Packet where
  type : UInt8
  payload : Memory
  size : ℕ

def payloadLen (src : Memory) : ℕ := decode (load src 1 4)

def bytesToCopy (src : Memory) (size : ℕ) : ℕ :=
  let packetPayloadSize := payloadLen src
  let actualPayloadSize := if headerSize < size then size - headerSize else 0
  if packetPayloadSize ≤ actualPayloadSize then packetPayloadSize else actualPayloadSize

/-- `Packet::from_buffer`. `heap` is the memory around the vector of the payload. -/
def fromBuffer (heap src : Memory) (size : ℕ) : Packet where
  type := src 0
  payload := store heap 0 (load src headerSize (bytesToCopy src size))
  size := bytesToCopy src size

def fromBufferReads (src : Memory) (size : ℕ) : List Access :=
  ⟨0, headerSize, size⟩ ::
    if bytesToCopy src size = 0 then [] else [⟨headerSize, bytesToCopy src size, size⟩]

end ControlEnvelope

namespace LatencyTest

/-- `sizeof(LatencyTest::Header)`: an `int`, four octets of padding and the sender. -/
def headerSize : ℕ := 16

def ping : ℕ := 1

def echo : ℕ := 2

def type (payload : Memory) : ℕ := decode (load payload 0 4)

def senderId (payload : Memory) : UInt64 := UInt64.ofNat (decode (load payload 8 8))

def timestamp (payload : Memory) : UInt64 := UInt64.ofNat (decode (load payload headerSize 8))

def Answered (mySenderId : UInt64) (payload : Memory) : Prop :=
  type payload = ping ∨ type payload = echo ∧ senderId payload = mySenderId

instance (mySenderId : UInt64) (payload : Memory) : Decidable (Answered mySenderId payload) :=
  inferInstanceAs (Decidable (_ ∨ _))

end LatencyTest

/-- `LatencyTestHandler::handleControlMessage`. -/
def controlHandling (mySenderId : UInt64) (heap : Memory) (m : MessageObject) : Handling :=
  let p := ControlEnvelope.fromBuffer heap m.payload.storage m.payload.size
  let reads := ControlEnvelope.fromBufferReads m.payload.storage m.payload.size
  if p.type = ControlEnvelope.latency then
    let headerRead : Access := ⟨0, LatencyTest.headerSize, p.size⟩
    let timestampRead : Access := ⟨LatencyTest.headerSize, 8, p.size⟩
    if LatencyTest.type p.payload = LatencyTest.ping then
      let dest : Address :=
        ⟨if m.source.paddr = localAddr then localAddr else broadcastAddr, 1000⟩
      { reads := reads ++ [headerRead, timestampRead]
        effect := some (.sendEcho dest (LatencyTest.timestamp p.payload)
          (LatencyTest.senderId p.payload)) }
    else if LatencyTest.type p.payload = LatencyTest.echo ∧
        LatencyTest.senderId p.payload = mySenderId then
      { reads := reads ++ [headerRead, timestampRead]
        effect := some (.computeRtt (LatencyTest.timestamp p.payload) m.source) }
    else { reads := reads ++ [headerRead], effect := none }
  else { reads := reads, effect := none }

/-- The `switch` of `receiver_loop`. -/
def receiverDispatch (mySenderId : UInt64) (heap : Memory) (m : MessageObject) : Handling :=
  if m.type = MsgType.teds.code then tedsHandling m
  else if m.type = MsgType.control.code then controlHandling mySenderId heap m
  else { reads := [], effect := none }

namespace ControlEnvelope

def heldSize (src : Memory) (size : ℕ) : ℕ := min (payloadLen src) (size - headerSize)

theorem bytesToCopy_eq (src : Memory) (size : ℕ) : bytesToCopy src size = heldSize src size := by
  unfold bytesToCopy heldSize
  dsimp only
  split_ifs <;> omega

theorem fromBufferReads_inBounds (src : Memory) (size : ℕ) :
    (∀ a ∈ fromBufferReads src size, a.InBounds) ↔ headerSize ≤ size := by
  unfold fromBufferReads
  rw [bytesToCopy_eq]
  constructor
  · intro h
    have hheader := h _ List.mem_cons_self
    rw [Access.inBounds_mk] at hheader
    omega
  · intro h a ha
    have hheld : heldSize src size ≤ size - headerSize := min_le_right _ _
    rcases List.mem_cons.mp ha with rfl | ha
    · rw [Access.inBounds_mk]
      omega
    · split_ifs at ha
      · cases ha
      · rw [List.mem_singleton.mp ha]
        rw [Access.inBounds_mk]
        omega

theorem fromBuffer_size (heap src : Memory) (size : ℕ) :
    (fromBuffer heap src size).size = heldSize src size := by
  unfold fromBuffer
  exact bytesToCopy_eq src size

/-- The payload of a packet is the part of the buffer behind its header. -/
theorem load_fromBuffer (heap src : Memory) (size : ℕ) {off n : ℕ}
    (h : off + n ≤ heldSize src size) :
    load (fromBuffer heap src size).payload off n = load src (headerSize + off) n := by
  unfold fromBuffer
  rw [bytesToCopy_eq, load_store_of_le _ (by rwa [length_load]), load_drop, load_take,
    min_eq_left (by omega)]

end ControlEnvelope

namespace MessageObject
variable (m : MessageObject)

def heldSize : ℕ := ControlEnvelope.heldSize m.payload.storage m.payload.size

def IsLatency : Prop :=
  m.type = MsgType.control.code ∧ m.payload.storage 0 = ControlEnvelope.latency

def envelopePayload : Memory := fun i => m.payload.storage (ControlEnvelope.headerSize + i)

end MessageObject

/-- Every handler finds the octets it reads, and messages too short for their handler are
ignored. -/
structure Contained (m : MessageObject) (h : Handling) : Prop where
  inBounds : ∀ a ∈ h.reads, a.InBounds
  shortTeds : m.type = MsgType.teds.code → m.payload.size < 8 → h.effect = none
  shortLatency : m.IsLatency → m.heldSize < 24 → h.effect = none

/-- The lengths that the handlers rely on. -/
structure LongEnough (mySenderId : UInt64) (m : MessageObject) : Prop where
  teds : m.type = MsgType.teds.code → 8 ≤ m.payload.size
  control : m.type = MsgType.control.code → ControlEnvelope.headerSize ≤ m.payload.size
  header : m.IsLatency → LatencyTest.headerSize ≤ m.heldSize
  timestamp : m.IsLatency → LatencyTest.Answered mySenderId m.envelopePayload → 24 ≤ m.heldSize

section
variable {mySenderId : UInt64} {heap : Memory} {m : MessageObject}

theorem tedsHandling_reads (m : MessageObject) :
    (tedsHandling m).reads = [⟨0, 4, m.payload.size⟩, ⟨4, 4, m.payload.size⟩] := by
  unfold tedsHandling
  dsimp only
  split_ifs <;> rfl

/-- A complete header of a latency test is found at its place in the message. -/
theorem answered_iff (h : LatencyTest.headerSize ≤ m.heldSize) :
    LatencyTest.Answered mySenderId
        (ControlEnvelope.fromBuffer heap m.payload.storage m.payload.size).payload ↔
      LatencyTest.Answered mySenderId m.envelopePayload := by
  unfold LatencyTest.headerSize at h
  have htype := ControlEnvelope.load_fromBuffer heap m.payload.storage m.payload.size
    (by omega : 0 + 4 ≤ m.heldSize)
  have hsender := ControlEnvelope.load_fromBuffer heap m.payload.storage m.payload.size
    (by omega : 8 + 8 ≤ m.heldSize)
  have hshift : ∀ off n, load m.envelopePayload off n =
      load m.payload.storage (ControlEnvelope.headerSize + off) n := by
    intro off n
    unfold load MessageObject.envelopePayload
    simp only [Nat.add_assoc]
  unfold LatencyTest.Answered LatencyTest.type LatencyTest.senderId
  rw [htype, hsender, hshift, hshift]

/-- The reads of `handleControlMessage`, and whether it answers. -/
theorem controlHandling_eq (mySenderId : UInt64) (heap : Memory) (m : MessageObject) :
    (controlHandling mySenderId heap m).reads =
        ControlEnvelope.fromBufferReads m.payload.storage m.payload.size ++
          (if m.payload.storage 0 = ControlEnvelope.latency then
            ⟨0, LatencyTest.headerSize, m.heldSize⟩ ::
              if LatencyTest.Answered mySenderId (ControlEnvelope.fromBuffer heap m.payload.storage
                  m.payload.size).payload then [⟨LatencyTest.headerSize, 8, m.heldSize⟩] else []
          else []) ∧
      ((controlHandling mySenderId heap m).effect = none ↔
        ¬ (m.payload.storage 0 = ControlEnvelope.latency ∧
          LatencyTest.Answered mySenderId (ControlEnvelope.fromBuffer heap m.payload.storage
            m.payload.size).payload)) := by
  have hsize : (ControlEnvelope.fromBuffer heap m.payload.storage m.payload.size).size =
      m.heldSize := by rw [ControlEnvelope.fromBuffer_size, MessageObject.heldSize]
  have htype : (ControlEnvelope.fromBuffer heap m.payload.storage m.payload.size).type =
      m.payload.storage 0 := rfl
  unfold controlHandling
  simp only [hsize, htype]
  generalize (ControlEnvelope.fromBuffer heap m.payload.storage m.payload.size).payload = payload
  by_cases hlatency : m.payload.storage 0 = ControlEnvelope.latency
  · by_cases hping : LatencyTest.type payload = LatencyTest.ping
    · have hanswered : LatencyTest.Answered mySenderId payload := .inl hping
      simp [hlatency, hping, hanswered]
    · by_cases hecho : LatencyTest.type payload = LatencyTest.echo ∧
          LatencyTest.senderId payload = mySenderId
      · have hanswered : LatencyTest.Answered mySenderId payload := .inr hecho
        rw [if_pos hlatency, if_neg hping, if_pos hecho]
        simp [hlatency, hanswered]
      · have hanswered : ¬ LatencyTest.Answered mySenderId payload := not_or.mpr ⟨hping, hecho⟩
        rw [if_pos hlatency, if_neg hping, if_neg hecho]
        simp [hlatency, hanswered]
  · simp [hlatency]

theorem contained_teds (htype : m.type = MsgType.teds.code) :
    Contained m (tedsHandling m) ↔ 8 ≤ m.payload.size := by
  constructor
  · intro h
    have hcontent := h.inBounds ⟨4, 4, m.payload.size⟩ (by rw [tedsHandling_reads]; simp)
    rwa [Access.inBounds_mk] at hcontent
  · intro h
    constructor
    · intro a ha
      rw [tedsHandling_reads] at ha
      rcases List.mem_cons.mp ha with rfl | ha
      · rw [Access.inBounds_mk]
        omega
      · rw [List.mem_singleton.mp ha, Access.inBounds_mk]
        exact h
    · exact fun _ hshort => absurd h (Nat.not_le.mpr hshort)
    · intro hlatency
      rw [hlatency.1] at htype
      cases htype

/-- The reads of `handleControlMessage` are in bounds if each of its stages has enough. -/
theorem controlHandling_inBounds (hcontrol : m.type = MsgType.control.code) :
    (∀ a ∈ (controlHandling mySenderId heap m).reads, a.InBounds) ↔
      ControlEnvelope.headerSize ≤ m.payload.size ∧
        (m.IsLatency → LatencyTest.headerSize ≤ m.heldSize) ∧
        (m.IsLatency → LatencyTest.Answered mySenderId m.envelopePayload → 24 ≤ m.heldSize) := by
  rw [(controlHandling_eq mySenderId heap m).1, List.forall_mem_append,
    ControlEnvelope.fromBufferReads_inBounds]
  apply and_congr_right
  intro _
  by_cases hlatency : m.payload.storage 0 = ControlEnvelope.latency
  · have his : m.IsLatency := ⟨hcontrol, hlatency⟩
    rw [if_pos hlatency, List.forall_mem_cons, Access.inBounds_mk, Nat.zero_add]
    constructor
    · rintro ⟨hheader, htimestamp⟩
      refine ⟨fun _ => hheader, fun _ hanswered => ?_⟩
      rw [if_pos ((answered_iff hheader).mpr hanswered)] at htimestamp
      exact htimestamp _ (List.mem_singleton_self _)
    · rintro ⟨hheader, htimestamp⟩
      refine ⟨hheader his, fun a ha => ?_⟩
      split_ifs at ha with hanswered
      · rw [List.mem_singleton.mp ha, Access.inBounds_mk]
        exact htimestamp his ((answered_iff (hheader his)).mp hanswered)
      · cases ha
  · have hnot : ¬ m.IsLatency := fun h => hlatency h.2
    rw [if_neg hlatency]
    simp [hnot]

theorem contained_control (hcontrol : m.type = MsgType.control.code) :
    Contained m (controlHandling mySenderId heap m) ↔
      ControlEnvelope.headerSize ≤ m.payload.size ∧
        (m.IsLatency → LatencyTest.headerSize ≤ m.heldSize) ∧
        (m.IsLatency → LatencyTest.Answered mySenderId m.envelopePayload → 24 ≤ m.heldSize) := by
  have hbounds : (∀ a ∈ (controlHandling mySenderId heap m).reads, a.InBounds) ↔ _ :=
    controlHandling_inBounds hcontrol
  rw [← hbounds]
  constructor
  · exact fun h => h.inBounds
  · intro h
    obtain ⟨-, hheader, htimestamp⟩ := hbounds.mp h
    refine ⟨h, ?_, ?_⟩
    · intro hteds
      rw [hcontrol] at hteds
      cases hteds
    · intro his hshort
      rw [(controlHandling_eq mySenderId heap m).2]
      rintro ⟨-, hanswered⟩
      have hlong := htimestamp his ((answered_iff (hheader his)).mp hanswered)
      omega

/-- The handlers keep to the octets of a message if and only if it is long enough for its
type, and its envelope for the kind of latency test in it. -/
theorem handlers_contained_iff (mySenderId : UInt64) (heap : Memory) (m : MessageObject) :
    Contained m (receiverDispatch mySenderId heap m) ↔ LongEnough mySenderId m := by
  unfold receiverDispatch
  by_cases hteds : m.type = MsgType.teds.code
  · have hnot : m.type ≠ MsgType.control.code := by
      rw [hteds]
      decide
    rw [if_pos hteds, contained_teds hteds]
    constructor
    · intro h
      exact ⟨fun _ => h, fun hc => absurd hc hnot, fun hl => absurd hl.1 hnot,
        fun hl => absurd hl.1 hnot⟩
    · exact fun h => h.teds hteds
  · rw [if_neg hteds]
    by_cases hcontrol : m.type = MsgType.control.code
    · rw [if_pos hcontrol, contained_control hcontrol]
      constructor
      · rintro ⟨hsize, hheader, htimestamp⟩
        exact ⟨fun ht => absurd ht hteds, fun _ => hsize, hheader, htimestamp⟩
      · exact fun h => ⟨h.control hcontrol, h.header, h.timestamp⟩
    · rw [if_neg hcontrol]
      constructor
      · intro _
        exact ⟨fun ht => absurd ht hteds, fun hc => absurd hc hcontrol,
          fun hl => absurd hl.1 hcontrol, fun hl => absurd hl.1 hcontrol⟩
      · intro _
        refine ⟨?_, fun _ _ => rfl, fun _ _ => rfl⟩
        intro a ha
        cases ha

end

/-- A component receives a TEDS message of one octet. -/
theorem not_contained_short_teds :
    ¬ ∀ (c : Communicator) (m : MessageObject) (mySenderId : UInt64) (heap : Memory),
        (c.receive m).1 = true →
          Contained (c.receive m).2.1 (receiverDispatch mySenderId heap (c.receive m).2.1) := by
  intro h
  have hreceived := h (queued (RawSegment.getBytes ⟨1, 0, [7]⟩) (by decide))
    (.ofSize (fun _ => 0) 0 1024) 0 (fun _ => 0) (by decide)
  have hread := hreceived.inBounds ⟨4, 4, 1⟩ (by decide +kernel)
  exact absurd hread (by decide)

end CommunicationAPI
