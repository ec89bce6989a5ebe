import CommunicationAPI.Octets
import CommunicationAPI.Segment

/-!
# TEDS types and messages

A type is a 32-bit word. The top bit distinguishes requests from responses, the
next four bits describe the data, and the rest is the physical unit.
-/

namespace CommunicationAPI
open Octets

abbrev TedsType := UInt32

abbrev Period := UInt32

/-- The bits of a `float`. -/
abbrev Reading := UInt32

namespace Teds

def invalid : TedsType := 0

def purposeMask : TedsType := 0x80000000

def digitalMask : TedsType := 0x40000000

def invertMask : TedsType := 0x20000000

def formatMask : TedsType := 0x18000000

def typeMask : TedsType := 0x07FFFFFF

def isRequest (t : TedsType) : Bool := t &&& purposeMask = 0

def getBaseType (t : TedsType) : TedsType := t &&& typeMask

def makeResponseType (baseType : TedsType) : TedsType := baseType ||| purposeMask

def makeRequestType (baseType : TedsType) : TedsType := baseType &&& typeMask

def headerSize : ℕ := 4

def payload (type : TedsType) (content : UInt32) : List UInt8 :=
  encode headerSize type.toNat ++ encode 4 content.toNat

def createRequestPayload (baseType : TedsType) (interval : Period) : List UInt8 :=
  payload (makeRequestType baseType) interval

def createResponsePayload (baseType : TedsType) (value : Reading) : List UInt8 :=
  payload (makeResponseType baseType) value

def headerType (payload : Memory) : TedsType := UInt32.ofNat (decode (load payload 0 headerSize))

def intervalMs (payload : Memory) : Period := UInt32.ofNat (decode (load payload headerSize 4))

def extractType (segment : Memory) (payloadSize : ℕ) : TedsType :=
  if segment 0 ≠ MsgType.teds.code then invalid
  else if payloadSize < headerSize then invalid
  else headerType fun i => segment (segmentHeaderSize + i)

theorem decode_word (x : UInt32) : UInt32.ofNat (decode (encode 4 x.toNat)) = x := by
  have hlt : x.toNat < 256 ^ 4 := x.toNat_lt
  rw [decode_encode hlt, UInt32.ofNat_toNat]

@[simp] theorem length_payload (type : TedsType) (content : UInt32) :
    (payload type content).length = 8 := by
  simp [payload, headerSize]

/-- A memory that holds a payload holds its type and its content. -/
theorem payload_fields {m : Memory} {type : TedsType} {content : UInt32}
    (h : load m 0 8 = payload type content) :
    headerType m = type ∧ intervalMs m = content := by
  have hsplit : load m 0 (headerSize + 4) = load m 0 headerSize ++ load m headerSize 4 := by
    rw [load_append, Nat.zero_add]
  rw [show (8 : ℕ) = headerSize + 4 from rfl, hsplit, payload] at h
  obtain ⟨htype, hcontent⟩ := List.append_inj h (by simp)
  unfold headerType intervalMs
  rw [htype, hcontent]
  exact ⟨decode_word type, decode_word content⟩

theorem isRequest_makeRequestType (t : TedsType) : isRequest (makeRequestType t) = true := by
  have hmasks : typeMask &&& purposeMask = 0 := by decide
  unfold isRequest makeRequestType
  rw [UInt32.and_assoc, hmasks, UInt32.and_zero]
  rfl

/-- The bits between the purpose and the base type. -/
def metadataMask : TedsType := digitalMask ||| invertMask ||| formatMask

theorem testBit_ext {a b : UInt32} :
    a = b ↔ ∀ i < 32, a.toBitVec.getLsbD i = b.toBitVec.getLsbD i := by
  constructor
  · rintro rfl _ _
    rfl
  · intro h
    exact UInt32.eq_of_toBitVec_eq (BitVec.eq_of_getLsbD_eq h)

theorem makeResponseType_ne_invalid (t : TedsType) : makeResponseType t ≠ invalid := by
  intro h
  have hbit := testBit_ext.mp h 31 (by decide)
  unfold makeResponseType at hbit
  have hpurpose : purposeMask.toBitVec.getLsbD 31 = true := by decide
  rw [UInt32.toBitVec_or, BitVec.getLsbD_or, hpurpose, Bool.or_true] at hbit
  cases hbit

theorem typeMask_bit : ∀ i < 32, typeMask.toBitVec.getLsbD i =
    !(purposeMask.toBitVec.getLsbD i || metadataMask.toBitVec.getLsbD i) := by
  decide

theorem purposeMask_bit : ∀ i < 32, metadataMask.toBitVec.getLsbD i = true →
    purposeMask.toBitVec.getLsbD i = false := by
  decide

/-- A request forgets the metadata of its type, a response does not. -/
theorem makeResponseType_makeRequestType (t : TedsType) :
    makeResponseType (makeRequestType t) = makeResponseType t ↔ t &&& metadataMask = 0 := by
  unfold makeResponseType makeRequestType
  rw [testBit_ext, testBit_ext]
  apply forall_congr'
  intro i
  apply forall_congr'
  intro hi
  have hpurpose := purposeMask_bit i hi
  simp only [UInt32.toBitVec_or, UInt32.toBitVec_and, BitVec.getLsbD_or, BitVec.getLsbD_and,
    typeMask_bit i hi]
  cases hmeta : metadataMask.toBitVec.getLsbD i with
  | false => cases purposeMask.toBitVec.getLsbD i <;> simp
  | true =>
      rw [hpurpose hmeta]
      simp

end Teds
end CommunicationAPI
