import CommunicationAPI.Octets
import CommunicationAPI.Segment

/-!
# Segments as octet strings

`Segment::get_bytes` and `Segment::from_bytes`. The octet of the type is copied
as it stands, so it need not be that of a `MsgType`.
-/

namespace CommunicationAPI
open Octets

/-- A segment with any octet as its type. -/
structure RawSegment where
  type : UInt8
  timestamp : UInt64
  payload : List UInt8
  deriving DecidableEq, Repr

namespace RawSegment

def getBytes (s : RawSegment) : List UInt8 :=
  s.type :: (encode 8 s.timestamp.toNat ++ s.payload)

def ofBytes (bytes : List UInt8) : RawSegment where
  type := bytes.headD 0
  timestamp := UInt64.ofNat (decode ((bytes.drop 1).take 8))
  payload := bytes.drop segmentHeaderSize

def fromBytes (bytes : List UInt8) : Except String RawSegment :=
  if bytes.length < segmentHeaderSize then
    .error "Invalid segment data: too small to contain a header."
  else .ok (ofBytes bytes)

@[simp] theorem length_getBytes (s : RawSegment) :
    s.getBytes.length = segmentHeaderSize + s.payload.length := by
  simp [getBytes, segmentHeaderSize]
  omega

theorem fromBytes_of_lt {bytes : List UInt8} (h : bytes.length < segmentHeaderSize) :
    fromBytes bytes = .error "Invalid segment data: too small to contain a header." := by
  unfold fromBytes
  rw [if_pos h]

theorem fromBytes_of_le {bytes : List UInt8} (h : segmentHeaderSize ≤ bytes.length) :
    fromBytes bytes = .ok (ofBytes bytes) := by
  unfold fromBytes
  rw [if_neg (Nat.not_lt.mpr h)]

theorem fromBytes_error_iff {bytes : List UInt8} :
    (∃ e, fromBytes bytes = .error e) ↔ bytes.length < segmentHeaderSize := by
  constructor
  · rintro ⟨e, he⟩
    by_contra hlong
    rw [fromBytes_of_le (Nat.not_lt.mp hlong)] at he
    cases he
  · exact fun h => ⟨_, fromBytes_of_lt h⟩

theorem ofBytes_getBytes (s : RawSegment) : ofBytes s.getBytes = s := by
  have htimestamp : ((encode 8 s.timestamp.toNat ++ s.payload).take 8) =
      encode 8 s.timestamp.toNat := by
    rw [List.take_append_of_le_length (by simp), List.take_of_length_le (by simp)]
  have hpayload : (encode 8 s.timestamp.toNat ++ s.payload).drop 8 = s.payload := by
    rw [List.drop_append_of_le_length (by simp), List.drop_of_length_le (by simp), List.nil_append]
  have hlt : s.timestamp.toNat < 256 ^ 8 := s.timestamp.toNat_lt
  unfold ofBytes getBytes segmentHeaderSize
  simp only [List.headD_cons, List.drop_succ_cons, List.drop_zero, htimestamp, hpayload]
  rw [decode_encode hlt, UInt64.ofNat_toNat]

theorem getBytes_ofBytes {bytes : List UInt8} (h : segmentHeaderSize ≤ bytes.length) :
    (ofBytes bytes).getBytes = bytes := by
  unfold segmentHeaderSize at h
  cases bytes with
  | nil => simp at h
  | cons b l =>
      have hlength : (l.take 8).length = 8 := by
        rw [List.length_cons] at h
        simp only [List.length_take]
        omega
      have hlt : decode (l.take 8) < 2 ^ 64 := by
        have hdecode := decode_lt (l.take 8)
        rw [hlength] at hdecode
        exact hdecode
      have hencode : encode 8 (UInt64.ofNat (decode (l.take 8))).toNat = l.take 8 := by
        rw [UInt64.toNat_ofNat', Nat.mod_eq_of_lt hlt]
        calc encode 8 (decode (l.take 8))
            = encode (l.take 8).length (decode (l.take 8)) := by rw [hlength]
          _ = l.take 8 := encode_decode _
      unfold ofBytes getBytes segmentHeaderSize
      simp only [List.headD_cons, List.drop_succ_cons, List.drop_zero, hencode,
        List.take_append_drop]

theorem fromBytes_getBytes (s : RawSegment) : fromBytes s.getBytes = .ok s := by
  rw [fromBytes_of_le (by simp), ofBytes_getBytes]

end RawSegment

def Segment.raw (s : Segment) : RawSegment := ⟨s.type.code, s.timestamp, s.payload⟩

theorem Segment.getBytes_raw (s : Segment) : s.raw.getBytes = s.getBytes := rfl

end CommunicationAPI
