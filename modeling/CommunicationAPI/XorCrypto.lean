import CommunicationAPI.Octets

/-!
# The message authentication code of `XorCryptoProvider`
-/

namespace CommunicationAPI
open Octets

abbrev SessionKey := UInt64
abbrev MsgAuthCode := UInt64

def macSize : ℕ := 8

/-- The `i`-th word of `data_as_u64`, on a little-endian machine. -/
def word (data : List UInt8) (i : ℕ) : UInt64 :=
  UInt64.ofNat (decode ((data.drop (8 * i)).take 8))

/-- Octet `j` of the rest after the full words, shifted to its place. -/
def remainingOctet (data : List UInt8) (j : ℕ) : UInt64 :=
  (data.getD (8 * (data.length / 8) + j) 0).toUInt64 <<< UInt64.ofNat (8 * j)

def generateMac (data : List UInt8) (key : SessionKey) : MsgAuthCode :=
  let mac := (List.range (data.length / 8)).foldl (fun mac i => mac ^^^ word data i) key
  (List.range (data.length % 8)).foldl (fun mac j => mac ^^^ remainingOctet data j) mac

theorem foldl_xor (f : ℕ → UInt64) (l : List ℕ) (key : UInt64) :
    l.foldl (fun mac i => mac ^^^ f i) key = key ^^^ l.foldl (fun mac i => mac ^^^ f i) 0 := by
  induction l generalizing key with
  | nil => simp
  | cons i l ih =>
      rw [List.foldl_cons, List.foldl_cons, ih (key ^^^ f i), ih (0 ^^^ f i), UInt64.zero_xor,
        UInt64.xor_assoc]

/-- The code is the key masked by a checksum of the data. -/
theorem generateMac_eq (data : List UInt8) (key : SessionKey) :
    generateMac data key = key ^^^ generateMac data 0 := by
  unfold generateMac
  rw [foldl_xor (remainingOctet data), foldl_xor (word data), foldl_xor (remainingOctet data) _
    (List.foldl _ 0 _), UInt64.xor_assoc]

theorem generateMac_inj {data : List UInt8} {key key' : SessionKey} :
    generateMac data key = generateMac data key' ↔ key = key' := by
  constructor
  · intro h
    rw [generateMac_eq data key, generateMac_eq data key'] at h
    exact (UInt64.xor_left_inj _).mp h
  · exact fun h => h ▸ rfl

def macOctets (mac : MsgAuthCode) : List UInt8 := encode macSize mac.toNat

theorem decode_macOctets (mac : MsgAuthCode) : UInt64.ofNat (decode (macOctets mac)) = mac := by
  have hlt : mac.toNat < 256 ^ macSize := mac.toNat_lt
  unfold macOctets
  rw [decode_encode hlt, UInt64.ofNat_toNat]

end CommunicationAPI
