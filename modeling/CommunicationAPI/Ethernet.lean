import Mathlib.Data.UInt
import Mathlib.Tactic.Common

/-!
# Ethernet frames and addresses

Octets are `UInt8`. The data area of a frame is read and written by offset;
only the offsets below `mtu` belong to the frame.
-/

namespace CommunicationAPI

def mtu : ℕ := 1500

structure MAC where
  addr : Vector UInt8 6
  deriving DecidableEq, Repr

def broadcastAddr : MAC := ⟨#v[0xFF, 0xFF, 0xFF, 0xFF, 0xFF, 0xFF]⟩

/-- `Ethernet::LOCAL_ADDR`, which is also the dummy address of the shared
memory engine and the value of a default-constructed `MAC`. -/
def localAddr : MAC := ⟨#v[0, 0, 0, 0, 0, 0]⟩

abbrev Port := UInt16

structure Address where
  paddr : MAC := localAddr
  port : Port := 0
  deriving DecidableEq, Repr

structure Header where
  dhost : MAC
  shost : MAC
  type : UInt16
  deriving DecidableEq, Repr

structure Frame where
  header : Header
  data : ℕ → UInt8
  dataLength : ℕ

def htons (x : UInt16) : UInt16 := (x <<< 8) ||| (x >>> 8)

def ntohs (x : UInt16) : UInt16 := (x <<< 8) ||| (x >>> 8)

@[simp] theorem ntohs_htons (x : UInt16) : ntohs (htons x) = x := by
  apply UInt16.eq_of_toBitVec_eq
  apply BitVec.eq_of_getLsbD_eq
  intro i hi
  simp only [ntohs, htons, UInt16.toBitVec_or, UInt16.toBitVec_shiftLeft,
    UInt16.toBitVec_shiftRight, BitVec.getLsbD_or]
  by_cases h : i < 8
  · have hlow : i + 8 < 16 ∧ ¬ i + 8 < 8 := by omega
    have hout : x.toBitVec.getLsbD (8 + (i + 8)) = false :=
      BitVec.getLsbD_of_ge _ _ (by omega)
    simp [h, hi, Nat.add_comm 8 i, hlow, hout]
  · have hhigh : 8 + (i - 8) = i ∧ i - 8 < 8 := by omega
    have hout : x.toBitVec.getLsbD (8 + (8 + i)) = false :=
      BitVec.getLsbD_of_ge _ _ (by omega)
    have hover : ¬ 8 + i < 16 := by omega
    simp [h, hi, hhigh, hout, hover]

end CommunicationAPI
