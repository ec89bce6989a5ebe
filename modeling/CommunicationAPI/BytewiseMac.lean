import CommunicationAPI.MacTampering

/-!
# The authentication code octet by octet

`generate_mac` reads words of eight octets and then the octets that are left.
The same code is the key under exclusive or with every octet of the data, each
shifted to its place in a word.
-/

namespace CommunicationAPI
open Octets LaneChecksum

/-- Octet `i` of the data, shifted to its place in a word. -/
def shiftedOctet (data : List UInt8) (i : ℕ) : UInt64 :=
  (data.getD i 0).toUInt64 <<< UInt64.ofNat (8 * (i % 8))

/-- The code as an exclusive or over all positions. -/
def bytewiseMac (data : List UInt8) (key : SessionKey) : MsgAuthCode :=
  key ^^^ (Finset.range data.length).fold (fun a b : UInt64 => a ^^^ b) 0 (shiftedOctet data)

def wordPositions (i : ℕ) : List ℕ := (List.range 8).map (8 * i + ·)

/-- The positions that the two loops of `generate_mac` read, in order. -/
def positionsRead (size : ℕ) : List ℕ :=
  (List.range (size / 8)).flatMap wordPositions ++
    (List.range (size % 8)).map (8 * (size / 8) + ·)

/-- Every position is read once. -/
theorem positionsRead_eq (size : ℕ) : positionsRead size = List.range size := by
  have hrounds := flatMap_rounds 8 (size / 8) (size % 8)
  rw [Nat.div_add_mod] at hrounds
  exact hrounds

theorem word_eq (data : List UInt8) {i : ℕ} (hi : i < data.length / 8) :
    word data i = UInt64.ofNat (decode ((wordPositions i).map fun p => data.getD p 0)) := by
  have hoctets : (data.drop (8 * i)).take 8 = (wordPositions i).map fun p => data.getD p 0 := by
    unfold wordPositions
    refine List.ext_getElem (by simp; omega) fun k hk hk' => ?_
    have hlt : 8 * i + k < data.length := by
      rw [List.length_take, List.length_drop] at hk
      omega
    simp [List.getD_eq_getElem?_getD, List.getElem?_eq_getElem hlt]
  unfold word
  rw [hoctets]

theorem remainingOctet_eq (data : List UInt8) {j : ℕ} (hj : j < 8) :
    remainingOctet data j = shiftedOctet data (8 * (data.length / 8) + j) := by
  unfold remainingOctet shiftedOctet
  rw [Nat.mul_add_mod, Nat.mod_eq_of_lt hj]

theorem octetOf_shiftedOctet (data : List UInt8) (i k : ℕ) :
    octetOf (shiftedOctet data i) k = if k = i % 8 then data.getD i 0 else 0 :=
  octetOf_shiftLeft _ (Nat.mod_lt i (by norm_num)) k

/-- Lane by lane the sum over all positions is that of the octets in the lane. -/
theorem octetOf_bytewiseMac (data : List UInt8) (key : SessionKey) (k : ℕ) :
    octetOf (bytewiseMac data key) k = octetOf key k ^^^ dataLane k data data.length := by
  have hzero : octetOf 0 k = 0 := by simp [octetOf]
  have hfold :
      (Finset.range data.length).fold (fun a b : UInt8 => a ^^^ b) (octetOf 0 k)
          (fun i => octetOf (shiftedOctet data i) k) =
        octetOf ((Finset.range data.length).fold (fun a b : UInt64 => a ^^^ b) 0
          (shiftedOctet data)) k :=
    Finset.fold_hom (m := fun x => octetOf x k) fun x y => octetOf_xor x y k
  unfold bytewiseMac dataLane
  rw [octetOf_xor, ← hfold, hzero]
  simp only [octetOf_shiftedOctet]
  rw [fold_ite_eq_lane _ _ _ fun a => UInt8.zero_xor]

theorem generateMac_eq_bytewiseMac (data : List UInt8) (key : SessionKey) :
    generateMac data key = bytewiseMac data key := by
  refine octetOf_ext fun k hk => ?_
  rw [octetOf_generateMac data key hk, octetOf_bytewiseMac]

/-- The loops read every octet once and fold it into its place of the code, so that
the codes of two keys differ as the keys do. -/
theorem generateMac_bytewise (data : List UInt8) :
    (∀ key, generateMac data key = bytewiseMac data key) ∧
      positionsRead data.length = List.range data.length ∧
      (∀ i < data.length / 8, word data i =
        UInt64.ofNat (decode ((wordPositions i).map fun p => data.getD p 0))) ∧
      (∀ j < data.length % 8, remainingOctet data j =
        shiftedOctet data (8 * (data.length / 8) + j)) ∧
      ∀ key key', generateMac data key ^^^ generateMac data key' = key ^^^ key' := by
  refine ⟨generateMac_eq_bytewiseMac data, positionsRead_eq _, fun i hi => word_eq data hi,
    fun j hj => ?_, fun key key' => ?_⟩
  · exact remainingOctet_eq data (hj.trans (Nat.mod_lt _ (by norm_num)))
  · rw [generateMac_eq data key, generateMac_eq data key', UInt64.xor_assoc,
      UInt64.xor_comm (generateMac data 0), UInt64.xor_assoc, UInt64.xor_self, UInt64.xor_zero]

end CommunicationAPI
