import Mathlib.Data.UInt
import Mathlib.Tactic.NormNum
import Mathlib.Tactic.Ring

/-!
# Octets in memory

A memory maps addresses to octets. Blocks of octets are stored and loaded at an
address, and unsigned integers are encoded least significant octet first.
-/

namespace Octets

/-- The `w` least significant octets of `x`. -/
def encode : ℕ → ℕ → List UInt8
  | 0, _ => []
  | w + 1, x => UInt8.ofNat x :: encode w (x / 256)

def decode : List UInt8 → ℕ
  | [] => 0
  | b :: l => b.toNat + 256 * decode l

@[simp] theorem length_encode (w x : ℕ) : (encode w x).length = w := by
  induction w generalizing x with
  | zero => rfl
  | succ w ih => simp [encode, ih]

theorem decode_encode {w x : ℕ} (h : x < 256 ^ w) : decode (encode w x) = x := by
  induction w generalizing x with
  | zero =>
      rw [pow_zero] at h
      simp only [encode, decode]
      omega
  | succ w ih =>
      have hdiv : x / 256 < 256 ^ w := by
        apply Nat.div_lt_of_lt_mul
        rwa [pow_succ, Nat.mul_comm] at h
      have hlow : (UInt8.ofNat x).toNat = x % 256 := by simp
      simp only [encode, decode, ih hdiv, hlow]
      omega

theorem decode_lt (l : List UInt8) : decode l < 256 ^ l.length := by
  induction l with
  | nil => exact Nat.one_pos
  | cons b l ih =>
      have hb : b.toNat < 256 := b.toNat_lt
      rw [List.length_cons, pow_succ]
      simp only [decode]
      omega

theorem encode_decode (l : List UInt8) : encode l.length (decode l) = l := by
  induction l with
  | nil => rfl
  | cons b l ih =>
      have hb : b.toNat < 256 := b.toNat_lt
      have hlow : UInt8.ofNat (b.toNat + 256 * decode l) = b := by
        apply UInt8.toNat_inj.mp
        simp only [UInt8.toNat_ofNat']
        omega
      have hhigh : (b.toNat + 256 * decode l) / 256 = decode l := by omega
      simp only [List.length_cons, encode, decode, hlow, hhigh, ih]

abbrev Memory := ℕ → UInt8

/-- The `n` octets from address `off` on. -/
def load (m : Memory) (off n : ℕ) : List UInt8 := (List.range n).map fun i => m (off + i)

def store (m : Memory) (off : ℕ) (l : List UInt8) : Memory := fun i =>
  if off ≤ i then l.getD (i - off) (m i) else m i

@[simp] theorem length_load (m : Memory) (off n : ℕ) : (load m off n).length = n := by
  simp [load]

theorem load_append (m : Memory) (off a b : ℕ) :
    load m off (a + b) = load m off a ++ load m (off + a) b := by
  unfold load
  rw [List.range_add, List.map_append, List.map_map]
  simp [Function.comp_def, Nat.add_assoc]

theorem load_take (m : Memory) (off n k : ℕ) : (load m off n).take k = load m off (min k n) := by
  unfold load
  rw [← List.map_take, List.take_range]

theorem load_drop (m : Memory) (off n k : ℕ) :
    (load m off n).drop k = load m (off + k) (n - k) := by
  apply List.ext_getElem
  · simp
  · intro i hi hi'
    simp [load, Nat.add_assoc]

theorem headD_load (m : Memory) (off : ℕ) {n : ℕ} (h : 0 < n) (b : UInt8) :
    (load m off n).headD b = m off := by
  obtain ⟨k, rfl⟩ : ∃ k, n = k + 1 := ⟨n - 1, by omega⟩
  rw [load, List.range_succ_eq_map]
  rfl

theorem load_congr {m m' : Memory} {off n : ℕ}
    (h : ∀ i, off ≤ i → i < off + n → m i = m' i) : load m off n = load m' off n := by
  unfold load
  apply List.map_congr_left
  intro i hi
  rw [List.mem_range] at hi
  exact h (off + i) (Nat.le_add_right _ _) (by omega)

theorem store_apply_of_lt (m : Memory) {off i : ℕ} (l : List UInt8) (h : i < off) :
    store m off l i = m i := by
  unfold store
  rw [if_neg (by omega)]

theorem store_apply_of_le (m : Memory) {off i : ℕ} (l : List UInt8) (h : off + l.length ≤ i) :
    store m off l i = m i := by
  unfold store
  split_ifs
  · rw [List.getD_eq_getElem?_getD, List.getElem?_eq_none (by omega)]
    rfl
  · rfl

@[simp] theorem load_store (m : Memory) (off : ℕ) (l : List UInt8) :
    load (store m off l) off l.length = l := by
  apply List.ext_getElem
  · simp
  · intro i hi hi'
    simp [load, store, hi']

/-- Part of a block that has been stored. -/
theorem load_store_of_le (m : Memory) {l : List UInt8} {off n : ℕ} (h : off + n ≤ l.length) :
    load (store m 0 l) off n = (l.drop off).take n := by
  have hall := load_store m 0 l
  calc load (store m 0 l) off n
      = ((load (store m 0 l) 0 l.length).drop off).take n := by
        rw [load_drop, load_take, min_eq_left (by omega), Nat.zero_add]
    _ = (l.drop off).take n := by rw [hall]

/-- A store does not change a block it does not meet. -/
theorem load_store_of_disjoint (m : Memory) {off off' n : ℕ} (l : List UInt8)
    (h : off' + n ≤ off ∨ off + l.length ≤ off') : load (store m off l) off' n = load m off' n := by
  apply load_congr
  intro i hi hin
  rcases h with h | h
  · exact store_apply_of_lt m l (by omega)
  · exact store_apply_of_le m l (by omega)

theorem decode_div_mod (l : List UInt8) (k : ℕ) :
    decode l / 256 ^ k % 256 = (l.getD k 0).toNat := by
  induction l generalizing k with
  | nil => simp [decode]
  | cons b l ih =>
    have hb : b.toNat < 256 := b.toNat_lt
    cases k with
    | zero =>
      rw [pow_zero, Nat.div_one, List.getD_cons_zero, decode]
      omega
    | succ k =>
      have hhigh : (b.toNat + 256 * decode l) / 256 = decode l := by omega
      rw [List.getD_cons_succ, ← ih, decode, pow_succ', ← Nat.div_div_eq_div_mul, hhigh]

def octetOf (x : UInt64) (k : ℕ) : UInt8 := UInt8.ofNat (x.toNat >>> (8 * k))

theorem octetOf_xor (x y : UInt64) (k : ℕ) :
    octetOf (x ^^^ y) k = octetOf x k ^^^ octetOf y k := by
  unfold octetOf
  rw [UInt64.toNat_xor, Nat.shiftRight_xor_distrib, UInt8.ofNat_xor]

theorem octetOf_ofNat_decode {l : List UInt8} (hl : l.length ≤ 8) (k : ℕ) :
    octetOf (UInt64.ofNat (decode l)) k = l.getD k 0 := by
  have hlt : decode l < 2 ^ 64 :=
    lt_of_lt_of_le (decode_lt l) (Nat.pow_le_pow_right (by norm_num) hl)
  unfold octetOf
  rw [UInt64.toNat_ofNat', Nat.mod_eq_of_lt hlt, Nat.shiftRight_eq_div_pow, pow_mul]
  apply UInt8.toNat_inj.mp
  rw [UInt8.toNat_ofNat', ← decode_div_mod]
  rfl

theorem octetOf_eq_encode (x : UInt64) (k : ℕ) : octetOf x k = (encode 8 x.toNat).getD k 0 := by
  rw [← octetOf_ofNat_decode (length_encode 8 x.toNat).le, decode_encode x.toNat_lt,
    UInt64.ofNat_toNat]

/-- A word is determined by its eight octets. -/
theorem octetOf_ext {x y : UInt64} (h : ∀ k < 8, octetOf x k = octetOf y k) : x = y := by
  have hencode : encode 8 x.toNat = encode 8 y.toNat := by
    refine List.ext_getElem (by simp) fun k hk hk' => ?_
    have hk8 : k < 8 := by simpa using hk
    have hoctet := h k hk8
    rw [octetOf_eq_encode, octetOf_eq_encode, List.getD_eq_getElem?_getD,
      List.getD_eq_getElem?_getD, List.getElem?_eq_getElem hk,
      List.getElem?_eq_getElem hk'] at hoctet
    exact hoctet
  have hdecode := congrArg decode hencode
  rw [decode_encode x.toNat_lt, decode_encode y.toNat_lt] at hdecode
  exact UInt64.toNat_inj.mp hdecode

end Octets
