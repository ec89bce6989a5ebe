import Mathlib.Algebra.Order.Group.Unbundled.Int
import Mathlib.Tactic

/-!
# Estimating the offset of a clock

Two clocks differ by a constant `theta`. A message to the second clock and one
back are stamped when they leave and when they arrive, and the offset is
estimated as half the difference of the two apparent delays. Nothing here
depends on how the messages travel.
-/

namespace OffsetEstimate

/-- The stamps of one message each way: `t1` and `t4` are of the first clock, `t2` and
`t3` of the second, which is ahead by `theta`. The messages take `d1` and `d2`. -/
structure Exchange (theta d1 d2 t1 t2 t3 t4 : ℤ) : Prop where
  forward : t2 = t1 + d1 + theta
  backward : t4 = t3 - theta + d2

/-- Half the difference of the apparent delays, rounded towards zero. -/
def offset (t1 t2 t3 t4 : ℤ) : ℤ := ((t2 - t1) - (t4 - t3)).tdiv 2

/-- Rounding towards zero is off by less than one, on either side of zero. -/
theorem two_mul_tdiv_two (x : ℤ) : |x - 2 * x.tdiv 2| ≤ 1 := by
  have hsplit : x - 2 * x.tdiv 2 = x.tmod 2 := by
    have hsum := Int.tmod_add_mul_tdiv x 2
    omega
  rw [hsplit]
  rcases Int.tmod_two_eq x with h | h | h
  · rw [h]
    decide
  · rw [h]
    decide
  · rw [h]
    decide

section
variable {theta d1 d2 t1 t2 t3 t4 : ℤ}

namespace Exchange

theorem apparent (h : Exchange theta d1 d2 t1 t2 t3 t4) :
    (t2 - t1) - (t4 - t3) = 2 * theta + (d1 - d2) := by
  rw [h.forward, h.backward]
  ring

/-- The estimate is off by half the asymmetry of the delays, and the rounding. -/
theorem offset_error (h : Exchange theta d1 d2 t1 t2 t3 t4) :
    2 * |theta - offset t1 t2 t3 t4| ≤ |d1 - d2| + 1 := by
  unfold offset
  rw [h.apparent]
  have hround := two_mul_tdiv_two (2 * theta + (d1 - d2))
  generalize (2 * theta + (d1 - d2)).tdiv 2 = q at hround ⊢
  have hsplit : 2 * (theta - q) = (2 * theta + (d1 - d2) - 2 * q) - (d1 - d2) := by ring
  calc 2 * |theta - q|
      = |2 * (theta - q)| := by rw [abs_mul, abs_two]
    _ = |(2 * theta + (d1 - d2) - 2 * q) - (d1 - d2)| := by rw [hsplit]
    _ ≤ |2 * theta + (d1 - d2) - 2 * q| + |d1 - d2| := abs_sub _ _
    _ ≤ |d1 - d2| + 1 := by omega

/-- Equal delays cancel, and nothing is left to round. -/
theorem offset_eq (h : Exchange theta d1 d2 t1 t2 t3 t4) (hd : d1 = d2) :
    offset t1 t2 t3 t4 = theta := by
  unfold offset
  rw [h.apparent, hd, sub_self, add_zero]
  exact Int.mul_tdiv_cancel_left theta (by decide)

end Exchange
end

def Fits (x : ℤ) : Prop := -2 ^ 63 ≤ x ∧ x < 2 ^ 63

theorem bmod_of_fits {x : ℤ} (h : Fits x) : x.bmod (2 ^ 64) = x := by
  obtain ⟨hlow, hhigh⟩ := h
  exact Int.bmod_eq_of_le (by omega) (by omega)

theorem toInt_sub_of_fits {a b : Int64} (h : Fits (a.toInt - b.toInt)) :
    (a - b).toInt = a.toInt - b.toInt := by
  rw [Int64.toInt_sub]
  exact bmod_of_fits h

theorem toInt_div_two (a : Int64) : (a / 2).toInt = a.toInt.tdiv 2 :=
  Int64.toInt_div_of_ne_right a 2 (by decide)

theorem toInt_toInt64 {a : UInt64} (h : a.toNat < 2 ^ 63) : a.toInt64.toInt = a.toNat := by
  have hbv : a.toInt64.toInt = a.toBitVec.toInt := rfl
  rw [hbv, BitVec.toInt_eq_toNat_of_lt]
  · rfl
  · change 2 * a.toNat < 2 ^ 64
    omega

theorem toNat_toUInt64 {a : Int64} (h : 0 ≤ a.toInt) : (a.toUInt64.toNat : ℤ) = a.toInt := by
  have hle : (0 : Int64) ≤ a := by
    rw [Int64.le_iff_toInt_le]
    exact h
  rw [Int64.toNat_toUInt64_of_le hle, Int64.toInt_eq_toNatClampNeg hle]

end OffsetEstimate
