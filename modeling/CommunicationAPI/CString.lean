import Mathlib.Data.List.TakeWhile
import Mathlib.Data.UInt
import Mathlib.Tactic.Common

/-!
# Zero-terminated strings

A string is what comes before the first zero octet. Copies into a field of fixed
size cut it off, comparisons do not.
-/

namespace CString

/-- The string that begins with `s`. Octets past the end of `s` count as a zero. -/
def cString (s : List UInt8) : List UInt8 := s.takeWhile (· ≠ 0)

/-- `strcmp(a, b) == 0`. -/
def equal (a b : List UInt8) : Bool := cString a == cString b

/-- `strncpy(dst, src, n)`: a short string is filled up with zeros. -/
def strncpy (dst src : List UInt8) (n : ℕ) : List UInt8 :=
  (cString src).take n ++ List.replicate (n - (cString src).length) 0 ++ dst.drop n

def copyTerminated (dst src : List UInt8) : List UInt8 :=
  (strncpy dst src (dst.length - 1)).set (dst.length - 1) 0

theorem ne_zero_of_mem_cString {s : List UInt8} {b : UInt8} (h : b ∈ cString s) : b ≠ 0 := by
  have hb := List.mem_takeWhile_imp h
  exact of_decide_eq_true hb

/-- Octets other than zero before a zero. -/
theorem cString_append_zero {l : List UInt8} (hl : ∀ b ∈ l, b ≠ 0) (rest : List UInt8) :
    cString (l ++ 0 :: rest) = l := by
  unfold cString
  rw [List.takeWhile_append_of_pos fun b hb => decide_eq_true (hl b hb)]
  simp

theorem length_strncpy_take (src : List UInt8) (n : ℕ) :
    ((cString src).take n ++ List.replicate (n - (cString src).length) 0).length = n := by
  rw [List.length_append, List.length_take, List.length_replicate]
  omega

/-- A field of `n + 1` octets holds at most `n` octets of the string. -/
theorem cString_copyTerminated {dst : List UInt8} (src : List UInt8) {n : ℕ}
    (hdst : dst.length = n + 1) : cString (copyTerminated dst src) = (cString src).take n := by
  have hsize : dst.length - 1 = n := by omega
  obtain ⟨last, hlast⟩ : ∃ last, dst.drop n = [last] := by
    have hlength : (dst.drop n).length = 1 := by rw [List.length_drop]; omega
    exact List.length_eq_one_iff.mp hlength
  have hcopied : copyTerminated dst src = (cString src).take n ++
      (List.replicate (n - (cString src).length) 0 ++ [0]) := by
    unfold copyTerminated strncpy
    rw [hsize, hlast, List.set_append_right _ _ (length_strncpy_take src n).le,
      length_strncpy_take, Nat.sub_self, List.set_cons_zero, List.append_assoc]
  have hzeros : List.replicate (n - (cString src).length) (0 : UInt8) ++ [0] =
      0 :: List.replicate (n - (cString src).length) 0 := by
    rw [← List.replicate_succ', List.replicate_succ]
  rw [hcopied, hzeros]
  exact cString_append_zero (fun b hb => ne_zero_of_mem_cString (List.mem_of_mem_take hb)) _

end CString
