import Mathlib.Algebra.Order.Ring.Abs
import Mathlib.Algebra.Order.Floor.Ring
import Mathlib.Data.Rat.Floor
import Mathlib.Tactic.Linarith

/-!
# Numbers of a text as `double`

The number that a text stands for is exact. What formatted input stores is the value of the
type that is nearest to it, and it fails where the number is too large for the type.
-/

set_option autoImplicit false

/-- What formatted input makes of a number: the value that is stored, and whether it succeeds. -/
abbrev Reading := ℚ → ℚ × Bool

namespace Binary64

/-- The nearest integer, and of two the even one. -/
def nearestInt (q : ℚ) : ℤ :=
  let r := q - ⌊q⌋
  if r < 1 / 2 ∨ r = 1 / 2 ∧ ⌊q⌋ % 2 = 0 then ⌊q⌋ else ⌊q⌋ + 1

/-- The place of the first binary digit of a number that is not zero. -/
def firstPlace (q : ℚ) : ℤ :=
  let e : ℤ := q.num.natAbs.log2 - q.den.log2
  if |q| < 2 ^ e then e - 1 else e

/-- The place of the last of its 53 digits; no digit has a place below `-1074`. -/
def lastPlace (q : ℚ) : ℤ := max (firstPlace q - 52) (-1074)

/-- The nearest number with 53 digits. -/
def nearest (q : ℚ) : ℚ := nearestInt (q / 2 ^ lastPlace q) * 2 ^ lastPlace q

/-- The largest finite value. -/
def largest : ℚ := (2 ^ 53 - 1) * 2 ^ 971

/-- `std::num_get` for a `double`: where the number is too large, the largest value is stored and
the extraction fails. -/
def reading : Reading := fun q =>
  if |nearest q| ≤ largest then (nearest q, true)
  else (if q < 0 then -largest else largest, false)

/-- An integer is its own nearest. -/
theorem nearestInt_intCast (n : ℤ) : nearestInt n = n := by
  unfold nearestInt
  simp

/-- Up to `2 ^ 53` an integer is a value of the type. -/
theorem nearest_natCast {n : ℕ} (h : n < 2 ^ 53) : nearest n = n := by
  have hdigits : n.log2 ≤ 52 := by
    by_cases hzero : n = 0
    · rw [hzero]
      exact Nat.zero_le 52
    · exact Nat.lt_succ_iff.mp ((Nat.log2_lt hzero).mpr h)
  have hfirst : firstPlace n ≤ 52 := by
    unfold firstPlace
    have hone : (1 : ℕ).log2 = 0 := by decide
    simp only [Rat.num_natCast, Int.natAbs_natCast, Rat.den_natCast, hone]
    split_ifs
    · omega
    · omega
  have hlast : lastPlace n ≤ 0 := by
    unfold lastPlace
    omega
  obtain ⟨k, hk⟩ := Int.eq_ofNat_of_zero_le (neg_nonneg.mpr hlast)
  have hscaled : (n : ℚ) / 2 ^ lastPlace n = ((n * 2 ^ k : ℕ) : ℤ) := by
    rw [div_eq_mul_inv, ← zpow_neg, hk]
    simp
  unfold nearest
  rw [hscaled, nearestInt_intCast, ← hscaled]
  exact div_mul_cancel₀ _ (zpow_ne_zero _ two_ne_zero)

/-- A whole number below `2 ^ 53` is read as it is. -/
theorem reading_natCast {n : ℕ} (h : n < 2 ^ 53) : reading n = (↑n, true) := by
  have hle : ((n : ℕ) : ℚ) ≤ largest := by
    have hcast : (n : ℚ) + 1 ≤ 2 ^ 53 := by exact_mod_cast h
    exact (le_sub_iff_add_le.mpr hcast).trans
      (le_mul_of_one_le_right (by norm_num) (one_le_pow₀ one_le_two))
  unfold reading
  rw [nearest_natCast h, if_pos]
  rwa [abs_of_nonneg (Nat.cast_nonneg n)]

end Binary64
