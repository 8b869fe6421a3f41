import Mathlib

/-!
# Serial numbers

Numbers from 0 to `max`, behind which 0 comes again. Two of them are compared by the
distance between them: the shorter way round counts, as long as that is less than `th`.

`wrap max k` is the number that stands for the integer `k`. As long as two integers are less
than `th` apart, the operations on their numbers are those on the integers.
-/

set_option autoImplicit false

namespace SerialNumber

/-- The sign tells which comes first. -/
def cmp (th a b : ℤ) : ℤ := if |a - b| < th then a - b else b - a

/-- How many there are from `a` to `b`, both included. -/
def len (max a b : ℤ) : ℤ := if a ≤ b then b - a + 1 else b - a + max + 2

/-- How far it is from `a` to `b`. -/
def off (max th a b : ℤ) : ℤ :=
  if |a - b| < th then b - a
  else if a < b then b - a - max - 1
  else b - a + max + 1

/-- The number that follows. -/
def inc (max a : ℤ) : ℤ := if a = max then 0 else a + 1

/-- The number that precedes. -/
def dec (max a : ℤ) : ℤ := if a = 0 then max else a - 1

/-- The number that stands for an integer. -/
def wrap (max k : ℤ) : ℤ := k % (max + 1)

section Wrap

variable {max : ℤ} (hmax : 0 < max)

include hmax

/-- No number is negative. -/
theorem wrap_nonneg (k : ℤ) : 0 ≤ wrap max k := Int.emod_nonneg k (by omega)

/-- No number is above `max`. -/
theorem wrap_le (k : ℤ) : wrap max k ≤ max := by
  have h := Int.emod_lt_of_pos k (show 0 < max + 1 by omega)
  unfold wrap
  omega

/-- So -1 is free to stand for no number. -/
theorem wrap_ne_neg_one (k : ℤ) : wrap max k ≠ -1 := by
  have h := wrap_nonneg hmax k
  omega

omit hmax in
/-- Less than a round apart, two integers have different numbers. -/
theorem wrap_inj {a b : ℤ} (h : |a - b| ≤ max) : wrap max a = wrap max b ↔ a = b := by
  constructor
  · intro heq
    have hdvd : (max + 1) ∣ a - b := Int.ModEq.dvd (show b ≡ a [ZMOD max + 1] from heq.symm)
    have hzero := Int.eq_zero_of_abs_lt_dvd hdvd (by omega)
    omega
  · rintro rfl
    rfl

/-- The numbers of two integers are as far apart as these, or a round further. -/
theorem wrap_sub_cases {a b : ℤ} (h : |a - b| ≤ max) :
    wrap max a - wrap max b = a - b ∨ wrap max a - wrap max b = a - b - (max + 1) ∨
      wrap max a - wrap max b = a - b + (max + 1) := by
  have ha := Int.mul_ediv_add_emod a (max + 1)
  have hb := Int.mul_ediv_add_emod b (max + 1)
  have hna := wrap_nonneg hmax a
  have hnb := wrap_nonneg hmax b
  have hla := wrap_le hmax a
  have hlb := wrap_le hmax b
  unfold wrap at *
  rw [abs_le] at h
  have hrounds : a / (max + 1) - b / (max + 1) < 2 ∧ -2 < a / (max + 1) - b / (max + 1) := by
    constructor <;> nlinarith
  have hthree : a / (max + 1) = b / (max + 1) ∨ a / (max + 1) = b / (max + 1) + 1 ∨
      a / (max + 1) = b / (max + 1) - 1 := by omega
  rcases hthree with heq | heq | heq
  · left
    rw [heq] at ha
    omega
  · right
    left
    rw [heq, mul_add] at ha
    omega
  · right
    right
    rw [heq, mul_sub] at ha
    omega

/-- The number that follows stands for the next integer. -/
theorem inc_wrap (k : ℤ) : inc max (wrap max k) = wrap max (k + 1) := by
  have hone : wrap max 1 = 1 := Int.emod_eq_of_lt (by omega) (by omega)
  have hsum : wrap max (k + 1) = (wrap max k + 1) % (max + 1) := by
    unfold wrap
    rw [Int.emod_add_emod]
  have hnonneg := wrap_nonneg hmax k
  have hle := wrap_le hmax k
  rw [hsum]
  unfold inc
  split
  · next heq => rw [heq, Int.emod_self]
  · next hne => rw [Int.emod_eq_of_lt (by omega) (by omega)]

/-- The number that precedes stands for the integer before. -/
theorem dec_wrap (k : ℤ) : dec max (wrap max k) = wrap max (k - 1) := by
  have hinc := inc_wrap hmax (k - 1)
  rw [sub_add_cancel] at hinc
  have hnonneg := wrap_nonneg hmax (k - 1)
  rw [← hinc]
  unfold inc dec
  split
  · next heq => rw [if_pos rfl, heq]
  · next hne =>
      rw [if_neg (by omega)]
      omega

variable {th : ℤ} (hth : 2 * th ≤ max + 1)

include hth

/-- The offset of two numbers is that of the integers. -/
theorem off_wrap {a b : ℤ} (h : |a - b| < th) : off max th (wrap max a) (wrap max b) = b - a := by
  have hcases := wrap_sub_cases hmax (a := a) (b := b) (by omega)
  rw [abs_lt] at h
  unfold off
  split
  · next hnear =>
      rw [abs_lt] at hnear
      omega
  · next hfar =>
      rw [abs_lt] at hfar
      split
      · omega
      · omega

/-- The comparison of two numbers is that of the integers. -/
theorem cmp_wrap {a b : ℤ} (h : |a - b| < th) :
    (0 < cmp th (wrap max a) (wrap max b) ↔ b < a) ∧
      (cmp th (wrap max a) (wrap max b) < 0 ↔ a < b) := by
  have hcases := wrap_sub_cases hmax (a := a) (b := b) (by omega)
  have hna := wrap_nonneg hmax a
  have hnb := wrap_nonneg hmax b
  have hla := wrap_le hmax a
  have hlb := wrap_le hmax b
  rw [abs_lt] at h
  unfold cmp
  split
  · next hnear =>
      rw [abs_lt] at hnear
      omega
  · next hfar =>
      rw [abs_lt] at hfar
      omega

omit hth in
/-- The length from one number to a later one is that of the integers. -/
theorem len_wrap {a b : ℤ} (hab : a ≤ b) (h : b - a < max) :
    len max (wrap max a) (wrap max b) = b - a + 1 := by
  have hcases := wrap_sub_cases hmax (a := a) (b := b) (by rw [abs_le]; omega)
  have hna := wrap_nonneg hmax a
  have hnb := wrap_nonneg hmax b
  have hla := wrap_le hmax a
  have hlb := wrap_le hmax b
  unfold len
  split
  · omega
  · omega

end Wrap

end SerialNumber
