import Mathlib.Algebra.Order.Group.Abs
import Mathlib.Algebra.Order.Ring.Int
import Mathlib.Data.Int.ModEq

/-!
# Slots of a circular array

An array of `size` slots that is gone round and round: the integer `k` has the slot
`slot size c k`, and `c` says where 0 is. Integers less than `size` apart have slots of
their own.
-/

set_option autoImplicit false

namespace CircularArray

/-- The slot of `k`. -/
def slot (size c k : ℤ) : ℤ := (c + k) % size

variable {size : ℤ} (hsize : 0 < size) (c : ℤ)

include hsize

theorem slot_nonneg (k : ℤ) : 0 ≤ slot size c k := Int.emod_nonneg _ (by omega)

theorem slot_lt (k : ℤ) : slot size c k < size := Int.emod_lt_of_pos _ hsize

theorem slot_ne_neg_one (k : ℤ) : slot size c k ≠ -1 := by
  have h := slot_nonneg hsize c k
  omega

omit hsize in
variable {c} in
theorem slot_inj {j k : ℤ} (h : |j - k| < size) : slot size c j = slot size c k ↔ j = k := by
  constructor
  · intro heq
    have hdvd : size ∣ c + j - (c + k) :=
      Int.ModEq.dvd (show c + k ≡ c + j [ZMOD size] from heq.symm)
    have hzero := Int.eq_zero_of_abs_lt_dvd hdvd (by rwa [add_sub_add_left_eq_sub])
    omega
  · rintro rfl
    rfl

omit hsize in
/-- `(loc + n) % size`, as it is computed. -/
theorem tmod_slot_add {k n : ℤ} (h : 0 ≤ slot size c k + n) :
    (slot size c k + n).tmod size = slot size c (k + n) := by
  rw [Int.tmod_eq_emod_of_nonneg h]
  unfold slot
  rw [Int.emod_add_emod, add_assoc]

/-- `(loc + n + size) % size`, as it is computed. -/
theorem tmod_slot_add_size {k n : ℤ} (h : -size ≤ n) :
    (slot size c k + n + size).tmod size = slot size c (k + n) := by
  have hnonneg := slot_nonneg hsize c k
  rw [Int.tmod_eq_emod_of_nonneg (by omega), Int.add_emod_right]
  unfold slot
  rw [Int.emod_add_emod, add_assoc]

theorem tmod_slot_succ (k : ℤ) : (slot size c k + 1).tmod size = slot size c (k + 1) :=
  tmod_slot_add c (by
    have h := slot_nonneg hsize c k
    omega)

/-- `(loc - 1 + size) % size`, as it is computed. -/
theorem tmod_slot_pred (k : ℤ) : (slot size c k - 1 + size).tmod size = slot size c (k - 1) := by
  have hnonneg := slot_nonneg hsize c k
  rw [Int.tmod_eq_emod_of_nonneg (by omega)]
  unfold slot
  rw [Int.add_emod_right, Int.sub_eq_add_neg, Int.emod_add_emod, ← Int.sub_eq_add_neg,
    add_sub_assoc]

/-- The next slot, without a division. -/
theorem slot_succ (k : ℤ) :
    slot size c (k + 1) = if slot size c k + 1 = size then 0 else slot size c k + 1 := by
  have hnonneg := slot_nonneg hsize c k
  have hlt := slot_lt hsize c k
  rw [← tmod_slot_succ hsize, Int.tmod_eq_emod_of_nonneg (by omega)]
  split
  · next heq => rw [heq, Int.emod_self]
  · next hne => exact Int.emod_eq_of_lt (by omega) (by omega)

/-- How far apart two slots are. -/
theorem slot_sub {j k : ℤ} (hle : j ≤ k) (hlt : k - j < size) :
    (if slot size c j ≤ slot size c k then slot size c k - slot size c j
      else size + slot size c k - slot size c j) = k - j := by
  have hj := slot_nonneg hsize c j
  have hj' := slot_lt hsize c j
  have hk := slot_nonneg hsize c k
  have hk' := slot_lt hsize c k
  have hshift : (slot size c k - slot size c j) % size = k - j := by
    unfold slot
    rw [← Int.sub_emod, add_sub_add_left_eq_sub]
    exact Int.emod_eq_of_lt (by omega) hlt
  split
  · next h => rwa [Int.emod_eq_of_lt (by omega) (by omega)] at hshift
  · next h =>
      rw [← Int.add_emod_right, Int.emod_eq_of_lt (by omega) (by omega)] at hshift
      omega

end CircularArray
