import Mathlib.Data.Nat.Digits.Lemmas

/-!
# Fixed-width little-endian integers

`toBytes width value` stores the low-order base-256 digits of `value`, least
significant first, and `ofBytes` reads any byte string back as a number. The round
trip holds for every value that fits its width.
-/

set_option autoImplicit false

namespace ByteOrder

/-- The `width` low-order bytes of `value`, least significant first. -/
def toBytes : ℕ → ℕ → List UInt8
  | 0, _ => []
  | width + 1, value => UInt8.ofNat value :: toBytes width (value / 256)

/-- The number a byte string stands for, least significant byte first. -/
def ofBytes (bytes : List UInt8) : ℕ := Nat.ofDigits 256 (bytes.map UInt8.toNat)

@[simp] theorem length_toBytes (width value : ℕ) : (toBytes width value).length = width := by
  induction width generalizing value with
  | zero => rfl
  | succ width ih => simp only [toBytes, List.length_cons, ih]

@[simp] theorem ofBytes_nil : ofBytes [] = 0 := rfl

/-- The first byte is the low-order digit. -/
theorem ofBytes_cons (b : UInt8) (bytes : List UInt8) :
    ofBytes (b :: bytes) = b.toNat + 256 * ofBytes bytes := by
  simp only [ofBytes, List.map_cons, Nat.ofDigits_cons]

/-- A value that fits its width reads back from its bytes. -/
theorem ofBytes_toBytes (width value : ℕ) (h : value < 256 ^ width) :
    ofBytes (toBytes width value) = value := by
  induction width generalizing value with
  | zero =>
      rw [pow_zero] at h
      simp only [toBytes, ofBytes_nil]
      omega
  | succ width ih =>
      have htail : value / 256 < 256 ^ width := by
        rw [pow_succ] at h
        exact Nat.div_lt_of_lt_mul (by rwa [mul_comm] at h)
      have hhead : (UInt8.ofNat value).toNat = value % 256 := UInt8.toNat_ofNat'
      rw [toBytes, ofBytes_cons, ih _ htail, hhead]
      exact Nat.mod_add_div value 256

theorem ofBytes_lt (bytes : List UInt8) : ofBytes bytes < 256 ^ bytes.length := by
  have h : Nat.ofDigits 256 (bytes.map UInt8.toNat) < 256 ^ (bytes.map UInt8.toNat).length := by
    apply Nat.ofDigits_lt_base_pow_length (by omega)
    intro x hx
    obtain ⟨b, -, rfl⟩ := List.mem_map.mp hx
    exact b.toNat_lt
  rwa [List.length_map] at h

/-- A byte at position `i` bounds the number from below. -/
theorem le_ofBytes (bytes tail : List UInt8) (b : UInt8) :
    b.toNat * 256 ^ bytes.length ≤ ofBytes (bytes ++ b :: tail) := by
  induction bytes with
  | nil =>
      rw [List.length_nil, pow_zero, mul_one, List.nil_append, ofBytes_cons]
      exact Nat.le_add_right _ _
  | cons a bytes ih =>
      rw [List.cons_append, ofBytes_cons, List.length_cons, pow_succ]
      calc b.toNat * (256 ^ bytes.length * 256) = 256 * (b.toNat * 256 ^ bytes.length) := by ring
        _ ≤ 256 * ofBytes (bytes ++ b :: tail) := Nat.mul_le_mul_left _ ih
        _ ≤ a.toNat + 256 * ofBytes (bytes ++ b :: tail) := Nat.le_add_left _ _

end ByteOrder
