import Mathlib.Data.Nat.Digits.Lemmas

/-!
# Hexadecimal numbers in text

Fixed-width hexadecimal with upper-case digits, as `printf` writes it, and the `%x`
conversion of `scanf`, which skips blanks, takes a sign and a `0x` prefix, and reads
digits of either case. What was written is read back, whatever follows it.
-/

set_option autoImplicit false

namespace Hexadecimal

/-- The text of a digit. -/
def digit (n : ℕ) : UInt8 := UInt8.ofNat (if n < 10 then 0x30 + n else 0x41 + (n - 10))

/-- The value of a digit of either case. -/
def digitValue (c : UInt8) : Option ℕ :=
  if 0x30 ≤ c ∧ c ≤ 0x39 then some (c.toNat - 0x30)
  else if 0x41 ≤ c ∧ c ≤ 0x46 then some (c.toNat - 0x41 + 10)
  else if 0x61 ≤ c ∧ c ≤ 0x66 then some (c.toNat - 0x61 + 10)
  else none

def isDigit (c : UInt8) : Bool := (digitValue c).isSome

/-- The blanks of the C locale. -/
def isSpace (c : UInt8) : Bool := c == 0x20 || (0x09 ≤ c && c ≤ 0x0D)

/-- `value` in `width` digits. -/
def encode : ℕ → ℕ → List UInt8
  | 0, _ => []
  | width + 1, value => encode width (value / 16) ++ [digit (value % 16)]

/-- The number a text of digits stands for. -/
def ofDigits (text : List UInt8) : ℕ :=
  text.foldl (fun value c => 16 * value + (digitValue c).getD 0) 0

/-- A sign in front of a number. -/
def scanSign : List UInt8 → Bool × List UInt8
  | 0x2D :: text => (true, text)
  | 0x2B :: text => (false, text)
  | text => (false, text)

/-- A `0x` in front of a number. -/
def skipPrefix : List UInt8 → List UInt8
  | 0x30 :: 0x78 :: text => text
  | 0x30 :: 0x58 :: text => text
  | text => text

/-- `%x`: whether there was a minus sign, the digits' value and the text behind them. -/
def scan (text : List UInt8) : Option (Bool × ℕ × List UInt8) :=
  let signed := scanSign (text.dropWhile isSpace)
  let body := skipPrefix signed.2
  let digits := body.takeWhile isDigit
  if digits = [] then none else some (signed.1, ofDigits digits, body.dropWhile isDigit)

theorem digitValue_digit {n : ℕ} (h : n < 16) : digitValue (digit n) = some n := by
  interval_cases n <;> rfl

@[simp] theorem length_encode (width value : ℕ) : (encode width value).length = width := by
  induction width generalizing value with
  | zero => rfl
  | succ width ih => rw [encode, List.length_append, ih, List.length_singleton]

theorem isDigit_of_mem_encode {width value : ℕ} {c : UInt8} (h : c ∈ encode width value) :
    isDigit c = true := by
  induction width generalizing value with
  | zero => cases h
  | succ width ih =>
      rcases List.mem_append.mp h with h | h
      · exact ih h
      · rw [List.mem_singleton] at h
        rw [h, isDigit, digitValue_digit (Nat.mod_lt _ (by omega))]
        rfl

/-- A value that fits its width is read back. -/
theorem ofDigits_encode (width value : ℕ) (h : value < 16 ^ width) :
    ofDigits (encode width value) = value := by
  induction width generalizing value with
  | zero =>
      rw [pow_zero] at h
      simp only [encode, ofDigits, List.foldl_nil]
      omega
  | succ width ih =>
      have hdiv : value / 16 < 16 ^ width := by
        rw [pow_succ] at h
        exact Nat.div_lt_of_lt_mul (by rwa [mul_comm] at h)
      have hfold : ofDigits (encode width (value / 16)) = value / 16 := ih _ hdiv
      rw [ofDigits] at hfold
      rw [ofDigits, encode, List.foldl_append, hfold, List.foldl_cons, List.foldl_nil,
        digitValue_digit (Nat.mod_lt _ (by omega)), Option.getD_some]
      exact Nat.div_add_mod value 16

/-- A digit is neither a blank nor a sign nor the `x` of a prefix. -/
theorem not_digit {c : UInt8}
    (h : isSpace c = true ∨ c = 0x2D ∨ c = 0x2B ∨ c = 0x78 ∨ c = 0x58) : isDigit c = false := by
  rcases h with h | rfl | rfl | rfl | rfl
  · simp only [isSpace, Bool.or_eq_true, Bool.and_eq_true, beq_iff_eq, decide_eq_true_eq] at h
    rcases h with rfl | ⟨hlow, hhigh⟩
    · rfl
    · rw [UInt8.le_iff_toNat_le] at hlow hhigh
      have hnone : digitValue c = none := by
        unfold digitValue
        simp only [UInt8.le_iff_toNat_le, UInt8.reduceToNat] at hlow hhigh ⊢
        rw [if_neg (by omega), if_neg (by omega), if_neg (by omega)]
      rw [isDigit, hnone]
      rfl
  · rfl
  · rfl
  · rfl
  · rfl

/-- A text of two digits or more is read up to what follows it. -/
theorem scan_digits (a b : UInt8) (text rest : List UInt8)
    (hdigits : ∀ c ∈ a :: b :: text, isDigit c = true)
    (hrest : ∀ c ∈ rest.head?, isDigit c = false) :
    scan (a :: b :: text ++ rest) = some (false, ofDigits (a :: b :: text), rest) := by
  have ha := hdigits a List.mem_cons_self
  have hb := hdigits b (List.mem_cons_of_mem _ List.mem_cons_self)
  have hspace : isSpace a = false := by
    by_contra hne
    rw [Bool.not_eq_false] at hne
    rw [not_digit (.inl hne)] at ha
    cases ha
  have hdrop : (a :: b :: text ++ rest).dropWhile isSpace = a :: b :: text ++ rest := by
    rw [List.cons_append, List.dropWhile_cons_of_neg (by rw [hspace]; simp)]
  have hsign : scanSign (a :: b :: text ++ rest) = (false, a :: b :: text ++ rest) := by
    unfold scanSign
    split
    · next heq =>
        rw [(List.cons.inj heq).1, not_digit (by simp)] at ha
        cases ha
    · next heq =>
        rw [(List.cons.inj heq).1, not_digit (by simp)] at ha
        cases ha
    · rfl
  have hunmarked : skipPrefix (a :: b :: text ++ rest) = a :: b :: text ++ rest := by
    unfold skipPrefix
    split
    · next heq =>
        rw [(List.cons.inj (List.cons.inj heq).2).1, not_digit (by simp)] at hb
        cases hb
    · next heq =>
        rw [(List.cons.inj (List.cons.inj heq).2).1, not_digit (by simp)] at hb
        cases hb
    · rfl
  have hstop : rest.takeWhile isDigit = [] ∧ rest.dropWhile isDigit = rest := by
    cases rest with
    | nil => exact ⟨rfl, rfl⟩
    | cons c rest =>
        have hc := hrest c rfl
        exact ⟨List.takeWhile_cons_of_neg (by rw [hc]; simp),
          List.dropWhile_cons_of_neg (by rw [hc]; simp)⟩
  rw [scan, hdrop, hsign]
  simp only [hunmarked]
  rw [List.takeWhile_append_of_pos hdigits, List.dropWhile_append_of_pos hdigits, hstop.1, hstop.2,
    List.append_nil, if_neg (List.cons_ne_nil _ _)]

/-- A number of two digits or more is read back. -/
theorem scan_encode (width value : ℕ) (h : value < 16 ^ (width + 2)) (rest : List UInt8)
    (hrest : ∀ c ∈ rest.head?, isDigit c = false) :
    scan (encode (width + 2) value ++ rest) = some (false, value, rest) := by
  have hdigits : ∀ c ∈ encode (width + 2) value, isDigit c = true :=
    fun c hc => isDigit_of_mem_encode hc
  have hvalue := ofDigits_encode (width + 2) value h
  have hlength := length_encode (width + 2) value
  generalize encode (width + 2) value = text at hdigits hvalue hlength ⊢
  rcases text with _ | ⟨a, _ | ⟨b, text⟩⟩
  · cases hlength
  · cases hlength
  · rw [scan_digits a b text rest hdigits hrest, hvalue]

end Hexadecimal
