import Mathlib.Algebra.Order.Round
import Mathlib.Data.Rat.Floor
import Mathlib.Data.Nat.Digits.Lemmas

/-!
# Decimal numbers in text

Integers and numbers with a fraction as `printf` writes them, and the grammar by which
`scanf`, `atoi` and the formatted input of streams read them: a sign, digits, and for a
number with a fraction a point, more digits and an exponent. Integers are read back as
they were, fractions as they were rounded.
-/

set_option autoImplicit false

namespace Decimal

/-- The blanks of the C locale. -/
def isSpace (c : Char) : Bool := c == ' ' || (9 ≤ c.toNat && c.toNat ≤ 13)

def skipSpace (text : List Char) : List Char := text.dropWhile isSpace

/-! ## Reading -/

/-- A sign in front of a number: whether it is a minus. -/
def scanSign : List Char → Bool × List Char
  | '-' :: text => (true, text)
  | '+' :: text => (false, text)
  | text => (false, text)

/-- The digits at the front of a text. -/
def scanDigits (text : List Char) : List Char × List Char :=
  (text.takeWhile Char.isDigit, text.dropWhile Char.isDigit)

/-- The number that digits stand for. -/
def natValue (digits : List Char) : ℕ := Nat.ofDigitChars 10 digits 0

/-- `%d`: the number, if there is one, and the text behind it. -/
def scanInt (text : List Char) : Option ℤ × List Char :=
  let sign := scanSign text
  let digits := scanDigits sign.2
  if digits.1 = [] then (none, digits.2)
  else (some (if sign.1 then -natValue digits.1 else natValue digits.1), digits.2)

/-- A point and the digits behind it. -/
def scanFraction : List Char → List Char × List Char
  | '.' :: text => scanDigits text
  | text => ([], text)

/-- An exponent; `none` where it has no digits. -/
def scanExponent (text : List Char) : Option ℤ × List Char :=
  match text with
  | [] => (some 0, [])
  | c :: rest => if c = 'e' ∨ c = 'E' then scanInt rest else (some 0, text)

/-- `%lf`: the number, if there is one, and the text behind it. -/
def scanRat (text : List Char) : Option ℚ × List Char :=
  let sign := scanSign text
  let whole := scanDigits sign.2
  let fraction := scanFraction whole.2
  if whole.1 = [] ∧ fraction.1 = [] then (none, fraction.2)
  else
    let exponent := scanExponent fraction.2
    let digits : ℚ := natValue (whole.1 ++ fraction.1)
    (exponent.1.map fun e : ℤ =>
      (if sign.1 then -digits else digits) * (10 : ℚ) ^ (e - fraction.1.length), exponent.2)

/-! ## Writing -/

/-- `%d` -/
def formatInt (n : ℤ) : List Char := (if n < 0 then ['-'] else []) ++ Nat.toDigits 10 n.natAbs

/-- The nearest multiple of `10 ^ -k`, as a multiple. -/
def scaled (k : ℕ) (q : ℚ) : ℤ := round (q * 10 ^ k)

/-- The nearest number with `k` decimals. -/
def rounded (k : ℕ) (q : ℚ) : ℚ := scaled k q / 10 ^ k

/-- `%.kf` -/
def formatFixed (k : ℕ) (q : ℚ) : List Char :=
  let n := (scaled k q).natAbs
  (if q < 0 then ['-'] else []) ++ Nat.toDigits 10 (n / 10 ^ k) ++
    '.' :: (Nat.toDigits 10 (n % 10 ^ k)).leftpad k '0'

/-- The characters of written numbers. -/
def Plain (c : Char) : Prop := c.isDigit = true ∨ c = '-' ∨ c = '.'

/-! ## What is left of a text -/

theorem length_scanSign_le (text : List Char) : (scanSign text).2.length ≤ text.length := by
  unfold scanSign
  split
  · exact Nat.le_succ _
  · exact Nat.le_succ _
  · exact le_rfl

theorem length_scanDigits_le (text : List Char) : (scanDigits text).2.length ≤ text.length :=
  (List.dropWhile_suffix _).length_le

theorem length_scanInt_le (text : List Char) : (scanInt text).2.length ≤ text.length := by
  have h := (length_scanDigits_le (scanSign text).2).trans (length_scanSign_le text)
  unfold scanInt
  simp only
  split
  · exact h
  · exact h

theorem length_scanFraction_le (text : List Char) : (scanFraction text).2.length ≤ text.length := by
  unfold scanFraction
  split
  · exact (length_scanDigits_le _).trans (Nat.le_succ _)
  · exact le_rfl

theorem length_scanExponent_le (text : List Char) : (scanExponent text).2.length ≤ text.length := by
  unfold scanExponent
  split
  · exact le_rfl
  · split
    · exact (length_scanInt_le _).trans (Nat.le_succ _)
    · exact le_rfl

theorem length_scanRat_le (text : List Char) : (scanRat text).2.length ≤ text.length := by
  have hdigits := (length_scanDigits_le (scanSign text).2).trans (length_scanSign_le text)
  have hfraction := (length_scanFraction_le (scanDigits (scanSign text).2).2).trans hdigits
  unfold scanRat
  simp only
  split
  · exact hfraction
  · exact (length_scanExponent_le _).trans hfraction

/-! ## Digits -/

theorem isDigit_of_mem_toDigits {n : ℕ} {c : Char} (h : c ∈ Nat.toDigits 10 n) :
    c.isDigit = true :=
  Nat.isDigit_of_mem_toDigits (by omega) (by omega) h

theorem natValue_toDigits (n : ℕ) : natValue (Nat.toDigits 10 n) = n :=
  Nat.ofDigitChars_ten_toDigits

theorem isDigit_of_mem_leftpad {k n : ℕ} {c : Char}
    (h : c ∈ (Nat.toDigits 10 n).leftpad k '0') : c.isDigit = true := by
  unfold List.leftpad at h
  rcases List.mem_append.mp h with h | h
  · rw [List.eq_of_mem_replicate h]
    rfl
  · exact isDigit_of_mem_toDigits h

/-- Digits behind other digits. -/
theorem natValue_append (digits digits' : List Char) :
    natValue (digits ++ digits') = natValue digits * 10 ^ digits'.length + natValue digits' := by
  unfold natValue
  rw [Nat.ofDigitChars_append, Nat.ofDigitChars_eq_ofDigitChars_zero (l := digits'), Nat.mul_comm]

theorem natValue_leftpad (k n : ℕ) : natValue ((Nat.toDigits 10 n).leftpad k '0') = n := by
  unfold List.leftpad
  rw [natValue_append, natValue_toDigits]
  unfold natValue
  rw [Nat.ofDigitChars_replicate_zero, Nat.mul_zero, Nat.zero_mul, Nat.zero_add]

theorem length_leftpad_mod {k n : ℕ} (hk : 0 < k) :
    ((Nat.toDigits 10 (n % 10 ^ k)).leftpad k '0').length = k := by
  rw [List.length_leftpad]
  apply max_eq_left
  rw [Nat.length_toDigits_le_iff (by omega) hk]
  exact Nat.mod_lt _ (by positivity)

/-- All digits of a text are scanned where something else follows. -/
theorem scanDigits_append {digits text : List Char} (hdigits : ∀ c ∈ digits, c.isDigit = true)
    (htext : ∀ c ∈ text.head?, c.isDigit = false) :
    scanDigits (digits ++ text) = (digits, text) := by
  unfold scanDigits
  have hnone : text.takeWhile Char.isDigit = [] ∧ text.dropWhile Char.isDigit = text := by
    cases text with
    | nil => exact ⟨rfl, rfl⟩
    | cons c text =>
        have hc : c.isDigit = false := htext c rfl
        constructor
        · rw [List.takeWhile_cons_of_neg (by rw [hc]; exact Bool.false_ne_true)]
        · rw [List.dropWhile_cons_of_neg (by rw [hc]; exact Bool.false_ne_true)]
  rw [List.takeWhile_append_of_pos hdigits, List.dropWhile_append_of_pos hdigits, hnone.1, hnone.2,
    List.append_nil]

/-- A text that begins with a digit has no sign. -/
theorem scanSign_digit {c : Char} {text : List Char} (hc : c.isDigit = true) :
    scanSign (c :: text) = (false, c :: text) := by
  unfold scanSign
  split
  · next h =>
      obtain ⟨rfl, -⟩ := List.cons.inj h
      cases hc
  · next h =>
      obtain ⟨rfl, -⟩ := List.cons.inj h
      cases hc
  · rfl

/-- The sign of a written number. -/
theorem scanSign_append (negative : Prop) [Decidable negative] (n : ℕ) (text : List Char) :
    scanSign ((if negative then ['-'] else []) ++ (Nat.toDigits 10 n ++ text)) =
      (decide negative, Nat.toDigits 10 n ++ text) := by
  by_cases hnegative : negative
  · rw [if_pos hnegative, decide_eq_true hnegative]
    rfl
  · rw [if_neg hnegative, decide_eq_false hnegative]
    cases hdigits : Nat.toDigits 10 n with
    | nil => exact absurd hdigits Nat.toDigits_ne_nil
    | cons c digits =>
        apply scanSign_digit
        exact isDigit_of_mem_toDigits (hdigits ▸ List.mem_cons_self)

/-! ## What is written is read back -/

theorem scanInt_formatInt (n : ℤ) : scanInt (formatInt n) = (some n, []) := by
  have hsign := scanSign_append (n < 0) n.natAbs []
  have hdigits : scanDigits (Nat.toDigits 10 n.natAbs ++ []) = (Nat.toDigits 10 n.natAbs, []) :=
    scanDigits_append (fun c hc => isDigit_of_mem_toDigits hc) (by simp)
  unfold scanInt formatInt
  rw [List.append_nil] at hsign hdigits
  simp only [hsign, hdigits, if_neg Nat.toDigits_ne_nil, natValue_toDigits, decide_eq_true_eq]
  congr 2
  split <;> omega

theorem natAbs_scaled (k : ℕ) (q : ℚ) :
    (if q < 0 then -((scaled k q).natAbs : ℚ) else (scaled k q).natAbs) = scaled k q := by
  have hpow : (0 : ℚ) < 10 ^ k := by positivity
  unfold scaled
  rw [round_eq]
  split
  · next hq =>
      have hneg : q * 10 ^ k < 0 := mul_neg_of_neg_of_pos hq hpow
      have hle : ⌊q * 10 ^ k + 1 / 2⌋ ≤ 0 := by
        rw [← Int.lt_add_one_iff, Int.floor_lt]
        push_cast
        linarith
      rw [Nat.cast_natAbs, abs_of_nonpos hle]
      push_cast
      ring
  · next hq =>
      have hnonneg : 0 ≤ q * 10 ^ k := mul_nonneg (not_lt.mp hq) hpow.le
      have hle : 0 ≤ ⌊q * 10 ^ k + 1 / 2⌋ := by
        apply Int.floor_nonneg.mpr
        linarith
      rw [Nat.cast_natAbs, abs_of_nonneg hle]

/-- A number with decimals is read back as it was rounded. -/
theorem scanRat_formatFixed {k : ℕ} (hk : 0 < k) (q : ℚ) :
    scanRat (formatFixed k q) = (some (rounded k q), []) := by
  let n := (scaled k q).natAbs
  let whole := Nat.toDigits 10 (n / 10 ^ k)
  let fraction := (Nat.toDigits 10 (n % 10 ^ k)).leftpad k '0'
  have hsign : scanSign (formatFixed k q) = (decide (q < 0), whole ++ '.' :: fraction) := by
    unfold formatFixed
    rw [List.append_assoc]
    exact scanSign_append (q < 0) (n / 10 ^ k) ('.' :: fraction)
  have hwhole : scanDigits (whole ++ '.' :: fraction) = (whole, '.' :: fraction) := by
    apply scanDigits_append (fun c hc => isDigit_of_mem_toDigits hc)
    rintro c ⟨⟩
    rfl
  have hfraction : scanFraction ('.' :: fraction) = (fraction, []) := by
    have h : scanDigits (fraction ++ []) = (fraction, []) :=
      scanDigits_append (fun c hc => isDigit_of_mem_leftpad hc) (by simp)
    rw [List.append_nil] at h
    exact h
  have hvalue : natValue (whole ++ fraction) = n := by
    rw [natValue_append, natValue_toDigits, natValue_leftpad, length_leftpad_mod hk]
    exact Nat.div_add_mod' n (10 ^ k)
  have hne : ¬(whole = [] ∧ fraction = []) := fun h => Nat.toDigits_ne_nil h.1
  unfold scanRat
  simp only [hsign, hwhole, hfraction, if_neg hne, scanExponent, Option.map_some, hvalue,
    decide_eq_true_eq]
  rw [length_leftpad_mod hk, natAbs_scaled, rounded, zero_sub, zpow_neg, zpow_natCast,
    div_eq_mul_inv]

/-! ## What stands behind a number -/

/-- The text is at its end or goes on with a blank. -/
def Ends (text : List Char) : Prop := ∀ c ∈ text.head?, isSpace c = true

theorem isDigit_of_isSpace {c : Char} (h : isSpace c = true) : c.isDigit = false := by
  rw [Bool.eq_false_iff]
  intro hdigit
  obtain ⟨hlow, -⟩ := Char.isDigit_iff_toNat.mp hdigit
  unfold isSpace at h
  rw [Bool.or_eq_true, beq_iff_eq, Bool.and_eq_true, decide_eq_true_eq, decide_eq_true_eq] at h
  rcases h with rfl | ⟨-, hhigh⟩
  · exact absurd hlow (by decide)
  · exact absurd (hlow.trans hhigh) (by decide)

/-- Behind the end of a text no scan finds anything: it takes of `word ++ rest` what it takes
of `word`. -/
theorem scanDigits_ends (word : List Char) {rest : List Char} (hrest : Ends rest) :
    scanDigits (word ++ rest) = ((scanDigits word).1, (scanDigits word).2 ++ rest) := by
  have hdigits : ∀ c ∈ word.takeWhile Char.isDigit, c.isDigit = true :=
    List.all_eq_true.mp List.all_takeWhile
  have hbehind : ∀ c ∈ (word.dropWhile Char.isDigit ++ rest).head?, c.isDigit = false := by
    cases htail : word.dropWhile Char.isDigit with
    | nil => exact fun c hc => isDigit_of_isSpace (hrest c hc)
    | cons c tail =>
        rintro _ ⟨⟩
        have hhead := List.head?_dropWhile_not Char.isDigit word
        rw [htail] at hhead
        simpa using hhead
  have hsplit : word ++ rest =
      word.takeWhile Char.isDigit ++ (word.dropWhile Char.isDigit ++ rest) := by
    rw [← List.append_assoc, List.takeWhile_append_dropWhile]
  rw [hsplit, scanDigits_append hdigits hbehind]
  rfl

theorem scanSign_ends (word : List Char) {rest : List Char} (hrest : Ends rest) :
    scanSign (word ++ rest) = ((scanSign word).1, (scanSign word).2 ++ rest) := by
  cases word with
  | cons c word =>
      unfold scanSign
      rw [List.cons_append]
      split
      · next h =>
          obtain ⟨rfl, rfl⟩ := List.cons.inj h
          rfl
      · next h =>
          obtain ⟨rfl, rfl⟩ := List.cons.inj h
          rfl
      · next hminus hplus =>
          split
          · next h => exact absurd (congrArg (· ++ rest) h) (hminus _)
          · next h => exact absurd (congrArg (· ++ rest) h) (hplus _)
          · rfl
  | nil =>
      rw [List.nil_append]
      unfold scanSign
      split
      · exact absurd (hrest '-' rfl) (by decide)
      · exact absurd (hrest '+' rfl) (by decide)
      · rfl

theorem scanInt_ends (word : List Char) {rest : List Char} (hrest : Ends rest) :
    scanInt (word ++ rest) = ((scanInt word).1, (scanInt word).2 ++ rest) := by
  unfold scanInt
  simp only [scanSign_ends word hrest, scanDigits_ends _ hrest]
  split
  · rfl
  · rfl

theorem scanFraction_ends (word : List Char) {rest : List Char} (hrest : Ends rest) :
    scanFraction (word ++ rest) = ((scanFraction word).1, (scanFraction word).2 ++ rest) := by
  cases word with
  | cons c word =>
      rw [List.cons_append]
      by_cases hpoint : c = '.'
      · rw [hpoint]
        exact scanDigits_ends word hrest
      · have hnone : ∀ text, scanFraction (c :: text) = ([], c :: text) := by
          intro text
          unfold scanFraction
          split
          · next h => exact absurd (List.cons.inj h).1 hpoint
          · rfl
        rw [hnone, hnone]
        rfl
  | nil =>
      rw [List.nil_append]
      unfold scanFraction
      split
      · exact absurd (hrest '.' rfl) (by decide)
      · rfl

theorem scanExponent_cons (c : Char) (text : List Char) :
    scanExponent (c :: text) =
      if c = 'e' ∨ c = 'E' then scanInt text else (some 0, c :: text) := rfl

theorem scanExponent_ends (word : List Char) {rest : List Char} (hrest : Ends rest) :
    scanExponent (word ++ rest) = ((scanExponent word).1, (scanExponent word).2 ++ rest) := by
  cases word with
  | cons c word =>
      rw [List.cons_append, scanExponent_cons, scanExponent_cons]
      split
      · exact scanInt_ends word hrest
      · rfl
  | nil =>
      rw [List.nil_append]
      cases rest with
      | nil => rfl
      | cons c rest =>
          have hc : ¬(c = 'e' ∨ c = 'E') := by
            rintro (rfl | rfl)
            · exact absurd (hrest 'e' rfl) (by decide)
            · exact absurd (hrest 'E' rfl) (by decide)
          rw [scanExponent_cons, if_neg hc]
          rfl

theorem scanRat_ends (word : List Char) {rest : List Char} (hrest : Ends rest) :
    scanRat (word ++ rest) = ((scanRat word).1, (scanRat word).2 ++ rest) := by
  unfold scanRat
  simp only [scanSign_ends word hrest, scanDigits_ends _ hrest, scanFraction_ends _ hrest,
    scanExponent_ends _ hrest]
  split
  · rfl
  · rfl

/-! ## The written text -/

theorem toNat_of_plain {c : Char} (h : Plain c) : 45 ≤ c.toNat ∧ c.toNat ≤ 57 := by
  rcases h with h | rfl | rfl
  · obtain ⟨hlow, hhigh⟩ := Char.isDigit_iff_toNat.mp h
    exact ⟨le_trans (by decide) hlow, hhigh⟩
  · decide
  · decide

theorem isSpace_of_plain {c : Char} (h : Plain c) : isSpace c = false := by
  obtain ⟨hlow, -⟩ := toNat_of_plain h
  have hne : c ≠ ' ' := by
    rintro rfl
    exact absurd hlow (by decide)
  unfold isSpace
  rw [beq_eq_false_iff_ne.mpr hne, Bool.false_or, decide_eq_false (by omega : ¬c.toNat ≤ 13),
    Bool.and_false]

/-- A written number begins with no blank. -/
theorem skipSpace_of_plain {text : List Char} (h : ∀ c ∈ text, Plain c) :
    skipSpace text = text := by
  unfold skipSpace
  cases text with
  | nil => rfl
  | cons c text =>
      have hc : isSpace c = false := isSpace_of_plain (h c List.mem_cons_self)
      rw [List.dropWhile_cons_of_neg (by rw [hc]; exact Bool.false_ne_true)]

theorem plain_of_isDigit {c : Char} (h : c.isDigit = true) : Plain c := .inl h

theorem plain_formatInt (n : ℤ) : ∀ c ∈ formatInt n, Plain c := by
  intro c hc
  unfold formatInt at hc
  rcases List.mem_append.mp hc with hc | hc
  · split at hc
    · exact .inr (.inl (List.mem_singleton.mp hc))
    · cases hc
  · exact plain_of_isDigit (isDigit_of_mem_toDigits hc)

theorem plain_formatFixed (k : ℕ) (q : ℚ) : ∀ c ∈ formatFixed k q, Plain c := by
  intro c hc
  unfold formatFixed at hc
  rcases List.mem_append.mp hc with hc | hc
  · rcases List.mem_append.mp hc with hc | hc
    · split at hc
      · exact .inr (.inl (List.mem_singleton.mp hc))
      · cases hc
    · exact plain_of_isDigit (isDigit_of_mem_toDigits hc)
  · rcases List.mem_cons.mp hc with rfl | hc
    · exact .inr (.inr rfl)
    · exact plain_of_isDigit (isDigit_of_mem_leftpad hc)

/-- An integer of `k` digits takes `k + 1` characters at most. -/
theorem length_formatInt_le {n : ℤ} {k : ℕ} (hk : 0 < k) (hn : n.natAbs < 10 ^ k) :
    (formatInt n).length ≤ k + 1 := by
  have hdigits := (Nat.length_toDigits_le_iff (b := 10) (by omega) hk).mpr hn
  unfold formatInt
  rw [List.length_append]
  split
  · rw [List.length_singleton]
    omega
  · rw [List.length_nil]
    omega

theorem formatInt_ne_nil (n : ℤ) : formatInt n ≠ [] := by
  unfold formatInt
  exact List.append_ne_nil_of_right_ne_nil _ Nat.toDigits_ne_nil

theorem length_formatFixed_le {k m : ℕ} {q : ℚ} (hk : 0 < k) (hm : 0 < m)
    (hq : (scaled k q).natAbs / 10 ^ k < 10 ^ m) :
    (formatFixed k q).length ≤ m + k + 2 := by
  have hwhole := (Nat.length_toDigits_le_iff (b := 10) (by omega) hm).mpr hq
  have hfraction := length_leftpad_mod (n := (scaled k q).natAbs) hk
  unfold formatFixed
  rw [List.length_append, List.length_append, List.length_cons, hfraction]
  split
  · rw [List.length_singleton]
    omega
  · rw [List.length_nil]
    omega

theorem formatFixed_ne_nil (k : ℕ) (q : ℚ) : formatFixed k q ≠ [] := by
  unfold formatFixed
  exact List.append_ne_nil_of_right_ne_nil _ (List.cons_ne_nil _ _)

/-! ## Rounding -/

/-- Integers are not rounded. -/
theorem rounded_intCast (k : ℕ) (n : ℤ) : rounded k n = n := by
  have hpow : (10 : ℚ) ^ k ≠ 0 := by positivity
  have hscaled : scaled k n = n * 10 ^ k := by
    unfold scaled
    have hcast : (n : ℚ) * 10 ^ k = ((n * 10 ^ k : ℤ) : ℚ) := by push_cast; rfl
    rw [hcast, round_intCast]
  unfold rounded
  rw [hscaled]
  push_cast
  exact mul_div_cancel_right₀ _ hpow

/-- A quotient by a number with few digits is not rounded across an integer. -/
theorem floor_rounded_div {k d : ℕ} (hd : 0 < d) (hk : d < 2 * 10 ^ k) (n : ℤ) :
    ⌊rounded k ((n : ℚ) / d)⌋ = n / d := by
  have hd' : (0 : ℚ) < d := Nat.cast_pos.mpr hd
  have hpow : (0 : ℚ) < 10 ^ k := by positivity
  have hk' : (d : ℚ) < 2 * 10 ^ k := by exact_mod_cast hk
  have hlow : (n / d : ℤ) * d ≤ n := Int.ediv_mul_le n (by omega)
  have hhigh : n + 1 ≤ (n / d + 1 : ℤ) * d := Int.lt_ediv_add_one_mul_self n (by omega)
  have hlow' : ((n / d : ℤ) : ℚ) ≤ n / d := by
    rw [le_div_iff₀ hd']
    exact_mod_cast hlow
  have hhigh' : (n : ℚ) / d + 1 / d ≤ (n / d : ℤ) + 1 := by
    rw [← add_div, div_le_iff₀ hd']
    exact_mod_cast hhigh
  rw [Int.floor_eq_iff]
  unfold rounded
  constructor
  · rw [le_div_iff₀ hpow]
    have hfloor : (n / d : ℤ) * 10 ^ k ≤ scaled k ((n : ℚ) / d) := by
      unfold scaled
      rw [round_eq, Int.le_floor]
      push_cast
      nlinarith
    exact_mod_cast hfloor
  · rw [div_lt_iff₀ hpow]
    have hfloor : scaled k ((n : ℚ) / d) < (n / d + 1 : ℤ) * 10 ^ k := by
      unfold scaled
      rw [round_eq, Int.floor_lt]
      have hhalf : 1 / 2 < 1 / d * (10 : ℚ) ^ k := by
        rw [div_mul_eq_mul_div, one_mul, div_lt_div_iff₀ (by norm_num) hd']
        linarith
      push_cast
      nlinarith
    exact_mod_cast hfloor

theorem natAbs_scaled_le {k m : ℕ} {q : ℚ} (hq : |q| < 10 ^ m) :
    (scaled k q).natAbs ≤ 10 ^ m * 10 ^ k := by
  have hpow : (0 : ℚ) < 10 ^ k := by positivity
  have hround : |q * 10 ^ k - scaled k q| ≤ 1 / 2 := abs_sub_round _
  have hmul : |q * 10 ^ k| < 10 ^ m * 10 ^ k := by
    rw [abs_mul, abs_of_pos hpow]
    exact mul_lt_mul_of_pos_right hq hpow
  have hlt : |((scaled k q : ℤ) : ℚ)| < 10 ^ m * 10 ^ k + 1 := by
    have htriangle := abs_sub_abs_le_abs_sub ((scaled k q : ℤ) : ℚ) (q * 10 ^ k)
    rw [abs_sub_comm] at htriangle
    linarith
  rw [← Nat.lt_succ_iff, ← Nat.cast_lt (α := ℚ), Nat.cast_natAbs]
  push_cast
  exact_mod_cast hlt

end Decimal
