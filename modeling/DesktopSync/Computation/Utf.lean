import Mathlib.Data.List.Basic

/-!
# UTF-8 and UTF-16 with replacement

Text is a list of Unicode scalar values (`Char`). Each encoding form has an encoder
and a total decoder that never fails: an ill-formed subsequence reads as one
U+FFFD, cut at the longest prefix a well-formed sequence could start with.

The decoders are machines that read one code unit at a time and carry what is still
pending, so that they recurse on the input alone. `utf8Decode_encode` and
`utf16Decode_encode` say that decoding undoes encoding, and `wellFormed_iff` that a
sequence of UTF-16 units is well formed exactly when re-encoding gives it back.
-/

set_option autoImplicit false

namespace Utf

/-- U+FFFD, what a decoder writes for an ill-formed subsequence. -/
def replacement : Char := '\uFFFD'

/-! ## UTF-8 -/

/-- A UTF-8 sequence that has begun: how many continuation bytes are owed, the range
the next one must lie in, and the value bits read so far. -/
structure Pending where
  owed : ℕ
  low : ℕ
  high : ℕ
  bits : ℕ

/-- What a byte means between characters: the characters it completes and the
sequence it opens. -/
def leadByte (b : ℕ) : List Char × Option Pending :=
  if b < 0x80 then ([Char.ofNat b], none)
  else if b < 0xC2 then ([replacement], none)
  else if b < 0xE0 then ([], some ⟨1, 0x80, 0xBF, b - 0xC0⟩)
  else if b = 0xE0 then ([], some ⟨2, 0xA0, 0xBF, 0⟩)
  else if b = 0xED then ([], some ⟨2, 0x80, 0x9F, 0xD⟩)
  else if b < 0xF0 then ([], some ⟨2, 0x80, 0xBF, b - 0xE0⟩)
  else if b = 0xF0 then ([], some ⟨3, 0x90, 0xBF, 0⟩)
  else if b < 0xF4 then ([], some ⟨3, 0x80, 0xBF, b - 0xF0⟩)
  else if b = 0xF4 then ([], some ⟨3, 0x80, 0x8F, 4⟩)
  else ([replacement], none)

/-- Decode from a position where `pending` is open. -/
def utf8DecodeFrom : Option Pending → List UInt8 → List Char
  | none, [] => []
  | some _, [] => [replacement]
  | none, b :: rest =>
      (leadByte b.toNat).1 ++ utf8DecodeFrom (leadByte b.toNat).2 rest
  | some p, b :: rest =>
      if p.low ≤ b.toNat ∧ b.toNat ≤ p.high then
        if p.owed ≤ 1 then Char.ofNat (p.bits * 64 + b.toNat % 64) :: utf8DecodeFrom none rest
        else utf8DecodeFrom (some ⟨p.owed - 1, 0x80, 0xBF, p.bits * 64 + b.toNat % 64⟩) rest
      else
        replacement :: (leadByte b.toNat).1 ++ utf8DecodeFrom (leadByte b.toNat).2 rest

/-- The text a byte sequence holds. -/
def utf8Decode (bytes : List UInt8) : List Char := utf8DecodeFrom none bytes

/-- The UTF-8 form of a text. -/
def utf8Encode (text : List Char) : List UInt8 := text.flatMap String.utf8EncodeChar

@[simp] theorem utf8Encode_nil : utf8Encode [] = [] := rfl

@[simp] theorem utf8Encode_cons (c : Char) (text : List Char) :
    utf8Encode (c :: text) = String.utf8EncodeChar c ++ utf8Encode text := rfl

/-- A continuation byte in range goes into the value bits. -/
theorem utf8DecodeFrom_continuation (p : Pending) (b : UInt8) (rest : List UInt8)
    (h : p.low ≤ b.toNat ∧ b.toNat ≤ p.high) (howed : 1 < p.owed) :
    utf8DecodeFrom (some p) (b :: rest) =
      utf8DecodeFrom (some ⟨p.owed - 1, 0x80, 0xBF, p.bits * 64 + b.toNat % 64⟩) rest := by
  simp only [utf8DecodeFrom, if_pos h]
  rw [if_neg (by omega)]

/-- The last continuation byte in range completes its character. -/
theorem utf8DecodeFrom_last (p : Pending) (b : UInt8) (rest : List UInt8)
    (h : p.low ≤ b.toNat ∧ b.toNat ≤ p.high) (howed : p.owed ≤ 1) :
    utf8DecodeFrom (some p) (b :: rest) =
      Char.ofNat (p.bits * 64 + b.toNat % 64) :: utf8DecodeFrom none rest := by
  simp only [utf8DecodeFrom, if_pos h, if_pos howed]

/-- A byte that opens a sequence. -/
theorem utf8DecodeFrom_open (b : UInt8) (p : Pending) (rest : List UInt8)
    (h : leadByte b.toNat = ([], some p)) :
    utf8DecodeFrom none (b :: rest) = utf8DecodeFrom (some p) rest := by
  simp only [utf8DecodeFrom, h, List.nil_append]

/-- The value of a byte built from a number that fits. -/
theorem toNat_ofNat_byte (n : ℕ) (h : n < 256) : (UInt8.ofNat n).toNat = n := by
  simp only [UInt8.toNat_ofNat']
  omega

/-- The three-byte lead of a scalar value opens a sequence that admits the value's
second byte. -/
theorem leadByte_three (v : ℕ) (hv : v.isValidChar) (hlow : 0x7FF < v) (hhigh : v ≤ 0xFFFF) :
    ∃ p : Pending, leadByte (v / 4096 % 16 + 0xE0) = ([], some p) ∧ p.owed = 2 ∧
      p.bits = v / 4096 ∧ p.low ≤ v / 64 % 64 + 0x80 ∧ v / 64 % 64 + 0x80 ≤ p.high := by
  have hmod : v / 4096 % 16 = v / 4096 := by omega
  rw [hmod]
  unfold leadByte
  rw [if_neg (by omega), if_neg (by omega), if_neg (by omega)]
  by_cases h0 : v / 4096 = 0
  · refine ⟨⟨2, 0xA0, 0xBF, 0⟩, by rw [if_pos (by omega)], rfl, h0.symm, ?_, ?_⟩ <;>
      simp only <;> omega
  rw [if_neg (by omega)]
  by_cases hd : v / 4096 = 0xD
  · refine ⟨⟨2, 0x80, 0x9F, 0xD⟩, by rw [if_pos (by omega)], rfl, hd.symm, ?_, ?_⟩
    · simp only; omega
    · have : v < 0xD800 := by
        rcases hv with hv | hv
        · exact hv
        · omega
      simp only
      omega
  rw [if_neg (by omega), if_pos (by omega)]
  exact ⟨_, rfl, rfl, by simp only; omega, by simp only; omega, by simp only; omega⟩

/-- The four-byte lead of a scalar value opens a sequence that admits the value's
second byte. -/
theorem leadByte_four (v : ℕ) (hv : v.isValidChar) (hlow : 0xFFFF < v) :
    ∃ p : Pending, leadByte (v / 262144 % 8 + 0xF0) = ([], some p) ∧ p.owed = 3 ∧
      p.bits = v / 262144 ∧ p.low ≤ v / 4096 % 64 + 0x80 ∧ v / 4096 % 64 + 0x80 ≤ p.high := by
  have hmax : v < 0x110000 := hv.elim (fun h => by omega) And.right
  have hmod : v / 262144 % 8 = v / 262144 := by omega
  rw [hmod]
  unfold leadByte
  rw [if_neg (by omega), if_neg (by omega), if_neg (by omega), if_neg (by omega),
    if_neg (by omega), if_neg (by omega)]
  by_cases h0 : v / 262144 = 0
  · refine ⟨⟨3, 0x90, 0xBF, 0⟩, by rw [if_pos (by omega)], rfl, h0.symm, ?_, ?_⟩ <;>
      simp only <;> omega
  rw [if_neg (by omega)]
  by_cases h4 : v / 262144 = 4
  · refine ⟨⟨3, 0x80, 0x8F, 4⟩, by rw [if_neg (by omega), if_pos (by omega)], rfl, h4.symm,
      ?_, ?_⟩ <;> simp only <;> omega
  rw [if_pos (by omega)]
  exact ⟨_, rfl, rfl, by simp only; omega, by simp only; omega, by simp only; omega⟩

/-- A two-byte sequence decodes to the value it was built from. -/
theorem utf8DecodeFrom_two (v : ℕ) (hlow : 0x7F < v) (hhigh : v ≤ 0x7FF) (rest : List UInt8) :
    utf8DecodeFrom none
      (UInt8.ofNat (v / 64 % 0x20 + 0xC0) :: UInt8.ofNat (v % 0x40 + 0x80) :: rest) =
        Char.ofNat v :: utf8DecodeFrom none rest := by
  have hlead : leadByte (UInt8.ofNat (v / 64 % 0x20 + 0xC0)).toNat =
      ([], some ⟨1, 0x80, 0xBF, v / 64⟩) := by
    rw [toNat_ofNat_byte _ (by omega)]
    unfold leadByte
    rw [if_neg (by omega), if_neg (by omega), if_pos (by omega),
      show v / 64 % 0x20 + 0xC0 - 0xC0 = v / 64 by omega]
  have hsecond := toNat_ofNat_byte (v % 0x40 + 0x80) (by omega)
  rw [utf8DecodeFrom_open _ _ _ hlead,
    utf8DecodeFrom_last _ _ _ (by simp only; omega) (by simp only; omega), hsecond]
  simp only
  rw [show v / 64 * 64 + (v % 0x40 + 0x80) % 64 = v by omega]

/-- A three-byte sequence decodes to the scalar value it was built from. -/
theorem utf8DecodeFrom_three (v : ℕ) (hv : v.isValidChar) (hlow : 0x7FF < v)
    (hhigh : v ≤ 0xFFFF) (rest : List UInt8) :
    utf8DecodeFrom none
      (UInt8.ofNat (v / 4096 % 0x10 + 0xE0) :: UInt8.ofNat (v / 64 % 0x40 + 0x80) ::
        UInt8.ofNat (v % 0x40 + 0x80) :: rest) =
        Char.ofNat v :: utf8DecodeFrom none rest := by
  obtain ⟨p, hlead, howed, hbits, hplow, hphigh⟩ := leadByte_three v hv hlow hhigh
  have hfirst := toNat_ofNat_byte (v / 4096 % 0x10 + 0xE0) (by omega)
  have hsecond := toNat_ofNat_byte (v / 64 % 0x40 + 0x80) (by omega)
  have hthird := toNat_ofNat_byte (v % 0x40 + 0x80) (by omega)
  rw [utf8DecodeFrom_open _ p _ (by rw [hfirst]; exact hlead),
    utf8DecodeFrom_continuation _ _ _ (by omega) (by omega),
    utf8DecodeFrom_last _ _ _ (by simp only; omega) (by simp only; omega),
    hbits, hsecond, hthird]
  simp only
  rw [show (v / 4096 * 64 + (v / 64 % 0x40 + 0x80) % 64) * 64 + (v % 0x40 + 0x80) % 64 = v by
    omega]

/-- A four-byte sequence decodes to the scalar value it was built from. -/
theorem utf8DecodeFrom_four (v : ℕ) (hv : v.isValidChar) (hlow : 0xFFFF < v)
    (rest : List UInt8) :
    utf8DecodeFrom none
      (UInt8.ofNat (v / 262144 % 0x08 + 0xF0) :: UInt8.ofNat (v / 4096 % 0x40 + 0x80) ::
        UInt8.ofNat (v / 64 % 0x40 + 0x80) :: UInt8.ofNat (v % 0x40 + 0x80) :: rest) =
        Char.ofNat v :: utf8DecodeFrom none rest := by
  have hmax : v < 0x110000 := hv.elim (fun h => by omega) And.right
  obtain ⟨p, hlead, howed, hbits, hplow, hphigh⟩ := leadByte_four v hv hlow
  have hfirst := toNat_ofNat_byte (v / 262144 % 0x08 + 0xF0) (by omega)
  have hsecond := toNat_ofNat_byte (v / 4096 % 0x40 + 0x80) (by omega)
  have hthird := toNat_ofNat_byte (v / 64 % 0x40 + 0x80) (by omega)
  have hfourth := toNat_ofNat_byte (v % 0x40 + 0x80) (by omega)
  rw [utf8DecodeFrom_open _ p _ (by rw [hfirst]; exact hlead),
    utf8DecodeFrom_continuation _ _ _ (by omega) (by omega),
    utf8DecodeFrom_continuation _ _ _ (by simp only; omega) (by simp only; omega),
    utf8DecodeFrom_last _ _ _ (by simp only; omega) (by simp only; omega),
    hbits, hsecond, hthird, hfourth]
  simp only
  rw [show ((v / 262144 * 64 + (v / 4096 % 0x40 + 0x80) % 64) * 64 +
    (v / 64 % 0x40 + 0x80) % 64) * 64 + (v % 0x40 + 0x80) % 64 = v by omega]

/-- One encoded character decodes to itself, whatever follows. -/
theorem utf8DecodeFrom_encodeChar (c : Char) (rest : List UInt8) :
    utf8DecodeFrom none (String.utf8EncodeChar c ++ rest) = c :: utf8DecodeFrom none rest := by
  have hc : Char.ofNat c.val.toNat = c := Char.ofNat_toNat c
  have hvalid : c.val.toNat.isValidChar := c.valid
  generalize hv : c.val.toNat = v at hc hvalid
  unfold String.utf8EncodeChar
  simp only [hv]
  split
  · -- one byte: the value itself
    simp only [List.cons_append, List.nil_append, utf8DecodeFrom]
    rw [toNat_ofNat_byte v (by omega)]
    simp only [leadByte, if_pos (show v < 0x80 by omega), hc, List.cons_append, List.nil_append]
  · split
    · rw [← hc]
      exact utf8DecodeFrom_two v (by omega) (by omega) rest
    · split
      · rw [← hc]
        exact utf8DecodeFrom_three v hvalid (by omega) (by omega) rest
      · rw [← hc]
        exact utf8DecodeFrom_four v hvalid (by omega) rest

/-- Decoding undoes UTF-8 encoding. -/
theorem utf8Decode_encode (text : List Char) : utf8Decode (utf8Encode text) = text := by
  induction text with
  | nil => rfl
  | cons c text ih =>
      unfold utf8Decode at ih ⊢
      rw [utf8Encode_cons, utf8DecodeFrom_encodeChar, ih]

/-- Only U+0000 encodes to a zero byte. -/
theorem zero_mem_utf8EncodeChar (c : Char) (h : 0 ∈ String.utf8EncodeChar c) : c.val = 0 := by
  have hzero : ∀ n : ℕ, 0 < n → n < 256 → (0 : UInt8) ≠ UInt8.ofNat n := by
    intro n hpos hlt heq
    have hvalue := congrArg UInt8.toNat heq
    rw [toNat_ofNat_byte n hlt, UInt8.toNat_zero] at hvalue
    omega
  unfold String.utf8EncodeChar at h
  simp only at h
  split at h
  · rw [List.mem_singleton] at h
    by_contra hne
    have hpos : 0 < c.val.toNat := by
      by_contra hle
      exact hne (UInt32.toNat_inj.mp (by simpa using hle))
    exact hzero _ hpos (by omega) h
  · exfalso
    split at h
    · simp only [List.mem_cons, List.not_mem_nil, or_false] at h
      rcases h with h | h <;> exact hzero _ (by omega) (by omega) h
    · split at h
      · simp only [List.mem_cons, List.not_mem_nil, or_false] at h
        rcases h with h | h | h <;> exact hzero _ (by omega) (by omega) h
      · simp only [List.mem_cons, List.not_mem_nil, or_false] at h
        rcases h with h | h | h | h <;> exact hzero _ (by omega) (by omega) h

/-- A text without U+0000 has no zero byte in its UTF-8 form. -/
theorem zero_not_mem_utf8Encode (text : List Char) (h : ∀ c ∈ text, c.val ≠ 0) :
    0 ∉ utf8Encode text := by
  intro hmem
  obtain ⟨c, hc, hzero⟩ := List.mem_flatMap.mp hmem
  exact h c hc (zero_mem_utf8EncodeChar c hzero)

/-! ## UTF-16 -/

/-- A high surrogate opens a pair. -/
def isHigh (u : ℕ) : Prop := 0xD800 ≤ u ∧ u ≤ 0xDBFF

/-- A low surrogate closes one. -/
def isLow (u : ℕ) : Prop := 0xDC00 ≤ u ∧ u ≤ 0xDFFF

instance (u : ℕ) : Decidable (isHigh u) := inferInstanceAs (Decidable (_ ∧ _))

instance (u : ℕ) : Decidable (isLow u) := inferInstanceAs (Decidable (_ ∧ _))

/-- What a unit means when no pair is open: the characters it completes and the high
surrogate it leaves open. -/
def leadUnit (u : ℕ) : List Char × Option ℕ :=
  if isHigh u then ([], some u)
  else if isLow u then ([replacement], none)
  else ([Char.ofNat u], none)

/-- The scalar value a surrogate pair stands for. -/
def pairValue (high low : ℕ) : ℕ := 0x10000 + (high - 0xD800) * 0x400 + (low - 0xDC00)

/-- The surrogates of a value above the basic plane stand for it. -/
theorem pairValue_split (v : ℕ) (hlow : 0x10000 ≤ v) :
    pairValue ((v - 0x10000) / 0x400 + 0xD800) ((v - 0x10000) % 0x400 + 0xDC00) = v := by
  unfold pairValue
  omega

/-- Decode from a position where a high surrogate may be open. -/
def utf16DecodeFrom : Option ℕ → List UInt16 → List Char
  | none, [] => []
  | some _, [] => [replacement]
  | none, u :: rest =>
      (leadUnit u.toNat).1 ++ utf16DecodeFrom (leadUnit u.toNat).2 rest
  | some high, u :: rest =>
      if isLow u.toNat then
        Char.ofNat (pairValue high u.toNat) :: utf16DecodeFrom none rest
      else
        replacement :: (leadUnit u.toNat).1 ++ utf16DecodeFrom (leadUnit u.toNat).2 rest

/-- The text a sequence of UTF-16 units holds. -/
def utf16Decode (units : List UInt16) : List Char := utf16DecodeFrom none units

/-- The UTF-16 units of one character. -/
def utf16EncodeChar (c : Char) : List UInt16 :=
  let v := c.val.toNat
  if v < 0x10000 then [UInt16.ofNat v]
  else [UInt16.ofNat ((v - 0x10000) / 0x400 + 0xD800),
    UInt16.ofNat ((v - 0x10000) % 0x400 + 0xDC00)]

/-- The UTF-16 form of a text. -/
def utf16Encode (text : List Char) : List UInt16 := text.flatMap utf16EncodeChar

@[simp] theorem utf16Encode_nil : utf16Encode [] = [] := rfl

@[simp] theorem utf16Encode_cons (c : Char) (text : List Char) :
    utf16Encode (c :: text) = utf16EncodeChar c ++ utf16Encode text := rfl

/-- The value of a unit built from a number that fits. -/
theorem toNat_ofNat_unit (n : ℕ) (h : n < 65536) : (UInt16.ofNat n).toNat = n := by
  simp only [UInt16.toNat_ofNat']
  omega

/-- A unit outside the surrogates is a character of its own. -/
theorem utf16DecodeFrom_single (u : UInt16) (rest : List UInt16) (hhigh : ¬ isHigh u.toNat)
    (hlow : ¬ isLow u.toNat) :
    utf16DecodeFrom none (u :: rest) = Char.ofNat u.toNat :: utf16DecodeFrom none rest := by
  simp only [utf16DecodeFrom, leadUnit, if_neg hhigh, if_neg hlow, List.cons_append,
    List.nil_append]

/-- A high surrogate followed by a low one is one character. -/
theorem utf16DecodeFrom_pair (u w : UInt16) (rest : List UInt16) (hhigh : isHigh u.toNat)
    (hlow : isLow w.toNat) :
    utf16DecodeFrom none (u :: w :: rest) =
      Char.ofNat (pairValue u.toNat w.toNat) :: utf16DecodeFrom none rest := by
  simp only [utf16DecodeFrom, leadUnit, if_pos hhigh, if_pos hlow, List.nil_append]

/-- One encoded character decodes to itself, whatever follows. -/
theorem utf16DecodeFrom_encodeChar (c : Char) (rest : List UInt16) :
    utf16DecodeFrom none (utf16EncodeChar c ++ rest) = c :: utf16DecodeFrom none rest := by
  have hc : Char.ofNat c.val.toNat = c := Char.ofNat_toNat c
  have hvalid : c.val.toNat.isValidChar := c.valid
  generalize hv : c.val.toNat = v at hc hvalid
  have hmax : v < 0x110000 := hvalid.elim (fun h => by omega) And.right
  unfold utf16EncodeChar
  simp only [hv]
  split
  · -- a scalar value is never a surrogate
    have hunit := toNat_ofNat_unit v (by omega)
    have hhigh : ¬ isHigh v := by unfold isHigh; rcases hvalid with h | h <;> omega
    have hlow : ¬ isLow v := by unfold isLow; rcases hvalid with h | h <;> omega
    rw [List.cons_append, List.nil_append,
      utf16DecodeFrom_single _ _ (by rw [hunit]; exact hhigh) (by rw [hunit]; exact hlow),
      hunit, hc]
  · have hfirst := toNat_ofNat_unit ((v - 0x10000) / 0x400 + 0xD800) (by omega)
    have hsecond := toNat_ofNat_unit ((v - 0x10000) % 0x400 + 0xDC00) (by omega)
    have hhigh : isHigh ((v - 0x10000) / 0x400 + 0xD800) := by unfold isHigh; omega
    have hlow : isLow ((v - 0x10000) % 0x400 + 0xDC00) := by unfold isLow; omega
    rw [List.cons_append, List.cons_append, List.nil_append,
      utf16DecodeFrom_pair _ _ _ (by rw [hfirst]; exact hhigh) (by rw [hsecond]; exact hlow),
      hfirst, hsecond, pairValue_split v (by omega), hc]

/-- Decoding undoes UTF-16 encoding. -/
theorem utf16Decode_encode (text : List Char) : utf16Decode (utf16Encode text) = text := by
  induction text with
  | nil => rfl
  | cons c text ih =>
      unfold utf16Decode at ih ⊢
      rw [utf16Encode_cons, utf16DecodeFrom_encodeChar, ih]

theorem length_leadUnit (u : ℕ) :
    (leadUnit u).1.length + (if (leadUnit u).2.isSome then 1 else 0) = 1 := by
  unfold leadUnit
  by_cases hhigh : isHigh u
  · rw [if_pos hhigh]
    rfl
  · rw [if_neg hhigh]
    by_cases hlow : isLow u
    · rw [if_pos hlow]
      rfl
    · rw [if_neg hlow]
      rfl

/-- Decoding makes at most one character of a unit. -/
theorem length_utf16DecodeFrom_le (pending : Option ℕ) (units : List UInt16) :
    (utf16DecodeFrom pending units).length ≤
      units.length + (if pending.isSome then 1 else 0) := by
  induction units generalizing pending with
  | nil => cases pending <;> simp [utf16DecodeFrom]
  | cons u units ih =>
      have hlead := length_leadUnit u.toNat
      have htail := ih (leadUnit u.toNat).2
      cases pending with
      | none =>
          simp only [utf16DecodeFrom, List.length_append, List.length_cons, Option.isSome_none]
          simp only [Bool.false_eq_true, if_false]
          omega
      | some high =>
          simp only [utf16DecodeFrom, Option.isSome_some, if_true]
          split
          · have hnone := ih none
            simp only [Option.isSome_none, Bool.false_eq_true, if_false] at hnone
            simp only [List.length_cons]
            omega
          · simp only [List.length_cons, List.length_append]
            omega

theorem length_leadByte (b : ℕ) :
    (leadByte b).1.length + (if (leadByte b).2.isSome then 1 else 0) = 1 := by
  unfold leadByte
  iterate 9
    refine iteInduction (motive := fun lead : List Char × Option Pending =>
      lead.1.length + (if lead.2.isSome then 1 else 0) = 1) (fun _ => rfl) fun _ => ?_
  rfl

/-- Decoding makes at most one character of a byte. -/
theorem length_utf8DecodeFrom_le (pending : Option Pending) (bytes : List UInt8) :
    (utf8DecodeFrom pending bytes).length ≤
      bytes.length + (if pending.isSome then 1 else 0) := by
  induction bytes generalizing pending with
  | nil => cases pending <;> simp [utf8DecodeFrom]
  | cons b bytes ih =>
      have hlead := length_leadByte b.toNat
      have htail := ih (leadByte b.toNat).2
      have hnone := ih none
      simp only [Option.isSome_none, Bool.false_eq_true, if_false] at hnone
      cases pending with
      | none =>
          simp only [utf8DecodeFrom, List.length_append, List.length_cons, Option.isSome_none,
            Bool.false_eq_true, if_false]
          omega
      | some p =>
          have hnext := ih (some ⟨p.owed - 1, 0x80, 0xBF, p.bits * 64 + b.toNat % 64⟩)
          simp only [Option.isSome_some, if_true] at hnext
          simp only [utf8DecodeFrom, Option.isSome_some, if_true]
          split_ifs
          · simp only [List.length_cons]
            omega
          · simp only [List.length_cons]
            omega
          · simp only [List.length_cons, List.length_append]
            omega

/-- A character takes at most two units. -/
theorem length_utf16Encode_le (text : List Char) :
    (utf16Encode text).length ≤ 2 * text.length := by
  induction text with
  | nil => simp
  | cons c text ih =>
      have hunits : (utf16EncodeChar c).length ≤ 2 := by
        unfold utf16EncodeChar
        simp only
        split_ifs <;> simp
      rw [utf16Encode_cons, List.length_append, List.length_cons]
      omega

/-- A character takes at most four bytes. -/
theorem length_utf8Encode_le (text : List Char) : (utf8Encode text).length ≤ 4 * text.length := by
  induction text with
  | nil => simp
  | cons c text ih =>
      have hsize := c.utf8Size_le_four
      rw [utf8Encode_cons, List.length_append, String.length_utf8EncodeChar, List.length_cons]
      omega

/-- The UTF-8 form of decoded units has at most four bytes for each of them. -/
theorem length_utf8_utf16_le (units : List UInt16) :
    (utf8Encode (utf16Decode units)).length ≤ 4 * units.length := by
  have hchars := length_utf16DecodeFrom_le none units
  have hbytes := length_utf8Encode_le (utf16Decode units)
  simp only [Option.isSome_none, Bool.false_eq_true, if_false] at hchars
  rw [utf16Decode] at hbytes ⊢
  omega

/-- Units are well formed when they are the UTF-16 form of some text. -/
def WellFormed (units : List UInt16) : Prop := ∃ text, utf16Encode text = units

/-- Well-formed units are exactly those that decoding and encoding give back. -/
theorem wellFormed_iff (units : List UInt16) :
    WellFormed units ↔ utf16Encode (utf16Decode units) = units := by
  constructor
  · rintro ⟨text, rfl⟩
    rw [utf16Decode_encode]
  · intro h
    exact ⟨_, h⟩

instance (units : List UInt16) : Decidable (WellFormed units) :=
  decidable_of_iff _ (wellFormed_iff units).symm

/-! ## Unpaired surrogates -/

/-- Every surrogate without its other half becomes U+FFFD. -/
def repair : List UInt16 → List UInt16
  | [] => []
  | [u] => if isHigh u.toNat ∨ isLow u.toNat then [0xFFFD] else [u]
  | u :: w :: rest =>
      if isHigh u.toNat ∧ isLow w.toNat then u :: w :: repair rest
      else if isHigh u.toNat ∨ isLow u.toNat then 0xFFFD :: repair (w :: rest)
      else u :: repair (w :: rest)

theorem toNat_val_ofNat {n : ℕ} (h : n.isValidChar) : (Char.ofNat n).val.toNat = n := by
  unfold Char.ofNat
  rw [dif_pos h]
  rfl

theorem utf16EncodeChar_replacement : utf16EncodeChar replacement = [0xFFFD] := by decide

/-- A unit outside the surrogates encodes to itself. -/
theorem utf16EncodeChar_single {u : UInt16} (hhigh : ¬isHigh u.toNat) (hlow : ¬isLow u.toNat) :
    utf16EncodeChar (Char.ofNat u.toNat) = [u] := by
  have hlt := u.toNat_lt
  have hvalid : u.toNat.isValidChar := by
    unfold isHigh at hhigh
    unfold isLow at hlow
    unfold Nat.isValidChar
    omega
  unfold utf16EncodeChar
  simp only [toNat_val_ofNat hvalid]
  rw [if_pos (by omega), UInt16.ofNat_toNat]

/-- The character of a pair encodes to the pair. -/
theorem utf16EncodeChar_pair {u w : UInt16} (hhigh : isHigh u.toNat) (hlow : isLow w.toNat) :
    utf16EncodeChar (Char.ofNat (pairValue u.toNat w.toNat)) = [u, w] := by
  unfold isHigh at hhigh
  unfold isLow at hlow
  have hvalid : (pairValue u.toNat w.toNat).isValidChar := by
    unfold pairValue Nat.isValidChar
    omega
  have hfirst : (pairValue u.toNat w.toNat - 0x10000) / 0x400 + 0xD800 = u.toNat := by
    unfold pairValue
    omega
  have hsecond : (pairValue u.toNat w.toNat - 0x10000) % 0x400 + 0xDC00 = w.toNat := by
    unfold pairValue
    omega
  unfold utf16EncodeChar
  simp only [toNat_val_ofNat hvalid, hfirst, hsecond, UInt16.ofNat_toNat]
  rw [if_neg (by unfold pairValue; omega)]

/-- A surrogate that no other half follows decodes to U+FFFD, and the rest as if it were
not there. -/
theorem utf16DecodeFrom_unpaired {u w : UInt16} {rest : List UInt16}
    (hpair : ¬(isHigh u.toNat ∧ isLow w.toNat)) (hu : isHigh u.toNat ∨ isLow u.toNat) :
    utf16DecodeFrom none (u :: w :: rest) = replacement :: utf16DecodeFrom none (w :: rest) := by
  by_cases hhigh : isHigh u.toNat
  · have hw : ¬isLow w.toNat := fun hw => hpair ⟨hhigh, hw⟩
    simp only [utf16DecodeFrom, leadUnit, if_pos hhigh, if_neg hw, List.nil_append,
      List.cons_append]
  · have hlow := hu.resolve_left hhigh
    simp only [utf16DecodeFrom, leadUnit, if_neg hhigh, if_pos hlow, List.cons_append,
      List.nil_append]

/-- Decoding and encoding replaces the unpaired surrogates, and nothing else. -/
theorem utf16Encode_decode (units : List UInt16) :
    utf16Encode (utf16Decode units) = repair units := by
  unfold utf16Decode
  fun_induction repair units with
  | case1 => rfl
  | case2 u hu =>
      rcases hu with hhigh | hlow
      · simp only [utf16DecodeFrom, leadUnit, if_pos hhigh]
        exact utf16EncodeChar_replacement
      · have hhigh : ¬isHigh u.toNat := by
          unfold isLow at hlow
          unfold isHigh
          omega
        simp only [utf16DecodeFrom, leadUnit, if_neg hhigh, if_pos hlow]
        exact utf16EncodeChar_replacement
  | case3 u hu =>
      rw [not_or] at hu
      rw [utf16DecodeFrom_single _ _ hu.1 hu.2, utf16Encode_cons, utf16EncodeChar_single hu.1 hu.2]
      rfl
  | case4 u w rest hpair ih =>
      rw [utf16DecodeFrom_pair _ _ _ hpair.1 hpair.2, utf16Encode_cons,
        utf16EncodeChar_pair hpair.1 hpair.2, ih]
      rfl
  | case5 u w rest hpair hu ih =>
      rw [utf16DecodeFrom_unpaired hpair hu, utf16Encode_cons, utf16EncodeChar_replacement, ih]
      rfl
  | case6 u w rest hpair hu ih =>
      rw [not_or] at hu
      rw [utf16DecodeFrom_single _ _ hu.1 hu.2, utf16Encode_cons, utf16EncodeChar_single hu.1 hu.2,
        ih]
      rfl

/-- Well-formed units have no unpaired surrogate. -/
theorem repair_of_wellFormed {units : List UInt16} (h : WellFormed units) :
    repair units = units := by
  rw [← utf16Encode_decode, (wellFormed_iff units).mp h]

theorem zero_mem_of_mem_repair {units : List UInt16} (h : 0 ∈ repair units) : 0 ∈ units := by
  have hreplaced : (0 : UInt16) ≠ 0xFFFD := by decide
  fun_induction repair units with
  | case1 => cases h
  | case2 u hu => exact absurd (List.mem_singleton.mp h) hreplaced
  | case3 u hu => exact h
  | case4 u w rest hpair ih =>
      simp only [List.mem_cons] at h ⊢
      exact h.imp_right (Or.imp_right ih)
  | case5 u w rest hpair hu ih =>
      rcases List.mem_cons.mp h with h | h
      · exact absurd h hreplaced
      · exact List.mem_cons_of_mem u (ih h)
  | case6 u w rest hpair hu ih =>
      rcases List.mem_cons.mp h with rfl | h
      · exact List.mem_cons_self
      · exact List.mem_cons_of_mem u (ih h)

/-- U+0000 encodes to a zero unit. -/
theorem zero_mem_utf16Encode (text : List Char) (c : Char) (hc : c ∈ text) (h : c.val = 0) :
    0 ∈ utf16Encode text := by
  refine List.mem_flatMap.mpr ⟨c, hc, ?_⟩
  simp [utf16EncodeChar, h]

/-- Units without a zero have no zero byte in their UTF-8 form. -/
theorem zero_not_mem_utf8 {units : List UInt16} (hzero : 0 ∉ units) :
    0 ∉ utf8Encode (utf16Decode units) := by
  apply zero_not_mem_utf8Encode
  intro c hc hnul
  apply hzero
  apply zero_mem_of_mem_repair
  rw [← utf16Encode_decode]
  exact zero_mem_utf16Encode _ c hc hnul

end Utf
