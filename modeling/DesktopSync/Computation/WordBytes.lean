import Mathlib
import DesktopSync.Computation.ByteOrder

/-!
# Words of four bytes

How words of 32 bits lie in the memory of a machine that stores the least significant byte
first, and what the conversion to network order, the other way round, does to them there.
-/

set_option autoImplicit false

namespace WordBytes

/-- The bytes of a word in memory. -/
def bytes (w : BitVec 32) : List UInt8 := ByteOrder.toBytes 4 w.toNat

/-- The word that a byte string begins with. -/
def word (bs : List UInt8) : BitVec 32 := BitVec.ofNat 32 (ByteOrder.ofBytes (bs.take 4))

/-- The word whose bytes are those of `w` in the opposite order. -/
def htonl (w : BitVec 32) : BitVec 32 := word (bytes w).reverse

/-- The words a byte string is made of. What is left over is no word. -/
def words : List UInt8 → List (BitVec 32)
  | b₀ :: b₁ :: b₂ :: b₃ :: rest => word [b₀, b₁, b₂, b₃] :: words rest
  | _ => []

/-- Every word is converted where it lies. What is left over stays as it is. -/
def convert : List UInt8 → List UInt8
  | b₀ :: b₁ :: b₂ :: b₃ :: rest => bytes (htonl (word [b₀, b₁, b₂, b₃])) ++ convert rest
  | rest => rest

/-- A word is four bytes long. -/
@[simp] theorem length_bytes (w : BitVec 32) : (bytes w).length = 4 :=
  ByteOrder.length_toBytes 4 w.toNat

/-- The four bytes of a word. -/
theorem exists_bytes (w : BitVec 32) : ∃ b₀ b₁ b₂ b₃, bytes w = [b₀, b₁, b₂, b₃] :=
  ⟨_, _, _, _, rfl⟩

/-- A word is read back from the front of a byte string. -/
@[simp] theorem word_bytes_append (w : BitVec 32) (rest : List UInt8) :
    word (bytes w ++ rest) = w := by
  have hlt : w.toNat < 256 ^ 4 := w.isLt
  unfold word
  rw [List.take_left' (length_bytes w), bytes, ByteOrder.ofBytes_toBytes 4 w.toNat hlt]
  exact BitVec.ofNat_toNat 32 w

/-- A word is read back from its bytes. -/
@[simp] theorem word_bytes (w : BitVec 32) : word (bytes w) = w := by
  simpa using word_bytes_append w []

/-- What stands behind a word. -/
theorem drop_bytes_append (w : BitVec 32) (rest : List UInt8) (n : ℕ) :
    (bytes w ++ rest).drop (4 + n) = rest.drop n := by
  rw [← List.drop_drop, List.drop_left' (length_bytes w)]

/-- Bytes are read as a number and written again. -/
theorem toBytes_ofBytes (bs : List UInt8) :
    ByteOrder.toBytes bs.length (ByteOrder.ofBytes bs) = bs := by
  induction bs with
  | nil => rfl
  | cons b bs ih =>
      have hb : b.toNat < 256 := b.toNat_lt
      rw [List.length_cons, ByteOrder.toBytes, ByteOrder.ofBytes_cons,
        Nat.add_mul_div_left _ _ (by norm_num), Nat.div_eq_of_lt hb, Nat.zero_add, ih]
      congr 1
      apply UInt8.toNat_inj.mp
      simp

/-- Four bytes are the bytes of the word they stand for. -/
theorem bytes_word {bs : List UInt8} (h : bs.length = 4) : bytes (word bs) = bs := by
  have hlt : ByteOrder.ofBytes bs < 2 ^ 32 := by
    have hpow := ByteOrder.ofBytes_lt bs
    rw [h] at hpow
    norm_num at hpow ⊢
    exact hpow
  unfold bytes word
  rw [List.take_of_length_le (le_of_eq h), BitVec.toNat_ofNat, Nat.mod_eq_of_lt hlt]
  conv_lhs => rw [← h]
  exact toBytes_ofBytes bs

/-- Conversion turns the bytes round. -/
@[simp] theorem bytes_htonl (w : BitVec 32) : bytes (htonl w) = (bytes w).reverse := by
  apply bytes_word
  simp

/-- Conversion undoes itself. -/
@[simp] theorem htonl_htonl (w : BitVec 32) : htonl (htonl w) = w := by
  rw [htonl, bytes_htonl, List.reverse_reverse, word_bytes]

/-! ## Byte strings -/

/-- The words of a byte string that begins with a word. -/
@[simp] theorem words_bytes_append (w : BitVec 32) (rest : List UInt8) :
    words (bytes w ++ rest) = w :: words rest := by
  obtain ⟨b₀, b₁, b₂, b₃, hw⟩ := exists_bytes w
  have hword := word_bytes w
  rw [hw] at hword ⊢
  simp [words, hword]

/-- Words are read back from their bytes. -/
@[simp] theorem words_flatMap_bytes (ws : List (BitVec 32)) : words (ws.flatMap bytes) = ws := by
  induction ws with
  | nil => rfl
  | cons w ws ih => simp [ih]

/-- The word at a place in the bytes of some words. -/
theorem word_drop_flatMap {ws : List (BitVec 32)} {i : ℕ} {w : BitVec 32} (h : ws[i]? = some w) :
    word ((ws.flatMap bytes).drop (4 * i)) = w := by
  induction ws generalizing i with
  | nil => cases h
  | cons w' ws ih =>
      rw [List.flatMap_cons]
      cases i with
      | zero =>
          cases h
          exact word_bytes_append w _
      | succ i =>
          rw [Nat.mul_succ, Nat.add_comm, drop_bytes_append]
          exact ih h

/-- Words are four bytes long each. -/
@[simp] theorem length_flatMap_bytes (ws : List (BitVec 32)) :
    (ws.flatMap bytes).length = 4 * ws.length := by
  induction ws with
  | nil => rfl
  | cons w ws ih =>
      simp [ih]
      omega

/-- A byte string that begins with a word is converted there first. -/
@[simp] theorem convert_bytes_append (w : BitVec 32) (rest : List UInt8) :
    convert (bytes w ++ rest) = bytes (htonl w) ++ convert rest := by
  obtain ⟨b₀, b₁, b₂, b₃, hw⟩ := exists_bytes w
  have hword := word_bytes w
  rw [hw] at hword ⊢
  simp [convert, hword]

/-- Conversion leaves every byte string as long as it was. -/
@[simp] theorem length_convert (bs : List UInt8) : (convert bs).length = bs.length := by
  induction bs using convert.induct with
  | case1 b₀ b₁ b₂ b₃ rest ih =>
      simp [convert, ih]
      omega
  | case2 rest hrest => rw [convert]; exact hrest

/-- Conversion to network order and back. -/
@[simp] theorem convert_convert (bs : List UInt8) : convert (convert bs) = bs := by
  induction bs using convert.induct with
  | case1 b₀ b₁ b₂ b₃ rest ih =>
      have hfour : bytes (word [b₀, b₁, b₂, b₃]) = [b₀, b₁, b₂, b₃] := bytes_word rfl
      rw [convert, convert_bytes_append, htonl_htonl, hfour, ih]
      rfl
  | case2 rest hrest =>
      have hsame : convert rest = rest := by
        rw [convert]
        exact hrest
      rw [hsame, hsame]

end WordBytes
