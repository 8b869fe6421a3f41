import Mathlib.Data.List.AList
import Mathlib.Data.List.Forall2
import Mathlib.Data.List.TakeWhile
import Mathlib.Data.Nat.Digits.Lemmas
import Mathlib.Data.Vector.Basic
import DesktopSync.Computation.Utf

/-!
# What the executable and its libraries share

The enumerations and the configuration record of `shared.hpp`, the tray callback as
a list of reports, the integer casts of the build (x64, `int` of 32 bits), and the two
text conversions of `common.cpp`.
-/

set_option autoImplicit false

namespace DesktopSync.Model

/-- `std::wstring`: UTF-16 units. -/
abbrev WString := List UInt16

/-- A narrow text as wide units. -/
def wide (s : String) : WString := Utf.utf16Encode s.toList

/-- SOURCE: shared.hpp:8-16 -/
inductive TrayState where
  | disconnected
  | connectedIdle
  | uploading
  | downloading
  | error
  | completed
  deriving DecidableEq

/-- SOURCE: shared.hpp:24-30 -/
inductive ChangeType where
  | add
  | update
  | delete
  | rename
  deriving DecidableEq

/-- `static_cast<uint16_t>` of a change type. -/
def ChangeType.toUInt16 : ChangeType → UInt16
  | .add => 0
  | .update => 1
  | .delete => 2
  | .rename => 3

/-- The configuration the synchronisation reads; the layout it never looks at is left
out.
SOURCE: shared.hpp:54-62 -/
structure IniState where
  desktopPath : WString
  targetDir : WString
  iniPath : WString
  lastSync : UInt64

/-- One call of the tray callback. -/
structure TrayReport where
  state : TrayState
  cur : UInt64
  total : UInt64
  err : String
  deriving DecidableEq

/-- How a function that returns a `bool` ends: with the value, or by an exception that
it does not handle. -/
inductive CallResult where
  | returned (value : Bool)
  | threw
  deriving DecidableEq

/-- What `%llu` and `%llx` store: a minus sign negates, and a number that is out of range is
stored as the largest value. -/
def ull (negative : Bool) (value : ℕ) : UInt64 :=
  if 2 ^ 64 ≤ value then UInt64.ofNat (2 ^ 64 - 1)
  else if negative then -UInt64.ofNat value
  else UInt64.ofNat value

theorem ull_toNat (v : UInt64) : ull false v.toNat = v := by
  rw [ull, if_neg (not_le.mpr v.toNat_lt), if_neg Bool.false_ne_true, UInt64.ofNat_toNat]

/-- `UDT::ERROR` -/
def udtError : ℤ := -1

/-- `static_cast<int>` of a `size_t`: the low 32 bits in two's complement. -/
def toInt (n : ℕ) : ℤ :=
  if n % 2 ^ 32 < 2 ^ 31 then (n % 2 ^ 32 : ℕ) else (n % 2 ^ 32 : ℕ) - 2 ^ 32

/-- A length below `2^31` casts to itself. -/
theorem toInt_eq_self {n : ℕ} (h : n < 2 ^ 31) : toInt n = n := by
  have hmod : n % 2 ^ 32 = n := Nat.mod_eq_of_lt (by omega)
  rw [toInt, hmod, if_pos h]

/-- A positive cast is the length modulo `2^32`, below `2^31`. -/
theorem toInt_pos {n : ℕ} (h : 0 < toInt n) :
    (toInt n).toNat = n % 2 ^ 32 ∧ n % 2 ^ 32 < 2 ^ 31 := by
  unfold toInt at h ⊢
  split at h
  · next hlt => exact ⟨by rw [if_pos hlt, Int.toNat_natCast], hlt⟩
  · omega

/-- The cast of an integer is its residue. -/
theorem toNat_ofInt_eq (n : ℤ) : (UInt64.ofInt n).toNat = (n % 2 ^ 64).toNat := by
  have hlt : (n % 2 ^ 64).toNat < 2 ^ 64 := by omega
  exact UInt64.toNat_ofNat_of_lt' hlt

/-- `static_cast<uint64_t>` of a value that fits. -/
theorem toNat_ofInt {n : ℤ} (hpos : 0 ≤ n) (hlt : n < 2 ^ 64) :
    (UInt64.ofInt n).toNat = n.toNat := by
  rw [toNat_ofInt_eq, Int.emod_eq_of_lt hpos hlt]

/-- `MultiByteToWideChar(CP_UTF8, 0, s, -1, ..)`: the units of a NUL-terminated byte
string, their terminator included. -/
def multiByteToWideChar (s : List UInt8) : WString :=
  Utf.utf16Encode (Utf.utf8Decode (s.takeWhile (· ≠ 0))) ++ [0]

/-- `WideCharToMultiByte(CP_UTF8, 0, ws, -1, ..)`: the bytes of a NUL-terminated wide
string, their terminator included. -/
def wideCharToMultiByte (ws : WString) : List UInt8 :=
  Utf.utf8Encode (Utf.utf16Decode (ws.takeWhile (· ≠ 0))) ++ [0]

/-- SOURCE: common.cpp:8-16 -/
def utf8ToWide (s : List UInt8) : WString :=
  if s = [] then []
  else
    let ws := multiByteToWideChar s
    if ws ≠ [] ∧ ws.getLast? = some 0 then ws.dropLast else ws

/-- SOURCE: common.cpp:18-26 -/
def wideToUtf8 (ws : WString) : List UInt8 :=
  if ws = [] then []
  else
    let s := wideCharToMultiByte ws
    if s ≠ [] ∧ s.getLast? = some 0 then s.dropLast else s

/-- `utf8ToWide` reads the bytes before the first NUL. -/
theorem utf8ToWide_eq (s : List UInt8) :
    utf8ToWide s = Utf.utf16Encode (Utf.utf8Decode (s.takeWhile (· ≠ 0))) := by
  unfold utf8ToWide multiByteToWideChar
  split
  · next h => subst h; rfl
  · simp

/-- `wideToUtf8` reads the units before the first NUL. -/
theorem wideToUtf8_eq (ws : WString) :
    wideToUtf8 ws = Utf.utf8Encode (Utf.utf16Decode (ws.takeWhile (· ≠ 0))) := by
  unfold wideToUtf8 wideCharToMultiByte
  split
  · next h => subst h; rfl
  · simp

/-- The conversion makes at most two units of a byte. -/
theorem length_utf8ToWide_le (s : List UInt8) : (utf8ToWide s).length ≤ 2 * s.length := by
  have hchars := Utf.length_utf8DecodeFrom_le none (s.takeWhile (· ≠ 0))
  have hunits := Utf.length_utf16Encode_le (Utf.utf8Decode (s.takeWhile (· ≠ 0)))
  have hbytes := (List.takeWhile_sublist (· ≠ 0) (l := s)).length_le
  simp only [Option.isSome_none, Bool.false_eq_true, if_false] at hchars
  rw [utf8ToWide_eq]
  unfold Utf.utf8Decode at hunits ⊢
  omega

/-- The part of a list before a value that does not occur is the list. -/
theorem takeWhile_ne_of_not_mem {α : Type} [DecidableEq α] {x : α} {l : List α} (h : x ∉ l) :
    l.takeWhile (· ≠ x) = l := by
  rw [List.takeWhile_eq_self_iff]
  intro y hy
  simp only [ne_eq, decide_not, Bool.not_eq_true', decide_eq_false_iff_not]
  rintro rfl
  exact h hy

/-- A name without NUL comes back from UTF-8 with its unpaired surrogates replaced. -/
theorem utf8ToWide_wideToUtf8_repair {ws : WString} (hnul : 0 ∉ ws) :
    utf8ToWide (wideToUtf8 ws) = Utf.repair ws := by
  rw [wideToUtf8_eq, takeWhile_ne_of_not_mem hnul, utf8ToWide_eq,
    takeWhile_ne_of_not_mem (Utf.zero_not_mem_utf8 hnul), Utf.utf8Decode_encode,
    Utf.utf16Encode_decode]

/-- A well-formed one comes back as it was. -/
theorem utf8ToWide_wideToUtf8 (ws : WString) (hwf : Utf.WellFormed ws) (hnul : 0 ∉ ws) :
    utf8ToWide (wideToUtf8 ws) = ws := by
  rw [utf8ToWide_wideToUtf8_repair hnul, Utf.repair_of_wellFormed hwf]

end DesktopSync.Model
