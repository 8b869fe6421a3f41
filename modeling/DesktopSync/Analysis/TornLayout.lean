import DesktopSync.Analysis.LayoutOrder

/-!
# A layout file that is malformed

The four variables of a `cell` record hold anything until they are read into, and the
extractions stop at the first that fails: its variable is set to zero, or untouched at the
end of the text, and the later ones are untouched. The record is used all the same. So the
loop goes by such a value where a record breaks off before its place in the grid is known
to be outside, and stores it where only the place was read.
-/

set_option autoImplicit false

namespace DesktopSync.Analysis

open DesktopSync.Model
open Decimal TextStream

/-! ## The passes of the loop -/

/-- What one pass of the loop begins with: the layout so far, the key, and the text behind
the key. -/
structure Pass where
  layout : DesktopLayout
  key : List Char
  behind : List Char

/-- The passes that `readLayout` makes. -/
def passes (real : Reading) (junk : CellLine) (layout : DesktopLayout) (ifs : Stream) : List Pass :=
  match _ : ifs.word with
  | none => []
  | some (key, rest) =>
      let line := layoutLine real junk key layout (some rest)
      ⟨layout, key, rest⟩ :: passes real junk line.1 line.2
termination_by ifs.size
decreasing_by exact lt_of_le_of_lt (size_layoutLine_le _ _ _ _ _) (Stream.size_word_lt ‹_›)

/-- The layout after the pass. -/
def Pass.after (real : Reading) (junk : CellLine) (p : Pass) : DesktopLayout :=
  (layoutLine real junk p.key p.layout (some p.behind)).1

/-- The loop is its passes. -/
theorem readLayout_eq_foldl (real : Reading) (junk : CellLine) (layout : DesktopLayout)
    (ifs : Stream) : readLayout real junk layout ifs = (passes real junk layout ifs).foldl
      (fun layout p => (layoutLine real junk p.key layout (some p.behind)).1) layout := by
  fun_induction passes real junk layout ifs with
  | case1 layout ifs hword => exact readLayout_of_none hword
  | case2 layout ifs key rest hword line ih =>
      rw [readLayout_of_some hword, List.foldl_cons]
      exact ih

/-- What `TryLoadLayoutTxt` leaves is what its passes leave. -/
theorem tryLoadLayoutTxt_passes (real : Reading) (junk : CellLine) (layout : DesktopLayout)
    (bytes : List UInt8) :
    (tryLoadLayoutTxt real junk (some bytes) layout).2 =
      (passes real junk layout (some (fileText bytes))).foldl
        (fun layout p => (layoutLine real junk p.key layout (some p.behind)).1) layout :=
  readLayout_eq_foldl real junk layout _

/-- It makes no more passes than the stream is long. -/
theorem length_passes_le (real : Reading) (junk : CellLine) (layout : DesktopLayout)
    (ifs : Stream) : (passes real junk layout ifs).length ≤ ifs.size := by
  fun_induction passes real junk layout ifs with
  | case1 layout ifs hword => exact Nat.zero_le _
  | case2 layout ifs key rest hword line ih =>
      have hline : line.2.size ≤ Stream.size (some rest) :=
        size_layoutLine_le real junk key layout _
      have hword := Stream.size_word_lt hword
      rw [List.length_cons]
      omega

/-- With a key there is a first pass, and the others follow. -/
theorem passes_of_some {real : Reading} {junk : CellLine} {layout : DesktopLayout} {ifs : Stream}
    {key behind : List Char} (h : ifs.word = some (key, behind)) :
    passes real junk layout ifs = ⟨layout, key, behind⟩ ::
      passes real junk (layoutLine real junk key layout (some behind)).1
        (layoutLine real junk key layout (some behind)).2 := by
  rw [passes]
  split
  · next hnone =>
      rw [h] at hnone
      cases hnone
  · next hsome =>
      rw [h] at hsome
      obtain ⟨rfl, rfl⟩ := Prod.mk.inj (Option.some.inj hsome)
      rfl

/-! ## The four variables of a `cell` record -/

/-- The four variables after the extractions, each with the stream it left.
SOURCE: config_dll.cpp:106-107 -/
structure CellRead where
  i : Int32 × Stream
  j : Int32 × Stream
  x : Int32 × Stream
  y : Int32 × Stream

/-- What a `cell` line reads. -/
def readCell (junk : CellLine) (ifs : Stream) : CellRead :=
  let i := ifs.extract scanLong junk.i
  let j := i.2.extract scanLong junk.j
  let x := j.2.extract scanLong junk.x
  let y := x.2.extract scanLong junk.y
  ⟨i, j, x, y⟩

/-- The variable was obtained from an extraction that succeeded. -/
def Parsed (v : Int32 × Stream) : Prop := v.2.isSome = true

/-- The variable is an index into the grid. -/
def Index (v : Int32 × Stream) : Prop := 0 ≤ v.1 ∧ v.1 < 3

/-- All four integers of the record were parsed. -/
structure Whole (r : CellRead) : Prop where
  i : Parsed r.i
  j : Parsed r.j
  x : Parsed r.x
  y : Parsed r.y

/-- Every variable that the condition of the record tests, and every one that its branch
stores, has been parsed. `&&` does not test `j` where `i` is outside.
SOURCE: config_dll.cpp:108-116 -/
@[mk_iff]
structure Sound (r : CellRead) : Prop where
  i : Parsed r.i
  j : Index r.i → Parsed r.j
  x : Index r.i → Index r.j → Parsed r.x
  y : Index r.i → Index r.j → Parsed r.y

/-- Nothing indeterminate gets out of the loop over the file: what its passes test and
store has been parsed, cells change only by records that were parsed, and it ends. -/
structure NoLeak (real : Reading) (junk : CellLine) (layout : DesktopLayout)
    (bytes : List UInt8) : Prop where
  sound : ∀ p ∈ passes real junk layout (some (fileText bytes)), p.key = "cell".toList →
    Sound (readCell junk (some p.behind))
  changed : ∀ p ∈ passes real junk layout (some (fileText bytes)),
    (p.after real junk).cells ≠ p.layout.cells →
      p.key = "cell".toList ∧ Whole (readCell junk (some p.behind))
  ends : (passes real junk layout (some (fileText bytes))).length ≤ bytes.length + 1

/-- What a `cell` record does, by its four variables. -/
theorem layoutLine_cell (real : Reading) (junk : CellLine) (layout : DesktopLayout) (ifs : Stream) :
    layoutLine real junk "cell".toList layout ifs =
      let r := readCell junk ifs
      if 0 ≤ r.i.1 ∧ r.i.1 < 3 ∧ 0 ≤ r.j.1 ∧ r.j.1 < 3 then
        ({ layout with cells := setCell layout.cells r.j.1 r.i.1 ⟨r.x.1, r.y.1,
            r.x.1 + castInt layout.gridW, r.y.1 + castInt layout.gridH⟩ }, r.y.2)
      else (layout, r.y.2) := by
  have hkey : ∀ other ∈ ["max_icon", "corner_min", "corner_max", "grid_cell"],
      ¬"cell".toList = other.toList := by
    decide
  simp only [List.mem_cons, List.not_mem_nil, or_false, forall_eq_or_imp, forall_eq] at hkey
  obtain ⟨hicon, hmin, hmax, hgrid⟩ := hkey
  unfold layoutLine
  rw [if_neg hicon, if_neg hmin, if_neg hmax, if_neg hgrid, if_pos rfl]
  rfl

/-- A record of another kind leaves the cells as they are. -/
theorem cells_layoutLine {real : Reading} {junk : CellLine} {key : List Char}
    (hkey : key ≠ "cell".toList) (layout : DesktopLayout) (ifs : Stream) :
    (layoutLine real junk key layout ifs).1.cells = layout.cells := by
  unfold layoutLine
  rw [if_neg hkey]
  split_ifs <;> rfl

/-- Where every record is sound, cells change by parsed records only. -/
theorem whole_of_changed {real : Reading} {junk : CellLine} {p : Pass}
    (hsound : p.key = "cell".toList → Sound (readCell junk (some p.behind)))
    (hchanged : (p.after real junk).cells ≠ p.layout.cells) :
    p.key = "cell".toList ∧ Whole (readCell junk (some p.behind)) := by
  have hkey : p.key = "cell".toList := by
    by_contra hne
    exact hchanged (cells_layoutLine hne p.layout _)
  unfold Pass.after at hchanged
  rw [hkey, layoutLine_cell] at hchanged
  simp only at hchanged
  split at hchanged
  · next hin =>
      have hi : Index (readCell junk (some p.behind)).i := ⟨hin.1, hin.2.1⟩
      have hj : Index (readCell junk (some p.behind)).j := hin.2.2
      exact ⟨hkey, (hsound hkey).i, (hsound hkey).j hi, (hsound hkey).x hi hj,
        (hsound hkey).y hi hj⟩
  · exact absurd rfl hchanged

/-! ## Records that break off -/

/-- Integers read one after the other, `n` at most, up to the first that fails. -/
def longs : ℕ → Stream → List Int32
  | 0, _ => []
  | n + 1, ifs =>
      match ifs.extract scanLong 0 with
      | (_, none) => []
      | (v, some rest) => v :: longs n (some rest)

/-- The stream after `n` values. -/
def afterValues {α : Type} [Zero α] (scan : List Char → α × Stream) : ℕ → Stream → Stream
  | 0, ifs => ifs
  | n + 1, ifs => afterValues scan n (ifs.extract scan 0).2

/-- The stream behind a record; an unknown word has no values. -/
def afterRecord (real : Reading) (key : List Char) (behind : List Char) : Stream :=
  if key = "max_icon".toList ∨ key = "corner_min".toList ∨ key = "corner_max".toList then
    afterValues scanLong 2 (some behind)
  else if key = "grid_cell".toList then afterValues (scanDouble real) 2 (some behind)
  else if key = "cell".toList then afterValues scanLong 4 (some behind)
  else some behind

/-- What is left of a text behind some whole records and unknown words. -/
inductive ComesTo (real : Reading) : List Char → List Char → Prop where
  | refl (text : List Char) : ComesTo real text text
  | record {text key behind next rest : List Char}
      (hword : Stream.word (some text) = some (key, behind))
      (hvalues : afterRecord real key behind = some next) (hrest : ComesTo real next rest) :
      ComesTo real text rest

/-- Behind the key `cell` stand fewer than four integers that can be read, and the first
two of those that can are indices into the grid. -/
def Torn (behind : List Char) : Prop :=
  (longs 4 (some behind)).length < 4 ∧ ∀ n ∈ (longs 4 (some behind)).take 2, 0 ≤ n ∧ n < 3

/-- A record leaves the stream behind its numbers. -/
theorem layoutLine_snd (real : Reading) (junk : CellLine) (key behind : List Char)
    (layout : DesktopLayout) :
    (layoutLine real junk key layout (some behind)).2 = afterRecord real key behind := by
  have hlong : ∀ (old : Int32) (s : Stream),
      (s.extract scanLong old).2 = (s.extract scanLong 0).2 :=
    fun old s => Stream.snd_extract scanLong old 0 s
  have hdouble : ∀ (old : ℚ) (s : Stream),
      (s.extract (scanDouble real) old).2 = (s.extract (scanDouble real) 0).2 :=
    fun old s => Stream.snd_extract (scanDouble real) old 0 s
  by_cases hpair : key = "max_icon".toList ∨ key = "corner_min".toList ∨ key = "corner_max".toList
  · rcases hpair with rfl | rfl | rfl
    · simp [layoutLine, afterRecord, afterValues, hlong]
    · simp [layoutLine, afterRecord, afterValues, hlong]
    · simp [layoutLine, afterRecord, afterValues, hlong]
  · unfold afterRecord
    rw [if_neg hpair]
    rw [not_or, not_or] at hpair
    by_cases hgrid : key = "grid_cell".toList
    · simp [layoutLine, hgrid, afterValues, hdouble]
    · rw [if_neg hgrid]
      by_cases hcell : key = "cell".toList
      · rw [if_pos hcell, hcell, layoutLine_cell]
        simp only [apply_ite Prod.snd, ite_self, readCell, afterValues, hlong]
      · rw [if_neg hcell]
        unfold layoutLine
        rw [if_neg hpair.1, if_neg hpair.2.1, if_neg hpair.2.2, if_neg hgrid, if_neg hcell]

/-- Where an integer is missing there are no further ones. -/
theorem longs_of_none {n : ℕ} {ifs : Stream} {old : Int32}
    (h : (ifs.extract scanLong old).2 = none) : longs (n + 1) ifs = [] := by
  rw [Stream.snd_extract scanLong old 0] at h
  unfold longs
  split
  · rfl
  · next heq =>
      rw [heq] at h
      cases h

/-- An integer, and those behind it. -/
theorem longs_of_some {n : ℕ} {ifs : Stream} {old v : Int32} {rest : List Char}
    (h : ifs.extract scanLong old = (v, some rest)) :
    longs (n + 1) ifs = v :: longs n (some rest) := by
  rw [longs, Stream.extract_of_some h 0]

/-- A `cell` record is sound if and only if it does not break off in the grid. -/
theorem sound_readCell_iff (junk : CellLine) (behind : List Char) :
    Sound (readCell junk (some behind)) ↔ ¬Torn behind := by
  rw [sound_iff]
  unfold Torn readCell Parsed Index
  rcases hi : Stream.extract scanLong junk.i (some behind) with ⟨i, _ | t₁⟩
  · rw [longs_of_none (congrArg Prod.snd hi)]
    simp
  · rw [longs_of_some hi]
    rcases hj : Stream.extract scanLong junk.j (some t₁) with ⟨j, _ | t₂⟩
    · rw [longs_of_none (congrArg Prod.snd hj)]
      simp only [hj, Stream.extract_none, Option.isSome_some, Option.isSome_none,
        Bool.false_eq_true, List.length_singleton, List.take_succ_cons, List.take_nil,
        List.mem_singleton, forall_eq]
      constructor
      · exact fun h hin => h.2.1 hin.2
      · exact fun h => ⟨trivial, fun hin => h ⟨by omega, hin⟩, fun hin => absurd ⟨by omega, hin⟩ h,
          fun hin => absurd ⟨by omega, hin⟩ h⟩
    · rw [longs_of_some hj]
      rcases hx : Stream.extract scanLong junk.x (some t₂) with ⟨x, _ | t₃⟩
      · rw [longs_of_none (congrArg Prod.snd hx)]
        simp [hj, hx, Stream.extract_none]
      · rw [longs_of_some hx]
        rcases hy : Stream.extract scanLong junk.y (some t₃) with ⟨y, _ | t₄⟩
        · rw [longs_of_none (congrArg Prod.snd hy)]
          simp [hj, hx, hy]
        · rw [longs_of_some hy]
          simp [hj, hx, hy, longs]

/-! ## Which files are read without a leak -/

/-- Every pass stands behind whole records. -/
theorem comesTo_of_mem_passes {real : Reading} {junk : CellLine} {layout : DesktopLayout}
    {ifs : Stream} {p : Pass}
    (h : p ∈ passes real junk layout ifs) : ∃ text rest, ifs = some text ∧ ComesTo real text rest ∧
      Stream.word (some rest) = some (p.key, p.behind) := by
  fun_induction passes real junk layout ifs with
  | case1 layout ifs hword => cases h
  | case2 layout ifs key behind hword line ih =>
      obtain ⟨text, rfl⟩ : ∃ text, ifs = some text := by
        cases ifs with
        | none => cases hword
        | some text => exact ⟨text, rfl⟩
      rcases List.mem_cons.mp h with rfl | h
      · exact ⟨text, text, rfl, .refl text, hword⟩
      · obtain ⟨next, rest, hnext, hrest, hkey⟩ := ih h
        have hvalues : afterRecord real key behind = some next :=
          (layoutLine_snd real junk key behind layout).symm.trans hnext
        exact ⟨text, rest, rfl, .record hword hvalues hrest, hkey⟩

/-- Behind whole records the loop makes a pass. -/
theorem exists_pass_of_comesTo {real : Reading} (junk : CellLine) {text rest key behind : List Char}
    (hrest : ComesTo real text rest) (hkey : Stream.word (some rest) = some (key, behind))
    (layout : DesktopLayout) :
    ∃ p ∈ passes real junk layout (some text), p.key = key ∧ p.behind = behind := by
  induction hrest generalizing layout with
  | refl text =>
      rw [passes_of_some hkey]
      exact ⟨_, List.mem_cons_self, rfl, rfl⟩
  | record hword hvalues _ ih =>
      rw [passes_of_some hword, layoutLine_snd, hvalues]
      obtain ⟨p, hp, hpass⟩ := ih hkey (layoutLine real junk _ layout (some _)).1
      exact ⟨p, List.mem_cons_of_mem _ hp, hpass⟩

/-- A file is read without a leak if and only if no `cell` record of it that comes behind
whole records breaks off in the grid, whatever the variables held before. -/
theorem noLeak_iff (real : Reading) (junk : CellLine) (layout : DesktopLayout)
    (bytes : List UInt8) :
    NoLeak real junk layout bytes ↔ ∀ rest behind, ComesTo real (fileText bytes) rest →
      Stream.word (some rest) = some ("cell".toList, behind) → ¬Torn behind := by
  constructor
  · intro h rest behind hrest hkey
    obtain ⟨p, hp, hpkey, rfl⟩ := exists_pass_of_comesTo junk hrest hkey layout
    exact (sound_readCell_iff junk p.behind).mp (h.sound p hp hpkey)
  · intro h
    have hsound : ∀ p ∈ passes real junk layout (some (fileText bytes)), p.key = "cell".toList →
        Sound (readCell junk (some p.behind)) := by
      intro p hp hpkey
      obtain ⟨text, rest, htext, hrest, hkey⟩ := comesTo_of_mem_passes hp
      rw [← Option.some.inj htext] at hrest
      rw [hpkey] at hkey
      exact (sound_readCell_iff junk p.behind).mpr (h rest p.behind hrest hkey)
    refine ⟨hsound, fun p hp => whole_of_changed (hsound p hp), ?_⟩
    have hlength : (fileText bytes).length ≤ bytes.length := by
      unfold fileText
      rw [List.length_map]
      exact (List.takeWhile_prefix _).length_le
    exact (length_passes_le real junk layout _).trans (Nat.succ_le_succ hlength)

/-- The text ends where the coordinates should be. -/
def tornText : List UInt8 := "cell 0 0 5".toList.map fun c => UInt8.ofNat c.toNat

/-- A record that breaks off stores what its variable held. -/
theorem not_noLeak : ¬∀ junk layout bytes, NoLeak Binary64.reading junk layout bytes := by
  intro h
  have hkey : Stream.word (some (fileText tornText)) = some ("cell".toList, " 0 0 5".toList) := by
    decide +kernel
  obtain ⟨p, hp, hpkey, hbehind⟩ := exists_pass_of_comesTo ⟨0, 0, 0, 0⟩ (.refl _) hkey {}
  have hsound := (h ⟨0, 0, 0, 0⟩ {} tornText).sound p hp hpkey
  rw [hbehind, sound_readCell_iff] at hsound
  have hlongs : longs 4 (some " 0 0 5".toList) = [0, 0, 5] := by decide +kernel
  unfold Torn at hsound
  rw [hlongs] at hsound
  refine hsound ⟨by decide, fun n hn => ?_⟩
  have hzero : n = 0 := by simpa using hn
  rw [hzero]
  decide

end DesktopSync.Analysis
