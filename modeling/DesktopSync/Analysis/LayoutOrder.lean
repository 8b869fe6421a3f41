import Mathlib.Data.List.Perm.Basic
import Mathlib.Data.Set.List
import DesktopSync.Model.Config

/-!
# The order of the records in `desktop_layout.txt`

A file that is made of well-formed records does to the layout what its records do, one
after the other. Each kind of record sets a part of its own; only a cell reads another
part, the grid, for its far edges. So the order is free but for the cells that stand
before the grid: they are as large as the grid was before the file was read. `LoadFromIni`
reads the grid first.
-/

set_option autoImplicit false

namespace DesktopSync.Analysis

open DesktopSync.Model
open Decimal TextStream

/-! ## Records -/

/-- A record of the file, with its numbers as the program reads them. -/
inductive LayoutRecord where
  | maxIcon (w h : Int32)
  | cornerMin (x y : Int32)
  | cornerMax (x y : Int32)
  | gridCell (w h : ℚ)
  | cell (i j x y : Int32)
  deriving DecidableEq

/-- A file has one record of each kind at most. -/
inductive RecordKind where
  | maxIcon
  | cornerMin
  | cornerMax
  | gridCell
  | cell (i j : Int32)
  deriving DecidableEq

/-- What kind of record it is; a cell is one of its own for each index pair. -/
def LayoutRecord.kind : LayoutRecord → RecordKind
  | .maxIcon _ _ => .maxIcon
  | .cornerMin _ _ => .cornerMin
  | .cornerMax _ _ => .cornerMax
  | .gridCell _ _ => .gridCell
  | .cell i j _ _ => .cell i j

/-- What a record does to a layout, where cells are `cellW` by `cellH`. -/
def putSized (cellW cellH : Int32) (layout : DesktopLayout) : LayoutRecord → DesktopLayout
  | .maxIcon w h => { layout with screenW := w, screenH := h }
  | .cornerMin x y => { layout with cornerMin := ⟨x, y⟩ }
  | .cornerMax x y => { layout with cornerMax := ⟨x, y⟩ }
  | .gridCell w h => { layout with gridW := w, gridH := h }
  | .cell i j x y =>
      { layout with cells := setCell layout.cells j i ⟨x, y, x + cellW, y + cellH⟩ }

/-- What a record does to a layout: its cells are as large as the grid is by then. -/
def put (layout : DesktopLayout) (r : LayoutRecord) : DesktopLayout :=
  putSized (castInt layout.gridW) (castInt layout.gridH) layout r

/-- The words of a record: its key, and numbers that end where the word ends. -/
inductive Spells (real : Reading) : List (List Char) → LayoutRecord → Prop where
  | maxIcon {a b : List Char} {w h : Int32} (ha : scanLong a = (w, some []))
      (hb : scanLong b = (h, some [])) : Spells real ["max_icon".toList, a, b] (.maxIcon w h)
  | cornerMin {a b : List Char} {x y : Int32} (ha : scanLong a = (x, some []))
      (hb : scanLong b = (y, some [])) : Spells real ["corner_min".toList, a, b] (.cornerMin x y)
  | cornerMax {a b : List Char} {x y : Int32} (ha : scanLong a = (x, some []))
      (hb : scanLong b = (y, some [])) : Spells real ["corner_max".toList, a, b] (.cornerMax x y)
  | gridCell {a b : List Char} {w h : ℚ} (ha : scanDouble real a = (w, some []))
      (hb : scanDouble real b = (h, some [])) :
      Spells real ["grid_cell".toList, a, b] (.gridCell w h)
  | cell {a b c d : List Char} {i j x y : Int32} (ha : scanLong a = (i, some []))
      (hb : scanLong b = (j, some [])) (hc : scanLong c = (x, some []))
      (hd : scanLong d = (y, some [])) : Spells real ["cell".toList, a, b, c, d] (.cell i j x y)

/-- The file is made of these records, in this order. -/
def Spelled (real : Reading) (bytes : List UInt8) (records : List LayoutRecord) : Prop :=
  ∃ spellings, List.Forall₂ (Spells real) spellings records ∧
    words (fileText bytes) = spellings.flatten

/-! ## A file does what its records do -/

/-- An integer that is read to the end of its word is read so in any text. -/
theorem delimited_scanLong : Delimited scanLong := by
  intro word rest v hrest h
  have hscan := scanInt_ends word hrest
  unfold scanLong at h ⊢
  cases hword : scanInt word with
  | mk value behind =>
      rw [hword] at h hscan
      rw [hscan]
      cases value with
      | none => cases (Prod.mk.inj h).2
      | some n =>
          simp only at h ⊢
          obtain ⟨rfl, hstream⟩ := Prod.mk.inj h
          obtain ⟨hrange, hbehind⟩ := Option.ite_none_right_eq_some.mp hstream
          rw [Option.some.injEq] at hbehind
          rw [if_pos hrange, hbehind, List.nil_append]

/-- A number that is read to the end of its word is read so in any text. -/
theorem delimited_scanDouble (real : Reading) : Delimited (scanDouble real) := by
  intro word rest v hrest h
  have hscan := scanRat_ends word hrest
  unfold scanDouble at h ⊢
  cases hword : scanRat word with
  | mk value behind =>
      rw [hword] at h hscan
      rw [hscan]
      cases value with
      | none => cases (Prod.mk.inj h).2
      | some q =>
          obtain ⟨rfl, hstream⟩ := Prod.mk.inj h
          obtain ⟨hread, hbehind⟩ := Option.ite_none_right_eq_some.mp hstream
          rw [Option.some.injEq] at hbehind
          simp only
          rw [if_pos hread, hbehind, List.nil_append]

/-- Outside of the grid nothing is set. -/
theorem setCell_of_out (cells : Fin 3 → Fin 3 → Rect) {i j : Int32} (r : Rect)
    (h : ¬(0 ≤ i ∧ i < 3 ∧ 0 ≤ j ∧ j < 3)) : setCell cells j i r = cells := by
  have h3 : (3 : Int32).toInt = 3 := by decide
  funext j' i'
  unfold setCell
  rw [if_neg]
  rintro ⟨hj, hi⟩
  have hj' := j'.isLt
  have hi' := i'.isLt
  apply h
  rw [Int32.le_iff_toInt_le, Int32.le_iff_toInt_le, Int32.lt_iff_toInt_lt, Int32.lt_iff_toInt_lt,
    Int32.toInt_zero, h3]
  omega

/-- One pass of the loop over the words of a record. -/
theorem layoutLine_spells {real : Reading} (junk : CellLine) (layout : DesktopLayout)
    {spelling : List (List Char)} {r : LayoutRecord} (h : Spells real spelling r)
    {text : List Char} {others : List (List Char)} (htext : words text = spelling ++ others) :
    ∃ key behind rest, Stream.word (some text) = some (key, behind) ∧
      layoutLine real junk key layout (some behind) = (put layout r, some rest) ∧
        words rest = others := by
  obtain ⟨key, values, rfl⟩ : ∃ key values, spelling = key :: values := by
    cases h with
    | _ => exact ⟨_, _, rfl⟩
  obtain ⟨behind, hkey, hvalues⟩ := word_of_words_cons htext
  cases h with
  | maxIcon ha hb =>
      obtain ⟨t, rest, hx, hy, hrest⟩ :=
        extract_two delimited_scanLong hvalues ha hb layout.screenW layout.screenH
      refine ⟨_, behind, rest, hkey, ?_, hrest⟩
      simp [layoutLine, hx, hy, put, putSized]
  | cornerMin ha hb =>
      obtain ⟨t, rest, hx, hy, hrest⟩ :=
        extract_two delimited_scanLong hvalues ha hb layout.cornerMin.x layout.cornerMin.y
      refine ⟨_, behind, rest, hkey, ?_, hrest⟩
      simp [layoutLine, hx, hy, put, putSized]
  | cornerMax ha hb =>
      obtain ⟨t, rest, hx, hy, hrest⟩ :=
        extract_two delimited_scanLong hvalues ha hb layout.cornerMax.x layout.cornerMax.y
      refine ⟨_, behind, rest, hkey, ?_, hrest⟩
      simp [layoutLine, hx, hy, put, putSized]
  | gridCell ha hb =>
      obtain ⟨t, rest, hx, hy, hrest⟩ :=
        extract_two (delimited_scanDouble real) hvalues ha hb layout.gridW layout.gridH
      refine ⟨_, behind, rest, hkey, ?_, hrest⟩
      simp [layoutLine, hx, hy, put, putSized]
  | @cell _ _ _ _ i j x y ha hb hc hd =>
      obtain ⟨t, mid, hi, hj, hvalues⟩ :=
        extract_two delimited_scanLong hvalues ha hb junk.i junk.j
      obtain ⟨t', rest, hx, hy, hrest⟩ :=
        extract_two delimited_scanLong hvalues hc hd junk.x junk.y
      refine ⟨_, behind, rest, hkey, ?_, hrest⟩
      by_cases hin : 0 ≤ i ∧ i < 3 ∧ 0 ≤ j ∧ j < 3
      · simp [layoutLine, hi, hj, hx, hy, hin, put, putSized]
      · have hsame := fun r => setCell_of_out layout.cells r hin
        simp [layoutLine, hi, hj, hx, hy, hin, put, putSized, hsame]

/-- The loop ends where there is no further key. -/
theorem readLayout_of_none {real : Reading} {junk : CellLine} {layout : DesktopLayout}
    {ifs : Stream} (h : ifs.word = none) : readLayout real junk layout ifs = layout := by
  rw [readLayout]
  split
  · rfl
  · next hsome =>
      rw [h] at hsome
      cases hsome

/-- With a key the loop takes one more pass. -/
theorem readLayout_of_some {real : Reading} {junk : CellLine} {layout : DesktopLayout}
    {ifs : Stream} {key behind : List Char} (h : ifs.word = some (key, behind)) :
    readLayout real junk layout ifs =
      readLayout real junk (layoutLine real junk key layout (some behind)).1
        (layoutLine real junk key layout (some behind)).2 := by
  rw [readLayout]
  split
  · next hnone =>
      rw [h] at hnone
      cases hnone
  · next hsome =>
      rw [h] at hsome
      obtain ⟨rfl, rfl⟩ := Prod.mk.inj (Option.some.inj hsome)
      rfl

/-- The loop does what the records do, one after the other. -/
theorem readLayout_spelled {real : Reading} (junk : CellLine) {spellings : List (List (List Char))}
    {records : List LayoutRecord} (h : List.Forall₂ (Spells real) spellings records)
    (layout : DesktopLayout) {text : List Char} (htext : words text = spellings.flatten) :
    readLayout real junk layout (some text) = records.foldl put layout := by
  induction h generalizing layout text with
  | nil => exact readLayout_of_none (word_of_words htext)
  | cons hspells _ ih =>
      rw [List.flatten_cons] at htext
      obtain ⟨key, behind, rest, hword, hline, hrest⟩ :=
        layoutLine_spells junk layout hspells htext
      rw [readLayout_of_some hword, hline]
      exact ih _ hrest

/-- A file does what its records do, one after the other. -/
theorem tryLoadLayoutTxt_spelled {real : Reading} (junk : CellLine) (layout : DesktopLayout)
    {bytes : List UInt8} {records : List LayoutRecord} (h : Spelled real bytes records) :
    tryLoadLayoutTxt real junk (some bytes) layout =
      (0 < (records.foldl put layout).screenW && 0 < (records.foldl put layout).screenH,
        records.foldl put layout) := by
  obtain ⟨spellings, hspells, hwords⟩ := h
  have hread := readLayout_spelled junk hspells layout hwords
  unfold tryLoadLayoutTxt
  simp only [hread]

/-! ## Records in another order -/

/-- Every character that is read comes from a byte that is not the end mark. -/
theorem exists_byte_of_mem_fileText {bytes : List UInt8} {c : Char} (h : c ∈ fileText bytes) :
    ∃ b : UInt8, b ≠ 0x1A ∧ Char.ofNat b.toNat = c := by
  obtain ⟨b, hb, rfl⟩ := List.mem_map.mp h
  have hpart : (b != 0x1A) = true := List.all_eq_true.mp List.all_takeWhile b hb
  exact ⟨b, bne_iff_ne.mp hpart, rfl⟩

/-- A text of such characters is what is read from some file. -/
theorem exists_fileText {text : List Char}
    (h : ∀ c ∈ text, ∃ b : UInt8, b ≠ 0x1A ∧ Char.ofNat b.toNat = c) :
    ∃ bytes, fileText bytes = text := by
  induction text with
  | nil => exact ⟨[], rfl⟩
  | cons c text ih =>
      obtain ⟨b, hb, rfl⟩ := h c List.mem_cons_self
      obtain ⟨bytes, rfl⟩ := ih fun c hc => h c (List.mem_cons_of_mem _ hc)
      refine ⟨b :: bytes, ?_⟩
      have hpart : (b != 0x1A) = true := bne_iff_ne.mpr hb
      unfold fileText
      simp [hpart]

/-- The same records in any order are the words of some file. -/
theorem spelled_perm {real : Reading} {bytes : List UInt8} {records records' : List LayoutRecord}
    (h : Spelled real bytes records) (hperm : records.Perm records') :
    ∃ bytes', Spelled real bytes' records' := by
  obtain ⟨spellings, hspells, hwords⟩ := h
  obtain ⟨spellings', hperm', hspells'⟩ :
      Relation.Comp List.Perm (List.Forall₂ (Spells real)) spellings records' := by
    rw [← List.forall₂_comp_perm_eq_perm_comp_forall₂]
    exact ⟨records, hspells, hperm⟩
  have hword : ∀ word ∈ spellings'.flatten, IsWord word ∧ ∀ c ∈ word, c ∈ fileText bytes := by
    intro word hmem
    rw [← hperm'.flatten.mem_iff, ← hwords] at hmem
    exact isWord_of_mem_words hmem
  have hchars : ∀ c ∈ joined spellings'.flatten,
      ∃ b : UInt8, b ≠ 0x1A ∧ Char.ofNat b.toNat = c := by
    intro c hc
    obtain ⟨word, hmem, hc⟩ := List.mem_flatMap.mp hc
    rcases List.mem_append.mp hc with hc | hc
    · exact exists_byte_of_mem_fileText ((hword word hmem).2 c hc)
    · exact ⟨32, by decide, (List.mem_singleton.mp hc).symm⟩
  obtain ⟨bytes', hbytes'⟩ := exists_fileText hchars
  refine ⟨bytes', spellings', hspells', ?_⟩
  rw [hbytes', words_joined fun word hmem => (hword word hmem).1]

/-- Two different cells can be set in either order. -/
theorem setCell_comm (cells : Fin 3 → Fin 3 → Rect) {i j i' j' : Int32} (r r' : Rect)
    (h : ¬(i = i' ∧ j = j')) :
    setCell (setCell cells j i r) j' i' r' = setCell (setCell cells j' i' r') j i r := by
  funext row column
  unfold setCell
  split_ifs with hnew hold
  · refine absurd ⟨?_, ?_⟩ h
    · rw [← Int32.toInt_inj, ← hold.2, hnew.2]
    · rw [← Int32.toInt_inj, ← hold.1, hnew.1]
  · rfl
  · rfl
  · rfl

/-- Records of two kinds set two parts of the layout. -/
theorem putSized_comm (cellW cellH : Int32) (layout : DesktopLayout) {r r' : LayoutRecord}
    (h : r.kind ≠ r'.kind) :
    putSized cellW cellH (putSized cellW cellH layout r) r' =
      putSized cellW cellH (putSized cellW cellH layout r') r := by
  cases r with
  | cell i j x y =>
      cases r' with
      | cell i' j' x' y' =>
          have hne : ¬(i = i' ∧ j = j') := by
            rintro ⟨rfl, rfl⟩
            exact h rfl
          unfold putSized
          simp only [setCell_comm layout.cells _ _ hne]
      | _ => rfl
  | _ =>
      cases r' with
      | _ => first | rfl | exact absurd rfl h

/-- With cells of one size the order of the records does not matter. -/
theorem foldl_putSized_perm (cellW cellH : Int32) (layout : DesktopLayout)
    {records records' : List LayoutRecord} (hkinds : (records.map LayoutRecord.kind).Nodup)
    (hperm : records.Perm records') :
    records.foldl (putSized cellW cellH) layout = records'.foldl (putSized cellW cellH) layout := by
  refine hperm.foldl_eq' (fun r hr r' hr' layout => ?_) layout
  by_cases hsame : r.kind = r'.kind
  · rw [List.inj_on_of_nodup_map hkinds hr hr' hsame]
  · exact putSized_comm cellW cellH layout hsame

/-! ## When the order is free -/

/-- The cell is one of the nine. -/
def InGrid (i j : Int32) : Prop := 0 ≤ i ∧ i < 3 ∧ 0 ≤ j ∧ j < 3

/-- Files of these records in any order, with any blanks and spellings, have the same
result and leave the same layout. -/
def OrderIndependent (real : Reading) (layout : DesktopLayout) (records : List LayoutRecord) :
    Prop :=
  ∀ junk junk' records₁ records₂ bytes₁ bytes₂, records₁.Perm records → records₂.Perm records →
    Spelled real bytes₁ records₁ → Spelled real bytes₂ records₂ →
      tryLoadLayoutTxt real junk (some bytes₁) layout =
        tryLoadLayoutTxt real junk' (some bytes₂) layout

/-- Where the file has a grid and one of the nine cells, that grid has as many whole pixels
as the grid of the layout that is filled. -/
def GridAgrees (layout : DesktopLayout) (records : List LayoutRecord) : Prop :=
  ∀ w h i j x y, .gridCell w h ∈ records → .cell i j x y ∈ records → InGrid i j →
    castInt w = castInt layout.gridW ∧ castInt h = castInt layout.gridH

/-- Without one of the nine cells it does not matter how large they are. -/
theorem foldl_put_of_out {records : List LayoutRecord} (layout : DesktopLayout)
    (h : ∀ i j x y, .cell i j x y ∈ records → ¬InGrid i j) (cellW cellH : Int32) :
    records.foldl put layout = records.foldl (putSized cellW cellH) layout := by
  refine List.foldl_ext put (putSized cellW cellH) layout fun layout r hr => ?_
  cases r with
  | cell i j x y =>
      have hout := fun r => setCell_of_out layout.cells r (h i j x y hr)
      unfold put putSized
      simp only [hout]
  | _ => rfl

/-- Where every grid is as large as the first, so are all cells. -/
theorem foldl_put_of_agrees {cellW cellH : Int32} {records : List LayoutRecord}
    {layout : DesktopLayout} (hlayout : castInt layout.gridW = cellW ∧ castInt layout.gridH = cellH)
    (h : ∀ w hh, .gridCell w hh ∈ records → castInt w = cellW ∧ castInt hh = cellH) :
    records.foldl put layout = records.foldl (putSized cellW cellH) layout := by
  induction records generalizing layout with
  | nil => rfl
  | cons r records ih =>
      have hput : put layout r = putSized cellW cellH layout r := by
        unfold put
        rw [hlayout.1, hlayout.2]
      have hnext : castInt (putSized cellW cellH layout r).gridW = cellW ∧
          castInt (putSized cellW cellH layout r).gridH = cellH := by
        cases r with
        | gridCell w hh => exact h w hh List.mem_cons_self
        | _ => exact hlayout
      rw [List.foldl_cons, List.foldl_cons, hput]
      exact ih hnext fun w hh hmem => h w hh (List.mem_cons_of_mem _ hmem)

/-- Where the condition holds, all cells get one size. -/
theorem foldl_put_of_gridAgrees {layout : DesktopLayout} {records : List LayoutRecord}
    (h : GridAgrees layout records) :
    records.foldl put layout =
      records.foldl (putSized (castInt layout.gridW) (castInt layout.gridH)) layout := by
  by_cases hcell : ∃ i j x y, .cell i j x y ∈ records ∧ InGrid i j
  · obtain ⟨i, j, x, y, hmem, hin⟩ := hcell
    exact foldl_put_of_agrees ⟨rfl, rfl⟩ fun w hh hgrid => h w hh i j x y hgrid hmem hin
  · refine foldl_put_of_out layout (fun i j x y hmem hin => ?_) _ _
    exact hcell ⟨i, j, x, y, hmem, hin⟩

/-- Records of other kinds leave a cell as it is. -/
theorem cells_foldl_put {i j : Int32} {row column : Fin 3} (hrow : (row.val : ℤ) = j.toInt)
    (hcolumn : (column.val : ℤ) = i.toInt) {records : List LayoutRecord}
    (h : ∀ r ∈ records, r.kind ≠ .cell i j) (layout : DesktopLayout) :
    (records.foldl put layout).cells row column = layout.cells row column := by
  induction records generalizing layout with
  | nil => rfl
  | cons r records ih =>
      rw [List.foldl_cons, ih fun r' hr' => h r' (List.mem_cons_of_mem _ hr')]
      cases r with
      | cell i' j' x y =>
          have hne : ¬((row.val : ℤ) = j'.toInt ∧ (column.val : ℤ) = i'.toInt) := by
            rintro ⟨hj, hi⟩
            apply h _ List.mem_cons_self
            rw [hrow, Int32.toInt_inj] at hj
            rw [hcolumn, Int32.toInt_inj] at hi
            rw [hi, hj]
            rfl
          exact if_neg hne
      | _ => rfl

/-- A pair of indices in the grid is the place of a cell. -/
theorem exists_fin_of_inGrid {i j : Int32} (h : InGrid i j) :
    ∃ row column : Fin 3, (row.val : ℤ) = j.toInt ∧ (column.val : ℤ) = i.toInt := by
  have h3 : (3 : Int32).toInt = 3 := by decide
  obtain ⟨hi, hi', hj, hj'⟩ := h
  rw [Int32.le_iff_toInt_le, Int32.toInt_zero] at hi hj
  rw [Int32.lt_iff_toInt_lt, h3] at hi' hj'
  refine ⟨⟨j.toInt.toNat, by omega⟩, ⟨i.toInt.toNat, by omega⟩, ?_, ?_⟩
  · exact Int.toNat_of_nonneg hj
  · exact Int.toNat_of_nonneg hi

/-- The grid before the cell and the cell before the grid. -/
theorem gridAgrees_of_independent {real : Reading} {layout : DesktopLayout} {bytes : List UInt8}
    {records : List LayoutRecord} (hspelled : Spelled real bytes records)
    (hkinds : (records.map LayoutRecord.kind).Nodup) (h : OrderIndependent real layout records) :
    GridAgrees layout records := by
  intro w hh i j x y hgrid hcell hin
  obtain ⟨row, column, hrow, hcolumn⟩ := exists_fin_of_inGrid hin
  obtain ⟨others, hgridFirst⟩ : ∃ others,
      records.Perm (.gridCell w hh :: .cell i j x y :: others) := by
    have hcell' : .cell i j x y ∈ records.erase (.gridCell w hh) :=
      (List.mem_erase_of_ne LayoutRecord.noConfusion).mpr hcell
    exact ⟨_, (List.perm_cons_erase hgrid).trans ((List.perm_cons_erase hcell').cons _)⟩
  have hcellFirst := hgridFirst.trans (List.Perm.swap _ _ others)
  have hothers : ∀ r ∈ others, r.kind ≠ .cell i j := by
    have hnodup := (hgridFirst.map LayoutRecord.kind).nodup_iff.mp hkinds
    have hnot := (List.nodup_cons.mp (List.nodup_cons.mp hnodup).2).1
    exact fun r hr hsame => hnot (List.mem_map.mpr ⟨r, hr, hsame⟩)
  obtain ⟨bytes₁, h₁⟩ := spelled_perm hspelled hgridFirst
  obtain ⟨bytes₂, h₂⟩ := spelled_perm hspelled hcellFirst
  have hsame := h ⟨0, 0, 0, 0⟩ ⟨0, 0, 0, 0⟩ _ _ bytes₁ bytes₂ hgridFirst.symm hcellFirst.symm h₁ h₂
  rw [tryLoadLayoutTxt_spelled _ _ h₁, tryLoadLayoutTxt_spelled _ _ h₂, Prod.mk.injEq] at hsame
  have hrect := congrArg (fun layout => layout.cells row column) hsame.2
  simp only [List.foldl_cons] at hrect
  rw [cells_foldl_put hrow hcolumn hothers, cells_foldl_put hrow hcolumn hothers] at hrect
  simp only [put, putSized, setCell, if_pos (And.intro hrow hcolumn), Rect.mk.injEq, true_and,
    Int32.add_right_inj] at hrect
  exact hrect

/-- The order of the records, each kind at most once, is free if and only if the file has
no grid, or none of the nine cells, or a grid as large as the one before. -/
theorem orderIndependent_iff {real : Reading} {bytes : List UInt8} {records : List LayoutRecord}
    (hspelled : Spelled real bytes records) (hkinds : (records.map LayoutRecord.kind).Nodup)
    (layout : DesktopLayout) :
    OrderIndependent real layout records ↔ GridAgrees layout records := by
  constructor
  · exact gridAgrees_of_independent hspelled hkinds
  · intro hagrees junk junk' records₁ records₂ bytes₁ bytes₂ hperm₁ hperm₂ h₁ h₂
    have hfold : ∀ {records' : List LayoutRecord}, records'.Perm records →
        records'.foldl put layout =
          records.foldl (putSized (castInt layout.gridW) (castInt layout.gridH)) layout := by
      intro records' hperm
      have hagrees' : GridAgrees layout records' := by
        intro w hh i j x y hgrid hcell
        exact hagrees w hh i j x y (hperm.mem_iff.mp hgrid) (hperm.mem_iff.mp hcell)
      rw [foldl_put_of_gridAgrees hagrees']
      exact (foldl_putSized_perm _ _ layout hkinds hperm.symm).symm
    rw [tryLoadLayoutTxt_spelled junk layout h₁, tryLoadLayoutTxt_spelled junk' layout h₂,
      hfold hperm₁, hfold hperm₂]

/-- No edge of a cell overflows. -/
def Room (records : List LayoutRecord) : Prop :=
  ∀ w h i j x y, .gridCell w h ∈ records → .cell i j x y ∈ records →
    (-2 ^ 31 ≤ x.toInt + (castInt w).toInt ∧ x.toInt + (castInt w).toInt < 2 ^ 31) ∧
      -2 ^ 31 ≤ y.toInt + (castInt h).toInt ∧ y.toInt + (castInt h).toInt < 2 ^ 31

/-- A cell before the grid. -/
def cellFirst : List UInt8 :=
  "cell 0 0 1760 890 grid_cell 75 90".toList.map fun c => UInt8.ofNat c.toNat

/-- Its records. -/
def cellFirstRecords : List LayoutRecord := [.cell 0 0 1760 890, .gridCell 75 90]

/-- A whole number below `2 ^ 53` is read as it is. -/
theorem scanDouble_natCast {text rest : List Char} {n : ℕ} (h : scanRat text = (some ↑n, rest))
    (hn : n < 2 ^ 53) : scanDouble Binary64.reading text = (↑n, some rest) := by
  unfold scanDouble
  rw [h]
  simp only [Binary64.reading_natCast hn, if_true]

/-- The file is made of these records. -/
theorem spelled_cellFirst : Spelled Binary64.reading cellFirst cellFirstRecords := by
  have hwidth : scanDouble Binary64.reading "75".toList = (75, some []) :=
    scanDouble_natCast (n := 75) (by decide +kernel) (by decide)
  have hheight : scanDouble Binary64.reading "90".toList = (90, some []) :=
    scanDouble_natCast (n := 90) (by decide +kernel) (by decide)
  refine ⟨[["cell", "0", "0", "1760", "890"], ["grid_cell", "75", "90"]].map
    (List.map String.toList), .cons (.cell ?_ ?_ ?_ ?_) (.cons (.gridCell hwidth hheight) .nil), ?_⟩
  all_goals decide +kernel

/-- The condition at this file, whose grid is not empty: it fails. -/
theorem orderIndependent_cellFirst :
    OrderIndependent Binary64.reading {} cellFirstRecords ↔ GridAgrees {} cellFirstRecords :=
  orderIndependent_iff spelled_cellFirst (by decide) {}

/-- A cell before the grid is empty, and behind it is not. -/
theorem not_orderIndependent : ¬∀ bytes records, Spelled Binary64.reading bytes records →
    (records.map LayoutRecord.kind).Nodup → Room records →
      OrderIndependent Binary64.reading {} records := by
  intro h
  have hroom : Room cellFirstRecords := by
    intro w hh i j x y hgrid hcell
    simp only [cellFirstRecords, List.mem_cons, List.not_mem_nil, or_false, reduceCtorEq,
      false_or, LayoutRecord.gridCell.injEq, LayoutRecord.cell.injEq] at hgrid hcell
    obtain ⟨rfl, rfl⟩ := hgrid
    obtain ⟨rfl, rfl, rfl, rfl⟩ := hcell
    decide +kernel
  have hkinds : (cellFirstRecords.map LayoutRecord.kind).Nodup := by decide
  have hagrees := gridAgrees_of_independent spelled_cellFirst hkinds
    (h _ _ spelled_cellFirst hkinds hroom)
  have hin : InGrid 0 0 := ⟨by decide, by decide, by decide, by decide⟩
  have hgrid := hagrees 75 90 0 0 1760 890 (by decide) (by decide) hin
  exact absurd hgrid.1 (by decide +kernel)

end DesktopSync.Analysis
