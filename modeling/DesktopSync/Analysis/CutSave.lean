import DesktopSync.Analysis.Restart
import DesktopSync.Model.CutSave

/-!
# What the next start makes of a save that was cut off

The file then holds the new texts under the keys that were written and the earlier ones
under the others. The next start reads a layout that is mixed in the same way and tests
only its size, its DPI and its grid, whose keys are among the first nine of twenty-eight.
So a save that is cut off behind them is taken for a complete one, with the cells of the
earlier file, or with none.
-/

set_option autoImplicit false

namespace DesktopSync.Analysis

open DesktopSync.Model
open Decimal Overlay

/-! ## A whole save -/

theorem completed_map_some (entries : List (IniKey × WString)) :
    completed (entries.map fun e => (e.1, some e.2)) = entries := by
  induction entries with
  | nil => rfl
  | cons e entries ih =>
      rw [List.map_cons, completed, ih]

/-- Where no write ends the process, they are those of `SaveIni`. -/
theorem completed_saveWrites {s : ConfigState} {entries : List (IniKey × WString)}
    (h : savedEntries s = some entries) : completed (saveWrites s) = entries := by
  have hwrites : saveWrites s = entries.map fun e => (e.1, some e.2) := by
    unfold savedEntries at h
    simp only [Option.bind_eq_bind, Option.bind_eq_some_iff] at h
    obtain ⟨dpi, hdpi, width, hwidth, height, hheight, hentries⟩ := h
    rw [← Option.some.inj hentries]
    unfold saveWrites
    simp only [hdpi, hwidth, hheight, Option.map_some, List.map_append, List.map_cons,
      List.map_nil, List.map_flatMap, (isNumber_writeDouble hdpi).1,
      (isNumber_writeDouble hwidth).1, (isNumber_writeDouble hheight).1]
    congr 2
    split
    · rfl
    · rfl
  rw [hwrites, completed_map_some]

/-- A start either takes what it finds or saves its fresh state. -/
theorem loadOrInitConfig_eq (m : Machine) (junk : CellLine) (ini : Ini) :
    loadOrInitConfig m junk ini =
      if takesLoaded m ini then some ((loadFromIni m ini (startingState m)).2, ini)
      else (saveIni m.profile ini (freshState m junk ini)).map
        fun ini' => (freshState m junk ini, ini') := by
  have hbranch : (!(loadFromIni m ini (startingState m)).1 ||
      isIncomplete m (loadFromIni m ini (startingState m)).2) = !takesLoaded m ini := by
    unfold takesLoaded
    rw [Bool.not_and, Bool.not_not]
  unfold loadOrInitConfig
  simp only [hbranch]
  cases takesLoaded m ini with
  | false => rfl
  | true => rfl

/-- With all its writes, a cut start is a start. -/
theorem cutStart_whole {m : Machine} {junk : CellLine} {ini ini' : Ini} {s : ConfigState}
    (h : loadOrInitConfig m junk ini = some (s, ini')) {k : ℕ}
    (hk : (completed (saveWrites (freshState m junk ini))).length ≤ k) :
    cutStart m junk ini k = ini' := by
  rw [loadOrInitConfig_eq] at h
  unfold cutStart
  split at h
  · next hloaded =>
      rw [if_pos hloaded]
      exact (Prod.mk.inj (Option.some.inj h)).2
  · next hloaded =>
      rw [if_neg hloaded]
      obtain ⟨saved, hsaved, heq⟩ := Option.map_eq_some_iff.mp h
      obtain ⟨entries, hentries, hwrite⟩ := Option.map_eq_some_iff.mp hsaved
      unfold cutSave
      rw [List.take_of_length_le hk, completed_saveWrites hentries, hwrite]
      exact (Prod.mk.inj heq).2

/-! ## The writes, key by key -/

/-- The number that a layout has for a key of the file. -/
def entry (layout : DesktopLayout) : IniKey → ℚ
  | .resolutionWidth => layout.screenW.toInt
  | .resolutionHeight => layout.screenH.toInt
  | .dpi => layout.dpiX
  | .minX => layout.cornerMin.x.toInt
  | .minY => layout.cornerMin.y.toInt
  | .maxX => layout.cornerMax.x.toInt
  | .maxY => layout.cornerMax.y.toInt
  | .cellWidth => layout.gridW
  | .cellHeight => layout.gridH
  | .cellX i j => (layout.cells j i).left.toInt
  | .cellY i j => (layout.cells j i).top.toInt
  | .ipv4 => 0
  | .lastSync => 0

/-- What the file does not hold follows from what it holds. -/
structure FromFile (layout : DesktopLayout) : Prop where
  dpiY : layout.dpiY = layout.dpiX
  cells : ∀ j i, (layout.cells j i).right = (layout.cells j i).left + castInt layout.gridW ∧
    (layout.cells j i).bottom = (layout.cells j i).top + castInt layout.gridH

theorem int32_of_cast {v v' : Int32} (h : (v.toInt : ℚ) = v'.toInt) : v = v' := by
  rw [← Int32.toInt_inj]
  exact_mod_cast h

theorem rect_of_edges {r r' : Rect} (hleft : r.left = r'.left) (htop : r.top = r'.top)
    (hright : r.right = r'.right) (hbottom : r.bottom = r'.bottom) : r = r' := by
  cases r
  cases r'
  simp_all only

/-- Two layouts from a file with the same numbers are the same. -/
theorem FromFile.ext {a b : DesktopLayout} (ha : FromFile a) (hb : FromFile b)
    (h : ∀ key, entry a key = entry b key) : a = b := by
  have hwidth : a.gridW = b.gridW := h .cellWidth
  have hheight : a.gridH = b.gridH := h .cellHeight
  have hdpi : a.dpiX = b.dpiX := h .dpi
  have hdpiY : a.dpiY = b.dpiY := by rw [ha.dpiY, hb.dpiY, hdpi]
  have hcells : a.cells = b.cells := by
    funext j i
    have hleft : (a.cells j i).left = (b.cells j i).left := int32_of_cast (h (.cellX i j))
    have htop : (a.cells j i).top = (b.cells j i).top := int32_of_cast (h (.cellY i j))
    refine rect_of_edges hleft htop ?_ ?_
    · rw [(ha.cells j i).1, (hb.cells j i).1, hleft, hwidth]
    · rw [(ha.cells j i).2, (hb.cells j i).2, htop, hheight]
  have hscreenW : a.screenW = b.screenW := int32_of_cast (h .resolutionWidth)
  have hscreenH : a.screenH = b.screenH := int32_of_cast (h .resolutionHeight)
  have hmin : a.cornerMin = b.cornerMin := by
    rw [Point.mk.injEq]
    exact ⟨int32_of_cast (h .minX), int32_of_cast (h .minY)⟩
  have hmax : a.cornerMax = b.cornerMax := by
    rw [Point.mk.injEq]
    exact ⟨int32_of_cast (h .maxX), int32_of_cast (h .maxY)⟩
  cases a
  cases b
  simp_all only

/-! ## Reading a file that was cut off -/

end DesktopSync.Analysis
