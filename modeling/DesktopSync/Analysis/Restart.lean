import DesktopSync.Analysis.IniFile
import DesktopSync.Model.Receiver

/-!
# Starting again

A start that takes what it finds in the INI file is repeated by every later one, whatever
is stored in between. A start that builds a new layout is so only where that layout, read
back, passes the two checks and has the same integers. The default layout does on every
display of 15 by 12 pixels or more. A layout from `desktop_layout.txt` is not checked
against the display before it is saved, and its DPI is always 96.
-/

set_option autoImplicit false

namespace DesktopSync.Analysis

open DesktopSync.Model
open Decimal TextStream TransitionSystem

/-! ## Which layout a start takes -/

/-- The layout in the INI file. -/
def iniLayout (m : Machine) (ini : Ini) : DesktopLayout :=
  (loadFromIni m ini (startingState m)).2.layout

/-- The layout passes both checks of a start. -/
structure Complete (m : Machine) (layout : DesktopLayout) : Prop where
  positive : 0 < layout.screenW ∧ 0 < layout.screenH
  screen : layout.screenW = m.screenW ∧ layout.screenH = m.screenH
  grid : 1 ≤ layout.gridW ∧ 1 ≤ layout.gridH
  dpi : layout.dpiX ≤ 1 / 10 ∨ |layout.dpiX - m.dpiX.toInt| ≤ 1 / 2

theorem isIncomplete_eq_false_iff (m : Machine) (s : ConfigState) :
    isIncomplete m s = false ↔ Complete m s.layout := by
  have hpositive : ¬(s.layout.screenW ≤ 0 || s.layout.screenH ≤ 0) = true ↔
      0 < s.layout.screenW ∧ 0 < s.layout.screenH := by
    rw [Bool.or_eq_true, decide_eq_true_eq, decide_eq_true_eq, not_or, Int32.not_le, Int32.not_le]
  have hgrid : ¬(s.layout.gridW < 1 || s.layout.gridH < 1) = true ↔
      1 ≤ s.layout.gridW ∧ 1 ≤ s.layout.gridH := by
    rw [Bool.or_eq_true, decide_eq_true_eq, decide_eq_true_eq, not_or, not_lt, not_lt]
  have hscreen : ¬(m.screenW ≠ s.layout.screenW || m.screenH ≠ s.layout.screenH) = true ↔
      s.layout.screenW = m.screenW ∧ s.layout.screenH = m.screenH := by
    rw [Bool.or_eq_true, decide_eq_true_eq, decide_eq_true_eq, not_or, not_not, not_not,
      eq_comm, eq_comm (a := m.screenH)]
  have hdpi : (1 / 10 < s.layout.dpiX && 1 / 2 < |s.layout.dpiX - m.dpiX.toInt|) = false ↔
      s.layout.dpiX ≤ 1 / 10 ∨ |s.layout.dpiX - m.dpiX.toInt| ≤ 1 / 2 := by
    rw [Bool.and_eq_false_iff, decide_eq_false_iff_not, decide_eq_false_iff_not, not_lt, not_lt]
  unfold isIncomplete
  simp only
  constructor
  · intro h
    split_ifs at h with h₁ h₂ h₃
    exact ⟨hpositive.mp h₁, hscreen.mp h₃, hgrid.mp h₂, hdpi.mp h⟩
  · intro h
    rw [if_neg (hpositive.mpr h.positive), if_neg (hgrid.mpr h.grid),
      if_neg (hscreen.mpr h.screen)]
    exact hdpi.mpr h.dpi

theorem takesLoaded_iff (m : Machine) (ini : Ini) :
    takesLoaded m ini = true ↔ Complete m (iniLayout m ini) := by
  have hloads : (loadFromIni m ini (startingState m)).1 = true ↔
      ((0 < (iniLayout m ini).screenW ∧ 0 < (iniLayout m ini).screenH) ∧
        1 / 10 < (iniLayout m ini).gridW) ∧ 1 / 10 < (iniLayout m ini).gridH := by
    simp only [iniLayout, loadFromIni, Bool.and_eq_true, decide_eq_true_eq]
  unfold takesLoaded
  simp only [Bool.and_eq_true, Bool.not_eq_true', isIncomplete_eq_false_iff, hloads]
  refine and_iff_right_of_imp ?_
  intro h
  have hgrid : 1 ≤ (iniLayout m ini).gridW ∧ 1 ≤ (iniLayout m ini).gridH := h.grid
  exact ⟨⟨h.positive, by linarith [hgrid.1]⟩, by linarith [hgrid.2]⟩

/-- Nothing of the layout is under the two keys that are written between starts. -/
theorem iniLayout_congr (m : Machine) {ini ini' : Ini}
    (h : ∀ key, key ≠ .ipv4 → key ≠ .lastSync → ini' key = ini key) :
    iniLayout m ini' = iniLayout m ini := by
  unfold iniLayout loadFromIni readInt readDouble readString
  simp [h]

/-! ## The two branches of a start -/

/-- The layout of a start that does not take the loaded one. -/
def freshLayout (m : Machine) (junk : CellLine) : DesktopLayout :=
  let read := tryLoadLayoutTxt m.real junk m.layoutTxt {}
  if read.1 then read.2 else computeDefaultLayout m read.2

theorem loadOrInitConfig_loaded {m : Machine} {ini : Ini} (junk : CellLine)
    (h : takesLoaded m ini = true) :
    loadOrInitConfig m junk ini = some ((loadFromIni m ini (startingState m)).2, ini) := by
  unfold takesLoaded at h
  simp only [Bool.and_eq_true, Bool.not_eq_true'] at h
  unfold loadOrInitConfig
  simp only [h.1, h.2, Bool.not_true, Bool.or_self, Bool.false_eq_true, if_false]

/-- A fresh start returns and saves the new layout, with no last synchronisation. -/
theorem loadOrInitConfig_fresh {m : Machine} {ini : Ini} (junk : CellLine)
    (h : takesLoaded m ini = false) :
    ∃ s : ConfigState, s.layout = freshLayout m junk ∧ s.lastSync = 0 ∧
      loadOrInitConfig m junk ini = (saveIni m.profile ini s).map fun ini' => (s, ini') := by
  unfold takesLoaded at h
  have hbranch : (!(loadFromIni m ini (startingState m)).1 ||
      isIncomplete m (loadFromIni m ini (startingState m)).2) = true := by
    rw [← Bool.not_eq_false', Bool.not_or, Bool.not_not]
    exact h
  refine ⟨{ (loadFromIni m ini (startingState m)).2 with
    layout := freshLayout m junk, lastSync := 0 }, rfl, rfl, ?_⟩
  unfold loadOrInitConfig
  simp only [hbranch, if_true]
  rfl

/-- What a start has done once it has returned. -/
theorem loadOrInitConfig_cases {m : Machine} {junk : CellLine} {ini ini' : Ini}
    {first : ConfigState} (h : loadOrInitConfig m junk ini = some (first, ini')) :
    (takesLoaded m ini = true ∧ ini' = ini ∧ first.layout = iniLayout m ini ∧
        first.lastSync = readUInt64 ini .lastSync 0) ∨
      (takesLoaded m ini = false ∧ first.layout = freshLayout m junk ∧
        iniLayout m ini' = storedLayout first.layout ∧
        first.lastSync = readUInt64 ini' .lastSync 0) := by
  cases hloaded : takesLoaded m ini with
  | true =>
      rw [loadOrInitConfig_loaded junk hloaded, Option.some.injEq, Prod.mk.injEq] at h
      obtain ⟨rfl, rfl⟩ := h
      exact .inl ⟨rfl, rfl, rfl, rfl⟩
  | false =>
      obtain ⟨s, hlayout, -, hstart⟩ := loadOrInitConfig_fresh junk hloaded
      rw [hstart] at h
      obtain ⟨saved, hsaved, heq⟩ := Option.map_eq_some_iff.mp h
      obtain ⟨rfl, rfl⟩ := Prod.mk.inj heq
      obtain ⟨hstored, hlastSync⟩ := loadFromIni_saved m hsaved (startingState m)
      exact .inr ⟨rfl, hlayout, hstored, hlastSync.symm⟩

/-- Whatever it does, a start returns the desktop as the target directory. -/
theorem loadOrInitConfig_targetDir {m : Machine} {junk : CellLine} {ini ini' : Ini}
    {first : ConfigState} (h : loadOrInitConfig m junk ini = some (first, ini')) :
    targetDirOf first.toIniState = first.desktopPath := by
  have hboth : first.targetDir = m.desktopPath ∧ first.desktopPath = m.desktopPath := by
    unfold loadOrInitConfig at h
    simp only at h
    split at h
    · obtain ⟨saved, -, heq⟩ := Option.map_eq_some_iff.mp h
      rw [← (Prod.mk.inj heq).1]
      exact ⟨rfl, rfl⟩
    · rw [← (Prod.mk.inj (Option.some.inj h)).1]
      exact ⟨rfl, rfl⟩
  unfold targetDirOf
  rw [hboth.1, hboth.2]
  exact ite_self _

/-! ## What later starts find -/

/-- The two layouts agree in everything that is an integer. -/
structure SameIntegers (layout layout' : DesktopLayout) : Prop where
  screenW : layout.screenW = layout'.screenW
  screenH : layout.screenH = layout'.screenH
  cornerMin : layout.cornerMin = layout'.cornerMin
  cornerMax : layout.cornerMax = layout'.cornerMax
  cells : layout.cells = layout'.cells

/-- A start in state `c` takes the loaded branch, writes nothing, and returns the integers
of the first start and what has been stored since. -/
structure Resumes (m : Machine) (first : ConfigState) (c : Between) (junk : CellLine) :
    Prop where
  loaded : takesLoaded m c.ini = true
  returns : ∃ s, loadOrInitConfig m junk c.ini = some (s, c.ini) ∧
    SameIntegers s.layout first.layout ∧ s.lastSync = c.lastSync.getD first.lastSync ∧
      ∀ ipv4, c.peer = some ipv4 → s.peerIpv4 = buffered (m.profile.kept ipv4)

/-- After the first start every later one resumes, whatever is stored in between. -/
def Stable (m : Machine) (junk : CellLine) (ini : Ini) : Prop :=
  ∀ first ini', loadOrInitConfig m junk ini = some (first, ini') →
    ∀ c, (restarts m ini').Reachable c → ∀ junk', Resumes m first c junk'

/-- The INI file since a start left it as `ini`: the layout is untouched, and the two other
entries are what was stored last. -/
structure Kept (m : Machine) (ini : Ini) (c : Between) : Prop where
  layout : iniLayout m c.ini = iniLayout m ini
  lastSync : readUInt64 c.ini .lastSync 0 = c.lastSync.getD (readUInt64 ini .lastSync 0)
  peer : ∀ ipv4, c.peer = some ipv4 → c.ini .ipv4 = some (m.profile.kept ipv4)

theorem savePeerToIni_self (p : Profile) (ini : Ini) (ipv4 : WString) :
    savePeerToIni p ini ipv4 .ipv4 = some (p.kept ipv4) := by
  rw [savePeerToIni, write_singleton, Function.update_self]

theorem savePeerToIni_of_ne (p : Profile) (ini : Ini) (ipv4 : WString) {key : IniKey}
    (hkey : key ≠ .ipv4) : savePeerToIni p ini ipv4 key = ini key := by
  rw [savePeerToIni, write_singleton, Function.update_of_ne hkey]

theorem updateLastSync_self (p : Profile) (ini : Ini) (ts : UInt64) :
    updateLastSync p ini ts .lastSync = some (writeUInt64 .lastSync ts).2 := by
  have hkept := kept_of_isNumber p (isNumber_writeUInt64 .lastSync ts)
  rw [updateLastSync, write_singleton, hkept]
  exact Function.update_self IniKey.lastSync _ ini

theorem updateLastSync_of_ne (p : Profile) (ini : Ini) (ts : UInt64) {key : IniKey}
    (hkey : key ≠ .lastSync) : updateLastSync p ini ts key = ini key := by
  rw [updateLastSync, write_singleton]
  exact Function.update_of_ne hkey _ ini

theorem kept_step {m : Machine} {ini : Ini} {c c' : Between} {e : ConfigEvent}
    (hloaded : takesLoaded m ini = true) (h : Kept m ini c) (hstep : configStep m c e = some c') :
    Kept m ini c' := by
  cases e with
  | start junk =>
      have hloaded' : takesLoaded m c.ini = true := by
        rw [takesLoaded_iff, h.layout, ← takesLoaded_iff]
        exact hloaded
      simp only [configStep, loadOrInitConfig_loaded junk hloaded', Option.map_some,
        Option.some.injEq] at hstep
      rw [← hstep]
      exact h
  | savePeer ipv4 =>
      rw [← Option.some.inj hstep]
      refine ⟨?_, ?_, ?_⟩
      · rw [← h.layout]
        exact iniLayout_congr m fun key hkey _ => savePeerToIni_of_ne m.profile c.ini ipv4 hkey
      · rw [← h.lastSync]
        rfl
      · rintro _ ⟨⟩
        exact savePeerToIni_self m.profile c.ini ipv4
  | updateLastSync ts =>
      rw [← Option.some.inj hstep]
      refine ⟨?_, ?_, ?_⟩
      · rw [← h.layout]
        exact iniLayout_congr m fun key _ hkey => updateLastSync_of_ne m.profile c.ini ts hkey
      · exact readUInt64_of_written 0 (updateLastSync_self m.profile c.ini ts)
      · intro ipv4 hpeer
        rw [← h.peer ipv4 hpeer]
        have hkey : IniKey.ipv4 ≠ .lastSync := by decide
        exact updateLastSync_of_ne m.profile c.ini ts hkey

theorem kept_of_reachable {m : Machine} {ini : Ini} (hloaded : takesLoaded m ini = true)
    {c : Between} (h : (restarts m ini).Reachable c) : Kept m ini c := by
  have hinit : ∀ c, (restarts m ini).init c → Kept m ini c := by
    rintro _ rfl
    refine ⟨rfl, rfl, ?_⟩
    intro ipv4 hpeer
    cases hpeer
  exact h.invariant hinit fun c e c' hc hstep => kept_step hloaded hc hstep

/-- A start is stable if and only if what it leaves loads and has its integers. -/
theorem stable_iff (m : Machine) (junk : CellLine) (ini : Ini) :
    Stable m junk ini ↔ ∀ first ini', loadOrInitConfig m junk ini = some (first, ini') →
      Complete m (iniLayout m ini') ∧ SameIntegers (iniLayout m ini') first.layout := by
  unfold Stable
  refine forall_congr' fun first => forall_congr' fun ini' => imp_congr_right fun hfirst => ?_
  constructor
  · intro h
    obtain ⟨hloaded, s, hs, hsame, -⟩ := h ⟨ini', none, none⟩ (.init rfl) junk
    rw [loadOrInitConfig_loaded junk hloaded, Option.some.injEq, Prod.mk.injEq] at hs
    obtain ⟨rfl, -⟩ := hs
    exact ⟨(takesLoaded_iff m ini').mp hloaded, hsame⟩
  · rintro ⟨hcomplete, hsame⟩ c hc junk'
    have hloaded := (takesLoaded_iff m ini').mpr hcomplete
    have hkept := kept_of_reachable hloaded hc
    have hloaded' : takesLoaded m c.ini = true := by
      rw [takesLoaded_iff, hkept.layout]
      exact hcomplete
    refine ⟨hloaded', _, loadOrInitConfig_loaded junk' hloaded', ?_, ?_, ?_⟩
    · have hlayout : iniLayout m c.ini = iniLayout m ini' := hkept.layout
      rw [← hlayout] at hsame
      exact hsame
    · refine hkept.lastSync.trans ?_
      congr 1
      rcases loadOrInitConfig_cases hfirst with ⟨-, rfl, -, hlastSync⟩ | ⟨-, -, -, hlastSync⟩
      · exact hlastSync.symm
      · exact hlastSync.symm
    · intro ipv4 hpeer
      have hread : readString c.ini .ipv4 = buffered (m.profile.kept ipv4) := by
        unfold readString
        rw [hkept.peer ipv4 hpeer, Option.getD_some]
      exact hread

/-- A first start that takes the loaded branch is stable. -/
theorem stable_of_loaded {m : Machine} {ini : Ini} (junk : CellLine)
    (h : takesLoaded m ini = true) : Stable m junk ini := by
  rw [stable_iff]
  intro first ini' hfirst
  rcases loadOrInitConfig_cases hfirst with ⟨-, rfl, hlayout, -⟩ | ⟨hnot, -⟩
  · rw [hlayout]
    exact ⟨(takesLoaded_iff m ini').mp h, rfl, rfl, rfl, rfl, rfl⟩
  · rw [h] at hnot
    cases hnot

/-- Any other is if and only if its layout cannot be printed, or is complete and has the
same integers when it is read back. -/
theorem stable_fresh_iff {m : Machine} {ini : Ini} (junk : CellLine)
    (h : takesLoaded m ini = false) :
    Stable m junk ini ↔ (Prints (freshLayout m junk) →
      Complete m (storedLayout (freshLayout m junk)) ∧
        SameIntegers (storedLayout (freshLayout m junk)) (freshLayout m junk)) := by
  rw [stable_iff]
  constructor
  · intro hstable hprints
    obtain ⟨s, hlayout, -, hstart⟩ := loadOrInitConfig_fresh junk h
    rw [← hlayout, ← savedEntries_isSome_iff] at hprints
    obtain ⟨entries, hentries⟩ := Option.isSome_iff_exists.mp hprints
    rw [saveIni, hentries, Option.map_some, Option.map_some] at hstart
    obtain ⟨hcomplete, hsame⟩ := hstable _ _ hstart
    rcases loadOrInitConfig_cases hstart with ⟨hloaded, -⟩ | ⟨-, -, hstored, -⟩
    · rw [h] at hloaded
      cases hloaded
    · rw [hstored, hlayout] at hcomplete hsame
      exact ⟨hcomplete, hsame⟩
  · intro hfresh first ini' hfirst
    rcases loadOrInitConfig_cases hfirst with ⟨hloaded, -⟩ | ⟨-, hlayout, hstored, -⟩
    · rw [h] at hloaded
      cases hloaded
    · obtain ⟨s, hlayout', -, hstart⟩ := loadOrInitConfig_fresh junk h
      rw [hstart] at hfirst
      obtain ⟨saved, hsaved, heq⟩ := Option.map_eq_some_iff.mp hfirst
      obtain ⟨entries, hentries, -⟩ := Option.map_eq_some_iff.mp hsaved
      have hprints : Prints s.layout := by
        rw [← savedEntries_isSome_iff, hentries]
        rfl
      rw [hstored, hlayout]
      exact hfresh (hlayout' ▸ hprints)

/-! ## A layout from `desktop_layout.txt` -/

/-- No line of the text says anything about the DPI. -/
theorem dpiX_layoutLine (real : Reading) (junk : CellLine) (key : List Char)
    (layout : DesktopLayout) (ifs : Stream) :
    (layoutLine real junk key layout ifs).1.dpiX = layout.dpiX := by
  unfold layoutLine
  simp only
  split_ifs <;> rfl

theorem dpiX_readLayout (real : Reading) (junk : CellLine) (layout : DesktopLayout)
    (ifs : Stream) : (readLayout real junk layout ifs).dpiX = layout.dpiX := by
  fun_induction readLayout real junk layout ifs with
  | case1 layout ifs hword => rfl
  | case2 layout ifs key rest hword line ih =>
      rw [ih]
      exact dpiX_layoutLine real junk key layout (some rest)

/-- The text gives a layout with a screen. -/
theorem tryLoadLayoutTxt_true {real : Reading} {junk : CellLine} {text : Option (List UInt8)}
    (h : (tryLoadLayoutTxt real junk text {}).1 = true) :
    0 < (tryLoadLayoutTxt real junk text {}).2.screenW ∧
      0 < (tryLoadLayoutTxt real junk text {}).2.screenH ∧
      (tryLoadLayoutTxt real junk text {}).2.dpiX = 96 := by
  unfold tryLoadLayoutTxt at h ⊢
  cases text with
  | none => cases h
  | some bytes =>
      simp only [Bool.and_eq_true, decide_eq_true_eq] at h ⊢
      exact ⟨h.1, h.2, dpiX_readLayout real junk {} _⟩

/-- Every cell is as large as the grid of the next start says. -/
def Measured (layout : DesktopLayout) : Prop :=
  ∀ j i, (layout.cells j i).right =
      (layout.cells j i).left + castInt (rounded 6 layout.gridW) ∧
    (layout.cells j i).bottom = (layout.cells j i).top + castInt (rounded 6 layout.gridH)

theorem sameIntegers_stored_iff (layout : DesktopLayout) :
    SameIntegers (storedLayout layout) layout ↔ Measured layout := by
  constructor
  · intro h j i
    have hcell := congrFun (congrFun h.cells j) i
    rw [← hcell]
    exact ⟨rfl, rfl⟩
  · intro h
    refine ⟨rfl, rfl, rfl, rfl, ?_⟩
    funext j i
    have hcell := h j i
    unfold storedLayout
    simp only
    rw [← hcell.1, ← hcell.2]

/-- The text describes this display, and a grid that survives being saved. -/
structure Settled (m : Machine) (layout : DesktopLayout) : Prop where
  screen : layout.screenW = m.screenW ∧ layout.screenH = m.screenH
  dpi : m.dpiX = 96
  grid : 1 ≤ rounded 6 layout.gridW ∧ 1 ≤ rounded 6 layout.gridH
  cells : Measured layout

/-- The DPI of a text layout is that of the display, or too far from it. -/
theorem dpi_settled_iff (dpiX : Int32) :
    (rounded 6 96 ≤ 1 / 10 ∨ |rounded 6 96 - dpiX.toInt| ≤ 1 / 2) ↔ dpiX = 96 := by
  have hrounded : rounded 6 96 = 96 := rounded_intCast 6 96
  rw [hrounded]
  constructor
  · intro h
    have hclose : |(96 : ℚ) - dpiX.toInt| ≤ 1 / 2 := h.resolve_left (by norm_num)
    have hcast : |((96 - dpiX.toInt : ℤ) : ℚ)| ≤ 1 / 2 := by
      push_cast
      exact hclose
    have hzero : |96 - dpiX.toInt| < 1 := by
      rw [← Int.cast_abs] at hcast
      have hlt : ((|96 - dpiX.toInt| : ℤ) : ℚ) < 1 := lt_of_le_of_lt hcast (by norm_num)
      exact_mod_cast hlt
    rw [Int.abs_lt_one_iff] at hzero
    rw [← Int32.toInt_inj]
    have h96 : (96 : Int32).toInt = 96 := by decide
    omega
  · rintro rfl
    have h96 : (96 : Int32).toInt = 96 := by decide
    right
    rw [h96]
    norm_num

theorem settled_iff {m : Machine} {layout : DesktopLayout} (hw : 0 < layout.screenW)
    (hh : 0 < layout.screenH) (hdpi : layout.dpiX = 96) :
    Complete m (storedLayout layout) ∧ SameIntegers (storedLayout layout) layout ↔
      Settled m layout := by
  rw [sameIntegers_stored_iff]
  constructor
  · rintro ⟨hcomplete, hcells⟩
    have hclose := hcomplete.dpi
    simp only [storedLayout, hdpi] at hclose
    exact ⟨hcomplete.screen, (dpi_settled_iff m.dpiX).mp hclose, hcomplete.grid, hcells⟩
  · intro h
    refine ⟨⟨⟨hw, hh⟩, h.screen, h.grid, ?_⟩, h.cells⟩
    simp only [storedLayout, hdpi]
    exact (dpi_settled_iff m.dpiX).mpr h.dpi

/-! ## The default layout -/

/-- The default layout takes nothing over from the text that was read before it. -/
theorem computeDefaultLayout_eq (m : Machine) (layout : DesktopLayout) :
    computeDefaultLayout m layout = computeDefaultLayout m {} := rfl

theorem prints_of_lt {q : ℚ} (hq : |q| < 10 ^ 20) : (formatFixed 6 q).length < 64 := by
  have hscaled : (scaled 6 q).natAbs ≤ 10 ^ 20 * 10 ^ 6 := natAbs_scaled_le hq
  have hwhole : (scaled 6 q).natAbs / 10 ^ 6 < 10 ^ 21 := by omega
  have hlength := length_formatFixed_le (by decide) (by decide) hwhole
  omega

theorem abs_toInt_lt (v : Int32) : |(v.toInt : ℚ)| < 10 ^ 20 := by
  have hlow : ((-2 ^ 31 : ℤ) : ℚ) ≤ v.toInt := by exact_mod_cast v.le_toInt
  have hhigh : (v.toInt : ℚ) < ((2 ^ 31 : ℤ) : ℚ) := by exact_mod_cast v.toInt_lt
  rw [abs_lt]
  push_cast at hlow hhigh
  constructor
  · linarith
  · linarith

/-- The default layout can always be printed. -/
theorem prints_default (m : Machine) : Prints (computeDefaultLayout m {}) := by
  have hdiv : ∀ (v : Int32) (d : ℚ), 1 ≤ d → |(v.toInt : ℚ) / d| < 10 ^ 20 := by
    intro v d hd
    have habs : |d| = d := abs_of_pos (by linarith)
    rw [abs_div, habs]
    exact lt_of_le_of_lt (div_le_self (abs_nonneg _) hd) (abs_toInt_lt v)
  refine ⟨prints_of_lt (abs_toInt_lt m.dpiX), ?_, ?_⟩
  · exact prints_of_lt (hdiv m.screenW 15 (by norm_num))
  · exact prints_of_lt (hdiv m.screenH 12 (by norm_num))

/-- Numbers that are not negative are cast by their floor. -/
theorem castInt_congr {q q' : ℚ} (hq : 0 ≤ q) (hq' : 0 ≤ q') (h : ⌊q⌋ = ⌊q'⌋) :
    castInt q = castInt q' := by
  unfold castInt
  rw [if_neg (not_lt.mpr hq), if_neg (not_lt.mpr hq'), h]

/-- A side of the display divided into cells. -/
theorem one_le_rounded_iff {d : ℕ} (hd : 0 < d) (hsmall : d ≤ 15) (n : ℤ) :
    1 ≤ rounded 6 ((n : ℚ) / d) ↔ (d : ℤ) ≤ n := by
  have hfloor : ⌊rounded 6 ((n : ℚ) / d)⌋ = n / d := floor_rounded_div hd (by omega) n
  have hone : 1 ≤ rounded 6 ((n : ℚ) / d) ↔ 1 ≤ ⌊rounded 6 ((n : ℚ) / d)⌋ := by
    rw [Int.le_floor, Int.cast_one]
  rw [hone, hfloor, Int.le_ediv_iff_mul_le (by omega), one_mul]

theorem castInt_rounded {d : ℕ} (hd : 0 < d) (hsmall : d ≤ 15) {n : ℤ} (hn : (d : ℤ) ≤ n) :
    castInt (rounded 6 ((n : ℚ) / d)) = castInt ((n : ℚ) / d) := by
  have hone := (one_le_rounded_iff hd hsmall n).mpr hn
  have hn' : (0 : ℚ) ≤ n := by
    have hpos : 0 ≤ n := by omega
    exact_mod_cast hpos
  refine castInt_congr (by linarith) (div_nonneg hn' (Nat.cast_nonneg d)) ?_
  rw [floor_rounded_div hd (by omega) n, Rat.floor_intCast_div_natCast]

/-- The cells of the default layout are measured again as they were. -/
theorem measured_default {m : Machine} (hw : (15 : ℕ) ≤ m.screenW.toInt)
    (hh : (12 : ℕ) ≤ m.screenH.toInt) : Measured (computeDefaultLayout m {}) := by
  have hgridW : castInt (rounded 6 (computeDefaultLayout m {}).gridW) =
      castInt (computeDefaultLayout m {}).gridW := castInt_rounded (by decide) le_rfl hw
  have hgridH : castInt (rounded 6 (computeDefaultLayout m {}).gridH) =
      castInt (computeDefaultLayout m {}).gridH :=
    castInt_rounded (by decide) (by decide) hh
  intro j i
  rw [hgridW, hgridH]
  exact ⟨rfl, rfl⟩

/-- The default layout survives being saved exactly where its cells have a pixel. -/
theorem default_settled_iff (m : Machine) :
    Complete m (storedLayout (computeDefaultLayout m {})) ∧
        SameIntegers (storedLayout (computeDefaultLayout m {})) (computeDefaultLayout m {}) ↔
      15 ≤ m.screenW ∧ 12 ≤ m.screenH := by
  have h15 : (15 : Int32).toInt = (15 : ℕ) := by decide
  have h12 : (12 : Int32).toInt = (12 : ℕ) := by decide
  have hw : 1 ≤ rounded 6 ((m.screenW.toInt : ℚ) / (15 : ℕ)) ↔ 15 ≤ m.screenW := by
    rw [one_le_rounded_iff (by decide) le_rfl, Int32.le_iff_toInt_le, h15]
  have hh : 1 ≤ rounded 6 ((m.screenH.toInt : ℚ) / (12 : ℕ)) ↔ 12 ≤ m.screenH := by
    rw [one_le_rounded_iff (by decide) (by decide), Int32.le_iff_toInt_le, h12]
  rw [sameIntegers_stored_iff]
  constructor
  · rintro ⟨hcomplete, -⟩
    exact ⟨hw.mp hcomplete.grid.1, hh.mp hcomplete.grid.2⟩
  · rintro ⟨hwide, hhigh⟩
    have hwide' : (15 : ℕ) ≤ m.screenW.toInt := h15 ▸ Int32.le_iff_toInt_le.mp hwide
    have hhigh' : (12 : ℕ) ≤ m.screenH.toInt := h12 ▸ Int32.le_iff_toInt_le.mp hhigh
    refine ⟨⟨⟨?_, ?_⟩, ⟨rfl, rfl⟩, ⟨hw.mpr hwide, hh.mpr hhigh⟩, ?_⟩, ?_⟩
    · have hpos : 0 < m.screenW := by
        rw [Int32.lt_iff_toInt_lt, Int32.toInt_zero]
        omega
      exact hpos
    · have hpos : 0 < m.screenH := by
        rw [Int32.lt_iff_toInt_lt, Int32.toInt_zero]
        omega
      exact hpos
    · right
      have hdpi : rounded 6 (m.dpiX.toInt : ℚ) = m.dpiX.toInt := rounded_intCast 6 _
      have hzero : |rounded 6 (m.dpiX.toInt : ℚ) - m.dpiX.toInt| ≤ 1 / 2 := by
        rw [hdpi, sub_self, abs_zero]
        norm_num
      exact hzero
    · exact measured_default hwide' hhigh'

/-! ## When a start is repeated -/

/-- The layout that a fresh start builds survives: one from the text if it is settled, or
if its grid is too long to print and the process ends; the default one on a display of 15
by 12 pixels or more. -/
def FreshHolds (m : Machine) (junk : CellLine) : Prop :=
  let read := tryLoadLayoutTxt m.real junk m.layoutTxt {}
  (read.1 = true → Settled m read.2 ∨
      ¬((formatFixed 6 read.2.gridW).length < 64 ∧ (formatFixed 6 read.2.gridH).length < 64)) ∧
    (read.1 = false → 15 ≤ m.screenW ∧ 12 ≤ m.screenH)

/-- Of a layout from the text only the grid can be too long to print. -/
theorem prints_iff_of_dpi {layout : DesktopLayout} (hdpi : layout.dpiX = 96) :
    Prints layout ↔ (formatFixed 6 layout.gridW).length < 64 ∧
      (formatFixed 6 layout.gridH).length < 64 := by
  constructor
  · intro h
    exact ⟨h.width, h.height⟩
  · intro h
    refine ⟨?_, h.1, h.2⟩
    rw [hdpi]
    exact prints_of_lt (by norm_num)

/-- A start that builds a layout is repeated if and only if that layout survives. -/
theorem stable_iff_freshHolds {m : Machine} (junk : CellLine) {ini : Ini}
    (hloaded : takesLoaded m ini = false) : Stable m junk ini ↔ FreshHolds m junk := by
  rw [stable_fresh_iff junk hloaded]
  unfold freshLayout FreshHolds
  simp only
  cases hread : (tryLoadLayoutTxt m.real junk m.layoutTxt {}).1 with
  | true =>
      obtain ⟨hw, hh, hdpi⟩ := tryLoadLayoutTxt_true hread
      rw [if_pos rfl, settled_iff hw hh hdpi, prints_iff_of_dpi hdpi]
      constructor
      · intro h
        refine ⟨fun _ => ?_, fun hnot => ?_⟩
        · exact or_iff_not_imp_right.mpr fun hfits => h (not_not.mp hfits)
        · cases hnot
      · rintro ⟨h, -⟩ hfits
        exact (h rfl).resolve_right (not_not.mpr hfits)
  | false =>
      rw [if_neg Bool.false_ne_true, computeDefaultLayout_eq, default_settled_iff]
      constructor
      · intro h
        refine ⟨fun hnot => ?_, fun _ => h (prints_default m)⟩
        cases hnot
      · rintro ⟨-, h⟩ -
        exact h rfl

/-- A start is repeated by every later one if and only if it finds a complete layout, or
builds one that survives. -/
theorem loadOrInitConfig_stable_iff (m : Machine) (junk : CellLine) (ini : Ini) :
    Stable m junk ini ↔ takesLoaded m ini = true ∨ FreshHolds m junk := by
  cases hloaded : takesLoaded m ini with
  | true => exact iff_of_true (stable_of_loaded junk hloaded) (.inl rfl)
  | false => rw [stable_iff_freshHolds junk hloaded, or_iff_right Bool.false_ne_true]

/-- The layout of a desktop of 1920 by 1080. -/
def sampleText : String :=
  "max_icon 1920 1080 corner_min 1760 890 corner_max 1910 1070 grid_cell 75 90 " ++
    "cell 0 0 1760 890 cell 1 0 1835 890 cell 2 0 1910 890 " ++
    "cell 0 1 1760 980 cell 1 1 1835 980 cell 2 1 1910 980 " ++
    "cell 0 2 1760 1070 cell 1 2 1835 1070 cell 2 2 1910 1070"

/-- A display of that size, at 144 DPI. -/
def sampleMachine : Machine where
  screenW := 1920
  screenH := 1080
  dpiX := 144
  dpiY := 144
  layoutTxt := some (sampleText.toList.map fun c => UInt8.ofNat c.toNat)
  real := Binary64.reading
  desktopPath := wide "C:\\D"
  exeDir := wide "C:\\P"
  profile := ⟨id, fun _ _ => rfl⟩

/-- Every start on it builds the layout again and forgets the last synchronisation. -/
theorem loadOrInitConfig_unstable : ¬∀ m junk ini, Stable m junk ini := by
  intro h
  have hread :
    (tryLoadLayoutTxt sampleMachine.real ⟨0, 0, 0, 0⟩ sampleMachine.layoutTxt {}).1 = true ∧
    (tryLoadLayoutTxt sampleMachine.real ⟨0, 0, 0, 0⟩ sampleMachine.layoutTxt {}).2.gridW = 75 ∧
    (tryLoadLayoutTxt sampleMachine.real ⟨0, 0, 0, 0⟩ sampleMachine.layoutTxt {}).2.gridH = 90 := by
    decide +kernel
  have hloaded : takesLoaded sampleMachine (fun _ => none) = false := by decide +kernel
  obtain ⟨htrue, hgridW, hgridH⟩ := hread
  have hfresh := (stable_iff_freshHolds _ hloaded).mp
    (h sampleMachine ⟨0, 0, 0, 0⟩ fun _ => none)
  rcases hfresh.1 htrue with hsettled | hlong
  · exact absurd hsettled.dpi (by decide)
  · rw [hgridW, hgridH] at hlong
    exact hlong ⟨prints_of_lt (by norm_num), prints_of_lt (by norm_num)⟩

end DesktopSync.Analysis
