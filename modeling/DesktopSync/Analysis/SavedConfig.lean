import DesktopSync.Analysis.IniFile
import DesktopSync.Model.ProfileText

/-!
# A saved configuration loads back

`SaveIni` writes some thirty entries and `LoadFromIni` reads them, each under the texts of
a section and a key. The texts tell the entries apart, and what is read under them is what
was written: numbers as they were, doubles where six decimals are enough, the far edges of
the cells where they lie a grid step behind the near ones.
-/

set_option autoImplicit false

namespace DesktopSync.Analysis

open DesktopSync.Model
open Decimal Overlay

/-! ## The texts tell the entries apart -/

theorem mem_savedKeys (key : IniKey) : key ∈ savedKeys true := by
  have hcell : ∀ i j : Fin 3,
      IniKey.cellX i j ∈ savedKeys true ∧ IniKey.cellY i j ∈ savedKeys true := by
    decide
  cases key with
  | cellX i j => exact (hcell i j).1
  | cellY i j => exact (hcell i j).2
  | _ => decide

theorem nodup_slots : ((savedKeys true).map IniKey.slot).Nodup := by decide +kernel

theorem slot_injective : Function.Injective IniKey.slot := by
  intro key key' h
  exact List.inj_on_of_nodup_map nodup_slots (mem_savedKeys key) (mem_savedKeys key') h

/-- Through the texts every entry is written and read under its own key. -/
theorem ini_writeText (p : Profile) (store : Store) (entries : List (IniKey × WString)) :
    (p.writeText store entries).ini = p.write store.ini entries := by
  have hmap : entries.map (fun e => (e.1.slot, p.kept e.2)) =
      (entries.map fun e => (e.1, p.kept e.2)).map fun e => (e.1.slot, e.2) := by
    rw [List.map_map]
    rfl
  unfold Profile.writeText Profile.write Store.ini
  rw [hmap]
  exact putAll_comp slot_injective store _

theorem ini_saveText (p : Profile) (store : Store) (s : ConfigState) :
    (saveText p store s).map Store.ini = saveIni p store.ini s := by
  unfold saveText saveIni
  rw [Option.map_map]
  congr 1
  funext entries
  exact ini_writeText p store entries

/-! ## The peer -/

/-- Four groups of one to three digits, with points between them. -/
def DottedIpv4 (text : WString) : Prop :=
  ∃ a b c d : List Char, text = units (a ++ '.' :: b ++ '.' :: c ++ '.' :: d) ∧
    ∀ group ∈ [a, b, c, d], group.length ∈ [1, 2, 3] ∧ ∀ x ∈ group, x.isDigit = true

/-- The text is a written number, and no buffer is too short for it. -/
theorem DottedIpv4.spec {text : WString} (h : DottedIpv4 text) :
    text ≠ [] ∧ ∃ number, text = units number ∧ (∀ x ∈ number, Plain x) ∧ number.length < 64 := by
  obtain ⟨a, b, c, d, rfl, hgroups⟩ := h
  have hgroup : ∀ group ∈ [a, b, c, d], group.length ≤ 3 ∧ ∀ x ∈ group, Plain x := by
    intro group hmem
    obtain ⟨hlength, hdigits⟩ := hgroups group hmem
    simp only [List.mem_cons, List.not_mem_nil, or_false] at hlength
    exact ⟨by omega, fun x hx => .inl (hdigits x hx)⟩
  obtain ⟨halength, ha⟩ := hgroup a (by simp)
  obtain ⟨hblength, hb⟩ := hgroup b (by simp)
  obtain ⟨hclength, hc⟩ := hgroup c (by simp)
  obtain ⟨hdlength, hd⟩ := hgroup d (by simp)
  have hpoint : Plain '.' := .inr (.inr rfl)
  refine ⟨?_, _, rfl, ?_, ?_⟩
  · apply units_ne_nil
    simp
  · simp only [List.forall_mem_append, List.forall_mem_cons]
    exact ⟨⟨⟨ha, hpoint, hb⟩, hpoint, hc⟩, hpoint, hd⟩
  · simp only [List.length_append, List.length_cons]
    omega

/-- A peer that is saved is read back. -/
theorem readString_saved_peer {p : Profile} {ini ini' : Ini} {s : ConfigState}
    (h : saveIni p ini s = some ini') (hpeer : DottedIpv4 s.peerIpv4) :
    readString ini' .ipv4 = s.peerIpv4 := by
  obtain ⟨hne, number, htext, hplain, hlength⟩ := hpeer.spec
  obtain ⟨entries, hentries⟩ : ∃ entries, savedEntries s = some entries := by
    obtain ⟨entries, hentries, -⟩ := Option.map_eq_some_iff.mp h
    exact ⟨entries, hentries⟩
  have hmem : (IniKey.ipv4, s.peerIpv4) ∈ entries := by
    have hspec := hentries
    unfold savedEntries at hspec
    simp only [Option.bind_eq_bind, Option.bind_eq_some_iff] at hspec
    obtain ⟨dpi, -, width, -, height, -, hspec⟩ := hspec
    rw [← Option.some.inj hspec, if_neg hne]
    simp
  have hstored := saveIni_number hentries h hmem ⟨number, htext, hplain⟩
  simp only [htext] at hstored ⊢
  exact readString_of_plain hstored hplain hlength

/-- Without a peer the entry stays as it was. -/
theorem readString_unsaved_peer {p : Profile} {ini ini' : Ini} {s : ConfigState}
    (h : saveIni p ini s = some ini') (hpeer : s.peerIpv4 = []) :
    readString ini' .ipv4 = readString ini .ipv4 := by
  obtain ⟨entries, hentries, hini⟩ := Option.map_eq_some_iff.mp h
  have hkeys : (entries.map fun e => (e.1, p.kept e.2)).map Prod.fst = savedKeys false := by
    rw [List.map_map, ← decide_eq_false (not_not.mpr hpeer), ← savedEntries_keys hentries]
    rfl
  have hkept : ini' .ipv4 = ini .ipv4 := by
    rw [← hini]
    apply putAll_of_notMem
    rw [hkeys]
    decide
  unfold readString
  rw [hkept]

/-! ## The whole configuration -/

/-- Six decimals are enough for the number. -/
def SixDecimals (q : ℚ) : Prop := ∃ n : ℤ, q = n / 10 ^ 6

theorem SixDecimals.rounded {q : ℚ} (h : SixDecimals q) : rounded 6 q = q := by
  obtain ⟨n, rfl⟩ := h
  have hpow : (10 : ℚ) ^ 6 ≠ 0 := by positivity
  unfold Decimal.rounded scaled
  rw [div_mul_cancel₀ _ hpow, round_intCast]

/-- A configuration of which nothing is lost in the file. -/
structure Saveable (s : ConfigState) (ini : Ini) : Prop where
  prints : Prints s.layout
  dpi : SixDecimals s.layout.dpiX ∧ s.layout.dpiX = s.layout.dpiY
  grid : SixDecimals s.layout.gridW ∧ SixDecimals s.layout.gridH
  /-- With sums that wrap around, so that nothing is asked about overflow. -/
  cells : ∀ j i, (s.layout.cells j i).right =
      (s.layout.cells j i).left + castInt s.layout.gridW ∧
    (s.layout.cells j i).bottom = (s.layout.cells j i).top + castInt s.layout.gridH
  peer : DottedIpv4 s.peerIpv4 ∨ s.peerIpv4 = [] ∧ ini .ipv4 = none

theorem Saveable.storedLayout {s : ConfigState} {ini : Ini} (h : Saveable s ini) :
    storedLayout s.layout = s.layout := by
  have hdpi := h.dpi.1.rounded
  have hcells : (fun j i =>
      { s.layout.cells j i with
        right := (s.layout.cells j i).left + castInt s.layout.gridW
        bottom := (s.layout.cells j i).top + castInt s.layout.gridH }) = s.layout.cells := by
    funext j i
    rw [← (h.cells j i).1, ← (h.cells j i).2]
  have hdpiY : ∀ layout : DesktopLayout, layout.dpiX = layout.dpiY →
      { layout with dpiY := layout.dpiX } = layout := by
    rintro ⟨⟩ hsame
    dsimp only at hsame
    subst hsame
    rfl
  unfold Analysis.storedLayout
  rw [hdpi, h.grid.1.rounded, h.grid.2.rounded, hcells]
  exact hdpiY s.layout h.dpi.2

/-- `SaveIni` writes such a configuration over whatever the file holds, and `LoadFromIni`
reads it back. -/
theorem saved_loads_back (m : Machine) (p : Profile) (store : Store) (s state : ConfigState)
    (h : Saveable s store.ini) :
    ∃ store', saveText p store s = some store' ∧
      (loadFromIni m store'.ini state).2.layout = s.layout ∧
      (loadFromIni m store'.ini state).2.lastSync = s.lastSync ∧
      (loadFromIni m store'.ini state).2.peerIpv4 = s.peerIpv4 ∧
      ((loadFromIni m store'.ini state).1 = true ↔
        (0 < s.layout.screenW ∧ 0 < s.layout.screenH) ∧
          1 / 10 < s.layout.gridW ∧ 1 / 10 < s.layout.gridH) := by
  obtain ⟨entries, hentries⟩ :=
    Option.isSome_iff_exists.mp ((savedEntries_isSome_iff s).mpr h.prints)
  have hsaved : saveText p store s = some (p.writeText store entries) := by
    rw [saveText, hentries, Option.map_some]
  have hini : saveIni p store.ini s = some (p.writeText store entries).ini := by
    rw [← ini_saveText, hsaved, Option.map_some]
  obtain ⟨hlayout, hlastSync⟩ := loadFromIni_saved m hini state
  rw [h.storedLayout] at hlayout
  refine ⟨_, hsaved, hlayout, hlastSync, ?_, ?_⟩
  · change readString (p.writeText store entries).ini .ipv4 = s.peerIpv4
    rcases h.peer with hpeer | ⟨hpeer, hnone⟩
    · exact readString_saved_peer hini hpeer
    · rw [readString_unsaved_peer hini hpeer, hpeer, readString, hnone]
      rfl
  · have hreturns : (loadFromIni m (p.writeText store entries).ini state).1 =
        (0 < s.layout.screenW && 0 < s.layout.screenH && 1 / 10 < s.layout.gridW &&
          1 / 10 < s.layout.gridH) := by
      rw [← hlayout]
      rfl
    rw [hreturns]
    simp only [Bool.and_eq_true, decide_eq_true_eq, and_assoc]

/-- The default configuration of a screen of 1920 by 1080, with a peer. -/
def savedSample : ConfigState where
  desktopPath := wide "C:\\D"
  targetDir := wide "C:\\D"
  iniPath := wide "C:\\P\\desktopsync.ini"
  lastSync := 1700000000
  layout := fillCellsFromRect
    { screenW := 1920
      screenH := 1080
      cornerMin := ⟨1654, 890⟩
      cornerMax := ⟨1910, 1070⟩
      gridW := 128
      gridH := 90 }
  peerIpv4 := wide "10.0.0.2"

theorem saveable_savedSample (ini : Ini) : Saveable savedSample ini where
  prints := ⟨by decide +kernel, by decide +kernel, by decide +kernel⟩
  dpi := ⟨⟨96000000, by norm_num [savedSample, fillCellsFromRect]⟩, rfl⟩
  grid := ⟨⟨128000000, by norm_num [savedSample, fillCellsFromRect]⟩,
    90000000, by norm_num [savedSample, fillCellsFromRect]⟩
  cells _ _ := ⟨rfl, rfl⟩
  peer := .inl ⟨['1', '0'], ['0'], ['0'], ['2'], by decide, by simp [Char.isDigit]⟩

theorem saved_loads_back_sample :
    ∃ store', saveText (Machine.ofScreen 1920 1080).profile (fun _ => none) savedSample =
        some store' ∧
      (loadFromIni (.ofScreen 1920 1080) store'.ini savedSample).2.layout = savedSample.layout ∧
      (loadFromIni (.ofScreen 1920 1080) store'.ini savedSample).2.lastSync =
        savedSample.lastSync ∧
      (loadFromIni (.ofScreen 1920 1080) store'.ini savedSample).2.peerIpv4 =
        savedSample.peerIpv4 ∧
      ((loadFromIni (.ofScreen 1920 1080) store'.ini savedSample).1 = true ↔
        (0 < savedSample.layout.screenW ∧ 0 < savedSample.layout.screenH) ∧
          1 / 10 < savedSample.layout.gridW ∧ 1 / 10 < savedSample.layout.gridH) :=
  saved_loads_back _ _ _ savedSample savedSample (saveable_savedSample _)

end DesktopSync.Analysis
