import DesktopSync.Model.Config

/-!
# Numbers through the INI file

`ReadInt` reads what `WriteInt` wrote, `ReadUInt64` what `WriteUInt64` wrote, and
`ReadDouble` what `WriteDouble` wrote, rounded. So the layout that a start reads is the one
that `SaveIni` saved, with rounded doubles and with the cells measured by them again.
-/

set_option autoImplicit false

namespace DesktopSync.Analysis

open DesktopSync.Model
open Decimal Overlay

/-! ## One number -/

theorem toNat_lt_size {c : Char} (h : Plain c) : c.toNat < UInt16.size :=
  lt_of_le_of_lt (toNat_of_plain h).2 (by decide)

theorem chars_units {text : List Char} (h : ∀ c ∈ text, Plain c) : chars (units text) = text := by
  unfold chars units
  rw [List.map_map]
  conv_rhs => rw [← List.map_id text]
  apply List.map_congr_left
  intro c hc
  rw [Function.comp_apply, UInt16.toNat_ofNat_of_lt' (toNat_lt_size (h c hc)), Char.ofNat_toNat, id]

/-- A written number comes back whole. -/
theorem readString_of_plain {ini : Ini} {key : IniKey} {text : List Char}
    (hini : ini key = some (units text)) (hplain : ∀ c ∈ text, Plain c)
    (hlength : text.length < 64) : readString ini key = units text := by
  unfold readString buffered
  rw [hini, Option.getD_some, List.take_of_length_le (by rw [units, List.length_map]; omega)]
  apply List.takeWhile_eq_self_iff.mpr
  intro u hu
  obtain ⟨c, hc, rfl⟩ := List.mem_map.mp hu
  have hlow := (toNat_of_plain (hplain c hc)).1
  rw [bne_iff_ne, ne_eq, ← UInt16.toNat_inj,
    UInt16.toNat_ofNat_of_lt' (toNat_lt_size (hplain c hc))]
  exact Nat.ne_of_gt (lt_of_lt_of_le (by decide) hlow)

theorem units_ne_nil {text : List Char} (h : text ≠ []) : units text ≠ [] := by
  unfold units
  rw [ne_eq, List.map_eq_nil_iff]
  exact h

theorem length_formatInt_int32 (v : Int32) : (formatInt v.toInt).length < 64 := by
  have hlow := v.le_toInt
  have hhigh := v.toInt_lt
  have h : (formatInt v.toInt).length ≤ 10 + 1 := length_formatInt_le (by decide) (by omega)
  omega

theorem length_formatInt_uint64 (v : UInt64) : (formatInt v.toNat).length < 64 := by
  have hlt := v.toNat_lt
  have h : (formatInt v.toNat).length ≤ 20 + 1 := length_formatInt_le (by decide) (by omega)
  omega

/-- What `WriteInt` writes, `ReadInt` reads. -/
theorem readInt_of_written {ini : Ini} {key : IniKey} {v : Int32} (defVal : Int32)
    (h : ini key = some (writeInt key v).2) : readInt ini key defVal = v := by
  have hplain := plain_formatInt v.toInt
  have hread := readString_of_plain h hplain (length_formatInt_int32 v)
  unfold readInt wtoi
  simp only [hread, if_neg (units_ne_nil (formatInt_ne_nil v.toInt)), chars_units hplain,
    skipSpace_of_plain hplain, scanInt_formatInt, Option.getD_some, Int32.ofIntClamp_toInt]

/-- What `WriteUInt64` writes, `ReadUInt64` reads. -/
theorem readUInt64_of_written {ini : Ini} {key : IniKey} {v : UInt64} (defVal : UInt64)
    (h : ini key = some (writeUInt64 key v).2) : readUInt64 ini key defVal = v := by
  have hplain := plain_formatInt v.toNat
  have hread := readString_of_plain h hplain (length_formatInt_uint64 v)
  have hsign : decide ((v.toNat : ℤ) < 0) = false := decide_eq_false (not_lt.mpr (by positivity))
  unfold readUInt64 scanUInt64
  simp only [hread, if_neg (units_ne_nil (formatInt_ne_nil v.toNat)), chars_units hplain,
    skipSpace_of_plain hplain, scanInt_formatInt, Option.map_some, Option.getD_some, hsign,
    Int.natAbs_natCast, ull_toNat]

/-- What `WriteDouble` writes, `ReadDouble` reads rounded. -/
theorem readDouble_of_written {ini : Ini} {key : IniKey} {v : ℚ} (defVal : ℚ)
    {entry : IniKey × WString} (hwrite : writeDouble key v = some entry)
    (h : ini key = some entry.2) : readDouble ini key defVal = rounded 6 v := by
  obtain ⟨hlength, hentry⟩ := Option.ite_none_right_eq_some.mp hwrite
  rw [← Option.some.inj hentry] at h
  have hplain := plain_formatFixed 6 v
  have hread := readString_of_plain h hplain hlength
  unfold readDouble
  simp only [hread, if_neg (units_ne_nil (formatFixed_ne_nil 6 v)), chars_units hplain,
    skipSpace_of_plain hplain, scanRat_formatFixed (by decide : 0 < 6), Option.getD_some]

/-! ## What `SaveIni` leaves -/

/-- The text is a number as the program writes it. -/
def IsNumber (text : WString) : Prop := ∃ number, text = units number ∧ ∀ c ∈ number, Plain c

theorem isNumber_writeInt (key : IniKey) (v : Int32) : IsNumber (writeInt key v).2 :=
  ⟨_, rfl, plain_formatInt _⟩

theorem isNumber_writeUInt64 (key : IniKey) (v : UInt64) : IsNumber (writeUInt64 key v).2 :=
  ⟨_, rfl, plain_formatInt _⟩

theorem isNumber_writeDouble {key : IniKey} {v : ℚ} {entry : IniKey × WString}
    (h : writeDouble key v = some entry) : entry.1 = key ∧ IsNumber entry.2 := by
  obtain ⟨-, hentry⟩ := Option.ite_none_right_eq_some.mp h
  rw [← Option.some.inj hentry]
  exact ⟨rfl, _, rfl, plain_formatFixed _ _⟩

theorem kept_of_isNumber (p : Profile) {text : WString} (h : IsNumber text) :
    p.kept text = text := by
  obtain ⟨number, rfl, hplain⟩ := h
  exact p.kept_number number hplain

/-- Writing one entry. -/
theorem write_singleton (p : Profile) (ini : Ini) (entry : IniKey × WString) :
    p.write ini [entry] = Function.update ini entry.1 (some (p.kept entry.2)) := by
  unfold Profile.write
  rw [List.map_singleton]
  rfl

/-- The keys that `SaveIni` writes, the peer's only where there is one. -/
def savedKeys (peer : Bool) : List IniKey :=
  [.resolutionWidth, .resolutionHeight, .dpi, .minX, .minY, .maxX, .maxY, .cellWidth,
    .cellHeight] ++
    ((List.finRange 3).flatMap fun j => (List.finRange 3).flatMap fun i =>
      [.cellX i j, .cellY i j]) ++
    (if peer then [.ipv4] else []) ++ [.lastSync]

theorem nodup_savedKeys (peer : Bool) : (savedKeys peer).Nodup := by
  cases peer with
  | true => decide
  | false => decide

/-- The three numbers with a fraction fit their buffers. -/
structure Prints (layout : DesktopLayout) : Prop where
  dpi : (formatFixed 6 layout.dpiX).length < 64
  width : (formatFixed 6 layout.gridW).length < 64
  height : (formatFixed 6 layout.gridH).length < 64

theorem writeDouble_isSome_iff (key : IniKey) (v : ℚ) :
    (writeDouble key v).isSome = true ↔ (formatFixed 6 v).length < 64 := by
  unfold writeDouble
  simp only
  split
  · next h => exact iff_of_true rfl h
  · next h => exact iff_of_false Bool.false_ne_true h

/-- `SaveIni` writes exactly where every number can be printed. -/
theorem savedEntries_isSome_iff (s : ConfigState) :
    (savedEntries s).isSome = true ↔ Prints s.layout := by
  have hprints : Prints s.layout ↔ (writeDouble .dpi s.layout.dpiX).isSome = true ∧
      (writeDouble .cellWidth s.layout.gridW).isSome = true ∧
        (writeDouble .cellHeight s.layout.gridH).isSome = true := by
    rw [writeDouble_isSome_iff, writeDouble_isSome_iff, writeDouble_isSome_iff]
    exact ⟨fun h => ⟨h.dpi, h.width, h.height⟩, fun h => ⟨h.1, h.2.1, h.2.2⟩⟩
  rw [hprints]
  unfold savedEntries
  simp only [Option.bind_eq_bind]
  cases writeDouble .dpi s.layout.dpiX with
  | none => simp
  | some dpi =>
      cases writeDouble .cellWidth s.layout.gridW with
      | none => simp
      | some width =>
          cases writeDouble .cellHeight s.layout.gridH with
          | none => simp
          | some height => simp

/-- The keys under which the entries of `SaveIni` are written. -/
theorem savedEntries_keys {s : ConfigState} {entries : List (IniKey × WString)}
    (h : savedEntries s = some entries) :
    entries.map Prod.fst = savedKeys (decide (s.peerIpv4 ≠ [])) := by
  unfold savedEntries at h
  simp only [Option.bind_eq_bind, Option.bind_eq_some_iff] at h
  obtain ⟨dpi, hdpi, width, hwidth, height, hheight, hentries⟩ := h
  rw [← Option.some.inj hentries]
  unfold savedKeys
  simp only [List.map_append, List.map_cons, List.map_nil, List.map_flatMap,
    (isNumber_writeDouble hdpi).1, (isNumber_writeDouble hwidth).1,
    (isNumber_writeDouble hheight).1]
  congr 2
  by_cases hpeer : s.peerIpv4 = []
  · simp [hpeer]
  · simp [hpeer]

theorem savedEntries_nodup {s : ConfigState} {entries : List (IniKey × WString)}
    (h : savedEntries s = some entries) : (entries.map Prod.fst).Nodup := by
  rw [savedEntries_keys h]
  exact nodup_savedKeys _

/-- The numbers that `SaveIni` writes are in the file afterwards. -/
theorem saveIni_number {p : Profile} {ini ini' : Ini} {s : ConfigState}
    {entries : List (IniKey × WString)} (hentries : savedEntries s = some entries)
    (h : saveIni p ini s = some ini') {e : IniKey × WString} (he : e ∈ entries)
    (hnumber : IsNumber e.2) : ini' e.1 = some e.2 := by
  have hnodup := savedEntries_nodup hentries
  unfold saveIni at h
  rw [hentries, Option.map_some, Option.some.injEq] at h
  have hkeys : (entries.map fun e => (e.1, p.kept e.2)).map Prod.fst = entries.map Prod.fst := by
    rw [List.map_map]
    rfl
  rw [← hkeys] at hnodup
  have hget := putAll_of_nodup ini hnodup (List.mem_map_of_mem he)
  rw [kept_of_isNumber p hnumber] at hget
  rw [← h]
  exact hget

/-- The layout that the next start reads. -/
def storedLayout (layout : DesktopLayout) : DesktopLayout :=
  { layout with
    dpiX := rounded 6 layout.dpiX
    dpiY := rounded 6 layout.dpiX
    gridW := rounded 6 layout.gridW
    gridH := rounded 6 layout.gridH
    cells := fun j i =>
      { layout.cells j i with
        right := (layout.cells j i).left + castInt (rounded 6 layout.gridW)
        bottom := (layout.cells j i).top + castInt (rounded 6 layout.gridH) } }

theorem loadFromIni_saved (m : Machine) {p : Profile} {ini ini' : Ini} {s : ConfigState}
    (h : saveIni p ini s = some ini') (state : ConfigState) :
    (loadFromIni m ini' state).2.layout = storedLayout s.layout ∧
      (loadFromIni m ini' state).2.lastSync = s.lastSync := by
  obtain ⟨entries, hentries⟩ : ∃ entries, savedEntries s = some entries := by
    unfold saveIni at h
    obtain ⟨entries, hentries, -⟩ := Option.map_eq_some_iff.mp h
    exact ⟨entries, hentries⟩
  have hget := fun e => @saveIni_number p ini ini' s entries hentries h e
  unfold savedEntries at hentries
  simp only [Option.bind_eq_bind, Option.bind_eq_some_iff] at hentries
  obtain ⟨dpi, hdpi, width, hwidth, height, hheight, hentries⟩ := hentries
  rw [Option.some.injEq] at hentries
  have hint : ∀ key v, writeInt key v ∈ entries → readInt ini' key 0 = v := fun key v hmem =>
    readInt_of_written 0 (hget _ hmem (isNumber_writeInt key v))
  have hdouble : ∀ {key v e}, writeDouble key v = some e → e ∈ entries →
      readDouble ini' key 0 = rounded 6 v := by
    intro key v e hwrite hmem
    obtain ⟨hkey, hnumber⟩ := isNumber_writeDouble hwrite
    exact readDouble_of_written 0 hwrite (hkey ▸ hget e hmem hnumber)
  have hcell : ∀ i j, ∀ e ∈ [writeInt (.cellX i j) (s.layout.cells j i).left,
      writeInt (.cellY i j) (s.layout.cells j i).top], e ∈ entries := by
    intro i j e he
    rw [← hentries]
    refine List.mem_append_left _ (List.mem_append_left _ (List.mem_append_right _ ?_))
    exact List.mem_flatMap.mpr ⟨j, List.mem_finRange j,
      List.mem_flatMap.mpr ⟨i, List.mem_finRange i, he⟩⟩
  have hcellX : ∀ i j, readInt ini' (.cellX i j) 0 = (s.layout.cells j i).left :=
    fun i j => hint _ _ (hcell i j _ (by simp))
  have hcellY : ∀ i j, readInt ini' (.cellY i j) 0 = (s.layout.cells j i).top :=
    fun i j => hint _ _ (hcell i j _ (by simp))
  have hlastSync : readUInt64 ini' .lastSync 0 = s.lastSync :=
    readUInt64_of_written 0 (hget _ (by simp [← hentries]) (isNumber_writeUInt64 _ _))
  unfold loadFromIni storedLayout
  simp only [hint .resolutionWidth s.layout.screenW (by simp [← hentries]),
    hint .resolutionHeight s.layout.screenH (by simp [← hentries]),
    hint .minX s.layout.cornerMin.x (by simp [← hentries]),
    hint .minY s.layout.cornerMin.y (by simp [← hentries]),
    hint .maxX s.layout.cornerMax.x (by simp [← hentries]),
    hint .maxY s.layout.cornerMax.y (by simp [← hentries]),
    hdouble hdpi (by simp [← hentries]), hdouble hwidth (by simp [← hentries]),
    hdouble hheight (by simp [← hentries]), hcellX, hcellY, hlastSync, and_self]

end DesktopSync.Analysis
