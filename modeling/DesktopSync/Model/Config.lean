import DesktopSync.Computation.Binary64
import DesktopSync.Computation.Overlay
import DesktopSync.Computation.TextStream
import DesktopSync.Computation.TransitionSystem
import DesktopSync.Model.Shared

/-!
# The configuration file

`config_dll.cpp`: the two loaders, the default layout, the writer and the start that
chooses between them. A `double` is a rational and is computed with exactly, so `inf` and
`nan` are no numbers, and `%.6f` rounds to six decimals. The INI numbers are read as exact
decimals; what `>>` makes of a number of `desktop_layout.txt` is a parameter, which is
`Binary64.reading` for the program.
The INI file holds one text for each entry the program knows; what the profile functions
make of a text they write is a parameter. Every write succeeds.

A machine is started again and again; between two starts the program stores a peer and the
time of a synchronisation. `Between` has two ghosts, what was stored last.
-/

set_option autoImplicit false

namespace DesktopSync.Model

open Decimal TextStream TransitionSystem

/-! ## Texts and numbers -/

/-- A printed text as wide units. -/
def units (text : List Char) : WString := text.map fun c => UInt16.ofNat c.toNat

/-- A wide text as the number parsers read it. -/
def chars (text : WString) : List Char := text.map fun u => Char.ofNat u.toNat

/-- `static_cast<int>` of a `double`: towards zero, and what the processor answers where
the number does not fit. -/
def castInt (q : ℚ) : Int32 :=
  let n := if q < 0 then ⌈q⌉ else ⌊q⌋
  if -2 ^ 31 ≤ n ∧ n < 2 ^ 31 then Int32.ofInt n else Int32.minValue

/-- `_wtoi` -/
def wtoi (text : List Char) : Int32 :=
  Int32.ofIntClamp ((scanInt (skipSpace text)).1.getD 0)

/-- `swscanf_s(buf, L"%llu", &v)`; `none` where it matches nothing. -/
def scanUInt64 (text : List Char) : Option UInt64 :=
  (scanInt (skipSpace text)).1.map fun n => ull (decide (n < 0)) n.natAbs

/-! ## The layout of a desktop -/

structure Point where
  x : Int32
  y : Int32
  deriving DecidableEq

structure Rect where
  left : Int32
  top : Int32
  right : Int32
  bottom : Int32
  deriving DecidableEq

/-- SOURCE: shared.hpp:42-53 -/
structure DesktopLayout where
  screenW : Int32 := 0
  screenH : Int32 := 0
  dpiX : ℚ := 96
  dpiY : ℚ := 96
  cornerMin : Point := ⟨0, 0⟩
  cornerMax : Point := ⟨0, 0⟩
  gridW : ℚ := 0
  gridH : ℚ := 0
  /-- By row and column. -/
  cells : Fin 3 → Fin 3 → Rect := fun _ _ => ⟨0, 0, 0, 0⟩

/-- The whole configuration record.
SOURCE: shared.hpp:55-63 -/
structure ConfigState extends IniState where
  layout : DesktopLayout
  peerIpv4 : WString

/-! ## The INI file -/

/-- The entries of `desktopsync.ini`: `ResolutionWidth`, `ResolutionHeight` and `DPI` in
`[Display]`, `min_x` to `max_y` in `[Corner]`, `cell_width` and `cell_height` in `[Grid]`,
`cell_i_j_x` and `cell_i_j_y` in `[Cells]`, `ipv4` in `[p2pip]`, `last_sync` in `[State]`. -/
inductive IniKey where
  | resolutionWidth
  | resolutionHeight
  | dpi
  | minX
  | minY
  | maxX
  | maxY
  | cellWidth
  | cellHeight
  | cellX (i j : Fin 3)
  | cellY (i j : Fin 3)
  | ipv4
  | lastSync
  deriving DecidableEq

/-- The entries that are there, with their texts. -/
abbrev Ini := IniKey → Option WString

/-- What the profile functions keep of a text that is written: not a pair of quotes around
it, for one. A number is kept as it is. -/
structure Profile where
  kept : WString → WString
  kept_number : ∀ text, (∀ c ∈ text, Plain c) → kept (units text) = units text

/-- `WritePrivateProfileStringW`, entry by entry. -/
def Profile.write (p : Profile) (ini : Ini) (entries : List (IniKey × WString)) : Ini :=
  Overlay.putAll ini (entries.map fun e => (e.1, p.kept e.2))

/-- `GetPrivateProfileStringW` into `wchar_t buf[64]`: at most 63 units and a terminator. -/
def buffered (text : WString) : WString := (text.take 63).takeWhile (· != 0)

def readString (ini : Ini) (key : IniKey) : WString := buffered ((ini key).getD [])

/-- SOURCE: config_dll.cpp:14-20 -/
def readInt (ini : Ini) (key : IniKey) (defVal : Int32) : Int32 :=
  let buf := readString ini key
  if buf = [] then defVal else wtoi (chars buf)

/-- SOURCE: config_dll.cpp:22-30 -/
def readUInt64 (ini : Ini) (key : IniKey) (defVal : UInt64) : UInt64 :=
  let buf := readString ini key
  if buf = [] then defVal else (scanUInt64 (chars buf)).getD defVal

/-- SOURCE: config_dll.cpp:32-40 -/
def readDouble (ini : Ini) (key : IniKey) (defVal : ℚ) : ℚ :=
  let buf := readString ini key
  if buf = [] then defVal else (scanRat (skipSpace (chars buf))).1.getD defVal

/-- SOURCE: config_dll.cpp:42-47 -/
def writeInt (key : IniKey) (v : Int32) : IniKey × WString := (key, units (formatInt v.toInt))

/-- SOURCE: config_dll.cpp:49-54 -/
def writeUInt64 (key : IniKey) (v : UInt64) : IniKey × WString := (key, units (formatInt v.toNat))

/-- `none` where the text does not fit the buffer: `swprintf_s` ends the process.
SOURCE: config_dll.cpp:56-61 -/
def writeDouble (key : IniKey) (v : ℚ) : Option (IniKey × WString) :=
  let text := formatFixed 6 v
  if text.length < 64 then some (key, units text) else none

/-! ## The two sources of a new layout -/

/-- SOURCE: config_dll.cpp:63-78 -/
def fillCellsFromRect (layout : DesktopLayout) : DesktopLayout :=
  { layout with
    cells := fun j i =>
      let left := castInt (layout.cornerMin.x.toInt + i.val * layout.gridW)
      let top := castInt (layout.cornerMin.y.toInt + j.val * layout.gridH)
      { left := left
        top := top
        right := left + castInt layout.gridW
        bottom := top + castInt layout.gridH } }

/-- `ifs >>` into an `int` or a `LONG`: zero where there is no number, the nearest bound
where it does not fit, and in both cases the stream has failed. -/
def scanLong (text : List Char) : Int32 × Stream :=
  match scanInt text with
  | (none, _) => (0, none)
  | (some n, rest) =>
      (Int32.ofIntClamp n, if -2 ^ 31 ≤ n ∧ n < 2 ^ 31 then some rest else none)

/-- `ifs >>` into a `double`: zero where there is no number, and the stream has failed. -/
def scanDouble (real : Reading) (text : List Char) : ℚ × Stream :=
  match scanRat text with
  | (none, _) => (0, none)
  | (some q, rest) => ((real q).1, if (real q).2 then some rest else none)

/-- What the four variables of a `cell` line hold before anything is read into them. -/
structure CellLine where
  i : Int32
  j : Int32
  x : Int32
  y : Int32

/-- `layout.cells[j][i] = r` -/
def setCell (cells : Fin 3 → Fin 3 → Rect) (j i : Int32) (r : Rect) : Fin 3 → Fin 3 → Rect :=
  fun j' i' => if (j'.val : ℤ) = j.toInt ∧ (i'.val : ℤ) = i.toInt then r else cells j' i'

/-- One pass of the loop over `desktop_layout.txt`, behind the key.
SOURCE: config_dll.cpp:88-117 -/
def layoutLine (real : Reading) (junk : CellLine) (key : List Char) (layout : DesktopLayout)
    (ifs : Stream) : DesktopLayout × Stream :=
  if key = "max_icon".toList then
    let w := ifs.extract scanLong layout.screenW
    let h := w.2.extract scanLong layout.screenH
    ({ layout with screenW := w.1, screenH := h.1 }, h.2)
  else if key = "corner_min".toList then
    let x := ifs.extract scanLong layout.cornerMin.x
    let y := x.2.extract scanLong layout.cornerMin.y
    ({ layout with cornerMin := ⟨x.1, y.1⟩ }, y.2)
  else if key = "corner_max".toList then
    let x := ifs.extract scanLong layout.cornerMax.x
    let y := x.2.extract scanLong layout.cornerMax.y
    ({ layout with cornerMax := ⟨x.1, y.1⟩ }, y.2)
  else if key = "grid_cell".toList then
    let w := ifs.extract (scanDouble real) layout.gridW
    let h := w.2.extract (scanDouble real) layout.gridH
    ({ layout with gridW := w.1, gridH := h.1 }, h.2)
  else if key = "cell".toList then
    let i := ifs.extract scanLong junk.i
    let j := i.2.extract scanLong junk.j
    let x := j.2.extract scanLong junk.x
    let y := x.2.extract scanLong junk.y
    if 0 ≤ i.1 ∧ i.1 < 3 ∧ 0 ≤ j.1 ∧ j.1 < 3 then
      let r : Rect := ⟨x.1, y.1, x.1 + castInt layout.gridW, y.1 + castInt layout.gridH⟩
      ({ layout with cells := setCell layout.cells j.1 i.1 r }, y.2)
    else (layout, y.2)
  else (layout, ifs)

theorem shortens_scanLong : Stream.Shortens scanLong := by
  intro text
  have hrest := length_scanInt_le text
  unfold scanLong
  split
  · exact Nat.zero_le _
  · next n rest heq =>
      rw [heq] at hrest
      simp only
      split
      · exact Nat.succ_le_succ hrest
      · exact Nat.zero_le _

theorem shortens_scanDouble (real : Reading) : Stream.Shortens (scanDouble real) := by
  intro text
  have hrest := length_scanRat_le text
  unfold scanDouble
  split
  · exact Nat.zero_le _
  · next q rest heq =>
      rw [heq] at hrest
      simp only
      split
      · exact Nat.succ_le_succ hrest
      · exact Nat.zero_le _

theorem size_layoutLine_le (real : Reading) (junk : CellLine) (key : List Char)
    (layout : DesktopLayout) (ifs : Stream) :
    (layoutLine real junk key layout ifs).2.size ≤ ifs.size := by
  have hlong : ∀ (old : Int32) (s : Stream), (s.extract scanLong old).2.size ≤ s.size :=
    fun old s => Stream.size_extract_le shortens_scanLong old s
  have hdouble : ∀ (old : ℚ) (s : Stream), (s.extract (scanDouble real) old).2.size ≤ s.size :=
    fun old s => Stream.size_extract_le (shortens_scanDouble real) old s
  unfold layoutLine
  simp only
  split_ifs
  · exact (hlong _ _).trans (hlong _ _)
  · exact (hlong _ _).trans (hlong _ _)
  · exact (hlong _ _).trans (hlong _ _)
  · exact (hdouble _ _).trans (hdouble _ _)
  · exact (hlong _ _).trans ((hlong _ _).trans ((hlong _ _).trans (hlong _ _)))
  · exact (hlong _ _).trans ((hlong _ _).trans ((hlong _ _).trans (hlong _ _)))
  · exact le_rfl

/-- SOURCE: config_dll.cpp:86-118 -/
def readLayout (real : Reading) (junk : CellLine) (layout : DesktopLayout) (ifs : Stream) :
    DesktopLayout :=
  match _ : ifs.word with
  | none => layout
  | some (key, rest) =>
      let line := layoutLine real junk key layout (some rest)
      readLayout real junk line.1 line.2
termination_by ifs.size
decreasing_by exact lt_of_le_of_lt (size_layoutLine_le _ _ _ _ _) (Stream.size_word_lt ‹_›)

/-- The text that a stream in text mode reads from a file: it ends at a `0x1A`. That "\r\n" is
read as one blank changes nothing, as both are blanks. -/
def fileText (bytes : List UInt8) : List Char :=
  (bytes.takeWhile (· != 0x1A)).map fun b => Char.ofNat b.toNat

/-- What `TryLoadLayoutTxt` returns and what it leaves in the layout; the text is `none`
where the file does not open.
SOURCE: config_dll.cpp:81-120 -/
def tryLoadLayoutTxt (real : Reading) (junk : CellLine) (text : Option (List UInt8))
    (layout : DesktopLayout) : Bool × DesktopLayout :=
  match text with
  | none => (false, layout)
  | some bytes =>
      let layout := readLayout real junk layout (some (fileText bytes))
      (0 < layout.screenW && 0 < layout.screenH, layout)

/-- What the program finds around it. -/
structure Machine where
  /-- `GetSystemMetrics(SM_CXSCREEN)` -/
  screenW : Int32
  /-- `GetSystemMetrics(SM_CYSCREEN)` -/
  screenH : Int32
  /-- `GetDeviceCaps(hdc, LOGPIXELSX)` -/
  dpiX : Int32
  /-- `GetDeviceCaps(hdc, LOGPIXELSY)` -/
  dpiY : Int32
  /-- What `desktop_layout.txt` yields; `none` where it does not open. -/
  layoutTxt : Option (List UInt8)
  /-- What `>>` makes of a number for a `double`. -/
  real : Reading
  desktopPath : WString
  exeDir : WString
  profile : Profile

/-- A screen of that size at 96 DPI, no `desktop_layout.txt`, and an INI file that is kept as
it is written. -/
def Machine.ofScreen (width height : Int32) : Machine where
  screenW := width
  screenH := height
  dpiX := 96
  dpiY := 96
  layoutTxt := none
  real := Binary64.reading
  desktopPath := wide "C:\\D"
  exeDir := wide "C:\\P"
  profile := ⟨fun text => text, fun _ _ => rfl⟩

/-- SOURCE: config_dll.cpp:122-136 -/
def computeDefaultLayout (m : Machine) (layout : DesktopLayout) : DesktopLayout :=
  let gridW : ℚ := m.screenW.toInt / 15
  let gridH : ℚ := m.screenH.toInt / 12
  let cornerMax : Point := ⟨m.screenW - 10, m.screenH - 10⟩
  fillCellsFromRect { layout with
    screenW := m.screenW
    screenH := m.screenH
    dpiX := m.dpiX.toInt
    dpiY := m.dpiY.toInt
    gridW := gridW
    gridH := gridH
    cornerMax := cornerMax
    cornerMin :=
      ⟨castInt (cornerMax.x.toInt - gridW * 2), castInt (cornerMax.y.toInt - gridH * 2)⟩ }

/-! ## Loading, saving, starting -/

/-- SOURCE: config_dll.cpp:138-181 -/
def loadFromIni (m : Machine) (ini : Ini) (state : ConfigState) : Bool × ConfigState :=
  let dpi := readDouble ini .dpi 0
  let gridW := readDouble ini .cellWidth 0
  let gridH := readDouble ini .cellHeight 0
  let layout : DesktopLayout :=
    { screenW := readInt ini .resolutionWidth 0
      screenH := readInt ini .resolutionHeight 0
      dpiX := dpi
      dpiY := dpi
      cornerMin := ⟨readInt ini .minX 0, readInt ini .minY 0⟩
      cornerMax := ⟨readInt ini .maxX 0, readInt ini .maxY 0⟩
      gridW := gridW
      gridH := gridH
      cells := fun j i =>
        let x := readInt ini (.cellX i j) 0
        let y := readInt ini (.cellY i j) 0
        ⟨x, y, x + castInt gridW, y + castInt gridH⟩ }
  (0 < layout.screenW && 0 < layout.screenH && 1 / 10 < gridW && 1 / 10 < gridH,
    { state with
      layout := layout
      desktopPath := m.desktopPath
      iniPath := m.exeDir ++ wide "\\desktopsync.ini"
      peerIpv4 := readString ini .ipv4
      lastSync := readUInt64 ini .lastSync 0 })

/-- The entries that `SaveIni` writes, in its order.
SOURCE: config_dll.cpp:183-213 -/
def savedEntries (state : ConfigState) : Option (List (IniKey × WString)) := do
  let layout := state.layout
  let dpi ← writeDouble .dpi layout.dpiX
  let cellWidth ← writeDouble .cellWidth layout.gridW
  let cellHeight ← writeDouble .cellHeight layout.gridH
  let cells := (List.finRange 3).flatMap fun j => (List.finRange 3).flatMap fun i =>
    [writeInt (.cellX i j) (layout.cells j i).left, writeInt (.cellY i j) (layout.cells j i).top]
  let peer := if state.peerIpv4 = [] then [] else [(IniKey.ipv4, state.peerIpv4)]
  some
    ([writeInt .resolutionWidth layout.screenW, writeInt .resolutionHeight layout.screenH, dpi,
      writeInt .minX layout.cornerMin.x, writeInt .minY layout.cornerMin.y,
      writeInt .maxX layout.cornerMax.x, writeInt .maxY layout.cornerMax.y,
      cellWidth, cellHeight] ++ cells ++ peer ++ [writeUInt64 .lastSync state.lastSync])

/-- SOURCE: config_dll.cpp:183-213 -/
def saveIni (p : Profile) (ini : Ini) (state : ConfigState) : Option Ini :=
  (savedEntries state).map (p.write ini)

/-- SOURCE: config_dll.cpp:215-227 -/
def isIncomplete (m : Machine) (state : ConfigState) : Bool :=
  let layout := state.layout
  if layout.screenW ≤ 0 || layout.screenH ≤ 0 then true
  else if layout.gridW < 1 || layout.gridH < 1 then true
  else if m.screenW ≠ layout.screenW || m.screenH ≠ layout.screenH then true
  else 1 / 10 < layout.dpiX && 1 / 2 < |layout.dpiX - m.dpiX.toInt|

/-- The state a start begins with. -/
def startingState (m : Machine) : ConfigState where
  desktopPath := m.desktopPath
  targetDir := m.desktopPath
  iniPath := m.exeDir ++ wide "\\desktopsync.ini"
  lastSync := 0
  layout := {}
  peerIpv4 := []

/-- A start takes what it finds in the INI file: it loads and is complete. -/
def takesLoaded (m : Machine) (ini : Ini) : Bool :=
  let loaded := loadFromIni m ini (startingState m)
  loaded.1 && !isIncomplete m loaded.2

/-- The state returned, and the INI file after it; `none` where the process ends.
SOURCE: config_dll.cpp:229-252 -/
def loadOrInitConfig (m : Machine) (junk : CellLine) (ini : Ini) : Option (ConfigState × Ini) :=
  let loaded := loadFromIni m ini (startingState m)
  if !loaded.1 || isIncomplete m loaded.2 then
    let read := tryLoadLayoutTxt m.real junk m.layoutTxt {}
    let layout := if read.1 then read.2 else computeDefaultLayout m read.2
    let state := { loaded.2 with layout := layout, lastSync := 0 }
    (saveIni m.profile ini state).map fun ini => (state, ini)
  else some (loaded.2, ini)

/-- For a caller that names the INI file and passes a text.
SOURCE: config_dll.cpp:254-258 -/
def savePeerToIni (p : Profile) (ini : Ini) (ipv4 : WString) : Ini := p.write ini [(.ipv4, ipv4)]

/-- For a caller that names the INI file.
SOURCE: config_dll.cpp:260-264 -/
def updateLastSync (p : Profile) (ini : Ini) (ts : UInt64) : Ini :=
  p.write ini [writeUInt64 .lastSync ts]

/-! ## One start after another -/

inductive ConfigEvent where
  /-- A start, and what its `cell` variables hold. -/
  | start (junk : CellLine)
  | savePeer (ipv4 : WString)
  | updateLastSync (ts : UInt64)

/-- The INI file between two starts. -/
structure Between where
  ini : Ini
  /-- What `UpdateLastSync` has stored last. -/
  lastSync : Option UInt64
  /-- What `SavePeerToIni` has stored last. -/
  peer : Option WString

def configStep (m : Machine) (c : Between) : ConfigEvent → Option Between
  | .start junk => (loadOrInitConfig m junk c.ini).map fun r => { c with ini := r.2 }
  | .savePeer ipv4 =>
      some { c with ini := savePeerToIni m.profile c.ini ipv4, peer := some ipv4 }
  | .updateLastSync ts =>
      some { c with ini := updateLastSync m.profile c.ini ts, lastSync := some ts }

/-- The machine after a start that left `ini`. -/
def restarts (m : Machine) (ini : Ini) : System Between ConfigEvent where
  init c := c = ⟨ini, none, none⟩
  step := configStep m

end DesktopSync.Model
