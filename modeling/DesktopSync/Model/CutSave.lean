import DesktopSync.Model.Config

/-!
# A save that is cut off

`SaveIni` ignores what its writes return. The process may stop between two of them, the
later ones may fail, and a number that does not fit its buffer ends the process. In each
case the first writes are in the file and the others are not.
-/

set_option autoImplicit false

namespace DesktopSync.Model

/-- The writes of `SaveIni` in its order, each with the text it prints; `none` where
`swprintf_s` ends the process.
SOURCE: config_dll.cpp:183-213 -/
def saveWrites (state : ConfigState) : List (IniKey × Option WString) :=
  let layout := state.layout
  let int (key : IniKey) (v : Int32) := (key, some (writeInt key v).2)
  let double (key : IniKey) (v : ℚ) := (key, (writeDouble key v).map Prod.snd)
  [int .resolutionWidth layout.screenW, int .resolutionHeight layout.screenH,
    double .dpi layout.dpiX,
    int .minX layout.cornerMin.x, int .minY layout.cornerMin.y,
    int .maxX layout.cornerMax.x, int .maxY layout.cornerMax.y,
    double .cellWidth layout.gridW, double .cellHeight layout.gridH] ++
  ((List.finRange 3).flatMap fun j => (List.finRange 3).flatMap fun i =>
    [int (.cellX i j) (layout.cells j i).left, int (.cellY i j) (layout.cells j i).top]) ++
  (if state.peerIpv4 = [] then [] else [(.ipv4, some state.peerIpv4)]) ++
  [(.lastSync, some (writeUInt64 .lastSync state.lastSync).2)]

/-- The writes before the first that ends the process. -/
def completed : List (IniKey × Option WString) → List (IniKey × WString)
  | [] => []
  | (_, none) :: _ => []
  | (key, some text) :: rest => (key, text) :: completed rest

/-- The first `k` writes of a save are in the file. -/
def cutSave (p : Profile) (ini : Ini) (state : ConfigState) (k : ℕ) : Ini :=
  p.write ini ((completed (saveWrites state)).take k)

/-- The state that a start saves when it does not take what it finds.
SOURCE: config_dll.cpp:232-247 -/
def freshState (m : Machine) (junk : CellLine) (ini : Ini) : ConfigState :=
  let read := tryLoadLayoutTxt m.real junk m.layoutTxt {}
  { (loadFromIni m ini (startingState m)).2 with
    layout := if read.1 then read.2 else computeDefaultLayout m read.2
    lastSync := 0 }

/-- The INI file after a start whose save is cut off after `k` writes.
SOURCE: config_dll.cpp:229-252 -/
def cutStart (m : Machine) (junk : CellLine) (ini : Ini) (k : ℕ) : Ini :=
  if takesLoaded m ini then ini else cutSave m.profile ini (freshState m junk ini) k

end DesktopSync.Model
