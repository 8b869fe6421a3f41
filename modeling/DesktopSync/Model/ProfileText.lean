import DesktopSync.Model.Config

/-!
# The INI file as text under sections and keys

The profile functions know an entry by the texts of its section and its key, which the
program puts together anew each time, and do not tell upper case from lower case. `Ini`
leaves these texts out; here they are, and what a store under texts shows as an `Ini`.
-/

set_option autoImplicit false

namespace DesktopSync.Model

/-- `L"cell_" + std::to_wstring(i) + L"_" + std::to_wstring(j) + suffix`
SOURCE: config_dll.cpp:157-158, 201-202 -/
def cellKey (i j : Fin 3) (suffix : String) : String :=
  "cell_" ++ toString i.val ++ "_" ++ toString j.val ++ suffix

/-- The section and the key of an entry.
SOURCE: config_dll.cpp:140-178, 185-212 -/
def IniKey.address : IniKey → String × String
  | .resolutionWidth => ("Display", "ResolutionWidth")
  | .resolutionHeight => ("Display", "ResolutionHeight")
  | .dpi => ("Display", "DPI")
  | .minX => ("Corner", "min_x")
  | .minY => ("Corner", "min_y")
  | .maxX => ("Corner", "max_x")
  | .maxY => ("Corner", "max_y")
  | .cellWidth => ("Grid", "cell_width")
  | .cellHeight => ("Grid", "cell_height")
  | .cellX i j => ("Cells", cellKey i j "_x")
  | .cellY i j => ("Cells", cellKey i j "_y")
  | .ipv4 => ("p2pip", "ipv4")
  | .lastSync => ("State", "last_sync")

/-- Where the profile functions keep the entry. -/
abbrev Slot := List Char × List Char

/-- The texts of a section and a key, in lower case. -/
def slotOf (address : String × String) : Slot :=
  (address.1.toList.map Char.toLower, address.2.toList.map Char.toLower)

def IniKey.slot (key : IniKey) : Slot := slotOf key.address

/-- An INI file: the texts under its sections and keys. -/
abbrev Store := Slot → Option WString

/-- What the program finds in it. -/
def Store.ini (store : Store) : Ini := store ∘ IniKey.slot

/-- `WritePrivateProfileStringW`, entry by entry. -/
def Profile.writeText (p : Profile) (store : Store) (entries : List (IniKey × WString)) : Store :=
  Overlay.putAll store (entries.map fun e => (e.1.slot, p.kept e.2))

/-- SOURCE: config_dll.cpp:183-213 -/
def saveText (p : Profile) (store : Store) (state : ConfigState) : Option Store :=
  (savedEntries state).map (p.writeText store)

end DesktopSync.Model
