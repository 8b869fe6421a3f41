import DesktopSync.Computation.Exchange
import DesktopSync.Model.Receiver
import DesktopSync.Model.Sender

/-!
# A desktop

The regular files of a desktop directory by name, as `CollectFiles` lists them, as
`SendFilePacket` reads them and as `HandleIncoming` writes them. A name is one the file
system admits, and a size fits `file_size`.
-/

set_option autoImplicit false

namespace DesktopSync.Model

/-- The longest name the file system keeps. -/
def maxNameLength : ℕ := 255

/-- What the file system asks of a name. -/
def Admissible (units : WString) : Prop :=
  WindowsPath.PlainName units ∧ 0 ∉ units ∧ units.length ≤ maxNameLength

instance (units : WString) : Decidable (Admissible units) := inferInstanceAs (Decidable (_ ∧ _))

/-- The name of a file. -/
structure FileName where
  units : WString
  admissible : Admissible units
  deriving DecidableEq

def FileName.ofUnits (units : WString) : Option FileName :=
  if h : Admissible units then some ⟨units, h⟩ else none

/-- The name of the file of directory `dir` that the path `target` leads to. -/
def FileName.ofTarget (dir target : WString) : Option FileName :=
  if (dir ++ WindowsPath.separator dir).isPrefixOf target then
    FileName.ofUnits (target.drop (dir ++ WindowsPath.separator dir).length)
  else none

/-- A regular file. -/
structure File where
  data : List UInt8
  /-- 100 ns ticks of the file clock, since 1601. -/
  lastWriteTime : ℤ
  sized : data.length < 2 ^ 64
  deriving DecidableEq

def File.ofData (data : List UInt8) (lastWriteTime : ℤ) : Option File :=
  if h : data.length < 2 ^ 64 then some ⟨data, lastWriteTime, h⟩ else none

/-- `std::filesystem::file_size` -/
def File.size (f : File) : UInt64 := UInt64.ofNat f.data.length

/-- What the file system answers while the file is sent and nobody touches it. -/
def File.access (units : WString) (f : File) : FileAccess :=
  ⟨units, some f.size, some f.data, some f.data⟩

/-- What the file system answers for a file that is gone. -/
def FileAccess.gone (units : WString) : FileAccess := ⟨units, none, none, none⟩

/-- The entry of the file in its directory. -/
def File.entry (name : FileName) (f : File) : DirEntry where
  file := f.access name.units
  regular := true
  lastWriteTime := f.lastWriteTime
  listedSize := some f.size

/-- The seconds of the file clock before those of `system_clock`: 1601 to 1970. -/
def unixEpoch : ℤ := 11644473600

/-- `NowSec()` when the file clock shows `clock`.
SOURCE: common.cpp:34-38 -/
def nowSec (clock : ℤ) : UInt64 :=
  UInt64.ofInt ((clock - unixEpoch * ticksPerSecond).tdiv ticksPerSecond)

/-- The files of a desktop. -/
abbrev Desktop := AList fun _ : FileName => File

namespace Desktop

/-- The content under a name. -/
def data (d : Desktop) (name : FileName) : Option (List UInt8) := (d.lookup name).map File.data

/-- What `SendFilePacket` finds under a file name. -/
def access (d : Desktop) (units : WString) : FileAccess :=
  match (FileName.ofUnits units).bind d.lookup with
  | some f => f.access units
  | none => .gone units

/-- The entries, in the order in which the directory lists them. -/
def listing (d : Desktop) (order : List FileName) : List DirEntry :=
  order.filterMap fun name => (d.lookup name).map (File.entry name)

/-- What a write that is stored makes of the desktop in `dir`: the file it leads to has
the write's content and the time of the write. -/
def write (dir : WString) (time : ℤ) (d : Desktop) (w : FileWrite) : Desktop :=
  match FileName.ofTarget dir w.target, File.ofData w.data time with
  | some name, some f => d.insert name f
  | _, _ => d

end Desktop

/-- Two peers that receive into the desktops they upload from. -/
structure Pairing where
  cfg : Exchange.Side → IniState
  desktopPath : ∀ p, (cfg p).desktopPath ≠ []
  targetDir : ∀ p, targetDirOf (cfg p) = (cfg p).desktopPath
  md5 : Digest

@[simp] theorem FileName.ofUnits_units (name : FileName) :
    FileName.ofUnits name.units = some name :=
  dif_pos name.admissible

/-- No name is too long for a packet. -/
theorem FileName.length_wideToUtf8 (name : FileName) :
    (wideToUtf8 name.units).length ≤ maxPathBytes := by
  have hnul : 0 ∉ name.units := name.admissible.2.1
  have hlength : name.units.length ≤ maxNameLength := name.admissible.2.2
  have hbytes := Utf.length_utf8_utf16_le name.units
  rw [wideToUtf8_eq, takeWhile_ne_of_not_mem hnul]
  rw [maxNameLength] at hlength
  rw [maxPathBytes]
  omega

/-- A name joined to the directory leads to its file. -/
theorem FileName.ofTarget_join (dir : WString) (name : FileName) :
    FileName.ofTarget dir (WindowsPath.join dir name.units) = some name := by
  have hprefix : (dir ++ WindowsPath.separator dir).isPrefixOf
      (dir ++ WindowsPath.separator dir ++ name.units) = true := by
    rw [List.isPrefixOf_iff_prefix]
    exact List.prefix_append _ _
  rw [WindowsPath.join_plain dir name.admissible.1, FileName.ofTarget, if_pos hprefix,
    List.drop_left, FileName.ofUnits_units]

namespace Desktop

@[simp] theorem data_insert_self (d : Desktop) (name : FileName) (f : File) :
    data (d.insert name f) name = some f.data := by
  rw [data, AList.lookup_insert, Option.map_some]

theorem data_insert_of_ne (d : Desktop) {name other : FileName} (f : File) (h : other ≠ name) :
    data (d.insert name f) other = d.data other := by
  rw [data, data, AList.lookup_insert_ne h]

/-- A desktop has content under exactly its names. -/
theorem data_isSome (d : Desktop) (name : FileName) : (d.data name).isSome = true ↔ name ∈ d := by
  rw [data, Option.isSome_map, AList.lookup_isSome]

theorem mem_of_data {d : Desktop} {name : FileName} {content : List UInt8}
    (h : d.data name = some content) : name ∈ d :=
  (data_isSome d name).mp (Option.isSome_of_eq_some h)

theorem mem_of_lookup {d : Desktop} {name : FileName} {f : File}
    (h : d.lookup name = some f) : name ∈ d :=
  AList.lookup_isSome.mp (Option.isSome_of_eq_some h)

theorem access_of_lookup {d : Desktop} {name : FileName} {f : File}
    (h : d.lookup name = some f) : d.access name.units = f.access name.units := by
  rw [access, FileName.ofUnits_units, Option.bind_some, h]

/-- What a file answers when it is there. -/
theorem access_of_data {d : Desktop} {name : FileName} {content : List UInt8}
    (h : d.data name = some content) :
    d.access name.units =
      ⟨name.units, some (UInt64.ofNat content.length), some content, some content⟩ := by
  obtain ⟨f, hf, rfl⟩ := Option.map_eq_some_iff.mp h
  exact access_of_lookup hf

/-- A write whose path is a name joined to the directory is a write of that file. -/
theorem write_join (d : Desktop) (dir : WString) (time : ℤ) {w : FileWrite} {name : FileName}
    (htarget : w.target = WindowsPath.join dir name.units) (hsized : w.data.length < 2 ^ 64) :
    d.write dir time w = d.insert name ⟨w.data, time, hsized⟩ := by
  have hfile : File.ofData w.data time = some ⟨w.data, time, hsized⟩ := dif_pos hsized
  rw [write, htarget, FileName.ofTarget_join, hfile]

theorem length_data {d : Desktop} {name : FileName} {content : List UInt8}
    (h : d.data name = some content) : content.length < 2 ^ 64 := by
  obtain ⟨f, -, rfl⟩ := Option.map_eq_some_iff.mp h
  exact f.sized

end Desktop

end DesktopSync.Model
