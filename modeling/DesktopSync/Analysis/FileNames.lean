import DesktopSync.Analysis.CutUpload

/-!
# File names across the wire

A name travels as UTF-8, which has no form for a surrogate without its other half: the
conversion writes U+FFFD for each. All other names arrive as they are. So two names meet
at the receiver exactly where they differ in nothing but such surrogates.
-/

set_option autoImplicit false

namespace DesktopSync.Analysis

open DesktopSync.Model

theorem receivedName_eq {f : FileAccess} (hnul : 0 ∉ f.name) :
    receivedName f = Utf.repair f.name :=
  utf8ToWide_wideToUtf8_repair hnul

/-- The files of an upload are stored under their received names, in their order. -/
theorem fileNames_upload (md5 : Digest) (now : UInt64) (pads : ℕ → UInt16)
    {files : List FileAccess} (hfiles : ∀ f ∈ files, SentWhole f) (cfg : IniState)
    (disk : ℕ → StoreReply) {tail : List UInt8} {c : Conn}
    (hc : c.toList = uploadBytes md5 now pads files ++ tail) :
    (handleIncoming cfg disk c).writes.map FileWrite.fileName = files.map receivedName := by
  obtain ⟨-, -, hwrites⟩ := handleIncoming_upload md5 now pads hfiles cfg disk hc
  have hpairs := writesOf_packetItems cfg disk md5 pads 0 headerSize 1 files
  have hnames := congrArg (List.map Prod.fst) hpairs
  rw [List.map_map, List.map_map] at hnames
  rw [hwrites]
  exact hnames

/-- Two names of a directory are one name at the receiver if and only if they are the same
but for unpaired surrogates. Well-formed names arrive as they are, and the receiver of an
upload writes every file under its received name. -/
theorem receivedNames_iff (dir : List FileAccess) (hnul : ∀ f ∈ dir, 0 ∉ f.name) :
    (∀ f ∈ dir, ∀ g ∈ dir,
        receivedName f = receivedName g ↔ Utf.repair f.name = Utf.repair g.name) ∧
      (∀ f ∈ dir, Utf.WellFormed f.name → receivedName f = f.name) ∧
      ∀ md5 now pads files cfg disk tail c, (∀ f ∈ files, f ∈ dir ∧ SentWhole f) →
        c.toList = uploadBytes md5 now pads files ++ tail →
          (handleIncoming cfg disk c).writes.map FileWrite.fileName = files.map receivedName := by
  refine ⟨?_, ?_, ?_⟩
  · intro f hf g hg
    rw [receivedName_eq (hnul f hf), receivedName_eq (hnul g hg)]
  · intro f hf hwf
    rw [receivedName_eq (hnul f hf), Utf.repair_of_wellFormed hwf]
  · intro md5 now pads files cfg disk tail c hfiles hc
    exact fileNames_upload md5 now pads (fun f hf => (hfiles f hf).2) cfg disk hc

/-- Two files whose names are one unpaired surrogate each. -/
def surrogateFiles : List FileAccess := [steadyFile ([0xD800], [1]), steadyFile ([0xD801], [2])]

theorem receivedNames_surrogateFiles :
    (∀ f ∈ surrogateFiles, ∀ g ∈ surrogateFiles,
        receivedName f = receivedName g ↔ Utf.repair f.name = Utf.repair g.name) ∧
      (∀ f ∈ surrogateFiles, Utf.WellFormed f.name → receivedName f = f.name) ∧
      ∀ md5 now pads files cfg disk tail c, (∀ f ∈ files, f ∈ surrogateFiles ∧ SentWhole f) →
        c.toList = uploadBytes md5 now pads files ++ tail →
          (handleIncoming cfg disk c).writes.map FileWrite.fileName = files.map receivedName :=
  receivedNames_iff surrogateFiles (by decide)

/-- The receiver writes both under the same name. -/
theorem not_receivedNames_nodup : ¬∀ dir : List FileAccess, (∀ f ∈ dir, 0 ∉ f.name) →
    (dir.map (·.name)).Nodup → (dir.map receivedName).Nodup := by
  intro h
  have hnodup := h surrogateFiles (by decide) (by decide)
  exact absurd hnodup (by decide)

end DesktopSync.Analysis
