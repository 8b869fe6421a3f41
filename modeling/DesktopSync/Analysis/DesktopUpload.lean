import DesktopSync.Analysis.Completion
import DesktopSync.Model.Desktop

/-!
# The files of a desktop on the wire

What the listing of a desktop sends, and that a session over these bytes that ends at END
stores each file under its own name with its own content.
-/

set_option autoImplicit false

namespace DesktopSync.Analysis

open DesktopSync.Model
open ChunkedSink Framing

/-- The file as `SendFilePacket` finds it. -/
def FileName.holding (name : FileName) (content : List UInt8) : FileAccess :=
  steadyFile (name.units, content)

/-- A file on a desktop can be read, and holds its content. -/
theorem access_eq_holding {d : Desktop} {name : FileName} {content : List UInt8}
    (h : d.data name = some content) : d.access name.units = FileName.holding name content :=
  Desktop.access_of_data h

/-- A name of a desktop fits a packet. -/
theorem nameFits_holding (name : FileName) (content : List UInt8) :
    NameFits (FileName.holding name content) :=
  name.length_wideToUtf8

/-- A file of a desktop can be sent. -/
theorem sendable_holding (name : FileName) (content : List UInt8) :
    Sendable (FileName.holding name content) :=
  ⟨nameFits_holding name content, rfl, rfl⟩

/-- A file of a desktop is sent as a whole. -/
theorem sentWhole_holding (name : FileName) {content : List UInt8}
    (h : content.length < 2 ^ 31) : SentWhole (FileName.holding name content) :=
  ⟨nameFits_holding name content, content, rfl, rfl, h⟩

/-- Files with their names and contents, as `SendFilePacket` finds them. -/
def holdings (files : List (FileName × List UInt8)) : List FileAccess :=
  files.map fun x => FileName.holding x.1 x.2

/-- A listing has the names of the files that are there. -/
theorem names_listing {d : Desktop} {order : List FileName} (h : ∀ name ∈ order, name ∈ d) :
    (d.listing order).map (fun e => e.file.name) = order.map FileName.units := by
  induction order with
  | nil => rfl
  | cons name order ih =>
      obtain ⟨f, hf⟩ := Option.isSome_iff_exists.mp
        (AList.lookup_isSome.mpr (h name List.mem_cons_self))
      have htail := ih fun n hn => h n (List.mem_cons_of_mem _ hn)
      rw [Desktop.listing] at htail ⊢
      rw [List.filterMap_cons_some (by rw [hf]; rfl), List.map_cons, htail]
      rfl

/-- With no last synchronisation every file is collected. -/
theorem collectFiles_listing {root : WString} (hroot : root ≠ []) (d : Desktop)
    (order : List FileName) :
    collectFiles root 0 (some (d.listing order)) = some (d.listing order) := by
  rw [collectFiles, if_neg hroot, Option.map_some, List.filter_eq_self.mpr]
  intro e he
  obtain ⟨name, -, hname⟩ := List.mem_filterMap.mp he
  obtain ⟨f, -, rfl⟩ := Option.map_eq_some_iff.mp hname
  rfl

/-- The files of the desktop that are listed and selected. -/
def selectedFiles (d : Desktop) (order : List FileName) (p : DirEntry → Bool) :
    List (FileName × List UInt8) :=
  order.filterMap fun name =>
    ((d.lookup name).filter fun f => p (f.entry name)).map fun f => (name, f.data)

/-- A selected file is one of the listing, with the content it has. -/
theorem mem_selectedFiles {d : Desktop} {order : List FileName} {p : DirEntry → Bool}
    {x : FileName × List UInt8} :
    x ∈ selectedFiles d order p ↔
      x.1 ∈ order ∧ ∃ f, d.lookup x.1 = some f ∧ p (f.entry x.1) = true ∧ f.data = x.2 := by
  unfold selectedFiles
  rw [List.mem_filterMap]
  constructor
  · rintro ⟨name, hname, hx⟩
    obtain ⟨f, hf, rfl⟩ := Option.map_eq_some_iff.mp hx
    obtain ⟨hlookup, hp⟩ := Option.filter_eq_some_iff.mp hf
    exact ⟨hname, f, hlookup, hp, rfl⟩
  · rintro ⟨hname, f, hlookup, hp, hdata⟩
    refine ⟨x.1, hname, Option.map_eq_some_iff.mpr ⟨f, ?_, by rw [hdata]⟩⟩
    exact Option.filter_eq_some_iff.mpr ⟨hlookup, hp⟩

/-- Everything the listing offers is a file of the desktop. -/
theorem holdings_of_listing (d : Desktop) (order : List FileName) (p : DirEntry → Bool) :
    ((d.listing order).filter p).map DirEntry.file = holdings (selectedFiles d order p) := by
  unfold Desktop.listing holdings selectedFiles
  rw [List.filter_filterMap, List.map_filterMap, List.map_filterMap]
  congr 1
  funext name
  cases d.lookup name with
  | none => rfl
  | some f =>
      simp only [Option.map_some, Option.filter_some]
      cases p (f.entry name) with
      | true => rfl
      | false => rfl

/-- The sizes of a listing can be added up. -/
theorem totalSize_listing (d : Desktop) (order : List FileName) (p : DirEntry → Bool) :
    ∃ total, totalSize ((d.listing order).filter p) = some total := by
  apply totalSize_isSome
  intro e he
  obtain ⟨name, -, hname⟩ := List.mem_filterMap.mp (List.mem_of_mem_filter he)
  obtain ⟨f, -, rfl⟩ := Option.map_eq_some_iff.mp hname
  rfl

/-- What `SyncUploadOnce` finds when it reaches the peer and lists these entries. -/
def listingEnv (md5 : Digest) (now : UInt64) (pads : ℕ → UInt16) (entries : List DirEntry) :
    UploadEnv where
  resolves _ := true
  connects := true
  listing := some entries
  now := now
  pads := pads
  md5 := md5

/-- What an upload plans to send is what was selected. -/
theorem plannedFiles_listing {cfg : IniState} (hroot : cfg.desktopPath ≠ []) (peerIp : WString)
    (md5 : Digest) (now : UInt64) (pads : ℕ → UInt16) (d : Desktop) (order : List FileName) :
    plannedFiles (some cfg) (some peerIp) (listingEnv md5 now pads (d.listing order)) =
      some (holdings (selectedFiles d order (DirEntry.collected cfg.lastSync))) := by
  obtain ⟨size, hsize⟩ := totalSize_listing d order (DirEntry.collected cfg.lastSync)
  rw [← holdings_of_listing]
  simp only [plannedFiles, listingEnv, Option.bind_eq_bind, Option.bind_some, Bool.and_self,
    if_true, collectFiles, if_neg hroot, Option.map_some, hsize]

/-- An upload on a connection that refuses nothing sends files of the desktop and END,
and every file that is listed if there is no last synchronisation. -/
theorem syncUploadOnce_listing {cfg : IniState} (hroot : cfg.desktopPath ≠ []) (peerIp : WString)
    (md5 : Digest) (now : UInt64) (pads : ℕ → UInt16) (limit : ℕ → ℕ) (d : Desktop)
    (order : List FileName) :
    let upload := syncUploadOnce (some cfg) (some peerIp)
      (listingEnv md5 now pads (d.listing order)) ⟨[], [], limit, 0⟩
    ∃ files : List (FileName × List UInt8),
      (∀ x ∈ files, d.data x.1 = some x.2) ∧
        upload.files = holdings files ∧
        upload.st.sink.taken = uploadBytes md5 now pads (holdings files) ∧
        (cfg.lastSync = 0 → ∀ name ∈ order, ∀ content, d.data name = some content →
          (name, content) ∈ files) := by
  intro upload
  let files := selectedFiles d order (DirEntry.collected cfg.lastSync)
  have hplanned := plannedFiles_listing hroot peerIp md5 now pads d order
  obtain ⟨total, st, hsink, -, hcall⟩ := syncUploadOnce_of_some ⟨[], [], limit, 0⟩ hplanned
  have hsendable : ∀ f ∈ holdings files, Sendable f := by
    intro f hf
    obtain ⟨x, -, rfl⟩ := List.mem_map.mp hf
    exact sendable_holding x.1 x.2
  have hopened : st.sink.refusals = [] := by rw [hsink]
  obtain ⟨-, htaken⟩ := uploadFiles_open md5 now total pads hopened hsendable
  refine ⟨files, ?_, ?_, ?_, ?_⟩
  · intro x hx
    obtain ⟨-, f, hlookup, -, hdata⟩ := mem_selectedFiles.mp hx
    rw [Desktop.data, hlookup, Option.map_some, hdata]
  · unfold upload
    rw [hcall]
    unfold uploadFiles
    simp only
    split <;> rfl
  · unfold upload
    rw [hcall]
    refine htaken.trans ?_
    rw [hsink, List.nil_append]
  · intro hlastSync name hname content hcontent
    obtain ⟨f, hf, rfl⟩ := Option.map_eq_some_iff.mp hcontent
    refine mem_selectedFiles.mpr ⟨hname, f, hf, ?_, rfl⟩
    rw [hlastSync]
    rfl

/-- Each file of an upload becomes one write, to its own name under the target
directory. -/
theorem writesOf_holdings (cfg : IniState) (disk : ℕ → StoreReply) (md5 : Digest)
    (pads : ℕ → UInt16) (stored pos k : ℕ) (files : List (FileName × List UInt8))
    (hnames : ∀ x ∈ files, Utf.WellFormed x.1.units) :
    List.Forall₂
      (fun x w => w.target = WindowsPath.join (targetDirOf cfg) x.1.units ∧ w.data = x.2) files
      (writesOf cfg disk stored (packetItems md5 pads pos k (holdings files))) := by
  induction files generalizing stored pos k with
  | nil => exact .nil
  | cons x files ih =>
      have hname : utf8ToWide (wireName (FileName.holding x.1 x.2)) = x.1.units :=
        utf8ToWide_wideToUtf8 x.1.units (hnames x List.mem_cons_self) x.1.admissible.2.1
      exact .cons ⟨congrArg (WindowsPath.join (targetDirOf cfg)) hname, rfl⟩
        (ih _ _ _ fun y hy => hnames y (List.mem_cons_of_mem _ hy))

/-! ## Two peers for concrete runs -/

/-- Two peers that receive into `C:\D`. -/
def sampleNet : Pairing where
  cfg _ := sampleCfg
  desktopPath _ := by decide
  targetDir _ := by decide
  md5 := sampleMd5

/-- The name `a`. -/
def nameA : FileName := ⟨[0x61], by decide⟩

/-- The name `b`. -/
def nameB : FileName := ⟨[0x62], by decide⟩

/-- A name that is one unpaired surrogate. -/
def nameLone : FileName := ⟨[0xD800], by decide⟩

end DesktopSync.Analysis
