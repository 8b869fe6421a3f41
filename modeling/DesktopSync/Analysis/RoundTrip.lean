import DesktopSync.Analysis.Fragmentation
import DesktopSync.Analysis.WireBytes

/-!
# The wire format round-trips

The bytes of a whole upload read back as the files that were sent: the packets of the
sender are the items of the receiver's parse, in the same order.
-/

set_option autoImplicit false

namespace DesktopSync.Analysis

open DesktopSync.Model
open ChunkedSink Framing

/-- The packet of a file, as the receiver sees it. -/
def framed (md5 : Digest) (pad : UInt16) (f : FileAccess) : FilePacket where
  header := fileHeader md5 .update pad f (f.size.getD 0)
  path := wireName f
  data := f.streamed.getD []

/-- The file yields the bytes its size announces, and its packet can be received. -/
structure SentWhole (f : FileAccess) : Prop where
  fits : NameFits f
  steady : ∃ content, f.size = some (UInt64.ofNat content.length) ∧ f.streamed = some content ∧
    content.length < 2 ^ 31

theorem SentWhole.sendable {f : FileAccess} (h : SentWhole f) : Sendable f := by
  obtain ⟨hfits, content, hsize, hstreamed, -⟩ := h
  exact ⟨hfits, by rw [hsize]; rfl, by rw [hstreamed]; rfl⟩

/-- The items the receiver finds in the packets of a list of files. -/
def packetItems (md5 : Digest) (pads : ℕ → UInt16) :
    ℕ → ℕ → List FileAccess → List (ℕ × FilePacket)
  | _, _, [] => []
  | pos, k, f :: rest =>
      (pos, framed md5 (pads k) f) :: packetItems md5 pads (pos + packetSize f) (k + 1) rest

theorem fileHeader_magic (md5 : Digest) (pad : UInt16) (f : FileAccess) (size : UInt64) :
    (fileHeader md5 .update pad f size).magic = magicDSYC := rfl

theorem fileHeader_opcode (md5 : Digest) (pad : UInt16) (f : FileAccess) (size : UInt64) :
    (fileHeader md5 .update pad f size).opcode = opcodeFile := rfl

/-- A path that fits has its length in the header. -/
theorem pathLen_fileHeader (md5 : Digest) (pad : UInt16) (size : UInt64) {f : FileAccess}
    (h : NameFits f) :
    (fileHeader md5 .update pad f size).pathLen.toNat = (wireName f).length := by
  have hlt : (wireName f).length < 2 ^ 32 := lt_of_le_of_lt h (by decide)
  exact UInt32.toNat_ofNat_of_lt' hlt

/-- The packet of a file that is sent whole is one frame. -/
theorem packetFront_packet (md5 : Digest) (pad : UInt16) {f : FileAccess} (h : SentWhole f)
    (s : List UInt8) :
    packetFront (packetBytes md5 pad f (f.size.getD 0) ++ s) =
      .frame (some (framed md5 pad f)) (packetSize f) := by
  obtain ⟨hfits, content, hsize, hstreamed, hlen⟩ := h
  have hpath := pathLen_fileHeader md5 pad (UInt64.ofNat content.length) hfits
  have hdata : (UInt64.ofNat content.length).toNat = content.length :=
    UInt64.toNat_ofNat_of_lt' (lt_trans hlen (by decide))
  have hframed : framed md5 pad f =
      ⟨fileHeader md5 .update pad f (UInt64.ofNat content.length), wireName f, content⟩ := by
    rw [framed, hsize, hstreamed, Option.getD_some, Option.getD_some]
  have hsize' : (framed md5 pad f).size = packetSize f := by
    rw [hframed, FilePacket.size, packetSize, hstreamed, Option.getD_some]
  have hfront := packetFront_whole (p := framed md5 pad f) rfl rfl
    (by rw [hframed]; exact hpath) (by rw [hframed]; exact lt_of_le_of_lt hfits (by decide))
    (by rw [hframed]; exact hdata) (by rw [hframed]; exact hlen) s
  rw [hsize'] at hfront
  exact hfront

/-- The packet of a file of `2^31` bytes or more ends the session, and not as END does. -/
theorem packetFront_large (md5 : Digest) (pad : UInt16) {f : FileAccess} {size : ℕ}
    (hfits : NameFits f) (hlarge : 2 ^ 31 ≤ size) (hsize : size < 2 ^ 64) (s : List UInt8) :
    ∃ outcome n, outcome ≠ .returned true ∧
      packetFront (packetBytes md5 pad f (UInt64.ofNat size) ++ s) = .halt outcome n := by
  have hpath := pathLen_fileHeader md5 pad (UInt64.ofNat size) hfits
  have hdata : (fileHeader md5 .update pad f (UInt64.ofNat size)).fileSize.toNat = size :=
    UInt64.toNat_ofNat_of_lt' hsize
  have hpathLen : (wireName f).length < 2 ^ 31 := lt_of_le_of_lt hfits (by decide)
  simp only [packetBytes, List.append_assoc]
  rw [packetFront_fileHeader (fileHeader_magic md5 _ _ _) (fileHeader_opcode md5 _ _ _), fileFront]
  simp only [hpath, hdata, List.length_append, PacketHeader.length_toBytes]
  rw [if_neg (by omega), if_neg (by omega)]
  by_cases hthrow : vectorMaxSize < size
  · exact ⟨.threw, _, by simp, if_pos hthrow⟩
  · exact ⟨.returned false, _, by simp, by rw [if_neg hthrow, if_pos hlarge]⟩

/-- The packets of a list of files read back one by one. -/
theorem parse_packets (md5 : Digest) (pads : ℕ → UInt16) (pos k : ℕ) (files : List FileAccess)
    (hfiles : ∀ f ∈ files, SentWhole f) (s : List UInt8) :
    wireFormat.parse pos (packetsBytes md5 pads k files ++ s) =
      ⟨packetItems md5 pads pos k files ++ (wireFormat.parse (pos + wireSize files) s).items,
        (wireFormat.parse (pos + wireSize files) s).outcome,
        (wireFormat.parse (pos + wireSize files) s).rest⟩ := by
  induction files generalizing pos k with
  | nil => rfl
  | cons f files ih =>
      have hfront := packetFront_packet md5 (pads k) (hfiles f List.mem_cons_self)
        (packetsBytes md5 pads (k + 1) files ++ s)
      have hdrop : (packetBytes md5 (pads k) f (f.size.getD 0) ++
          (packetsBytes md5 pads (k + 1) files ++ s)).drop (packetSize f) =
          packetsBytes md5 pads (k + 1) files ++ s :=
        List.drop_left' (length_packetBytes _ _ _ _)
      rw [packetsBytes, List.append_assoc, parse_of_frame hfront, hdrop,
        ih _ _ fun g hg => hfiles g (List.mem_cons_of_mem _ hg), packetItems, wireSize_cons,
        Nat.add_assoc]
      rfl

/-- The names and contents stored for the packets of a list of files. -/
theorem writesOf_packetItems (cfg : IniState) (disk : ℕ → StoreReply) (md5 : Digest)
    (pads : ℕ → UInt16) (stored pos k : ℕ) (files : List FileAccess) :
    (writesOf cfg disk stored (packetItems md5 pads pos k files)).map
        (fun w => (w.fileName, w.data)) =
      files.map fun f => (utf8ToWide (wireName f), f.streamed.getD []) := by
  induction files generalizing stored pos k with
  | nil => rfl
  | cons f files ih =>
      rw [packetItems, writesOf, List.map_cons, List.map_cons, ih]
      rfl

/-- Every write goes to its name under the target directory, and succeeds as the file
system says. -/
theorem writesOf_target (cfg : IniState) (disk : ℕ → StoreReply) (stored : ℕ)
    (items : List (ℕ × FilePacket)) (w : FileWrite) (hw : w ∈ writesOf cfg disk stored items) :
    w.target = WindowsPath.join (targetDirOf cfg) w.fileName ∧ ∃ k, w.reply = disk k := by
  induction items generalizing stored with
  | nil => cases hw
  | cons x items ih =>
      obtain ⟨pos, p⟩ := x
      rcases List.mem_cons.mp hw with rfl | hw
      · exact ⟨rfl, stored, rfl⟩
      · exact ih _ hw

/-- A disk that refuses nothing stores every write. -/
theorem writesOf_stored (cfg : IniState) {disk : ℕ → StoreReply}
    (hdisk : ∀ k, disk k = ⟨true, true⟩) (stored : ℕ) (items : List (ℕ × FilePacket)) :
    ∀ w ∈ writesOf cfg disk stored items,
      w.stored = true ∧ w.target = WindowsPath.join (targetDirOf cfg) w.fileName := by
  intro w hw
  obtain ⟨htarget, k, hreply⟩ := writesOf_target cfg disk stored items w hw
  refine ⟨?_, htarget⟩
  rw [FileWrite.stored, hreply, hdisk k]
  rfl

/-! ## A whole upload -/

/-- A connection on which nothing is refused. -/
def healthy (limit : ℕ → ℕ) : SendState := ⟨⟨[], [], limit, 0⟩, 0, [], []⟩

/-- What an upload of files that can all be sent puts on a connection that refuses
nothing. -/
theorem uploadFiles_open (md5 : Digest) (now total : UInt64) (pads : ℕ → UInt16) {st : SendState}
    (hst : st.sink.refusals = []) {files : List FileAccess} (hfiles : ∀ f ∈ files, Sendable f) :
    (uploadFiles md5 now total pads st files).result = .returned true ∧
      (uploadFiles md5 now total pads st files).st.sink.taken =
        st.sink.taken ++ uploadBytes md5 now pads files := by
  have hhello := sendHeader_offered st (helloHeader now (pads 0))
  obtain ⟨hok, hrefusals⟩ := hhello.refusals_nil hst
  rw [hok] at hhello
  obtain ⟨hpackets, hresults⟩ := sendFiles_all md5 total pads 1
    (st.sendHeader (helloHeader now (pads 0))).2 files hfiles (by rw [hrefusals]; rfl)
  obtain ⟨-, hrefusals'⟩ := hpackets.refusals_nil hrefusals
  have hend := sendHeader_offered
    (sendFiles md5 total pads 1 (st.sendHeader (helloHeader now (pads 0))).2 files).2
    { opcode := opcodeEnd, pad := pads (files.length + 1) }
  rw [(hend.refusals_nil hrefusals').1] at hend
  have hthrew : CallResult.threw ∉ (sendFiles md5 total pads 1
      (sendHello st now (pads 0)).2 files).1 := by
    rw [sendHello, hresults, List.mem_replicate]
    rintro ⟨-, ⟨⟩⟩
  unfold uploadFiles
  simp only [if_neg hthrew]
  refine ⟨trivial, ?_⟩
  have htaken := (hhello.trans (hpackets.trans hend)).taken_of_ok
  exact htaken

/-- A HELLO packet is passed over. -/
theorem parse_hello (now : UInt64) (pad : UInt16) (pos : ℕ) (s : List UInt8) :
    wireFormat.parse pos ((helloHeader now pad).toBytes ++ s) =
      wireFormat.parse (pos + headerSize) s := by
  have hend : opcodeHello ≠ opcodeEnd := by decide
  have hfile : opcodeHello ≠ opcodeFile := by decide
  exact parse_header rfl hend hfile pos s

/-- A file the wire format carries. -/
structure Portable (f : WString × List UInt8) : Prop where
  wellFormed : Utf.WellFormed f.1
  noNul : 0 ∉ f.1
  fits : (wideToUtf8 f.1).length ≤ maxPathBytes
  small : f.2.length < 2 ^ 31

theorem Portable.sentWhole {f : WString × List UInt8} (h : Portable f) :
    SentWhole (steadyFile f) :=
  ⟨h.fits, f.2, rfl, rfl, h.small⟩

/-- A session over the bytes of an upload ends at END and stores the files one by one. -/
theorem handleIncoming_upload (md5 : Digest) (now : UInt64) (pads : ℕ → UInt16)
    {files : List FileAccess} (hfiles : ∀ f ∈ files, SentWhole f) (cfg : IniState)
    (disk : ℕ → StoreReply) {tail : List UInt8} {c : Conn}
    (hc : c.toList = uploadBytes md5 now pads files ++ tail) :
    (handleIncoming cfg disk c).result = .returned true ∧
      (handleIncoming cfg disk c).rest.toList = tail ∧
      (handleIncoming cfg disk c).writes =
        writesOf cfg disk 0 (packetItems md5 pads headerSize 1 files) := by
  have hparse : wireFormat.parse 0 c.toList =
      ⟨packetItems md5 pads headerSize 1 files, some (.returned true), tail⟩ := by
    rw [hc, uploadBytes, List.append_assoc, parse_hello, Nat.zero_add, List.append_assoc,
      parse_packets md5 pads _ _ _ hfiles, parse_end _ rfl rfl, List.append_nil]
  obtain ⟨hwrites, hresult, hrest⟩ := handleLoop_eq cfg disk 0 0 c
  rw [hparse] at hwrites hresult hrest
  exact ⟨hresult, hrest rfl, hwrites⟩

/-- What is sent is what is stored: the bytes of an upload, cut by the transport in any
way on both sides, are received to the end and yield the files in their order. -/
theorem roundTrip (md5 : Digest) (now total : UInt64) (pads : ℕ → UInt16) (limit : ℕ → ℕ)
    (files : List (WString × List UInt8)) (hfiles : ∀ f ∈ files, Portable f)
    (cfg : IniState) (disk : ℕ → StoreReply) (hdisk : ∀ k, disk k = ⟨true, true⟩)
    (tail : List UInt8) (c : Conn)
    (hc : c.toList =
      (uploadFiles md5 now total pads (healthy limit) (files.map steadyFile)).st.sink.taken ++
        tail) :
    (handleIncoming cfg disk c).result = .returned true ∧
      (handleIncoming cfg disk c).rest.toList = tail ∧
      (handleIncoming cfg disk c).writes.map (fun w => (w.fileName, w.data)) = files ∧
      ∀ w ∈ (handleIncoming cfg disk c).writes, w.stored = true ∧
        w.target = WindowsPath.join (targetDirOf cfg) w.fileName := by
  have hwhole : ∀ f ∈ files.map steadyFile, SentWhole f := by
    intro f hf
    obtain ⟨g, hg, rfl⟩ := List.mem_map.mp hf
    exact (hfiles g hg).sentWhole
  have hopened : (healthy limit).sink.refusals = [] := rfl
  have htaken := (uploadFiles_open md5 now total pads hopened
    fun f hf => (hwhole f hf).sendable).2
  rw [htaken] at hc
  obtain ⟨hresult, hrest, hwrites⟩ := handleIncoming_upload md5 now pads hwhole cfg disk hc
  rw [hwrites]
  refine ⟨hresult, hrest, ?_, ?_⟩
  · rw [writesOf_packetItems, List.map_map]
    conv_rhs => rw [← List.map_id files]
    apply List.map_congr_left
    intro f hf
    have hname := utf8ToWide_wideToUtf8 f.1 (hfiles f hf).wellFormed (hfiles f hf).noNul
    exact Prod.ext hname rfl
  · exact writesOf_stored cfg hdisk _ _

theorem sampleFiles_portable : ∀ f ∈ sampleFiles, Portable f := by
  intro f hf
  simp only [sampleFiles, List.mem_cons, List.not_mem_nil, or_false] at hf
  rcases hf with rfl | rfl | rfl
  · exact ⟨⟨_, rfl⟩, by decide, by decide, by decide⟩
  · exact ⟨⟨_, rfl⟩, by decide, by decide, by decide⟩
  · exact ⟨⟨_, rfl⟩, by decide, by decide, by decide⟩

/-- The sample files over a transport that takes one byte at a time. -/
theorem roundTrip_sample :
    let upload := uploadFiles sampleMd5 0 5 (fun _ => 0) (healthy fun _ => 0)
      (sampleFiles.map steadyFile)
    let session := handleIncoming sampleCfg steadyDisk (.whole upload.st.sink.taken)
    session.result = .returned true ∧ session.rest.toList = [] ∧
      session.writes.map (fun w => (w.fileName, w.data)) = sampleFiles ∧
      ∀ w ∈ session.writes, w.stored = true ∧
        w.target = WindowsPath.join (targetDirOf sampleCfg) w.fileName :=
  roundTrip sampleMd5 0 5 (fun _ => 0) (fun _ => 0) sampleFiles sampleFiles_portable sampleCfg
    steadyDisk (fun _ => rfl) [] _ (by rw [ChunkedSource.Source.toList_whole, List.append_nil])

end DesktopSync.Analysis
