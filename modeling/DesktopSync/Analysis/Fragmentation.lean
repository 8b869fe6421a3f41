import DesktopSync.Analysis.Frames
import DesktopSync.Analysis.WireBytes

/-!
# Fragmentation and cut connections

Two laws of `HandleIncoming` over arbitrary bytes. How the transport cuts the stream
does not matter, and a connection cut after some bytes stores a prefix of what the
longer stream would have stored: each file from one whole FILE packet, or not at all.
-/

set_option autoImplicit false

namespace DesktopSync.Analysis

open DesktopSync.Model
open Framing

/-! ## A whole session and the parse of its bytes -/

/-- The FILE packets of a byte string, each with its position. -/
def filePackets (s : List UInt8) : List (ℕ × FilePacket) := (wireFormat.parse 0 s).items

theorem handleIncoming_writes (cfg : IniState) (disk : ℕ → StoreReply) (c : Conn) :
    (handleIncoming cfg disk c).writes = writesOf cfg disk 0 (filePackets c.toList) :=
  (handleLoop_eq cfg disk 0 0 c).1

theorem handleIncoming_result (cfg : IniState) (disk : ℕ → StoreReply) (c : Conn) :
    (handleIncoming cfg disk c).result =
      (wireFormat.parse 0 c.toList).outcome.getD (.returned false) :=
  (handleLoop_eq cfg disk 0 0 c).2.1

/-- A session returns `true` exactly at an END packet. -/
theorem handleIncoming_true_iff (cfg : IniState) (disk : ℕ → StoreReply) (c : Conn) :
    (handleIncoming cfg disk c).result = .returned true ↔
      (wireFormat.parse 0 c.toList).outcome = some (.returned true) := by
  rw [handleIncoming_result]
  cases (wireFormat.parse 0 c.toList).outcome with
  | none => simp
  | some outcome => simp

/-- A receiver whose target directory is its desktop, `C:\D`. -/
def sampleCfg : IniState :=
  { desktopPath := wide "C:\\D", targetDir := [], iniPath := wide "C:\\config.ini", lastSync := 0 }

/-- A file system that opens every target and accepts every write. -/
def steadyDisk : ℕ → StoreReply := fun _ => ⟨true, true⟩

/-- Three files, one of them empty and with a name beyond the basic plane. -/
def sampleFiles : List (WString × List UInt8) :=
  [(wide "a.txt", [1, 2, 3]), (wide "é😀", []), (wide "b", [4, 5])]

/-- An md5 for runs that never read it. -/
def sampleMd5 : Digest := fun _ => List.Vector.replicate 16 0

/-- What an upload of the sample files sends. -/
def sampleStream : List UInt8 :=
  uploadBytes sampleMd5 0 (fun _ => 0) (sampleFiles.map steadyFile)

/-- The stream, cut inside the HELLO header, the first name and the last payload. -/
def splitStream : Conn :=
  ⟨[sampleStream.take 7, (sampleStream.drop 7).take 75, (sampleStream.drop 82).take 94,
      sampleStream.drop 176], by
    have hpieces : [] ∉ [sampleStream.take 7, (sampleStream.drop 7).take 75,
        (sampleStream.drop 82).take 94, sampleStream.drop 176] := by
      decide +kernel
    exact fun p hp hnil => hpieces (hnil ▸ hp)⟩

theorem toList_splitStream : splitStream.toList = sampleStream := by decide +kernel

/-- `HandleIncoming`'s outcome and writes are a function of the bytes received. -/
theorem handleIncoming_fragmentation (cfg : IniState) (disk : ℕ → StoreReply) (c c' : Conn)
    (h : c.toList = c'.toList) :
    (handleIncoming cfg disk c).result = (handleIncoming cfg disk c').result ∧
      (handleIncoming cfg disk c).writes = (handleIncoming cfg disk c').writes := by
  constructor
  · rw [handleIncoming_result, handleIncoming_result, h]
  · rw [handleIncoming_writes, handleIncoming_writes, h]

/-- The stream arrives whole, and in pieces. -/
theorem handleIncoming_fragmentation_sample :
    (handleIncoming sampleCfg steadyDisk (.whole sampleStream)).result =
        (handleIncoming sampleCfg steadyDisk splitStream).result ∧
      (handleIncoming sampleCfg steadyDisk (.whole sampleStream)).writes =
        (handleIncoming sampleCfg steadyDisk splitStream).writes :=
  handleIncoming_fragmentation _ _ _ _
    ((ChunkedSource.Source.toList_whole _).trans toList_splitStream.symm)

/-! ## The packet a write comes from -/

/-- The write's content is the payload announced by the FILE header at `pos` of `s`, and
header, path and payload all lie inside `s`. -/
structure AnnouncedBy (s : List UInt8) (pos : ℕ) (w : FileWrite) : Prop where
  magic : (PacketHeader.ofBytes (s.drop pos)).magic = magicDSYC
  opcode : (PacketHeader.ofBytes (s.drop pos)).opcode = opcodeFile
  offset : w.offset = pos + headerSize + (PacketHeader.ofBytes (s.drop pos)).pathLen.toNat
  inside : w.offset + (PacketHeader.ofBytes (s.drop pos)).fileSize.toNat ≤ s.length
  fileName : w.fileName = utf8ToWide ((s.drop (pos + headerSize)).take
    (PacketHeader.ofBytes (s.drop pos)).pathLen.toNat)
  data : w.data = (s.drop w.offset).take (PacketHeader.ofBytes (s.drop pos)).fileSize.toNat

/-- A FILE packet at the front of a byte string is cut out by its own header. -/
theorem packetFront_file {s : List UInt8} {p : FilePacket} {n : ℕ}
    (h : packetFront s = .frame (some p) n) :
    p.header = PacketHeader.ofBytes s ∧ p.header.magic = magicDSYC ∧
      p.header.opcode = opcodeFile ∧ p.path = (s.drop headerSize).take p.header.pathLen.toNat ∧
      p.path.length = p.header.pathLen.toNat ∧
      p.data = (s.drop (headerSize + p.path.length)).take p.header.fileSize.toNat ∧
      p.data.length = p.header.fileSize.toNat ∧ n = p.size ∧ n ≤ s.length := by
  obtain ⟨-, hmagic, ⟨hitem, -⟩ | ⟨hopcode, hfile⟩⟩ := packetFront_frame_cases h
  · cases hitem
  · obtain ⟨hn, hle, hitem⟩ := fileFront_frame hfile
    generalize PacketHeader.ofBytes s = hdr at hmagic hopcode hn hitem ⊢
    have hpath : ((s.drop headerSize).take hdr.pathLen.toNat).length = hdr.pathLen.toNat := by
      rw [List.length_take, List.length_drop]
      omega
    have hdata : ((s.drop (headerSize + hdr.pathLen.toNat)).take hdr.fileSize.toNat).length =
        hdr.fileSize.toNat := by
      rw [List.length_take, List.length_drop]
      omega
    obtain rfl := Option.some.inj hitem
    rw [FilePacket.size]
    simp only [hpath, hdata]
    exact ⟨trivial, hmagic, hopcode, trivial, trivial, trivial, trivial, hn, hle⟩

/-- A packet found in `s` announces the write made for it. -/
theorem announcedBy_toWrite (cfg : IniState) (reply : StoreReply) {s : List UInt8}
    {x : ℕ × FilePacket} (hx : x ∈ filePackets s) :
    AnnouncedBy s x.1 (toWrite cfg reply x.1 x.2) := by
  obtain ⟨before, after, n, hs, hpos, hfront⟩ := wireFormat.items_frame 0 s x hx
  obtain ⟨hheader, hmagic, hopcode, hpath, hpathLen, hdata, hdataLen, hn, hle⟩ :=
    packetFront_file hfront
  rw [Nat.zero_add] at hpos
  have hdrop : s.drop x.1 = after := by rw [hs, hpos, List.drop_left]
  have hdrop' : ∀ k, s.drop (x.1 + k) = after.drop k := by
    intro k
    rw [← List.drop_drop, hdrop]
  have hlen : s.length = x.1 + after.length := by rw [hs, hpos, List.length_append]
  rw [hheader] at hmagic hopcode hpath hpathLen hdata hdataLen
  refine ⟨?_, ?_, ?_, ?_, ?_, ?_⟩
  · rw [hdrop, hmagic]
  · rw [hdrop, hopcode]
  · rw [hdrop, toWrite, hpathLen]
  · rw [hdrop, toWrite, ← hdataLen, hlen]
    simp only
    rw [hn, FilePacket.size] at hle
    omega
  · rw [hdrop, hdrop', toWrite, ← hpath]
  · rw [hdrop, toWrite]
    simp only
    rw [Nat.add_assoc, hdrop', ← hdata]

/-! ## Cutting the connection -/

theorem writesOf_append (cfg : IniState) (disk : ℕ → StoreReply) (stored : ℕ)
    (a b : List (ℕ × FilePacket)) :
    writesOf cfg disk stored (a ++ b) =
      writesOf cfg disk stored a ++ writesOf cfg disk (stored + a.length) b := by
  induction a generalizing stored with
  | nil => rfl
  | cons x a ih =>
      obtain ⟨pos, p⟩ := x
      rw [List.cons_append, writesOf, writesOf, ih, List.length_cons, List.cons_append]
      congr 3
      omega

/-- Each packet of a list is stored by one write, in order. -/
theorem writesOf_forall₂ (cfg : IniState) (disk : ℕ → StoreReply) (stored : ℕ)
    (items : List (ℕ × FilePacket)) :
    List.Forall₂ (fun x w => ∃ reply, w = toWrite cfg reply x.1 x.2) items
      (writesOf cfg disk stored items) := by
  induction items generalizing stored with
  | nil => exact .nil
  | cons x items ih =>
      obtain ⟨pos, p⟩ := x
      exact .cons ⟨_, rfl⟩ (ih _)

/-- A longer session goes on storing where a cut one stopped. -/
theorem writes_of_longer (cfg : IniState) (disk : ℕ → StoreReply) {c c' : Conn}
    (h : c.toList <+: c'.toList) :
    (handleIncoming cfg disk c).writes <+: (handleIncoming cfg disk c').writes := by
  obtain ⟨rest, hrest⟩ := h
  obtain ⟨more, hmore⟩ := wireFormat.items_prefix 0 c.toList rest
  rw [handleIncoming_writes, handleIncoming_writes, ← hrest, filePackets, filePackets, ← hmore,
    writesOf_append]
  exact List.prefix_append _ _

/-- A session cut after `s` stores a prefix of what the longer session stores, each file
the payload of its own FILE header inside `s`; a session that returned `true` on `s` is
the longer session. -/
theorem handleIncoming_cut (cfg : IniState) (disk : ℕ → StoreReply) (s t : List UInt8)
    (c c' : Conn) (hc : c.toList = s) (hc' : c'.toList = s ++ t) :
    (handleIncoming cfg disk c).writes <+: (handleIncoming cfg disk c').writes ∧
      (∃ positions : List ℕ, positions.Pairwise (· < ·) ∧
        List.Forall₂ (AnnouncedBy s) positions (handleIncoming cfg disk c).writes) ∧
      ((handleIncoming cfg disk c).result = .returned true →
        (handleIncoming cfg disk c').result = .returned true ∧
          (handleIncoming cfg disk c').writes = (handleIncoming cfg disk c).writes) := by
  have hlonger : c.toList <+: c'.toList := by
    rw [hc, hc']
    exact List.prefix_append s t
  refine ⟨writes_of_longer cfg disk hlonger, ?_⟩
  rw [handleIncoming_writes, handleIncoming_writes, handleIncoming_true_iff,
    handleIncoming_true_iff, hc, hc']
  constructor
  · refine ⟨(filePackets s).map Prod.fst, ?_, ?_⟩
    · rw [List.pairwise_map]
      exact wireFormat.items_sorted 0 s
    · rw [List.forall₂_map_left_iff]
      refine List.Forall₂.imp ?_ ((List.forall₂_and_left _ _).mpr
        ⟨fun _ h => h, writesOf_forall₂ cfg disk 0 (filePackets s)⟩)
      rintro x w ⟨hx, reply, rfl⟩
      exact announcedBy_toWrite cfg reply hx
  · intro htrue
    rw [filePackets, filePackets, wireFormat.parse_append_of_some 0 s t _ htrue]
    exact ⟨rfl, rfl⟩

/-- The stream, cut after the first of the two bytes of its last file. -/
theorem handleIncoming_cut_sample :
    let cut := handleIncoming sampleCfg steadyDisk (.whole (sampleStream.take 176))
    let session := handleIncoming sampleCfg steadyDisk splitStream
    cut.writes <+: session.writes ∧
      (∃ positions : List ℕ, positions.Pairwise (· < ·) ∧
        List.Forall₂ (AnnouncedBy (sampleStream.take 176)) positions cut.writes) ∧
      (cut.result = .returned true →
        session.result = .returned true ∧ session.writes = cut.writes) :=
  handleIncoming_cut _ _ (sampleStream.take 176) (sampleStream.drop 176) _ _
    (ChunkedSource.Source.toList_whole _)
    (toList_splitStream.trans (List.take_append_drop 176 sampleStream).symm)

end DesktopSync.Analysis
