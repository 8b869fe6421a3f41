import DesktopSync.Analysis.RoundTrip
import DesktopSync.Model.LiveFile

/-!
# The size and the digest of a file that changes

The size, the digest and the payload of a FILE packet come from three looks at a live
file, and nothing compares them. `SendFilePacket` sends whatever its reads find, so the
payload has the announced length exactly where the file happens to yield that many bytes;
and `HandleIncoming` never reads the digest, so it is checked by nobody.
-/

set_option autoImplicit false

namespace DesktopSync.Analysis

open DesktopSync.Model
open ChunkedSink Framing

/-! ## The announced size -/

section SendLiveFile

variable {md5 : Digest} {total : UInt64} {pad : UInt16} {fuel : ℕ} {st : SendState} {f : LiveFile}

/-- What the accesses of a live file yield. -/
theorem access_eq_some {a : FileAccess} (h : f.access fuel = some a) :
    readAll f.hashOpens f.hashed fuel = some a.hashed ∧
      readAll f.sendOpens f.streamed fuel = some a.streamed ∧ a.name = f.name ∧
      a.size = f.size := by
  simp only [LiveFile.access, Option.bind_eq_bind, Option.bind_eq_some_iff] at h
  obtain ⟨hashed, hhashed, streamed, hstreamed, ha⟩ := h
  rw [← Option.some.inj ha]
  exact ⟨hhashed, hstreamed, rfl, rfl⟩

/-- A live file is sent as what its accesses yield. -/
theorem sendLiveFile_of_access {a : FileAccess} (h : f.access fuel = some a) :
    sendLiveFile md5 .update total pad fuel st f =
      some (sendFilePacket md5 .update total pad st a) := by
  obtain ⟨hhashed, hstreamed, hname, hsize⟩ := access_eq_some h
  unfold sendLiveFile sendFilePacket
  simp only [hname, hsize]
  split
  · rfl
  · cases hsized : f.size with
    | none => rfl
    | some size =>
        have hheader : fileHeader md5 .update pad ⟨f.name, some size, a.hashed, none⟩ size =
            fileHeader md5 .update pad a size := by
          unfold fileHeader computeMd5
          rw [hname]
        simp only [hhashed, Option.bind_eq_bind, Option.bind_some, hheader]
        rcases st.sendHeader (fileHeader md5 .update pad a size) with ⟨_ | _, st₁⟩
        · rfl
        · simp only
          rcases st₁.send (wideToUtf8 f.name) with ⟨_ | _, st₂⟩
          · rfl
          · unfold readAll at hstreamed
            simp only
            split at hstreamed
            · next hopens =>
                obtain ⟨data, hread, hdata⟩ := Option.map_eq_some_iff.mp hstreamed
                rw [if_pos hopens, sendLivePayload_of_read total hread, ← hdata]
                rfl
            · next hclosed =>
                rw [if_neg hclosed, ← Option.some.inj hstreamed]

/-- A live file that was sent has been read to an end. -/
theorem access_of_sendLiveFile {st' : SendState}
    (h : sendLiveFile md5 .update total pad fuel st f = some (.returned true, st')) :
    ∃ a, f.access fuel = some a := by
  unfold sendLiveFile at h
  simp only at h
  split at h
  · cases Option.some.inj h
  · split at h
    · cases Option.some.inj h
    · simp only [Option.bind_eq_bind, Option.bind_eq_some_iff] at h
      obtain ⟨hashed, hhashed, h⟩ := h
      split at h
      · cases Option.some.inj h
      · split at h
        · cases Option.some.inj h
        · split at h
          · next hopens =>
              obtain ⟨⟨ok, st₃⟩, hpayload, hresult⟩ := Option.bind_eq_some_iff.mp h
              have hok : ok = true := by
                injection hresult with hresult
                injection hresult with hresult
                injection hresult
              rw [hok] at hpayload
              obtain ⟨data, hread⟩ := read_of_sendLivePayload hpayload
              have hstreamed : readAll f.sendOpens f.streamed fuel = some (some data) := by
                rw [readAll, if_pos hopens, hread]
                rfl
              refine ⟨⟨f.name, f.size, hashed, some data⟩, ?_⟩
              simp only [LiveFile.access, hhashed, hstreamed, Option.bind_eq_bind,
                Option.bind_some]
          · cases Option.some.inj h

end SendLiveFile

/-- A call that returned `true` put a FILE header, the path and as many bytes as the header
announces on the wire. -/
def FramesPayload (st : SendState) (f : LiveFile) (outcome : CallResult × SendState) : Prop :=
  outcome.1 = .returned true → ∃ (hdr : PacketHeader) (payload : List UInt8),
    outcome.2.sink.taken = st.sink.taken ++ (hdr.toBytes ++ wideToUtf8 f.name ++ payload) ∧
      hdr.magic = magicDSYC ∧ hdr.opcode = opcodeFile ∧ payload.length = hdr.fileSize.toNat

/-- A packet that goes out in full carries as many bytes as `file_size` said. -/
def YieldsSize (refusals : List (Refusal SendRefusal)) (f : LiveFile) (fuel : ℕ) : Prop :=
  ∀ a, f.access fuel = some a → Sendable a → admits refusals (packetSize a) = true →
    (a.streamed.getD []).length = (a.size.getD 0).toNat

/-- A call returns `true` exactly if the whole packet goes out. -/
theorem sendFilePacket_true_iff (md5 : Digest) (total : UInt64) (pad : UInt16) (st : SendState)
    (a : FileAccess) :
    (sendFilePacket md5 .update total pad st a).1 = .returned true ↔
      Sendable a ∧ admits st.sink.refusals (packetSize a) = true := by
  constructor
  · intro h
    rcases sendable_or st.sink.refusals a with hsendable | hbreaks | hvanished
    · exact hsendable
    · rw [sendFilePacket_breaks md5 total pad st hbreaks] at h
      cases h
    · rw [sendFilePacket_of_gone hvanished.1 hvanished.2] at h
      cases h
  · rintro ⟨⟨hfits, hsized, hopens⟩, hadmits⟩
    obtain ⟨size, hsize⟩ := Option.isSome_iff_exists.mp hsized
    obtain ⟨ok, st', hpacket, hoffered, -⟩ := sendFilePacket_offered md5 total pad st hfits hsize
    rw [hpacket, hoffered.ok_eq, length_packetBytes, hadmits, hopens]
    rfl

/-- What a call that returned `true` put on the wire. -/
theorem sendFilePacket_taken {md5 : Digest} {total : UInt64} {pad : UInt16} {st : SendState}
    {a : FileAccess} (h : (sendFilePacket md5 .update total pad st a).1 = .returned true) :
    (sendFilePacket md5 .update total pad st a).2.sink.taken =
      st.sink.taken ++ packetBytes md5 pad a (a.size.getD 0) := by
  obtain ⟨⟨hfits, hsized, -⟩, hadmits⟩ := (sendFilePacket_true_iff md5 total pad st a).mp h
  obtain ⟨size, hsize⟩ := Option.isSome_iff_exists.mp hsized
  obtain ⟨ok, st', hpacket, hoffered, -⟩ := sendFilePacket_offered md5 total pad st hfits hsize
  have hok : ok = true := by
    rw [hoffered.ok_eq, length_packetBytes, hadmits]
  rw [hok] at hoffered
  rw [hpacket, hsize, Option.getD_some]
  exact hoffered.taken_of_ok

/-- The bytes of a packet can be cut into header, path and payload in one way only. -/
theorem packetBytes_inj {md5 : Digest} {pad : UInt16} {a : FileAccess} {size : UInt64}
    {hdr : PacketHeader} {payload : List UInt8}
    (h : packetBytes md5 pad a size = hdr.toBytes ++ wireName a ++ payload) :
    hdr = fileHeader md5 .update pad a size ∧ payload = a.streamed.getD [] := by
  rw [packetBytes, List.append_assoc, List.append_assoc] at h
  obtain ⟨hheader, hrest⟩ := List.append_inj h (by simp)
  refine ⟨?_, (List.append_cancel_left hrest).symm⟩
  rw [← PacketHeader.ofBytes_toBytes hdr [], ← hheader, PacketHeader.ofBytes_toBytes]

/-- A call frames its payload if and only if a packet that goes out in full carries as many
bytes as `file_size` said, however the file changes meanwhile. -/
theorem sendLiveFile_frames_iff (md5 : Digest) (total : UInt64) (pad : UInt16) (fuel : ℕ)
    (st : SendState) (f : LiveFile) (outcome : CallResult × SendState)
    (h : sendLiveFile md5 .update total pad fuel st f = some outcome) :
    FramesPayload st f outcome ↔ YieldsSize st.sink.refusals f fuel := by
  constructor
  · intro hframes a ha hsendable hadmits
    obtain ⟨-, -, hname, -⟩ := access_eq_some ha
    rw [sendLiveFile_of_access ha] at h
    have hresult := (sendFilePacket_true_iff md5 total pad st a).mpr ⟨hsendable, hadmits⟩
    have htaken := sendFilePacket_taken hresult
    rw [← Option.some.inj h] at hframes
    obtain ⟨hdr, payload, hbytes, -, -, hlength⟩ := hframes hresult
    rw [htaken, ← hname] at hbytes
    obtain ⟨hhdr, hpayload⟩ := packetBytes_inj (List.append_cancel_left hbytes)
    rw [← hpayload, hlength, hhdr]
    rfl
  · intro hyields hresult
    obtain ⟨result, st'⟩ := outcome
    obtain rfl : result = .returned true := hresult
    obtain ⟨a, ha⟩ := access_of_sendLiveFile h
    obtain ⟨-, -, hname, -⟩ := access_eq_some ha
    rw [sendLiveFile_of_access ha] at h
    have hcall := Option.some.inj h
    have htrue : (sendFilePacket md5 .update total pad st a).1 = .returned true := by
      rw [hcall]
    obtain ⟨hsendable, hadmits⟩ := (sendFilePacket_true_iff md5 total pad st a).mp htrue
    have htaken := sendFilePacket_taken htrue
    rw [hcall, packetBytes, wireName, hname] at htaken
    exact ⟨_, _, htaken, rfl, rfl, hyields a ha hsendable hadmits⟩

/-- A file that has three bytes when it is measured and hashed and four when it is sent. -/
def growingFile : LiveFile where
  name := wide "a"
  size := some 3
  hashOpens := true
  hashed _ := [1, 2, 3]
  sendOpens := true
  streamed _ := [1, 2, 3, 4]

theorem sendLiveFile_frames_growing :
    ∃ outcome, sendLiveFile sampleMd5 .update 3 0 1 (healthy fun _ => 0) growingFile =
        some outcome ∧
      (FramesPayload (healthy fun _ => 0) growingFile outcome ↔ YieldsSize [] growingFile 1) := by
  have haccess : growingFile.access 1 =
      some ⟨wide "a", some 3, some [1, 2, 3], some [1, 2, 3, 4]⟩ := rfl
  exact ⟨_, sendLiveFile_of_access haccess,
    sendLiveFile_frames_iff _ _ _ _ _ _ _ (sendLiveFile_of_access haccess)⟩

/-- The growing file is announced with three bytes and sent with four. -/
theorem sendLiveFile_misframes :
    ¬∀ (md5 : Digest) (total : UInt64) (pad : UInt16) (fuel : ℕ) (st : SendState) (f : LiveFile)
      (outcome : CallResult × SendState),
      sendLiveFile md5 .update total pad fuel st f = some outcome → FramesPayload st f outcome := by
  intro h
  have haccess : growingFile.access 1 =
      some ⟨wide "a", some 3, some [1, 2, 3], some [1, 2, 3, 4]⟩ := rfl
  have hcall : sendLiveFile sampleMd5 .update 3 0 1 (healthy fun _ => 0) growingFile = some _ :=
    sendLiveFile_of_access haccess
  have htrue := (sendFilePacket_true_iff sampleMd5 3 0 (healthy fun _ => 0)
    ⟨wide "a", some 3, some [1, 2, 3], some [1, 2, 3, 4]⟩).mpr
    ⟨⟨by decide, rfl, rfl⟩, rfl⟩
  obtain ⟨hdr, payload, hbytes, -, -, hlength⟩ := h _ _ _ _ _ _ _ hcall htrue
  rw [sendFilePacket_taken htrue] at hbytes
  obtain ⟨hhdr, hpayload⟩ := packetBytes_inj (List.append_cancel_left hbytes)
  rw [hhdr, hpayload] at hlength
  cases hlength

/-! ## The digest -/

/-- The bytes after a header that belong to its packet. -/
def bodyLength (hdr : PacketHeader) : ℕ :=
  if hdr.opcode = opcodeFile then hdr.pathLen.toNat + hdr.fileSize.toNat else 0

/-- Streams that differ in nothing but the md5 fields of their headers. -/
inductive SameButDigests : List UInt8 → List UInt8 → Prop
  | same (s : List UInt8) : SameButDigests s s
  | header (hdr : PacketHeader) (digest : List.Vector UInt8 16) {a b : List UInt8}
      (body : a.take (bodyLength hdr) = b.take (bodyLength hdr))
      (rest : SameButDigests (a.drop (bodyLength hdr)) (b.drop (bodyLength hdr))) :
      SameButDigests (hdr.toBytes ++ a) (PacketHeader.toBytes { hdr with md5 := digest } ++ b)

/-- A FILE packet with another digest. -/
def FilePacket.redigest (digest : List.Vector UInt8 16) (p : FilePacket) : FilePacket :=
  { p with header := { p.header with md5 := digest } }

section Redigest

variable {hdr : PacketHeader} {a b : List UInt8}

/-- What a FILE header and more bytes are does not depend on the digest. -/
theorem fileFront_redigest (digest : List.Vector UInt8 16) (hfile : hdr.opcode = opcodeFile)
    (hbody : a.take (bodyLength hdr) = b.take (bodyLength hdr)) :
    (∃ outcome n, fileFront hdr (hdr.toBytes ++ a) = .halt outcome n ∧
        fileFront { hdr with md5 := digest }
          (PacketHeader.toBytes { hdr with md5 := digest } ++ b) = .halt outcome n) ∨
      (fileFront hdr (hdr.toBytes ++ a) = .short ∧
        fileFront { hdr with md5 := digest }
          (PacketHeader.toBytes { hdr with md5 := digest } ++ b) = .short) ∨
      ∃ p, fileFront hdr (hdr.toBytes ++ a) = .frame (some p) (headerSize + bodyLength hdr) ∧
        fileFront { hdr with md5 := digest }
          (PacketHeader.toBytes { hdr with md5 := digest } ++ b) =
            .frame (some (FilePacket.redigest digest p)) (headerSize + bodyLength hdr) := by
  rw [bodyLength, if_pos hfile] at hbody ⊢
  have hlength := congrArg List.length hbody
  rw [List.length_take, List.length_take] at hlength
  have hpath : a.take hdr.pathLen.toNat = b.take hdr.pathLen.toNat := by
    have htake := congrArg (List.take hdr.pathLen.toNat) hbody
    rwa [List.take_take, List.take_take, Nat.min_eq_left (Nat.le_add_right _ _)] at htake
  have hdata : (a.drop hdr.pathLen.toNat).take hdr.fileSize.toNat =
      (b.drop hdr.pathLen.toNat).take hdr.fileSize.toNat := by
    have hdrop := congrArg (List.drop hdr.pathLen.toNat) hbody
    rwa [List.drop_take, List.drop_take, Nat.add_sub_cancel_left] at hdrop
  have hpathShort : (headerSize + b.length < headerSize + hdr.pathLen.toNat) =
      (headerSize + a.length < headerSize + hdr.pathLen.toNat) := propext (by omega)
  have hdataShort : (headerSize + b.length < headerSize + hdr.pathLen.toNat + hdr.fileSize.toNat) =
      (headerSize + a.length < headerSize + hdr.pathLen.toNat + hdr.fileSize.toNat) :=
    propext (by omega)
  unfold fileFront
  simp only [List.length_append, PacketHeader.length_toBytes, ← List.drop_drop, drop_toBytes,
    hpathShort, hdataShort, ← hpath, ← hdata]
  split_ifs
  · exact .inl ⟨_, _, rfl, rfl⟩
  · exact .inr (.inl ⟨rfl, rfl⟩)
  · exact .inl ⟨_, _, rfl, rfl⟩
  · exact .inl ⟨_, _, rfl, rfl⟩
  · exact .inr (.inl ⟨rfl, rfl⟩)
  · exact .inr (.inr ⟨_, by rw [← Nat.add_assoc], by rw [← Nat.add_assoc]; rfl⟩)

/-- The verdict on a header and more bytes does not depend on the digest. -/
theorem packetFront_redigest (digest : List.Vector UInt8 16)
    (hbody : a.take (bodyLength hdr) = b.take (bodyLength hdr)) :
    (∃ outcome n, packetFront (hdr.toBytes ++ a) = .halt outcome n ∧
        packetFront (PacketHeader.toBytes { hdr with md5 := digest } ++ b) = .halt outcome n) ∨
      (packetFront (hdr.toBytes ++ a) = .short ∧
        packetFront (PacketHeader.toBytes { hdr with md5 := digest } ++ b) = .short) ∨
      ∃ item, packetFront (hdr.toBytes ++ a) = .frame item (headerSize + bodyLength hdr) ∧
        packetFront (PacketHeader.toBytes { hdr with md5 := digest } ++ b) =
          .frame (item.map (FilePacket.redigest digest)) (headerSize + bodyLength hdr) := by
  rw [packetFront_toBytes, packetFront_toBytes]
  unfold headerFront
  by_cases hmagic : hdr.magic ≠ magicDSYC
  · rw [if_pos hmagic, if_pos hmagic]
    exact .inl ⟨_, _, rfl, rfl⟩
  rw [if_neg hmagic, if_neg hmagic]
  by_cases hend : hdr.opcode = opcodeEnd
  · rw [if_pos hend, if_pos hend]
    exact .inl ⟨_, _, rfl, rfl⟩
  rw [if_neg hend, if_neg hend]
  by_cases hfile : hdr.opcode = opcodeFile
  · rw [if_pos hfile, if_pos hfile]
    rcases fileFront_redigest digest hfile hbody with hhalt | hshort | ⟨p, hp, hp'⟩
    · exact .inl hhalt
    · exact .inr (.inl hshort)
    · exact .inr (.inr ⟨some p, hp, hp'⟩)
  · rw [if_neg hfile, if_neg hfile, bodyLength, if_neg hfile]
    exact .inr (.inr ⟨none, rfl, rfl⟩)

end Redigest

/-- Name and content of a file that is sent whole fill the body of its packet. -/
theorem bodyLength_fileHeader (md5 : Digest) (pad : UInt16) {f : FileAccess} (h : SentWhole f) :
    bodyLength (fileHeader md5 .update pad f (f.size.getD 0)) =
      (wireName f ++ f.streamed.getD []).length := by
  obtain ⟨hfits, content, hsize, hstreamed, hlen⟩ := h
  have hdata : (UInt64.ofNat content.length).toNat = content.length :=
    UInt64.toNat_ofNat_of_lt' (lt_trans hlen (by decide))
  rw [bodyLength, if_pos (fileHeader_opcode md5 _ _ _), pathLen_fileHeader md5 pad _ hfits, hsize,
    hstreamed, List.length_append]
  exact congrArg _ hdata

/-- The packets of files under two digest functions. -/
theorem sameButDigests_packets (md5 md5' : Digest) (pads : ℕ → UInt16) (k : ℕ)
    {files : List FileAccess} (hfiles : ∀ f ∈ files, SentWhole f) (tail : List UInt8) :
    SameButDigests (packetsBytes md5 pads k files ++ tail)
      (packetsBytes md5' pads k files ++ tail) := by
  induction files generalizing k with
  | nil => exact .same tail
  | cons f files ih =>
      have hbody := bodyLength_fileHeader md5 (pads k) (hfiles f List.mem_cons_self)
      have hrest := ih (k + 1) fun g hg => hfiles g (List.mem_cons_of_mem f hg)
      simp only [packetsBytes, packetBytes, List.append_assoc]
      rw [← List.append_assoc (wireName f), ← List.append_assoc (wireName f)]
      refine .header (fileHeader md5 .update (pads k) f (f.size.getD 0))
        ((computeMd5 md5' f).getD (List.Vector.replicate 16 0)) ?_ ?_
      · rw [hbody, List.take_left, List.take_left]
      · rw [hbody, List.drop_left, List.drop_left]
        exact hrest

/-- Uploads under two digest functions differ in digests alone. -/
theorem sameButDigests_upload (md5 md5' : Digest) (now : UInt64) (pads : ℕ → UInt16)
    {files : List FileAccess} (hfiles : ∀ f ∈ files, SentWhole f) :
    SameButDigests (uploadBytes md5 now pads files) (uploadBytes md5' now pads files) := by
  refine .header (helloHeader now (pads 0)) _ rfl ?_
  exact sameButDigests_packets md5 md5' pads 1 hfiles _

/-- The parse of two streams that differ in digests ends alike, and the same files are
stored for it. -/
theorem SameButDigests.parse {s t : List UInt8} (h : SameButDigests s t) (pos : ℕ) :
    (wireFormat.parse pos s).outcome = (wireFormat.parse pos t).outcome ∧
      ∀ cfg disk stored, writesOf cfg disk stored (wireFormat.parse pos s).items =
        writesOf cfg disk stored (wireFormat.parse pos t).items := by
  induction h generalizing pos with
  | same s => exact ⟨rfl, fun _ _ _ => rfl⟩
  | @header hdr digest a b body rest ih =>
      rcases packetFront_redigest digest body with
        ⟨outcome, n, hs, ht⟩ | ⟨hs, ht⟩ | ⟨item, hs, ht⟩
      · rw [parse_of_halt hs, parse_of_halt ht]
        exact ⟨rfl, fun _ _ _ => rfl⟩
      · rw [parse_of_short hs, parse_of_short ht]
        exact ⟨rfl, fun _ _ _ => rfl⟩
      · obtain ⟨houtcome, hwrites⟩ := ih (pos + (headerSize + bodyLength hdr))
        rw [parse_of_frame hs, parse_of_frame ht, ← List.drop_drop, ← List.drop_drop,
          drop_toBytes, drop_toBytes]
        refine ⟨houtcome, fun cfg disk stored => ?_⟩
        cases item with
        | none => exact hwrites cfg disk stored
        | some p =>
            simp only [Option.map_some, Option.toList_some, List.map_cons, List.map_nil,
              List.singleton_append, writesOf, hwrites]
            rfl

/-- The digest field of a packet is the digest of its content, or says that there is none. -/
def DigestFits (md5 : Digest) (p : FilePacket) : Prop :=
  p.header.md5 = md5 p.data ∨ p.header.md5 = List.Vector.replicate 16 0

/-- Every file a session stores comes from a packet whose digest field fits. -/
def DigestsMatch (md5 : Digest) (cfg : IniState) (disk : ℕ → StoreReply) (c : Conn) : Prop :=
  ∀ x ∈ filePackets c.toList, ∀ w ∈ (handleIncoming cfg disk c).writes,
    (∃ reply, w = toWrite cfg reply x.1 x.2) → DigestFits md5 x.2

/-- The file has one content from `file_size` to the last read, and `ComputeMd5` reads it or
cannot open the file. -/
structure Unchanged (f : FileAccess) : Prop where
  fits : NameFits f
  steady : ∃ content, content.length < 2 ^ 64 ∧ f.size = some (UInt64.ofNat content.length) ∧
    f.streamed = some content ∧ (f.hashed = none ∨ f.hashed = some content)

theorem Unchanged.sendable {f : FileAccess} (h : Unchanged f) : Sendable f := by
  obtain ⟨hfits, content, -, hsize, hstreamed, -⟩ := h
  exact ⟨hfits, by rw [hsize]; rfl, by rw [hstreamed]; rfl⟩

/-- The digest of a file that does not change fits its packet. -/
theorem Unchanged.digestFits {f : FileAccess} (h : Unchanged f) (md5 : Digest) (pad : UInt16) :
    DigestFits md5 (framed md5 pad f) := by
  obtain ⟨-, content, -, -, hstreamed, hhashed⟩ := h
  unfold DigestFits framed fileHeader computeMd5
  simp only [hstreamed, Option.getD_some]
  split
  · exact .inr rfl
  · rcases hhashed with hhashed | hhashed
    · rw [hhashed]
      exact .inr rfl
    · rw [hhashed]
      exact .inl rfl

/-- All packets found in those of files that do not change have digests that fit. -/
theorem digestFits_packets (md5 : Digest) (pads : ℕ → UInt16) (pos k : ℕ)
    (files : List FileAccess) (hfiles : ∀ f ∈ files, Unchanged f) (tail : List UInt8)
    (htail : ∀ pos, ∀ x ∈ (wireFormat.parse pos tail).items, DigestFits md5 x.2) :
    ∀ x ∈ (wireFormat.parse pos (packetsBytes md5 pads k files ++ tail)).items,
      DigestFits md5 x.2 := by
  induction files generalizing pos k with
  | nil => exact htail pos
  | cons f files ih =>
      have hf := hfiles f List.mem_cons_self
      obtain ⟨content, hlt, hsize, hstreamed, -⟩ := hf.steady
      rw [packetsBytes, List.append_assoc]
      by_cases hsmall : content.length < 2 ^ 31
      · have hfront := packetFront_packet md5 (pads k)
          ⟨hf.fits, content, hsize, hstreamed, hsmall⟩ (packetsBytes md5 pads (k + 1) files ++ tail)
        rw [parse_of_frame hfront, List.drop_left' (length_packetBytes _ _ _ _)]
        intro x hx
        apply (List.mem_append.mp hx).elim
        · intro hfirst
          rw [List.mem_singleton.mp hfirst]
          exact hf.digestFits md5 (pads k)
        · exact ih _ _ (fun g hg => hfiles g (List.mem_cons_of_mem _ hg)) x
      · obtain ⟨outcome, n, -, hfront⟩ := packetFront_large md5 (pads k) hf.fits
          (not_lt.mp hsmall) hlt (packetsBytes md5 pads (k + 1) files ++ tail)
        rw [hsize, Option.getD_some, parse_of_halt hfront]
        intro x hx
        cases hx

/-- `HandleIncoming` never reads a digest: streams that differ in digests alone end alike and
store the same files. On the stream of an upload of files that do not change, cut anywhere,
the digests fit nevertheless. -/
theorem digests_unread (md5 : Digest) (cfg : IniState) (disk : ℕ → StoreReply) :
    (∀ c c' : Conn, SameButDigests c.toList c'.toList →
        (handleIncoming cfg disk c).result = (handleIncoming cfg disk c').result ∧
          (handleIncoming cfg disk c).writes = (handleIncoming cfg disk c').writes) ∧
      ∀ (now total : UInt64) (pads : ℕ → UInt16) (limit : ℕ → ℕ) (files : List FileAccess)
        (c : Conn), (∀ f ∈ files, Unchanged f) →
        c.toList <+: (uploadFiles md5 now total pads (healthy limit) files).st.sink.taken →
          DigestsMatch md5 cfg disk c := by
  constructor
  · intro c c' hsame
    obtain ⟨houtcome, hwrites⟩ := hsame.parse 0
    rw [handleIncoming_result, handleIncoming_result, handleIncoming_writes,
      handleIncoming_writes, houtcome]
    exact ⟨rfl, hwrites cfg disk 0⟩
  · intro now total pads limit files c hfiles hprefix x hx w _ _
    have hopen : (healthy limit).sink.refusals = [] := rfl
    rw [(uploadFiles_open md5 now total pads hopen fun f hf => (hfiles f hf).sendable).2] at hprefix
    obtain ⟨rest, hrest⟩ := hprefix
    have hmore := (wireFormat.items_prefix 0 c.toList rest).subset hx
    rw [hrest, show (healthy limit).sink.taken = [] from rfl, List.nil_append, uploadBytes,
      parse_hello] at hmore
    apply digestFits_packets md5 pads _ 1 files hfiles _ _ x hmore
    intro pos y hy
    rw [← List.append_nil (PacketHeader.toBytes _), parse_end _ rfl rfl] at hy
    cases hy

/-- A FILE packet without content whose digest is `n` sixteen times. -/
def digestPacket (n : UInt8) : FilePacket where
  header := { opcode := opcodeFile, pad := 0, pathLen := 1, fileSize := 0,
              md5 := List.Vector.replicate 16 n }
  path := [0x61]
  data := []

/-- Two packets with the same content and different digests. -/
def twoDigests : List UInt8 :=
  (digestPacket 1).header.toBytes ++ (digestPacket 1).path ++ (digestPacket 1).data ++
    ((digestPacket 2).header.toBytes ++ (digestPacket 2).path ++ (digestPacket 2).data ++ [])

theorem filePackets_twoDigests :
    filePackets twoDigests = [(0, digestPacket 1), (41, digestPacket 2)] := by
  have hzero : 0 < 2 ^ 31 := by decide
  have hone : 1 < 2 ^ 31 := by decide
  have hfile : ∀ n pos s, wireFormat.parse pos ((digestPacket n).header.toBytes ++
      (digestPacket n).path ++ (digestPacket n).data ++ s) =
        ⟨(pos, digestPacket n) :: (wireFormat.parse (pos + 41) s).items,
          (wireFormat.parse (pos + 41) s).outcome, (wireFormat.parse (pos + 41) s).rest⟩ :=
    fun n pos s => parse_file (p := digestPacket n) rfl rfl rfl hone rfl hzero pos s
  have hend : ∀ pos, wireFormat.parse pos [] = ⟨[], none, []⟩ := fun _ => parse_of_short rfl
  rw [filePackets, twoDigests, hfile, hfile, hend]

/-- The sample files under two digest functions; and their upload, cut inside the last file. -/
theorem digests_unread_sample :
    let other : Digest := fun _ => List.Vector.replicate 16 1
    let stream := uploadBytes other 0 (fun _ => 0) (sampleFiles.map steadyFile)
    ((handleIncoming sampleCfg steadyDisk (.whole sampleStream)).result =
        (handleIncoming sampleCfg steadyDisk (.whole stream)).result ∧
      (handleIncoming sampleCfg steadyDisk (.whole sampleStream)).writes =
        (handleIncoming sampleCfg steadyDisk (.whole stream)).writes) ∧
      DigestsMatch sampleMd5 sampleCfg steadyDisk (.whole (sampleStream.take 176)) := by
  intro other stream
  obtain ⟨hsame, hmatch⟩ := digests_unread sampleMd5 sampleCfg steadyDisk
  have hwhole : ∀ f ∈ sampleFiles.map steadyFile, SentWhole f := by
    intro f hf
    obtain ⟨g, hg, rfl⟩ := List.mem_map.mp hf
    exact (sampleFiles_portable g hg).sentWhole
  constructor
  · apply hsame
    rw [ChunkedSource.Source.toList_whole, ChunkedSource.Source.toList_whole]
    exact sameButDigests_upload sampleMd5 other 0 (fun _ => 0) hwhole
  · have hopen : (healthy fun _ => 0).sink.refusals = [] := rfl
    have htaken := (uploadFiles_open sampleMd5 0 5 (fun _ => 0) hopen
      fun f hf => (hwhole f hf).sendable).2
    apply hmatch 0 5 (fun _ => 0) (fun _ => 0) (sampleFiles.map steadyFile)
    · intro f hf
      obtain ⟨g, hg, rfl⟩ := List.mem_map.mp hf
      have hsmall := (sampleFiles_portable g hg).small
      exact ⟨(sampleFiles_portable g hg).fits, g.2, by omega, rfl, rfl, .inr rfl⟩
    · rw [htaken, ChunkedSource.Source.toList_whole]
      exact List.take_prefix 176 sampleStream

/-- Both packets are stored, and no digest function gives their content both digests. -/
theorem digests_unchecked :
    ¬∃ md5 : Digest, ∀ (cfg : IniState) (disk : ℕ → StoreReply) (c : Conn),
      DigestsMatch md5 cfg disk c := by
  rintro ⟨md5, h⟩
  have hmatch := h sampleCfg steadyDisk (.whole twoDigests)
  unfold DigestsMatch at hmatch
  rw [handleIncoming_writes, ChunkedSource.Source.toList_whole, filePackets_twoDigests] at hmatch
  have hfirst := hmatch (0, digestPacket 1) List.mem_cons_self _ List.mem_cons_self ⟨_, rfl⟩
  have hsecond := hmatch (41, digestPacket 2) (List.mem_cons_of_mem _ List.mem_cons_self) _
    (List.mem_cons_of_mem _ List.mem_cons_self) ⟨_, rfl⟩
  have hone : md5 [] = List.Vector.replicate 16 1 := by
    apply hfirst.elim Eq.symm
    intro hzero
    exact absurd hzero (by decide)
  have htwo : md5 [] = List.Vector.replicate 16 2 := by
    apply hsecond.elim Eq.symm
    intro hzero
    exact absurd hzero (by decide)
  exact absurd (hone.symm.trans htwo) (by decide)

end DesktopSync.Analysis
