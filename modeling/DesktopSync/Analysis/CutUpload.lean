import DesktopSync.Analysis.Completion
import DesktopSync.Analysis.CutHeader

/-!
# What the receiver makes of a failed upload

After a file that failed, `SyncUploadOnce` leaves its loop and still sends END, so the
receiver reads END where it expects the rest of the packet. `failedUpload_iff` says when
the files it stores are nevertheless files of the sender: unless the announced path and
payload fit into what is out, which a locked file of at most forty bytes already does.
-/

set_option autoImplicit false

namespace DesktopSync.Analysis

open DesktopSync.Model
open ChunkedSink Framing

/-- A file of the sender that does not change, though it may not open. -/
structure StoredFile where
  access : FileAccess
  content : List UInt8
  sized : access.size = some (UInt64.ofNat content.length)
  small : content.length < 2 ^ 64
  reads : access.streamed = none ∨ access.streamed = some content

/-- The name under which the receiver knows a file; it is the file's own for every
well-formed name. -/
def receivedName (f : FileAccess) : WString := utf8ToWide (wireName f)

/-- The write stores a file of the sender, and no byte of a packet header. -/
structure Faithful (files : List StoredFile) (headers : List ℕ) (w : FileWrite) : Prop where
  known : ∃ f ∈ files, receivedName f.access = w.fileName ∧ f.content = w.data
  clear : ∀ h ∈ headers, ∀ i, w.offset ≤ i → i < w.offset + w.data.length →
    ¬(h ≤ i ∧ i < h + headerSize)

/-! ## The bytes of a failed upload -/

/-- How much of a file's packet goes out. -/
def cutLength (refusals : List (Refusal SendRefusal)) (f : FileAccess) : ℕ :=
  if NameFits f then room refusals (packetSize f) else 0

theorem cutLength_le (refusals : List (Refusal SendRefusal)) (f : FileAccess) :
    cutLength refusals f ≤ packetSize f := by
  unfold cutLength
  split
  · cases hadmits : admits refusals (packetSize f) with
    | true => rw [room_of_admits hadmits]
    | false => exact (room_lt_of_not_admits hadmits).le
  · exact Nat.zero_le _

/-- A packet that fails leaves its cut bytes on the wire. -/
theorem sendFilePacket_cut (md5 : Digest) (total : UInt64) (pad : UInt16) (st : SendState)
    {f : FileAccess} {size : UInt64} (hsize : f.size = some size)
    (hbreaks : Breaks st.sink.refusals f) :
    ∃ st', sendFilePacket md5 .update total pad st f = (.returned false, st') ∧
      st'.sink.taken =
        st.sink.taken ++ (packetBytes md5 pad f size).take (cutLength st.sink.refusals f) ∧
      st'.headers = st.headers ++ if NameFits f then [st.sink.taken.length] else [] := by
  have hfailed := sendFilePacket_breaks md5 total pad st hbreaks
  by_cases hfits : NameFits f
  · obtain ⟨ok, st', hpacket, hoffered, hheaders⟩ :=
      sendFilePacket_offered md5 total pad st hfits hsize
    rw [hpacket] at hfailed
    refine ⟨st', by rw [hpacket]; exact Prod.ext hfailed rfl, ?_, ?_⟩
    · rw [hoffered.taken, cutLength, if_pos hfits, length_packetBytes]
    · rw [hheaders, if_pos hfits]
  · refine ⟨st, sendFilePacket_of_long hfits, ?_, ?_⟩
    · rw [cutLength, if_neg hfits, List.take_zero, List.append_nil]
    · rw [if_neg hfits, List.append_nil]

@[simp] theorem report_sink (st : SendState) (r : TrayReport) :
    (st.report r).sink = st.sink := rfl

@[simp] theorem report_headers (st : SendState) (r : TrayReport) :
    (st.report r).headers = st.headers := rfl

/-- Where the headers begin when the packet of `f` failed after `j` bytes: HELLO, the files
before it, its own if it has one, END. -/
def failedHeaders (before : List FileAccess) (f : FileAccess) (j : ℕ) : List ℕ :=
  0 :: headerStarts headerSize before ++
    (if NameFits f then [headerSize + wireSize before] else []) ++
    [headerSize + wireSize before + j]

/-- The wire and the header positions after an upload whose packet of `f` failed and whose
END packet went out. -/
theorem uploadFiles_failed (md5 : Digest) (now total : UInt64) (pads : ℕ → UInt16)
    (st : SendState) (htaken : st.sink.taken = []) (hheaders : st.headers = [])
    (before : List FileAccess) (f : FileAccess) (rest : List FileAccess) {size : UInt64}
    (hsize : f.size = some size) (hsent : ∀ g ∈ before, Sendable g)
    (hadmits : admits (after st.sink.refusals headerSize) (wireSize before) = true)
    (hbreaks : Breaks (after (after st.sink.refusals headerSize) (wireSize before)) f)
    (hhello : (uploadFiles md5 now total pads st (before ++ f :: rest)).hello = true)
    (hending : (uploadFiles md5 now total pads st (before ++ f :: rest)).ending = true) :
    let j := cutLength (after (after st.sink.refusals headerSize) (wireSize before)) f
    (uploadFiles md5 now total pads st (before ++ f :: rest)).st.sink.taken =
        (helloHeader now (pads 0)).toBytes ++ (packetsBytes md5 pads 1 before ++
          cutBytes (fileHeader md5 .update (pads (1 + before.length)) f size) (wireName f)
            (f.streamed.getD []) j (pads ((before ++ f :: rest).length + 1))) ∧
      (uploadFiles md5 now total pads st (before ++ f :: rest)).st.headers =
        failedHeaders before f j := by
  intro j
  have hhelloOffered := sendHeader_offered st (helloHeader now (pads 0))
  have hrefusals := sendHello_refusals now pads st
  have hhelloHeaders := sendHeader_headers st (helloHeader now (pads 0))
  obtain ⟨st₁, hpackets, hstarts, hresults, hfinal⟩ := sendFiles_append md5 total pads 1
    (sendHello st now (pads 0)).2 before (f :: rest) hsent (by rw [hrefusals, hadmits])
  have hrefusals₁ : st₁.sink.refusals =
      after (after st.sink.refusals headerSize) (wireSize before) := by
    rw [hpackets.refusals, length_packetsBytes, hrefusals]
  obtain ⟨st₂, hpacket, hcut, hcutHeaders⟩ := sendFilePacket_cut md5 total
    (pads (1 + before.length)) st₁ hsize (by rw [hrefusals₁]; exact hbreaks)
  rw [hrefusals₁] at hcut
  simp only [sendFiles, hpacket] at hresults hfinal
  have hthrew : CallResult.threw ∉
      (sendFiles md5 total pads 1 (sendHello st now (pads 0)).2 (before ++ f :: rest)).1 := by
    rw [hresults]
    simp
  unfold uploadFiles at hhello hending ⊢
  simp only [if_neg hthrew, hfinal] at hhello hending ⊢
  have hendOffered := sendHeader_offered
    (st₂.report ⟨.error, st₂.sent, total, "send failed"⟩)
    { opcode := opcodeEnd, pad := pads ((before ++ f :: rest).length + 1) }
  have hendHeaders := sendHeader_headers
    (st₂.report ⟨.error, st₂.sent, total, "send failed"⟩)
    { opcode := opcodeEnd, pad := pads ((before ++ f :: rest).length + 1) }
  rw [sendEnd] at hending ⊢
  rw [hending] at hendOffered
  rw [sendHello] at hhello hpackets hstarts
  rw [hhello] at hhelloOffered
  have htaken₁ : st₁.sink.taken =
      (helloHeader now (pads 0)).toBytes ++ packetsBytes md5 pads 1 before := by
    rw [(hhelloOffered.trans hpackets).taken_of_ok, htaken, List.nil_append]
  have hlength₁ : st₁.sink.taken.length = headerSize + wireSize before := by
    rw [htaken₁, List.length_append, PacketHeader.length_toBytes, length_packetsBytes]
  have hlength₂ : st₂.sink.taken.length = headerSize + wireSize before + j := by
    rw [hcut, List.length_append, hlength₁, List.length_take, length_packetBytes,
      Nat.min_eq_left (cutLength_le _ _)]
  constructor
  · refine hendOffered.taken_of_ok.trans ?_
    rw [report_sink, hcut, htaken₁, List.append_assoc, List.append_assoc]
    rfl
  · refine hendHeaders.trans ?_
    rw [report_sink, report_headers, hcutHeaders, hstarts, hhelloHeaders, hlength₂, hlength₁,
      hheaders, htaken, hhelloOffered.taken_of_ok, htaken, List.nil_append, List.nil_append,
      PacketHeader.length_toBytes]
    rfl

/-! ## The files sent before the failure -/

theorem headerStarts_ge (pos : ℕ) (files : List FileAccess) : ∀ h ∈ headerStarts pos files,
    pos ≤ h := by
  induction files generalizing pos with
  | nil => simp [headerStarts]
  | cons f files ih =>
      intro h hh
      rcases List.mem_cons.mp hh with rfl | hh
      · exact le_rfl
      · exact (Nat.le_add_right _ _).trans (ih _ h hh)

theorem headerStarts_append (pos : ℕ) (a b : List FileAccess) :
    headerStarts pos (a ++ b) = headerStarts pos a ++ headerStarts (pos + wireSize a) b := by
  induction a generalizing pos with
  | nil => rfl
  | cons f a ih =>
      rw [List.cons_append, headerStarts, headerStarts, ih, wireSize_cons, Nat.add_assoc,
        List.cons_append]

/-- Every header is that of HELLO, of one of the files, or behind the files. -/
def HeadersPast (headers : List ℕ) (files : List FileAccess) : Prop :=
  ∀ h ∈ headers, h = 0 ∨ h ∈ headerStarts headerSize files ∨ headerSize + wireSize files ≤ h

theorem headersPast_failed (before : List FileAccess) (f : FileAccess) (j : ℕ) :
    HeadersPast (failedHeaders before f j) before := by
  intro h hh
  rw [failedHeaders, List.mem_append, List.mem_append, List.mem_cons, List.mem_singleton] at hh
  rcases hh with ((rfl | hh) | hh) | rfl
  · exact .inl rfl
  · exact .inr (.inl hh)
  · refine .inr (.inr ?_)
    split_ifs at hh
    · rw [List.mem_singleton] at hh
      exact hh.ge
    · cases hh
  · exact .inr (.inr (Nat.le_add_right _ _))

theorem HeadersPast.of_append {headers : List ℕ} {a b : List FileAccess}
    (h : HeadersPast headers (a ++ b)) : HeadersPast headers a := by
  intro start hstart
  have hsum : wireSize (a ++ b) = wireSize a + wireSize b := by simp [wireSize]
  have hcases := h start hstart
  rw [headerStarts_append, List.mem_append] at hcases
  rcases hcases with hzero | (hin | hin) | hafter
  · exact .inl hzero
  · exact .inr (.inl hin)
  · exact .inr (.inr (headerStarts_ge _ _ start hin))
  · exact .inr (.inr (by omega))

/-- A file stored for one of a list of packets lies in that packet, clear of every
packet's header. -/
theorem mem_writesOf_packetItems {cfg : IniState} {disk : ℕ → StoreReply} {md5 : Digest}
    {pads : ℕ → UInt16} {stored pos k : ℕ} {files : List FileAccess} {w : FileWrite}
    (hw : w ∈ writesOf cfg disk stored (packetItems md5 pads pos k files)) :
    ∃ f ∈ files, ∃ start, w.fileName = receivedName f ∧ w.data = f.streamed.getD [] ∧
      w.offset = start + headerSize + (wireName f).length ∧ pos ≤ start ∧
      start + packetSize f ≤ pos + wireSize files ∧
      ∀ h ∈ headerStarts pos files, h ≤ start ∨ start + packetSize f ≤ h := by
  induction files generalizing stored pos k with
  | nil => cases hw
  | cons f files ih =>
      rcases List.mem_cons.mp hw with rfl | hw
      · refine ⟨f, List.mem_cons_self, pos, rfl, rfl, rfl, le_rfl, ?_, ?_⟩
        · rw [wireSize_cons]
          omega
        · intro h hh
          rcases List.mem_cons.mp hh with rfl | hh
          · exact .inl le_rfl
          · exact .inr (headerStarts_ge _ _ h hh)
      · obtain ⟨g, hg, start, hname, hdata, hoffset, hpos, hend, hheaders⟩ := ih hw
        refine ⟨g, List.mem_cons_of_mem _ hg, start, hname, hdata, hoffset, by omega, ?_, ?_⟩
        · rw [wireSize_cons]
          omega
        · intro h hh
          rcases List.mem_cons.mp hh with rfl | hh
          · exact .inl (by omega)
          · exact hheaders h hh

theorem StoredFile.streamed_eq {f : StoredFile} (h : Sendable f.access) :
    f.access.streamed = some f.content := by
  rcases f.reads with hclosed | hopen
  · have hopens := h.opens
    rw [hclosed] at hopens
    cases hopens
  · exact hopen

theorem StoredFile.sentWhole {f : StoredFile} (h : Sendable f.access)
    (hsmall : f.content.length < 2 ^ 31) : SentWhole f.access :=
  ⟨h.fits, f.content, f.sized, StoredFile.streamed_eq h, hsmall⟩

/-- Whole files are stored faithfully, whatever headers follow them. -/
theorem faithful_before {cfg : IniState} {disk : ℕ → StoreReply} {md5 : Digest}
    {pads : ℕ → UInt16} {stored k : ℕ} {files sent : List StoredFile} {headers : List ℕ}
    (hsub : ∀ f ∈ sent, f ∈ files) (hsent : ∀ f ∈ sent, Sendable f.access)
    (hheaders : HeadersPast headers (sent.map StoredFile.access)) :
    ∀ w ∈ writesOf cfg disk stored
        (packetItems md5 pads headerSize k (sent.map StoredFile.access)),
      Faithful files headers w := by
  intro w hw
  obtain ⟨a, ha, start, hname, hdata, hoffset, hpos, hend, hstarts⟩ := mem_writesOf_packetItems hw
  obtain ⟨f, hf, rfl⟩ := List.mem_map.mp ha
  rw [StoredFile.streamed_eq (hsent f hf), Option.getD_some] at hdata
  have hsize : packetSize f.access =
      headerSize + (wireName f.access).length + f.content.length := by
    rw [packetSize, StoredFile.streamed_eq (hsent f hf), Option.getD_some]
  refine ⟨⟨f, hsub f hf, hname.symm, hdata.symm⟩, ?_⟩
  rintro h hh i hlow hhigh ⟨hstart, hstop⟩
  rw [hoffset] at hlow hhigh
  rw [hdata] at hhigh
  rcases hheaders h hh with rfl | hbefore | hafter
  · omega
  · rcases hstarts h hbefore with hle | hge
    · omega
    · omega
  · omega

/-- The parse stops at the first file that is too large to be received, and otherwise goes
on behind the files. -/
theorem parse_sent (md5 : Digest) (pads : ℕ → UInt16) (pos k : ℕ) (sent : List StoredFile)
    (hsent : ∀ f ∈ sent, Sendable f.access) (tail : List UInt8) :
    (∀ f ∈ sent, f.content.length < 2 ^ 31) ∧
        (wireFormat.parse pos
          (packetsBytes md5 pads k (sent.map StoredFile.access) ++ tail)).items =
          packetItems md5 pads pos k (sent.map StoredFile.access) ++
            (wireFormat.parse (pos + wireSize (sent.map StoredFile.access)) tail).items ∨
      ∃ small large rest, sent = small ++ large :: rest ∧ ¬large.content.length < 2 ^ 31 ∧
        (wireFormat.parse pos
          (packetsBytes md5 pads k (sent.map StoredFile.access) ++ tail)).items =
          packetItems md5 pads pos k (small.map StoredFile.access) := by
  induction sent generalizing pos k with
  | nil => exact .inl ⟨by simp, rfl⟩
  | cons f sent ih =>
      have hf := hsent f List.mem_cons_self
      have hbytes : packetsBytes md5 pads k ((f :: sent).map StoredFile.access) ++ tail =
          packetsBytes md5 pads k [f.access] ++
            (packetsBytes md5 pads (k + 1) (sent.map StoredFile.access) ++ tail) := by
        simp only [List.map_cons, packetsBytes, List.append_nil, List.append_assoc]
      by_cases hsmall : f.content.length < 2 ^ 31
      · have hwhole : ∀ g ∈ [f.access], SentWhole g := by
          intro g hg
          rw [List.mem_singleton] at hg
          rw [hg]
          exact StoredFile.sentWhole hf hsmall
        have hparse := parse_packets md5 pads pos k [f.access] hwhole
          (packetsBytes md5 pads (k + 1) (sent.map StoredFile.access) ++ tail)
        have hsize : wireSize [f.access] = packetSize f.access := by
          rw [wireSize_cons, wireSize_nil, Nat.add_zero]
        rw [hbytes, hparse, hsize]
        rcases ih (pos + packetSize f.access) (k + 1)
          (fun g hg => hsent g (List.mem_cons_of_mem _ hg)) with ⟨hall, hitems⟩ |
          ⟨small, large, rest, rfl, hlarge, hitems⟩
        · refine .inl ⟨List.forall_mem_cons.mpr ⟨hsmall, hall⟩, ?_⟩
          simp only [hitems, List.map_cons, packetItems, wireSize_cons, List.cons_append,
            List.nil_append, Nat.add_assoc]
        · refine .inr ⟨f :: small, large, rest, rfl, hlarge, ?_⟩
          simp only [hitems, List.map_cons, packetItems, List.cons_append, List.nil_append]
      · refine .inr ⟨[], f, sent, rfl, hsmall, ?_⟩
        obtain ⟨outcome, n, -, hfront⟩ := packetFront_large md5 (pads k) hf.fits
          (not_lt.mp hsmall) f.small
          (packetsBytes md5 pads (k + 1) (sent.map StoredFile.access) ++ tail)
        have hone : packetsBytes md5 pads k [f.access] =
            packetBytes md5 (pads k) f.access (UInt64.ofNat f.content.length) := by
          rw [packetsBytes, packetsBytes, List.append_nil, f.sized, Option.getD_some]
        rw [← hone] at hfront
        rw [hbytes, parse_of_halt hfront]
        rfl

/-! ## The file found in the cut packet -/

/-- The name the receiver reads when `j` bytes of the packet of `f` are followed by END. -/
def misreadName (pad : UInt16) (f : StoredFile) (j : ℕ) : WString :=
  utf8ToWide (((wireName f.access).take (j - headerSize) ++
    (endBytes pad).drop (headerSize - j)).take (wireName f.access).length)

section Filled

variable (hdr : PacketHeader) {f : StoredFile} {j : ℕ} (pad : UInt16)

theorem length_streamed_le (f : StoredFile) :
    (f.access.streamed.getD []).length ≤ f.content.length := by
  rcases f.reads with h | h
  · rw [h]
    exact Nat.zero_le _
  · rw [h, Option.getD_some]

/-- The packet as the receiver fills it up with END. -/
def filled (hdr : PacketHeader) (f : StoredFile) (j : ℕ) (pad : UInt16) : FilePacket :=
  filledPacket hdr (wireName f.access) (f.access.streamed.getD []) f.content.length j pad

variable (hj : j ≤ packetSize f.access)
include hj

theorem filled_path (hempty : f.content = []) :
    utf8ToWide (filled hdr f j pad).path = misreadName pad f j := by
  have hdata : f.access.streamed.getD [] = [] := by
    apply List.eq_nil_of_length_eq_zero
    have hle := length_streamed_le f
    rw [hempty, List.length_nil] at hle
    omega
  rw [filled, filledPacket, drop_cutBytes hdr pad hj, hdata, List.append_nil, misreadName]

variable (hfilled : (wireName f.access).length + f.content.length ≤ j)
include hfilled

theorem length_filled :
    (filled hdr f j pad).path.length = (wireName f.access).length ∧
      (filled hdr f j pad).data.length = f.content.length := by
  have hlen := length_cutBytes hdr pad hj
  constructor
  · simp only [filled, filledPacket, List.length_take, List.length_drop, hlen]
    omega
  · simp only [filled, filledPacket, List.length_take, List.length_drop, hlen]
    omega

/-- The file found in the cut packet is faithful only by accident: it is empty and has the
name of an empty file. -/
theorem faithful_filled_iff {files : List StoredFile} {headers : List ℕ} {cfg : IniState}
    {reply : StoreReply} {start : ℕ} (hf : f ∈ files) (hend : start + j ∈ headers)
    (hwhole : j = headerSize + (wireName f.access).length + f.content.length →
      f.content = []) :
    Faithful files headers (toWrite cfg reply start (filled hdr f j pad)) ↔
      ¬(j < headerSize + (wireName f.access).length + f.content.length ∧
        (0 < f.content.length ∨
          ∀ g ∈ files, g.content = [] → receivedName g.access ≠ misreadName pad f j)) := by
  obtain ⟨hpathLen, hdataLen⟩ := length_filled hdr pad hj hfilled
  have hle := length_streamed_le f
  have hjle : j ≤ headerSize + (wireName f.access).length + f.content.length := by
    rw [packetSize] at hj
    omega
  have hempty_of : f.content.length = 0 → (filled hdr f j pad).data = [] := by
    intro hzero
    apply List.eq_nil_of_length_eq_zero
    omega
  constructor
  · rintro ⟨⟨g, hg, hname, hcontent⟩, hclear⟩ ⟨hcut, hshows⟩
    -- the last byte of a file that is not empty is one of END's
    have hzero : f.content.length = 0 := by
      by_contra hne
      refine hclear (start + j) hend
        (start + max (headerSize + (wireName f.access).length) j) ?_ ?_ ?_
      · simp only [toWrite, hpathLen]
        omega
      · simp only [toWrite, hpathLen, hdataLen]
        omega
      · have hsize : 0 < headerSize := by decide
        omega
    rcases hshows with hbytes | hnone
    · exact hbytes.ne' hzero
    · simp only [toWrite] at hname hcontent
      rw [hempty_of hzero] at hcontent
      rw [filled_path hdr pad hj (List.eq_nil_of_length_eq_zero hzero)] at hname
      exact hnone g hg hcontent hname
  · intro hnot
    have hempty : f.content = [] := by
      rcases hjle.eq_or_lt with heq | hlt
      · exact hwhole heq
      · apply List.eq_nil_of_length_eq_zero
        by_contra hne
        exact hnot ⟨hlt, .inl (Nat.pos_of_ne_zero hne)⟩
    have hzero : f.content.length = 0 := by rw [hempty, List.length_nil]
    have hknown : ∃ g ∈ files, receivedName g.access = misreadName pad f j ∧ g.content = [] := by
      rcases hjle.eq_or_lt with heq | hlt
      · refine ⟨f, hf, ?_, hempty⟩
        rw [hzero, Nat.add_zero] at heq
        rw [misreadName, heq, Nat.add_sub_cancel_left, List.take_length, List.take_left,
          receivedName]
      · by_contra hnone
        push Not at hnone
        exact hnot ⟨hlt, .inr fun g hg hcontent hname => hnone g hg hname hcontent⟩
    obtain ⟨g, hg, hname, hcontent⟩ := hknown
    refine ⟨⟨g, hg, ?_, ?_⟩, ?_⟩
    · rw [hname, ← filled_path hdr pad hj hempty]
      rfl
    · rw [hcontent]
      exact (hempty_of hzero).symm
    · intro h _ i hlow hhigh
      simp only [toWrite, hdataLen, hzero] at hlow hhigh
      omega

end Filled

/-! ## A failed upload -/

/-- The refusals to come when the packet of the file after `before` is sent. -/
def refusalsAt (refusals : List (Refusal SendRefusal)) (before : List StoredFile) :
    List (Refusal SendRefusal) :=
  after (after refusals headerSize) (wireSize (before.map StoredFile.access))

/-- The packet of `f` is the one that fails. -/
structure FailsAt (refusals : List (Refusal SendRefusal)) (files before : List StoredFile)
    (f : StoredFile) (rest : List StoredFile) : Prop where
  files_eq : files = before ++ f :: rest
  sent : ∀ g ∈ before, Sendable g.access
  admitted : admits (after refusals headerSize) (wireSize (before.map StoredFile.access)) = true
  breaks : Breaks (refusalsAt refusals before) f.access

/-- The receiver comes to the cut packet, its lengths are out, what they announce is
filled up by END, and that shows: the file is not empty, or no empty file has its name. -/
structure Misread (pad : UInt16) (files before : List StoredFile) (f : StoredFile) (j : ℕ) :
    Prop where
  reached : ∀ g ∈ before, g.content.length < 2 ^ 31
  small : f.content.length < 2 ^ 31
  lengths : 24 ≤ j
  filled : (wireName f.access).length + f.content.length ≤ j
  cut : j < headerSize + (wireName f.access).length + f.content.length
  shows : 0 < f.content.length ∨
    ∀ g ∈ files, g.content = [] → receivedName g.access ≠ misreadName pad f j

/-- A packet that failed is not out in full, unless it is that of an empty file. -/
theorem empty_of_whole {refusals : List (Refusal SendRefusal)} {f : StoredFile}
    (hbreaks : Breaks refusals f.access) (hpos : 0 < cutLength refusals f.access)
    (hwhole : cutLength refusals f.access =
      headerSize + (wireName f.access).length + f.content.length) : f.content = [] := by
  have hle := cutLength_le refusals f.access
  have hfits : NameFits f.access := by
    by_contra hlong
    rw [cutLength, if_neg hlong] at hpos
    exact Nat.lt_irrefl 0 hpos
  obtain ⟨-, hclosed | hrefused⟩ := hbreaks.resolve_left (not_not.mpr hfits)
  · rw [packetSize, hclosed, Option.getD_none, List.length_nil] at hle
    apply List.eq_nil_of_length_eq_zero
    omega
  · have hlt := room_lt_of_not_admits hrefused
    rw [cutLength, if_pos hfits] at hwhole
    have hstreamed := length_streamed_le f
    rw [packetSize] at hlt hwhole
    omega

/-- What is found in the cut packet and the END packet behind it. -/
theorem parse_cut (md5 : Digest) (pad endPad : UInt16) (f : StoredFile) {j : ℕ} (start : ℕ)
    (hj : j ≤ packetSize f.access) (hfits : 24 ≤ j → NameFits f.access) :
    (wireFormat.parse start (cutBytes
        (fileHeader md5 .update pad f.access (UInt64.ofNat f.content.length))
        (wireName f.access) (f.access.streamed.getD []) j endPad)).items =
      if 24 ≤ j ∧ f.content.length < 2 ^ 31 ∧
          (wireName f.access).length + f.content.length ≤ j then
        [(start, filled (fileHeader md5 .update pad f.access (UInt64.ofNat f.content.length))
          f j endPad)]
      else [] := by
  by_cases hlow : 24 ≤ j
  · have hpath := pathLen_fileHeader md5 pad (UInt64.ofNat f.content.length) (hfits hlow)
    have hsize : (UInt64.ofNat f.content.length).toNat = f.content.length :=
      UInt64.toNat_ofNat_of_lt' f.small
    have hpathLen : (wireName f.access).length < 2 ^ 31 :=
      lt_of_le_of_lt (hfits hlow) (by decide)
    rw [parse_cut_high _ _ rfl rfl hpath hpathLen hsize (length_streamed_le f) hj hlow]
    simp only [hlow, true_and]
    rfl
  · rw [if_neg fun h => hlow h.1]
    apply parse_cut_low _ (not_le.mp hlow)
    simp only [List.length_append, PacketHeader.length_toBytes]
    exact hj

/-- Behind files that are stored, the cut packet leaves a file of the sender or none, unless
it is misread. -/
theorem faithful_cut_iff (md5 : Digest) (pad endPad : UInt16) {cfg : IniState}
    {disk : ℕ → StoreReply} {refusals : List (Refusal SendRefusal)} {f : StoredFile}
    {files before : List StoredFile} {headers : List ℕ} (stored start : ℕ)
    (hbreaks : Breaks refusals f.access) (hf : f ∈ files)
    (hsmall : ∀ g ∈ before, g.content.length < 2 ^ 31)
    (hend : start + cutLength refusals f.access ∈ headers) :
    (∀ w ∈ writesOf cfg disk stored (wireFormat.parse start (cutBytes
        (fileHeader md5 .update pad f.access (UInt64.ofNat f.content.length))
        (wireName f.access) (f.access.streamed.getD []) (cutLength refusals f.access)
        endPad)).items, Faithful files headers w) ↔
      ¬Misread endPad files before f (cutLength refusals f.access) := by
  have hjle := cutLength_le refusals f.access
  have hfits : 24 ≤ cutLength refusals f.access → NameFits f.access := by
    intro hlow
    by_contra hlong
    rw [cutLength, if_neg hlong] at hlow
    omega
  rw [parse_cut md5 pad endPad f start hjle hfits]
  by_cases hfound : 24 ≤ cutLength refusals f.access ∧ f.content.length < 2 ^ 31 ∧
      (wireName f.access).length + f.content.length ≤ cutLength refusals f.access
  · obtain ⟨hlow, hfsmall, hfilled⟩ := hfound
    rw [if_pos ⟨hlow, hfsmall, hfilled⟩, writesOf, writesOf, List.forall_mem_singleton,
      faithful_filled_iff _ endPad hjle hfilled hf hend
        (fun hwhole => empty_of_whole hbreaks (by omega) hwhole)]
    apply not_congr
    constructor
    · rintro ⟨hcut, hshows⟩
      exact ⟨hsmall, hfsmall, hlow, hfilled, hcut, hshows⟩
    · intro hmisread
      exact ⟨hmisread.cut, hmisread.shows⟩
  · rw [if_neg hfound]
    refine iff_of_true (by simp [writesOf]) ?_
    intro hmisread
    exact hfound ⟨hmisread.lengths, hmisread.small, hmisread.filled⟩

/-- What is stored of the whole packets and the cut one behind them is faithful if and only
if the cut one is not misread. -/
theorem faithful_sent_cut_iff (md5 : Digest) (pads : ℕ → UInt16) (pad endPad : UInt16)
    {cfg : IniState} {disk : ℕ → StoreReply} {refusals : List (Refusal SendRefusal)}
    {f : StoredFile} {files before rest : List StoredFile} {headers : List ℕ}
    (hfails : FailsAt refusals files before f rest)
    (hpast : HeadersPast headers (before.map StoredFile.access))
    (hend : headerSize + wireSize (before.map StoredFile.access) +
      cutLength (refusalsAt refusals before) f.access ∈ headers) :
    (∀ w ∈ writesOf cfg disk 0 (wireFormat.parse headerSize
        (packetsBytes md5 pads 1 (before.map StoredFile.access) ++ cutBytes
          (fileHeader md5 .update pad f.access (UInt64.ofNat f.content.length))
          (wireName f.access) (f.access.streamed.getD [])
          (cutLength (refusalsAt refusals before) f.access) endPad)).items,
        Faithful files headers w) ↔
      ¬Misread endPad files before f (cutLength (refusalsAt refusals before) f.access) := by
  obtain ⟨rfl, hsent, -, hbreaks⟩ := hfails
  have hsub : ∀ g ∈ before, g ∈ before ++ f :: rest := fun g hg => List.mem_append_left _ hg
  have hmem : f ∈ before ++ f :: rest := List.mem_append_right _ List.mem_cons_self
  rcases parse_sent md5 pads headerSize 1 before hsent _ with
    ⟨hsmall, hitems⟩ | ⟨small, large, more, rfl, hlarge, hitems⟩
  · -- the receiver comes to the cut packet
    rw [hitems, writesOf_append, List.forall_mem_append,
      iff_true_intro (faithful_before hsub hsent hpast), true_and]
    exact faithful_cut_iff md5 _ endPad _ _ hbreaks hmem hsmall hend
  · -- it gives up at a file before
    rw [hitems]
    rw [List.map_append] at hpast
    refine iff_of_true ?_ ?_
    · exact faithful_before (fun g hg => hsub g (List.mem_append_left _ hg))
        (fun g hg => hsent g (List.mem_append_left _ hg)) hpast.of_append
    · intro hmisread
      exact hlarge (hmisread.reached large (List.mem_append_right _ List.mem_cons_self))

section FailedUpload

variable {md5 : Digest} {now total : UInt64} {pads : ℕ → UInt16} {st : SendState}
  {files before : List StoredFile} {f : StoredFile} {rest : List StoredFile}

/-- What the receiver stores of a failed upload is faithful if and only if the cut packet
is not misread. -/
theorem failedUpload_iff (htaken : st.sink.taken = []) (hheaders : st.headers = [])
    (hfails : FailsAt st.sink.refusals files before f rest)
    (hhello : (uploadFiles md5 now total pads st (files.map StoredFile.access)).hello = true)
    (hending : (uploadFiles md5 now total pads st (files.map StoredFile.access)).ending = true)
    (cfg : IniState) (disk : ℕ → StoreReply) (c : Conn)
    (hc : c.toList =
      (uploadFiles md5 now total pads st (files.map StoredFile.access)).st.sink.taken) :
    (∀ w ∈ (handleIncoming cfg disk c).writes, Faithful files
        (uploadFiles md5 now total pads st (files.map StoredFile.access)).st.headers w) ↔
      ¬Misread (pads (files.length + 1)) files before f
        (cutLength (refusalsAt st.sink.refusals before) f.access) := by
  obtain ⟨hfiles, hsent, hadmits, hbreaks⟩ := hfails
  have hmap : files.map StoredFile.access =
      before.map StoredFile.access ++ f.access :: rest.map StoredFile.access := by
    rw [hfiles, List.map_append, List.map_cons]
  have hlength : files.length = (files.map StoredFile.access).length := by rw [List.length_map]
  rw [hlength]
  rw [hmap] at hhello hending hc ⊢
  obtain ⟨hwire, hstarts⟩ := uploadFiles_failed md5 now total pads st htaken hheaders
    (before.map StoredFile.access) f.access (rest.map StoredFile.access) f.sized
    (List.forall_mem_map.mpr hsent) hadmits hbreaks hhello hending
  rw [handleIncoming_writes, filePackets, hc, hwire, parse_hello, Nat.zero_add, hstarts]
  exact faithful_sent_cut_iff md5 pads _ _ ⟨hfiles, hsent, hadmits, hbreaks⟩
    (headersPast_failed _ _ _) (List.mem_append_right _ (List.mem_singleton_self _))

end FailedUpload

/-- Wherever a packet fails, the receiver does not misread it. -/
def Harmless (refusals : List (Refusal SendRefusal)) (pads : ℕ → UInt16)
    (files : List StoredFile) : Prop :=
  ∀ before f rest, FailsAt refusals files before f rest →
    ¬Misread (pads (files.length + 1)) files before f
      (cutLength (refusalsAt refusals before) f.access)

/-- A call in which a packet function returned `false` has a packet that fails. -/
theorem exists_failsAt (md5 : Digest) (now total : UInt64) (pads : ℕ → UInt16) (st : SendState)
    (files : List StoredFile)
    (hfailed : .returned false ∈
      (uploadFiles md5 now total pads st (files.map StoredFile.access)).packets) :
    ∃ before f rest, FailsAt st.sink.refusals files before f rest := by
  have hrefusals := sendHello_refusals now pads st
  rcases files_split (after st.sink.refusals headerSize) (files.map StoredFile.access) with
    ⟨hall, hadmits⟩ | ⟨sent, a, rest, hsplit, hsent, hadmits, hstops⟩
  · have hresults := (sendFiles_all md5 total pads 1 (sendHello st now (pads 0)).2
      (files.map StoredFile.access) hall (by rw [hrefusals, hadmits])).2
    have hpackets := (uploadFiles_of_not_threw md5 now total pads st hresults (by simp)).2.1
    rw [hpackets, List.mem_replicate] at hfailed
    cases hfailed.2
  · obtain ⟨before, tail, hfiles, hbefore, htail⟩ := List.map_eq_append_iff.mp hsplit
    obtain ⟨f, more, htail', rfl, -⟩ := List.map_eq_cons_iff.mp htail
    refine ⟨before, f, more, ⟨by rw [hfiles, htail'], ?_, ?_, ?_⟩⟩
    · intro g hg
      apply hsent
      rw [← hbefore]
      exact List.mem_map_of_mem hg
    · rw [hbefore, hadmits]
    · rw [refusalsAt, hbefore]
      apply hstops.resolve_right
      intro hvanished
      have hsized := f.sized
      rw [hvanished.2] at hsized
      cases hsized

/-- A failed file leaves the receiver with files of the sender only, and no header bytes
in them, if and only if the place of the failure is harmless. -/
theorem failedFile_faithful_iff (cfg : Option IniState) (peerIp : Option WString)
    (env : UploadEnv) (sink : Wire) (hfresh : sink.taken = []) (files : List StoredFile)
    (hplanned : plannedFiles cfg peerIp env = some (files.map StoredFile.access))
    (hhello : (syncUploadOnce cfg peerIp env sink).hello = true)
    (hfailed : .returned false ∈ (syncUploadOnce cfg peerIp env sink).packets)
    (hending : (syncUploadOnce cfg peerIp env sink).ending = true)
    (serverCfg : IniState) (disk : ℕ → StoreReply) (c : Conn)
    (hc : c.toList = (syncUploadOnce cfg peerIp env sink).st.sink.taken) :
    (∀ w ∈ (handleIncoming serverCfg disk c).writes,
        Faithful files (syncUploadOnce cfg peerIp env sink).st.headers w) ↔
      Harmless sink.refusals env.pads files := by
  obtain ⟨total, st, rfl, hheaders, hcall⟩ := syncUploadOnce_of_some sink hplanned
  rw [hcall] at hhello hfailed hending hc ⊢
  constructor
  · intro hfaithful before f rest hfails
    exact (failedUpload_iff hfresh hheaders hfails hhello hending serverCfg disk c hc).mp hfaithful
  · intro hharmless
    obtain ⟨before, f, rest, hfails⟩ :=
      exists_failsAt env.md5 env.now total env.pads st files hfailed
    exact (failedUpload_iff hfresh hheaders hfails hhello hending serverCfg disk c hc).mpr
      (hharmless before f rest hfails)

/-! ## A locked file -/

/-- The locked file of `lockedDesktop`. -/
def lockedFile : StoredFile where
  access := { name := wide "a", size := some 3, hashed := none, streamed := none }
  content := [1, 2, 3]
  sized := rfl
  small := by decide
  reads := .inl rfl

/-- A connection that refuses nothing. -/
def freshSink : Wire := ⟨[], [], fun _ => 0, 0⟩

theorem lockedFile_failsAt : FailsAt freshSink.refusals [lockedFile] [] lockedFile [] where
  files_eq := rfl
  sent := by simp
  admitted := rfl
  breaks := .inr ⟨rfl, .inl rfl⟩

theorem lockedUpload_runs :
    (syncUploadOnce (some sampleCfg) (some []) lockedDesktop freshSink).hello = true ∧
      .returned false ∈
        (syncUploadOnce (some sampleCfg) (some []) lockedDesktop freshSink).packets ∧
      (syncUploadOnce (some sampleCfg) (some []) lockedDesktop freshSink).ending = true := by
  have hplanned : plannedFiles (some sampleCfg) (some []) lockedDesktop =
      some [lockedFile.access] := rfl
  obtain ⟨total, st, hsink, -, hcall⟩ := syncUploadOnce_of_some freshSink hplanned
  have hnone : st.sink.refusals = [] := by rw [hsink]; rfl
  have hrefusals := sendHello_refusals lockedDesktop.now lockedDesktop.pads st
  rw [hnone, after_nil] at hrefusals
  have hresults := sendFiles_stop lockedDesktop.md5 total lockedDesktop.pads 1
    (sendHello st lockedDesktop.now (lockedDesktop.pads 0)).2 [] lockedFile.access [] (by simp)
    (by simp) (.returned false) (by simp) (by
      intro st' _
      apply sendFilePacket_breaks
      exact .inr ⟨rfl, .inl rfl⟩)
  rw [List.nil_append] at hresults
  obtain ⟨-, hpackets, -, hhello, hending⟩ := uploadFiles_of_not_threw lockedDesktop.md5
    lockedDesktop.now total lockedDesktop.pads st hresults (by simp)
  rw [sendFiles_refusals_nil _ _ _ _ _ _ hrefusals, admits_nil] at hending
  rw [hnone, admits_nil] at hhello
  rw [hcall]
  refine ⟨hhello, ?_, hending⟩
  rw [hpackets]
  exact List.mem_append_right _ (List.mem_singleton_self _)

/-- The locked file is the misread one: its three bytes are filled up by END. -/
theorem failedFile_faithful_locked :
    (∀ w ∈ (handleIncoming sampleCfg steadyDisk (.whole (syncUploadOnce (some sampleCfg) (some [])
          lockedDesktop freshSink).st.sink.taken)).writes,
        Faithful [lockedFile]
          (syncUploadOnce (some sampleCfg) (some []) lockedDesktop freshSink).st.headers w) ↔
      Harmless freshSink.refusals lockedDesktop.pads [lockedFile] :=
  failedFile_faithful_iff _ _ _ freshSink rfl [lockedFile] rfl lockedUpload_runs.1
    lockedUpload_runs.2.1 lockedUpload_runs.2.2 _ _ _ (ChunkedSource.Source.toList_whole _)

/-- A locked file of three bytes is stored with the first three bytes of the END header. -/
theorem failedFile_corrupts :
    ¬∀ (cfg : Option IniState) (peerIp : Option WString) (env : UploadEnv) (sink : Wire)
      (files : List StoredFile), sink.taken = [] →
      plannedFiles cfg peerIp env = some (files.map StoredFile.access) →
      (syncUploadOnce cfg peerIp env sink).hello = true →
      .returned false ∈ (syncUploadOnce cfg peerIp env sink).packets →
      (syncUploadOnce cfg peerIp env sink).ending = true →
      ∀ (serverCfg : IniState) (disk : ℕ → StoreReply) (c : Conn),
        c.toList = (syncUploadOnce cfg peerIp env sink).st.sink.taken →
        ∀ w ∈ (handleIncoming serverCfg disk c).writes,
          Faithful files (syncUploadOnce cfg peerIp env sink).st.headers w := by
  intro h
  have hplanned : plannedFiles (some sampleCfg) (some []) lockedDesktop =
      some [lockedFile.access] := rfl
  obtain ⟨hhello, hfailed, hending⟩ := lockedUpload_runs
  have hfaithful := h (some sampleCfg) (some []) lockedDesktop freshSink [lockedFile] rfl hplanned
    hhello hfailed hending sampleCfg steadyDisk (.whole _) (ChunkedSource.Source.toList_whole _)
  obtain ⟨total, st, hsink, hheaders, hcall⟩ := syncUploadOnce_of_some freshSink hplanned
  rw [hcall] at hhello hending hfaithful
  have hfails : FailsAt st.sink.refusals [lockedFile] [] lockedFile [] := by
    rw [hsink]
    exact lockedFile_failsAt
  have htaken : st.sink.taken = [] := by
    rw [hsink]
    rfl
  have hnot := (failedUpload_iff htaken hheaders hfails hhello hending sampleCfg steadyDisk _
    (ChunkedSource.Source.toList_whole _)).mp hfaithful
  rw [hsink] at hnot
  apply hnot
  exact ⟨by simp, by decide, by decide, by decide, by decide, .inl (by decide)⟩

end DesktopSync.Analysis
