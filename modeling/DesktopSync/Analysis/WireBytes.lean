import DesktopSync.Model.Sender

/-!
# What the packet functions put on the wire

Each function of the sending side is one offer of its bytes to the transport, in
however many calls: a header, a path, a payload block by block. `Offered` composes, so
a whole FILE packet, and a whole session, is one offer too, and where the first refusal
falls decides how much of it is on the wire.
-/

set_option autoImplicit false

namespace DesktopSync.Analysis

open DesktopSync.Model
open ChunkedSink

/-! ## `SendAll` -/

/-- A call the transport accepts. -/
theorem udtSend_accept (s : Wire) (buf : List UInt8) (hne : buf ≠ []) (hint : buf.length < 2 ^ 31)
    (h : admits s.refusals 1 = true) :
    ∃ (n : ℕ) (s' : Wire), 0 < n ∧ n ≤ buf.length ∧ udtSend s buf (toInt buf.length) = (↑n, s') ∧
      Offered s s' true (buf.take n) := by
  have hlen := List.length_pos_iff.mpr hne
  obtain ⟨n, hpos, hle, hadmits, hoffer⟩ := s.offer_accept buf hne h
  refine ⟨n, (s.offer buf).2, hpos, hle, ?_, ?_⟩
  · rw [udtSend, toInt_eq_self hint, if_neg (by omega), Int.toNat_natCast, List.take_length, hoffer]
  · have hn : (buf.take n).length = n := by rw [List.length_take, Nat.min_eq_left hle]
    rw [hoffer]
    refine ⟨by rw [hn, hadmits], ?_, ?_⟩
    · rw [hn, room_of_admits hadmits, List.take_take, Nat.min_self]
    · rw [hn, after, if_pos hadmits]

/-- A call the transport refuses. -/
theorem udtSend_refuse (s : Wire) (buf : List UInt8) (hne : buf ≠ []) (hint : buf.length < 2 ^ 31)
    (h : admits s.refusals 1 = false) :
    ∃ (refusal : SendRefusal) (s' : Wire),
      udtSend s buf (toInt buf.length) = (refusal.code, s') ∧ Offered s s' false buf := by
  have hlen := List.length_pos_iff.mpr hne
  obtain ⟨refusal, hoffer⟩ := s.offer_refuse buf h
  refine ⟨refusal, (s.offer buf).2, ?_, ?_⟩
  · rw [udtSend, toInt_eq_self hint, if_neg (by omega), Int.toNat_natCast, List.take_length, hoffer]
  · rw [hoffer]
    cases hr : s.refusals with
    | nil => rw [hr] at h; cases h
    | cons r rest =>
        rw [hr] at h
        have hroom : r.room = 0 := by simpa [admits] using h
        have hadmits : admits (r :: rest) buf.length = false := by
          simp only [admits, hroom, decide_eq_false_iff_not]
          omega
        refine ⟨by rw [hr, hadmits], ?_, ?_⟩
        · simp only [hr, room, hroom, Nat.min_zero, List.take_zero, List.append_nil]
        · rw [hr, after, if_neg (by simp [hadmits])]

/-- `SendAll` is one offer of its buffer. -/
theorem sendAll_offered (s : Wire) (buf : List UInt8) (hint : buf.length < 2 ^ 31) :
    Offered s (sendAll s buf).2 (sendAll s buf).1 buf := by
  induction hlen : buf.length using Nat.strong_induction_on generalizing s buf with
  | _ len ih =>
      subst hlen
      rw [sendAll]
      by_cases hnil : buf = []
      · rw [if_pos hnil, hnil]
        exact Offered.nil s
      · rw [if_neg hnil]
        cases hadmits : admits s.refusals 1 with
        | true =>
            obtain ⟨n, s', hpos, hle, hsend, hoffered⟩ := udtSend_accept s buf hnil hint hadmits
            have hgo : ¬((n : ℤ) = udtError ∨ (n : ℤ) = 0) := by
              simp only [udtError]
              omega
            simp only [hsend, if_neg hgo, Int.toNat_natCast]
            have htail := ih (buf.drop n).length (by rw [List.length_drop]; omega) s' (buf.drop n)
              (by rw [List.length_drop]; omega) rfl
            have hwhole := hoffered.trans htail
            rwa [List.take_append_drop] at hwhole
        | false =>
            obtain ⟨refusal, s', hsend, hoffered⟩ := udtSend_refuse s buf hnil hint hadmits
            have hstop : refusal.code = udtError ∨ refusal.code = 0 := by
              cases refusal
              · exact .inr rfl
              · exact .inl rfl
            simp only [hsend, if_pos hstop]
            exact hoffered

/-! ## Packets -/

/-- A send offers its bytes to the transport. -/
theorem send_offered (st : SendState) (buf : List UInt8) (hint : buf.length < 2 ^ 31) :
    Offered st.sink (st.send buf).2.sink (st.send buf).1 buf :=
  sendAll_offered st.sink buf hint

/-- It begins no packet. -/
@[simp] theorem send_headers (st : SendState) (buf : List UInt8) :
    (st.send buf).2.headers = st.headers := rfl

/-- A header is offered like any bytes. -/
theorem sendHeader_offered (st : SendState) (hdr : PacketHeader) :
    Offered st.sink (st.sendHeader hdr).2.sink (st.sendHeader hdr).1 hdr.toBytes :=
  sendAll_offered st.sink hdr.toBytes (by rw [PacketHeader.length_toBytes]; decide)

/-- It begins a packet. -/
@[simp] theorem sendHeader_headers (st : SendState) (hdr : PacketHeader) :
    (st.sendHeader hdr).2.headers = st.headers ++ [st.sink.taken.length] := rfl

/-- A header goes out if the transport takes that many bytes. -/
theorem sendHeader_ok (st : SendState) (hdr : PacketHeader) :
    (st.sendHeader hdr).1 = admits st.sink.refusals headerSize := by
  rw [(sendHeader_offered st hdr).ok_eq, PacketHeader.length_toBytes]

/-- Where nothing is refused a header goes out. -/
theorem sendHeader_open {st : SendState} (h : st.sink.refusals = []) (hdr : PacketHeader) :
    (st.sendHeader hdr).1 = true ∧
      (st.sendHeader hdr).2.sink.taken = st.sink.taken ++ hdr.toBytes ∧
      (st.sendHeader hdr).2.sink.refusals = [] := by
  have hoffered := sendHeader_offered st hdr
  obtain ⟨hok, hrefusals⟩ := hoffered.refusals_nil h
  rw [hok] at hoffered
  exact ⟨hok, hoffered.taken_of_ok, hrefusals⟩

/-- The payload loop is one offer of the whole payload. -/
theorem sendPayload_offered (total : UInt64) (st : SendState) (data : List UInt8) :
    Offered st.sink (sendPayload total st data).2.sink (sendPayload total st data).1 data ∧
      (sendPayload total st data).2.headers = st.headers := by
  induction hlen : data.length using Nat.strong_induction_on generalizing st data with
  | _ len ih =>
      subst hlen
      rw [sendPayload]
      have htake : (data.take blockSize).length = min blockSize data.length := List.length_take
      by_cases hnil : data.take blockSize = []
      · have hdata : data = [] := by
          rw [List.take_eq_nil_iff] at hnil
          exact hnil.resolve_left (by decide)
        simp only [hdata, List.take_nil, if_true]
        exact ⟨Offered.nil _, trivial⟩
      simp only [if_neg hnil]
      have hblock := send_offered st (data.take blockSize) (by rw [htake, blockSize]; omega)
      cases hok : (st.send (data.take blockSize)).1 with
      | false =>
          rw [hok] at hblock
          have hwhole := hblock.extend (data.drop blockSize)
          rw [List.take_append_drop] at hwhole
          exact ⟨hwhole, rfl⟩
      | true =>
          rw [hok] at hblock
          simp only [if_true]
          by_cases hlast : (data.take blockSize).length < blockSize
          · have hdata : data.take blockSize = data := List.take_of_length_le (by omega)
            rw [if_pos hlast]
            rw [hdata] at hblock ⊢
            exact ⟨hblock, rfl⟩
          · rw [if_neg hlast]
            have hshort : (data.drop blockSize).length < data.length := by
              rw [List.length_drop]
              rw [htake] at hlast
              have : 0 < blockSize := by decide
              omega
            obtain ⟨htail, hheaders⟩ := ih _ hshort
              (({ (st.send (data.take blockSize)).2 with
                  sent := (st.send (data.take blockSize)).2.sent +
                    UInt64.ofNat (data.take blockSize).length }).report
                ⟨.uploading, (st.send (data.take blockSize)).2.sent +
                  UInt64.ofNat (data.take blockSize).length, total, ""⟩) (data.drop blockSize) rfl
            have hwhole := hblock.trans htail
            rw [List.take_append_drop] at hwhole
            exact ⟨hwhole, hheaders⟩

/-- The name of a file on the wire. -/
def wireName (f : FileAccess) : List UInt8 := wideToUtf8 f.name

/-- The bytes of a FILE packet, as far as the file yields them. -/
def packetBytes (md5 : Digest) (pad : UInt16) (f : FileAccess) (size : UInt64) : List UInt8 :=
  (fileHeader md5 .update pad f size).toBytes ++ wireName f ++ f.streamed.getD []

/-- A file that stays readable and unchanged. -/
def steadyFile (f : WString × List UInt8) : FileAccess where
  name := f.1
  size := some (UInt64.ofNat f.2.length)
  hashed := some f.2
  streamed := some f.2

/-- The name of the file fits a packet. -/
def NameFits (f : FileAccess) : Prop := (wireName f).length ≤ maxPathBytes

instance (f : FileAccess) : Decidable (NameFits f) := inferInstanceAs (Decidable (_ ≤ _))

/-- A name that does not fit sends nothing. -/
theorem sendFilePacket_of_long {md5 : Digest} {total : UInt64} {pad : UInt16} {st : SendState}
    {f : FileAccess} (h : ¬NameFits f) :
    sendFilePacket md5 .update total pad st f = (.returned false, st) :=
  if_pos (not_le.mp h)

/-- A file that is gone throws before anything is sent. -/
theorem sendFilePacket_of_gone {md5 : Digest} {total : UInt64} {pad : UInt16} {st : SendState}
    {f : FileAccess} (h : NameFits f) (hsize : f.size = none) :
    sendFilePacket md5 .update total pad st f = (.threw, st) := by
  have hfits : ¬maxPathBytes < (wideToUtf8 f.name).length := not_lt.mpr h
  rw [sendFilePacket]
  simp only [if_neg hfits, hsize]

/-- A FILE packet is one offer of its bytes; it succeeds when nothing is refused and the
file opens. -/
theorem sendFilePacket_offered (md5 : Digest) (total : UInt64) (pad : UInt16) (st : SendState)
    {f : FileAccess} {size : UInt64} (h : NameFits f) (hsize : f.size = some size) :
    ∃ ok st', sendFilePacket md5 .update total pad st f =
        (.returned (ok && f.streamed.isSome), st') ∧
      Offered st.sink st'.sink ok (packetBytes md5 pad f size) ∧
      st'.headers = st.headers ++ [st.sink.taken.length] := by
  have hfits : ¬maxPathBytes < (wideToUtf8 f.name).length := not_lt.mpr h
  have hname : (wireName f).length < 2 ^ 31 := lt_of_le_of_lt h (by decide)
  have hhdr := sendHeader_offered st (fileHeader md5 .update pad f size)
  have hheaders := sendHeader_headers st (fileHeader md5 .update pad f size)
  rw [sendFilePacket]
  simp only [if_neg hfits, hsize, packetBytes]
  rcases hsent : st.sendHeader (fileHeader md5 .update pad f size) with ⟨ok₁, st₁⟩
  rw [hsent] at hhdr hheaders
  cases ok₁ with
  | false => exact ⟨false, st₁, rfl, (hhdr.extend _).extend _, hheaders⟩
  | true =>
      have hpath := send_offered st₁ (wireName f) hname
      have hpathHeaders := send_headers st₁ (wireName f)
      simp only
      rw [show wideToUtf8 f.name = wireName f from rfl]
      rcases hsent₂ : st₁.send (wireName f) with ⟨ok₂, st₂⟩
      rw [hsent₂] at hpath hpathHeaders
      have hfront := hhdr.trans hpath
      rw [← hpathHeaders] at hheaders
      cases ok₂ with
      | false => exact ⟨false, st₂, rfl, hfront.extend _, hheaders⟩
      | true =>
          cases hstream : f.streamed with
          | none =>
              refine ⟨true, st₂, rfl, ?_, hheaders⟩
              rw [Option.getD_none, List.append_nil]
              exact hfront
          | some data =>
              obtain ⟨hpayload, hpayloadHeaders⟩ := sendPayload_offered total st₂ data
              refine ⟨_, _, by rw [Option.isSome_some, Bool.and_true], ?_, ?_⟩
              · rw [Option.getD_some]
                exact hfront.trans hpayload
              · rw [hpayloadHeaders, hheaders]

/-! ## The loop over the files -/

/-- Nothing but the transport keeps the file's packet from being sent in full. -/
structure Sendable (f : FileAccess) : Prop where
  fits : NameFits f
  sized : f.size.isSome = true
  opens : f.streamed.isSome = true

/-- The length of a file's packet, as far as the file yields it. -/
def packetSize (f : FileAccess) : ℕ :=
  headerSize + (wireName f).length + (f.streamed.getD []).length

/-- The length of the packets of a list of files. -/
def wireSize (files : List FileAccess) : ℕ := (files.map packetSize).sum

/-- No files, no bytes. -/
@[simp] theorem wireSize_nil : wireSize [] = 0 := rfl

/-- The bytes of a file, and those of the others. -/
@[simp] theorem wireSize_cons (f : FileAccess) (files : List FileAccess) :
    wireSize (f :: files) = packetSize f + wireSize files := by
  simp [wireSize]

/-- How long a packet is. -/
@[simp] theorem length_packetBytes (md5 : Digest) (pad : UInt16) (f : FileAccess) (size : UInt64) :
    (packetBytes md5 pad f size).length = packetSize f := by
  simp [packetBytes, packetSize, Nat.add_assoc]

/-- The packets of a list of files, the first of them with number `k`. -/
def packetsBytes (md5 : Digest) (pads : ℕ → UInt16) : ℕ → List FileAccess → List UInt8
  | _, [] => []
  | k, f :: rest => packetBytes md5 (pads k) f (f.size.getD 0) ++ packetsBytes md5 pads (k + 1) rest

/-- How long the packets are. -/
@[simp] theorem length_packetsBytes (md5 : Digest) (pads : ℕ → UInt16) (k : ℕ)
    (files : List FileAccess) : (packetsBytes md5 pads k files).length = wireSize files := by
  induction files generalizing k with
  | nil => rfl
  | cons f rest ih => simp [packetsBytes, ih]

/-- The bytes of an upload. -/
def uploadBytes (md5 : Digest) (now : UInt64) (pads : ℕ → UInt16) (files : List FileAccess) :
    List UInt8 :=
  (helloHeader now (pads 0)).toBytes ++ (packetsBytes md5 pads 1 files ++
    PacketHeader.toBytes { opcode := opcodeEnd, pad := pads (files.length + 1) })

/-- Where the header of each of a list of packets begins. -/
def headerStarts : ℕ → List FileAccess → List ℕ
  | _, [] => []
  | pos, f :: rest => pos :: headerStarts (pos + packetSize f) rest

/-- Files whose packets meet no refusal are sent, and the loop goes on after them. -/
theorem sendFiles_append (md5 : Digest) (total : UInt64) (pads : ℕ → UInt16) (k : ℕ)
    (st : SendState) (sent rest : List FileAccess) (hsent : ∀ f ∈ sent, Sendable f)
    (hadmits : admits st.sink.refusals (wireSize sent) = true) :
    ∃ st', Offered st.sink st'.sink true (packetsBytes md5 pads k sent) ∧
      st'.headers = st.headers ++ headerStarts st.sink.taken.length sent ∧
      (sendFiles md5 total pads k st (sent ++ rest)).1 =
        List.replicate sent.length (.returned true) ++
          (sendFiles md5 total pads (k + sent.length) st' rest).1 ∧
      (sendFiles md5 total pads k st (sent ++ rest)).2 =
        (sendFiles md5 total pads (k + sent.length) st' rest).2 := by
  induction sent generalizing k st with
  | nil => exact ⟨st, Offered.nil _, by simp [headerStarts], by simp, by simp⟩
  | cons f sent ih =>
      obtain ⟨hfits, hsized, hopens⟩ := hsent f List.mem_cons_self
      obtain ⟨size, hsize⟩ := Option.isSome_iff_exists.mp hsized
      obtain ⟨ok, st₁, hpacket, hoffered, hheaders⟩ :=
        sendFilePacket_offered md5 total (pads k) st hfits hsize
      rw [wireSize_cons, admits_add, Bool.and_eq_true] at hadmits
      obtain rfl : ok = true := by
        rw [hoffered.ok_eq, length_packetBytes, hadmits.1]
      rw [hopens, Bool.and_true] at hpacket
      have hrefusals : st₁.sink.refusals = after st.sink.refusals (packetSize f) := by
        rw [hoffered.refusals, length_packetBytes]
      have hlength : st₁.sink.taken.length = st.sink.taken.length + packetSize f := by
        rw [hoffered.taken_of_ok, List.length_append, length_packetBytes]
      obtain ⟨st', htail, hstarts, hresults, hfinal⟩ := ih (k + 1) st₁
        (fun g hg => hsent g (List.mem_cons_of_mem _ hg)) (by rw [hrefusals, hadmits.2])
      refine ⟨st', ?_, ?_, ?_, ?_⟩
      · rw [packetsBytes, hsize, Option.getD_some]
        exact hoffered.trans htail
      · rw [hstarts, hheaders, hlength, headerStarts, List.append_assoc, List.singleton_append]
      · rw [List.cons_append, sendFiles, hpacket]
        simp only [hresults, List.length_cons, List.replicate_succ, List.cons_append]
        rw [show k + (sent.length + 1) = k + 1 + sent.length by omega]
      · rw [List.cons_append, sendFiles, hpacket]
        simp only [hfinal, List.length_cons]
        rw [show k + (sent.length + 1) = k + 1 + sent.length by omega]

/-- Files whose packets meet no refusal are all sent. -/
theorem sendFiles_all (md5 : Digest) (total : UInt64) (pads : ℕ → UInt16) (k : ℕ)
    (st : SendState) (files : List FileAccess) (hsent : ∀ f ∈ files, Sendable f)
    (hadmits : admits st.sink.refusals (wireSize files) = true) :
    Offered st.sink (sendFiles md5 total pads k st files).2.sink true
        (packetsBytes md5 pads k files) ∧
      (sendFiles md5 total pads k st files).1 = List.replicate files.length (.returned true) := by
  obtain ⟨st', hoffered, -, hresults, hfinal⟩ :=
    sendFiles_append md5 total pads k st files [] hsent hadmits
  rw [List.append_nil] at hresults hfinal
  simp only [sendFiles, List.append_nil] at hresults hfinal
  rw [hfinal, hresults]
  exact ⟨hoffered, rfl⟩

/-- The file is gone when its packet is made, and `file_size` throws. -/
def Vanished (f : FileAccess) : Prop := NameFits f ∧ f.size = none

/-- The file's packet fails: its name is too long, the file does not open, or the
transport refuses part of the packet. -/
def Breaks (refusals : List (Refusal SendRefusal)) (f : FileAccess) : Prop :=
  ¬NameFits f ∨
    f.size.isSome = true ∧ (f.streamed = none ∨ admits refusals (packetSize f) = false)

/-- A packet is sent, or fails, or its file has vanished. -/
theorem sendable_or (refusals : List (Refusal SendRefusal)) (f : FileAccess) :
    Sendable f ∧ admits refusals (packetSize f) = true ∨ Breaks refusals f ∨ Vanished f := by
  by_cases hfits : NameFits f
  · cases hsize : f.size with
    | none => exact .inr (.inr ⟨hfits, hsize⟩)
    | some size =>
        have hsized : f.size.isSome = true := by rw [hsize]; rfl
        cases hstreamed : f.streamed with
        | none => exact .inr (.inl (.inr ⟨hsized, .inl hstreamed⟩))
        | some data =>
            cases hadmits : admits refusals (packetSize f) with
            | true => exact .inl ⟨⟨hfits, hsized, by rw [hstreamed]; rfl⟩, rfl⟩
            | false => exact .inr (.inl (.inr ⟨hsized, .inr hadmits⟩))
  · exact .inr (.inl (.inl hfits))

/-- Where the transport refuses, the packet fails. -/
theorem sendFilePacket_breaks (md5 : Digest) (total : UInt64) (pad : UInt16) (st : SendState)
    {f : FileAccess} (h : Breaks st.sink.refusals f) :
    (sendFilePacket md5 .update total pad st f).1 = .returned false := by
  by_cases hfits : NameFits f
  · obtain ⟨hsized, hfails⟩ := h.resolve_left (not_not.mpr hfits)
    obtain ⟨size, hsize⟩ := Option.isSome_iff_exists.mp hsized
    obtain ⟨ok, st', hpacket, hoffered, -⟩ := sendFilePacket_offered md5 total pad st hfits hsize
    rw [hpacket]
    rcases hfails with hclosed | hrefused
    · rw [hclosed, Option.isSome_none, Bool.and_false]
    · rw [hoffered.ok_eq, length_packetBytes, hrefused, Bool.false_and]
  · rw [sendFilePacket_of_long hfits]

/-- Either every packet is sent, or the first that is not fails or throws. -/
theorem files_split (refusals : List (Refusal SendRefusal)) (files : List FileAccess) :
    (∀ f ∈ files, Sendable f) ∧ admits refusals (wireSize files) = true ∨
      ∃ sent f rest, files = sent ++ f :: rest ∧ (∀ g ∈ sent, Sendable g) ∧
        admits refusals (wireSize sent) = true ∧
        (Breaks (after refusals (wireSize sent)) f ∨ Vanished f) := by
  induction files generalizing refusals with
  | nil => exact .inl ⟨by simp, by simp⟩
  | cons f files ih =>
      rcases sendable_or refusals f with ⟨hf, hadmits⟩ | hstops
      · rcases ih (after refusals (packetSize f)) with ⟨hall, hrest⟩ | ⟨sent, g, rest, rfl, hsent,
          hrest, hstops⟩
        · refine .inl ⟨List.forall_mem_cons.mpr ⟨hf, hall⟩, ?_⟩
          rw [wireSize_cons, admits_add, hadmits, hrest]
          rfl
        · refine .inr ⟨f :: sent, g, rest, rfl, List.forall_mem_cons.mpr ⟨hf, hsent⟩, ?_, ?_⟩
          · rw [wireSize_cons, admits_add, hadmits, hrest]
            rfl
          · rwa [wireSize_cons, ← after_add hadmits]
      · exact .inr ⟨[], f, files, rfl, by simp, by simp, by rwa [wireSize_nil, after_zero]⟩

/-- A file that can be sent and is taken stops nothing. -/
theorem not_stops {refusals : List (Refusal SendRefusal)} {f : FileAccess} (hf : Sendable f)
    (hadmits : admits refusals (packetSize f) = true) : ¬(Breaks refusals f ∨ Vanished f) := by
  rintro ((hlong | ⟨-, hclosed | hrefused⟩) | hvanished)
  · exact hlong hf.fits
  · have hopens := hf.opens
    rw [hclosed] at hopens
    cases hopens
  · rw [hadmits] at hrefused
    cases hrefused
  · have hsized := hf.sized
    rw [hvanished.2] at hsized
    cases hsized

/-- A transport that admits a list of packets admits each of them in its turn. -/
theorem admits_of_split {refusals : List (Refusal SendRefusal)} {sent : List FileAccess}
    {f : FileAccess} {rest : List FileAccess}
    (h : admits refusals (wireSize (sent ++ f :: rest)) = true) :
    admits (after refusals (wireSize sent)) (packetSize f) = true := by
  have hsize : wireSize (sent ++ f :: rest) = wireSize sent + (packetSize f + wireSize rest) := by
    simp [wireSize]
  rw [hsize, admits_add, admits_add, Bool.and_eq_true, Bool.and_eq_true] at h
  exact h.2.1

/-- There is one first packet that is not sent. -/
theorem split_unique {refusals : List (Refusal SendRefusal)} {sent sent' : List FileAccess}
    {f f' : FileAccess} {rest rest' : List FileAccess}
    (heq : sent ++ f :: rest = sent' ++ f' :: rest')
    (hsent : ∀ g ∈ sent, Sendable g) (hsent' : ∀ g ∈ sent', Sendable g)
    (hadmits : admits refusals (wireSize sent) = true)
    (hadmits' : admits refusals (wireSize sent') = true)
    (hstops : Breaks (after refusals (wireSize sent)) f ∨ Vanished f)
    (hstops' : Breaks (after refusals (wireSize sent')) f' ∨ Vanished f') : f = f' := by
  rcases List.append_eq_append_iff.mp heq with ⟨more, hmore, htail⟩ | ⟨more, hmore, htail⟩
  · cases more with
    | nil => exact (List.cons.inj htail).1
    | cons g more =>
        obtain rfl := (List.cons.inj htail).1
        have hf : f ∈ sent' := by
          rw [hmore]
          exact List.mem_append_right _ List.mem_cons_self
        rw [hmore] at hadmits'
        exact absurd hstops (not_stops (hsent' f hf) (admits_of_split hadmits'))
  · cases more with
    | nil => exact (List.cons.inj htail).1.symm
    | cons g more =>
        obtain rfl := (List.cons.inj htail).1
        have hf : f' ∈ sent := by
          rw [hmore]
          exact List.mem_append_right _ List.mem_cons_self
        rw [hmore] at hadmits
        exact absurd hstops' (not_stops (hsent f' hf) (admits_of_split hadmits))

/-- A connection that refuses nothing goes on refusing nothing, whatever becomes of the
files. -/
theorem sendFiles_refusals_nil (md5 : Digest) (total : UInt64) (pads : ℕ → UInt16) (k : ℕ)
    (st : SendState) (files : List FileAccess) (h : st.sink.refusals = []) :
    (sendFiles md5 total pads k st files).2.sink.refusals = [] := by
  induction files generalizing k st with
  | nil => exact h
  | cons f files ih =>
      have hpacket : (sendFilePacket md5 .update total (pads k) st f).2.sink.refusals = [] := by
        by_cases hfits : NameFits f
        · cases hsize : f.size with
          | none => rwa [sendFilePacket_of_gone hfits hsize]
          | some size =>
              obtain ⟨ok, st', hsent, hoffered, -⟩ :=
                sendFilePacket_offered md5 total (pads k) st hfits hsize
              rw [hsent]
              exact (hoffered.refusals_nil h).2
        · rwa [sendFilePacket_of_long hfits]
      rw [sendFiles]
      rcases hcall : sendFilePacket md5 .update total (pads k) st f with ⟨(_ | _) | _, st'⟩
      · rw [hcall] at hpacket
        exact hpacket
      · rw [hcall] at hpacket
        exact ih (k + 1) st' hpacket
      · rw [hcall] at hpacket
        exact hpacket

/-- The loop ends at the first packet that is not sent, with what its function did. -/
theorem sendFiles_stop (md5 : Digest) (total : UInt64) (pads : ℕ → UInt16) (k : ℕ)
    (st : SendState) (sent : List FileAccess) (f : FileAccess) (rest : List FileAccess)
    (hsent : ∀ g ∈ sent, Sendable g)
    (hadmits : admits st.sink.refusals (wireSize sent) = true) (result : CallResult)
    (hstop : result ≠ .returned true)
    (hpacket : ∀ st', st'.sink.refusals = after st.sink.refusals (wireSize sent) →
      (sendFilePacket md5 .update total (pads (k + sent.length)) st' f).1 = result) :
    (sendFiles md5 total pads k st (sent ++ f :: rest)).1 =
      List.replicate sent.length (.returned true) ++ [result] := by
  obtain ⟨st', hoffered, -, hresults, -⟩ :=
    sendFiles_append md5 total pads k st sent (f :: rest) hsent hadmits
  have hresult := hpacket st' (by rw [hoffered.refusals, length_packetsBytes])
  rw [hresults, sendFiles]
  rcases hcall : sendFilePacket md5 .update total (pads (k + sent.length)) st' f with ⟨res, st''⟩
  rw [hcall] at hresult
  obtain rfl : res = result := hresult
  match res, hstop with
  | .returned true, hstop => exact absurd rfl hstop
  | .returned false, _ => rfl
  | .threw, _ => rfl

end DesktopSync.Analysis
