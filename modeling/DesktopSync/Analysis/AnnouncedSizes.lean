import DesktopSync.Analysis.Fragmentation

/-!
# The sizes a FILE header may announce

A header announces up to `2^64 - 1` bytes. The payload loop narrows what is missing to
an `int` before each receive, so it takes in exactly the payloads below `2^31` bytes; and
the vector for the payload is allocated before anything is checked, so a size beyond
`max_size` throws, and nothing on the way to `ServerRoutine` catches it.
-/

set_option autoImplicit false

namespace DesktopSync.Analysis

open DesktopSync.Model
open ChunkedSource

/-! ## The payload loop -/

/-- The payload loop, entered with `missing` bytes to come over `s`, gets to a point where
`missing'` are still to come over `s'`. -/
inductive PayloadReaches (s : Conn) (missing : ℕ) : Conn → ℕ → Prop
  | enter : PayloadReaches s missing s missing
  | pass {s' : Conn} {missing' : ℕ} : PayloadReaches s missing s' missing' → missing' ≠ 0 →
      payloadGiveUp.test (udtRecv s' (toInt missing')).1 = false →
      PayloadReaches s missing (udtRecv s' (toInt missing')).2.2
        (missing' - (udtRecv s' (toInt missing')).1.toNat)

/-- What is missing never grows. -/
theorem PayloadReaches.le {s s' : Conn} {missing missing' : ℕ}
    (h : PayloadReaches s missing s' missing') : missing' ≤ missing := by
  induction h with
  | enter => exact le_rfl
  | pass _ _ _ ih => omega

/-- Every receive asks for something, and for no more than is missing. -/
def AsksSoundly (s : Conn) (missing : ℕ) : Prop :=
  ∀ s' missing', PayloadReaches s missing s' missing' → missing' ≠ 0 →
    0 < toInt missing' ∧ toInt missing' ≤ missing'

theorem asksSoundly_of_lt {s : Conn} {missing : ℕ} (h : missing < 2 ^ 31) :
    AsksSoundly s missing := by
  intro s' missing' hreaches hpos
  have hle := hreaches.le
  rw [toInt_eq_self (lt_of_le_of_lt hle h)]
  omega

/-- The FILE branch goes on after it has stored `data` under `fileName`, and `rest` is left
of the connection. -/
def StoresPayload (step : PacketStep) (fileName : WString) (data rest : List UInt8) : Prop :=
  ∃ write size s', step = .next (some write) size s' ∧ write.fileName = fileName ∧
    write.data = data ∧ s'.toList = rest

/-- A payload that fits an `int` is received and stored. -/
theorem handleFile_stores (cfg : IniState) (reply : StoreReply) (pos : ℕ) {hdr : PacketHeader}
    {s s₁ : Conn} {utf8 data rest : List UInt8}
    (hpath : recvAll s hdr.pathLen.toNat = some (utf8, s₁))
    (hsize : data.length = hdr.fileSize.toNat) (hdata : s₁.toList = data ++ rest)
    (hsmall : data.length < 2 ^ 31) :
    StoresPayload (handleFile cfg reply pos hdr s) (utf8ToWide utf8) data rest := by
  have hmax : ¬vectorMaxSize < hdr.fileSize.toNat := by
    have : 2 ^ 31 ≤ vectorMaxSize := by decide
    omega
  obtain ⟨s₂, hrecv, hrest⟩ := recvPayload_of_le s₁ hdr.fileSize.toNat (by omega)
    (by rw [hdata, List.length_append]; omega)
  have htake : (data ++ rest).take hdr.fileSize.toNat = data := by
    rw [← hsize, List.take_left]
  have hdrop : (data ++ rest).drop hdr.fileSize.toNat = rest := by
    rw [← hsize, List.drop_left]
  rw [hdata, htake] at hrecv
  rw [hdata, hdrop] at hrest
  unfold handleFile
  simp only [hpath, if_neg hmax, hrecv]
  exact ⟨_, _, s₂, rfl, rfl, rfl, hrest⟩

/-- A payload that does not fit an `int` is not received, however it arrives. -/
theorem handleFile_gives_up (cfg : IniState) (reply : StoreReply) (pos : ℕ)
    {hdr : PacketHeader} {s s₁ : Conn} {utf8 : List UInt8}
    (hpath : recvAll s hdr.pathLen.toNat = some (utf8, s₁))
    (hmax : hdr.fileSize.toNat ≤ vectorMaxSize) (hlarge : 2 ^ 31 ≤ hdr.fileSize.toNat) :
    handleFile cfg reply pos hdr s = .done (.returned false) s₁ := by
  unfold handleFile
  simp only [hpath, if_neg (not_lt.mpr hmax), recvPayload_of_large hlarge]

/-- The payload loop receives what the header announces, over any connection that delivers
it, if and only if the size fits an `int`. -/
theorem payload_received_iff (cfg : IniState) (reply : StoreReply) (pos : ℕ)
    (hdr : PacketHeader) (s s₁ : Conn) (utf8 data rest : List UInt8)
    (hpath : recvAll s hdr.pathLen.toNat = some (utf8, s₁))
    (hsize : data.length = hdr.fileSize.toNat) (hF : hdr.fileSize.toNat < 2 ^ 63)
    (hdata : s₁.toList = data ++ rest) :
    (StoresPayload (handleFile cfg reply pos hdr s) (utf8ToWide utf8) data rest ∧
        AsksSoundly s₁ data.length) ↔ hdr.fileSize.toNat < 2 ^ 31 := by
  constructor
  · rintro ⟨⟨write, size, s₂, hstep, -⟩, -⟩
    by_contra hlarge
    have hmax : hdr.fileSize.toNat ≤ vectorMaxSize := by
      unfold vectorMaxSize
      omega
    rw [handleFile_gives_up cfg reply pos hpath hmax (not_lt.mp hlarge)] at hstep
    cases hstep
  · intro hsmall
    rw [← hsize] at hsmall
    exact ⟨handleFile_stores cfg reply pos hpath hsize hdata hsmall, asksSoundly_of_lt hsmall⟩

/-- A FILE header with a path of one byte. -/
def sizedHeader (size : UInt64) : PacketHeader :=
  { opcode := opcodeFile, pad := 0, pathLen := 1, fileSize := size }

/-- Three bytes in two pieces. -/
def threeBytes : Conn :=
  ⟨[[0x61], [1, 2], [3]], by
    intro p hp
    simp only [List.mem_cons, List.not_mem_nil, or_false] at hp
    rcases hp with rfl | rfl | rfl <;> decide⟩

theorem payload_received_three :
    ∃ s₁, recvAll threeBytes 1 = some ([0x61], s₁) ∧
      StoresPayload (handleFile sampleCfg ⟨true, true⟩ 0 (sizedHeader 3) threeBytes) (wide "a")
        [1, 2, 3] [] := by
  obtain ⟨s₁, hrecv, hs₁⟩ := recvAll_of_le threeBytes 1 (by decide) (by decide)
  exact ⟨s₁, hrecv, ((payload_received_iff sampleCfg ⟨true, true⟩ 0 (sizedHeader 3) threeBytes s₁
    [0x61] [1, 2, 3] [] hrecv rfl (by decide) hs₁).mpr (by decide)).1⟩

/-- A payload of `2^31` bytes arrives in one piece and is given up. -/
theorem payload_not_received :
    ¬∀ (cfg : IniState) (reply : StoreReply) (pos : ℕ) (hdr : PacketHeader) (s s₁ : Conn)
      (utf8 data rest : List UInt8), recvAll s hdr.pathLen.toNat = some (utf8, s₁) →
      data.length = hdr.fileSize.toNat → hdr.fileSize.toNat < 2 ^ 63 →
      s₁.toList = data ++ rest →
        StoresPayload (handleFile cfg reply pos hdr s) (utf8ToWide utf8) data rest ∧
          AsksSoundly s₁ data.length := by
  intro h
  have hfile : (sizedHeader 0x80000000).fileSize.toNat = 2 ^ 31 := by decide
  have hlist := Source.toList_whole (0x61 :: List.replicate (2 ^ 31) (0 : UInt8))
  obtain ⟨s₁, hrecv, hs₁⟩ := recvAll_of_le
    (.whole (0x61 :: List.replicate (2 ^ 31) (0 : UInt8))) 1 (by decide)
    (by rw [hlist, List.length_cons]; omega)
  rw [hlist] at hrecv hs₁
  rw [List.drop_succ_cons, List.drop_zero] at hs₁
  obtain ⟨⟨write, size, s₂, hstep, -⟩, -⟩ := h sampleCfg ⟨true, true⟩ 0
    (sizedHeader 0x80000000) _ s₁ _ (List.replicate (2 ^ 31) 0) [] hrecv
    (by rw [List.length_replicate, hfile])
    (by rw [hfile]; decide) (by rw [List.append_nil]; exact hs₁)
  rw [handleFile_gives_up _ _ _ hrecv (by rw [hfile]; decide) (by rw [hfile])] at hstep
  cases hstep

/-! ## The allocation of the payload -/

/-- A header of the protocol stands at the front of `s`. -/
structure HeaderAt (s : List UInt8) (hdr : PacketHeader) : Prop where
  length : headerSize ≤ s.length
  header : hdr = PacketHeader.ofBytes s
  magic : hdr.magic = magicDSYC

/-- After packets that are received whole, none of them END, the stream comes to a FILE
header with its path that announces more than a vector can hold. -/
inductive Oversized : List UInt8 → Prop
  | here {s : List UInt8} {hdr : PacketHeader} (header : HeaderAt s hdr)
      (file : hdr.opcode = opcodeFile) (pathLen : hdr.pathLen.toNat < 2 ^ 31)
      (path : headerSize + hdr.pathLen.toNat ≤ s.length)
      (size : 2 ^ 63 ≤ hdr.fileSize.toNat) : Oversized s
  | afterHeader {s : List UInt8} {hdr : PacketHeader} (header : HeaderAt s hdr)
      (notEnd : hdr.opcode ≠ opcodeEnd) (notFile : hdr.opcode ≠ opcodeFile)
      (rest : Oversized (s.drop headerSize)) : Oversized s
  | afterFile {s : List UInt8} {hdr : PacketHeader} (header : HeaderAt s hdr)
      (file : hdr.opcode = opcodeFile) (pathLen : hdr.pathLen.toNat < 2 ^ 31)
      (size : hdr.fileSize.toNat < 2 ^ 31)
      (whole : headerSize + hdr.pathLen.toNat + hdr.fileSize.toNat ≤ s.length)
      (rest : Oversized (s.drop (headerSize + hdr.pathLen.toNat + hdr.fileSize.toNat))) :
      Oversized s

section Oversized

variable {s : List UInt8} {hdr : PacketHeader}

/-- A header without a body is a frame of its own. -/
theorem HeaderAt.front_header (h : HeaderAt s hdr) (hend : hdr.opcode ≠ opcodeEnd)
    (hfile : hdr.opcode ≠ opcodeFile) : packetFront s = .frame none headerSize := by
  rw [packetFront_of_le h.length, ← h.header, headerFront, if_neg (not_not.mpr h.magic),
    if_neg hend, if_neg hfile]

theorem HeaderAt.front_file (h : HeaderAt s hdr) (hfile : hdr.opcode = opcodeFile) :
    packetFront s = fileFront hdr s := by
  rw [packetFront_of_le h.length, ← h.header, headerFront, if_neg (not_not.mpr h.magic),
    if_neg (by rw [hfile]; decide), if_pos hfile]

/-- A FILE header that announces too much throws once its path has come. -/
theorem HeaderAt.front_oversized (h : HeaderAt s hdr) (hfile : hdr.opcode = opcodeFile)
    (hpathLen : hdr.pathLen.toNat < 2 ^ 31) (hpath : headerSize + hdr.pathLen.toNat ≤ s.length)
    (hsize : 2 ^ 63 ≤ hdr.fileSize.toNat) :
    packetFront s = .halt .threw (headerSize + hdr.pathLen.toNat) := by
  have hmax : vectorMaxSize = 2 ^ 63 - 1 := rfl
  rw [h.front_file hfile]
  unfold fileFront
  simp only
  rw [if_neg (by omega), if_neg (by omega), if_pos (by omega)]

/-- A FILE packet that has come in whole is a frame. -/
theorem HeaderAt.front_whole (h : HeaderAt s hdr) (hfile : hdr.opcode = opcodeFile)
    (hpathLen : hdr.pathLen.toNat < 2 ^ 31) (hsize : hdr.fileSize.toNat < 2 ^ 31)
    (hwhole : headerSize + hdr.pathLen.toNat + hdr.fileSize.toNat ≤ s.length) :
    ∃ item, packetFront s =
      .frame item (headerSize + hdr.pathLen.toNat + hdr.fileSize.toNat) := by
  have hmax : vectorMaxSize = 2 ^ 63 - 1 := rfl
  rw [h.front_file hfile]
  unfold fileFront
  simp only
  rw [if_neg (by omega), if_neg (by omega), if_neg (by omega), if_neg (by omega),
    if_neg (by omega)]
  exact ⟨_, rfl⟩

/-- A stream that announces too much makes the session throw. -/
theorem parse_of_oversized (h : Oversized s) (pos : ℕ) :
    (wireFormat.parse pos s).outcome = some .threw := by
  induction h generalizing pos with
  | here header file pathLen path size =>
      rw [parse_of_halt (header.front_oversized file pathLen path size)]
  | afterHeader header notEnd notFile rest ih =>
      rw [parse_of_frame (header.front_header notEnd notFile)]
      exact ih _
  | afterFile header file pathLen size whole rest ih =>
      obtain ⟨item, hfront⟩ := header.front_whole file pathLen size whole
      rw [parse_of_frame hfront]
      exact ih _

/-- What the front of a stream is, by its header. -/
theorem packetFront_cases (s : List UInt8) :
    packetFront s = .short ∨ (∃ b n, packetFront s = .halt (.returned b) n) ∨
      ∃ hdr, HeaderAt s hdr ∧ hdr.opcode ≠ opcodeEnd ∧
        (hdr.opcode ≠ opcodeFile ∨
          hdr.opcode = opcodeFile ∧ hdr.pathLen.toNat < 2 ^ 31 ∧
            headerSize + hdr.pathLen.toNat ≤ s.length ∧
            (2 ^ 63 ≤ hdr.fileSize.toNat ∨
              hdr.fileSize.toNat < 2 ^ 31 ∧
                headerSize + hdr.pathLen.toNat + hdr.fileSize.toNat ≤ s.length)) := by
  have hmax : vectorMaxSize = 2 ^ 63 - 1 := rfl
  by_cases hlen : s.length < headerSize
  · exact .inl (packetFront_of_lt hlen)
  have hfront := packetFront_of_le (not_lt.mp hlen)
  unfold headerFront fileFront at hfront
  simp only at hfront
  by_cases hmagic : (PacketHeader.ofBytes s).magic ≠ magicDSYC
  · rw [if_pos hmagic] at hfront
    exact .inr (.inl ⟨_, _, hfront⟩)
  rw [if_neg hmagic] at hfront
  have hheader : HeaderAt s (PacketHeader.ofBytes s) := ⟨not_lt.mp hlen, rfl, not_not.mp hmagic⟩
  by_cases hend : (PacketHeader.ofBytes s).opcode = opcodeEnd
  · rw [if_pos hend] at hfront
    exact .inr (.inl ⟨_, _, hfront⟩)
  rw [if_neg hend] at hfront
  by_cases hfile : (PacketHeader.ofBytes s).opcode = opcodeFile
  · rw [if_pos hfile] at hfront
    split_ifs at hfront
    · exact .inr (.inl ⟨_, _, hfront⟩)
    · exact .inl hfront
    · exact .inr (.inr ⟨_, hheader, hend, .inr ⟨hfile, by omega, by omega, .inl (by omega)⟩⟩)
    · exact .inr (.inl ⟨_, _, hfront⟩)
    · exact .inl hfront
    · exact .inr (.inr ⟨_, hheader, hend, .inr ⟨hfile, by omega, by omega,
        .inr ⟨by omega, by omega⟩⟩⟩)
  · exact .inr (.inr ⟨_, hheader, hend, .inl hfile⟩)

/-- A session that throws has met a FILE header that announces too much. -/
theorem oversized_of_parse (pos : ℕ) (s : List UInt8)
    (h : (wireFormat.parse pos s).outcome = some .threw) : Oversized s := by
  induction hlen : s.length using Nat.strong_induction_on generalizing pos s with
  | _ len ih =>
      subst hlen
      rcases packetFront_cases s with hshort | ⟨b, n, hhalt⟩ | ⟨hdr, header, hend, hfile | ⟨hfile,
        hpathLen, hpath, hbig | ⟨hsmall, hwhole⟩⟩⟩
      · rw [parse_of_short hshort] at h
        cases h
      · rw [parse_of_halt hhalt] at h
        cases h
      · have hfront := header.front_header hend hfile
        rw [parse_of_frame hfront] at h
        exact .afterHeader header hend hfile
          (ih _ (wireFormat.length_drop_lt hfront) _ _ h rfl)
      · exact .here header hfile hpathLen hpath hbig
      · obtain ⟨item, hfront⟩ := header.front_whole hfile hpathLen hsmall hwhole
        rw [parse_of_frame hfront] at h
        exact .afterFile header hfile hpathLen hsmall hwhole
          (ih _ (wireFormat.length_drop_lt hfront) _ _ h rfl)

end Oversized

/-- A session returns `true` or `false` if and only if the client announces no size that a
vector cannot hold. -/
theorem handleIncoming_returns_iff (cfg : IniState) (disk : ℕ → StoreReply) (c : Conn) :
    (∃ b, (handleIncoming cfg disk c).result = .returned b) ↔ ¬Oversized c.toList := by
  rw [handleIncoming_result]
  constructor
  · rintro ⟨b, hb⟩ hover
    rw [parse_of_oversized hover] at hb
    cases hb
  · intro hover
    cases houtcome : (wireFormat.parse 0 c.toList).outcome with
    | none => exact ⟨false, rfl⟩
    | some outcome =>
        cases outcome with
        | returned b => exact ⟨b, rfl⟩
        | threw => exact absurd (oversized_of_parse 0 c.toList houtcome) hover

/-- A client sends one FILE header that announces `2^63` bytes, and its path. -/
theorem handleIncoming_throws :
    ¬∀ (cfg : IniState) (disk : ℕ → StoreReply) (c : Conn),
      ∃ b, (handleIncoming cfg disk c).result = .returned b := by
  intro h
  have hover : Oversized ((sizedHeader 0x8000000000000000).toBytes ++ [0x61]) := by
    have hread := PacketHeader.ofBytes_toBytes (sizedHeader 0x8000000000000000) [0x61]
    have hlen : ((sizedHeader 0x8000000000000000).toBytes ++ [0x61]).length =
        headerSize + 1 := by simp
    have hheader : HeaderAt ((sizedHeader 0x8000000000000000).toBytes ++ [0x61])
        (sizedHeader 0x8000000000000000) := ⟨by rw [hlen]; omega, hread.symm, rfl⟩
    have hpath : (sizedHeader 0x8000000000000000).pathLen.toNat = 1 := rfl
    exact .here hheader rfl (by decide) (by rw [hlen, hpath]) (by decide)
  generalize (sizedHeader 0x8000000000000000).toBytes ++ [0x61] = stream at hover
  obtain ⟨b, hb⟩ := h sampleCfg steadyDisk (.whole stream)
  rw [handleIncoming_result, Source.toList_whole, parse_of_oversized hover] at hb
  cases hb

end DesktopSync.Analysis
