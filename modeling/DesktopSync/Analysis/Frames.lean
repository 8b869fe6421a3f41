import DesktopSync.Computation.Framing
import DesktopSync.Model.Receiver

/-!
# The wire format, and that the receiver reads it

`packetFront` is the wire format as mathematics: what the front of a byte string is,
with no connection, no buffer and no loop. It is a `Grammar`: a whole packet stays the
same packet however the stream goes on. `handleLoop_eq` is the bridge: over any
connection, however the transport cuts it, the packet loop of `HandleIncoming` stores
exactly the packets that `wireFormat.parse` finds in the bytes of the connection and ends
as the parse does. Everything about the receiver is proved of the parse and comes back
through it.
-/

set_option autoImplicit false

namespace DesktopSync.Analysis

open DesktopSync.Model
open ChunkedSource Framing

/-- A FILE packet as it lies on the wire. -/
structure FilePacket where
  header : PacketHeader
  path : List UInt8
  data : List UInt8

/-- The size of a FILE packet. -/
def FilePacket.size (p : FilePacket) : ℕ := headerSize + p.path.length + p.data.length

/-- The FILE packet at the front of `s` once its header is known. -/
def fileFront (hdr : PacketHeader) (s : List UInt8) : Verdict FilePacket CallResult :=
  let pathLen := hdr.pathLen.toNat
  let fileSize := hdr.fileSize.toNat
  if 2 ^ 31 ≤ pathLen then .halt (.returned false) headerSize
  else if s.length < headerSize + pathLen then .short
  else if vectorMaxSize < fileSize then .halt .threw (headerSize + pathLen)
  else if 2 ^ 31 ≤ fileSize then .halt (.returned false) (headerSize + pathLen)
  else if s.length < headerSize + pathLen + fileSize then .short
  else
    .frame
      (some ⟨hdr, (s.drop headerSize).take pathLen, (s.drop (headerSize + pathLen)).take fileSize⟩)
      (headerSize + pathLen + fileSize)

/-- What the front of `s` is once its header is known. -/
def headerFront (hdr : PacketHeader) (s : List UInt8) : Verdict FilePacket CallResult :=
  if hdr.magic ≠ magicDSYC then .halt (.returned false) headerSize
  else if hdr.opcode = opcodeEnd then .halt (.returned true) headerSize
  else if hdr.opcode = opcodeFile then fileFront hdr s
  else .frame none headerSize

/-- What the front of a byte string is. -/
def packetFront (s : List UInt8) : Verdict FilePacket CallResult :=
  if s.length < headerSize then .short else headerFront (PacketHeader.ofBytes s) s

/-! ## Reading a field needs only the bytes it lies in -/

theorem field_congr {s t : List UInt8} {off n : ℕ} (h : ∀ i < off + n, s.getD i 0 = t.getD i 0) :
    field s off n = field t off n := by
  apply Subtype.ext
  simp only [field]
  congr 1
  funext i
  exact h _ (by omega)

/-- The header is read from the first forty bytes. -/
theorem ofBytes_congr {s t : List UInt8} (h : ∀ i < headerSize, s.getD i 0 = t.getD i 0) :
    PacketHeader.ofBytes s = PacketHeader.ofBytes t := by
  have hfield : ∀ off n, off + n ≤ headerSize → field s off n = field t off n := by
    intro off n hle
    exact field_congr fun i hi => h i (by omega)
  have hnat : ∀ off n, off + n ≤ headerSize → fieldNat s off n = fieldNat t off n := by
    intro off n hle
    rw [fieldNat, fieldNat, hfield off n hle]
  unfold headerSize at hfield hnat
  simp only [PacketHeader.ofBytes, hfield 0 4 (by omega), hfield 24 16 (by omega),
    hnat 4 2 (by omega), hnat 6 2 (by omega), hnat 8 2 (by omega), hnat 10 2 (by omega),
    hnat 12 4 (by omega), hnat 16 8 (by omega)]

theorem ofBytes_append {s : List UInt8} (t : List UInt8) (h : headerSize ≤ s.length) :
    PacketHeader.ofBytes (s ++ t) = PacketHeader.ofBytes s := by
  apply ofBytes_congr
  intro i hi
  rw [List.getD_eq_getElem?_getD, List.getD_eq_getElem?_getD,
    List.getElem?_append_left (by omega)]

theorem ofBytes_take (s : List UInt8) :
    PacketHeader.ofBytes (s.take headerSize) = PacketHeader.ofBytes s := by
  apply ofBytes_congr
  intro i hi
  rw [List.getD_eq_getElem?_getD, List.getD_eq_getElem?_getD, List.getElem?_take, if_pos hi]

/-! ## The wire format is a grammar -/

/-- A FILE packet's verdict depends on the packet alone. -/
theorem fileFront_append {hdr : PacketHeader} {s : List UInt8} (t : List UInt8)
    (h : fileFront hdr s ≠ .short) : fileFront hdr (s ++ t) = fileFront hdr s := by
  unfold fileFront at h ⊢
  simp only [List.length_append] at h ⊢
  split_ifs at h ⊢ <;> first | rfl | omega | exact absurd rfl h | skip
  rw [List.drop_append_of_le_length (by omega), List.drop_append_of_le_length (by omega),
    List.take_append_of_le_length (by rw [List.length_drop]; omega),
    List.take_append_of_le_length (by rw [List.length_drop]; omega)]

/-- Bytes that are not even a header. -/
theorem packetFront_of_lt {s : List UInt8} (h : s.length < headerSize) : packetFront s = .short :=
  if_pos h

/-- Bytes that start with a header. -/
theorem packetFront_of_le {s : List UInt8} (h : headerSize ≤ s.length) :
    packetFront s = headerFront (PacketHeader.ofBytes s) s :=
  if_neg (not_lt.mpr h)

/-- A packet's verdict depends on the packet alone. -/
theorem packetFront_append {s : List UInt8} (t : List UInt8) (h : packetFront s ≠ .short) :
    packetFront (s ++ t) = packetFront s := by
  have hlen : headerSize ≤ s.length := by
    by_contra hshort
    exact h (packetFront_of_lt (not_le.mp hshort))
  rw [packetFront_of_le hlen] at h ⊢
  rw [packetFront_of_le (by rw [List.length_append]; omega), ofBytes_append t hlen]
  unfold headerFront at h ⊢
  split_ifs at h ⊢
  · rfl
  · rfl
  · exact fileFront_append t h
  · rfl

/-- A frame that begins with a FILE header is the whole packet, and lies inside the
bytes. -/
theorem fileFront_frame {hdr : PacketHeader} {s : List UInt8} {item : Option FilePacket} {n : ℕ}
    (h : fileFront hdr s = .frame item n) :
    n = headerSize + hdr.pathLen.toNat + hdr.fileSize.toNat ∧ n ≤ s.length ∧
      item = some ⟨hdr, (s.drop headerSize).take hdr.pathLen.toNat,
        (s.drop (headerSize + hdr.pathLen.toNat)).take hdr.fileSize.toNat⟩ := by
  unfold fileFront at h
  simp only at h
  split_ifs at h
  · injection h with hitem hn
    exact ⟨hn.symm, by omega, hitem.symm⟩

theorem fileFront_halt {hdr : PacketHeader} {s : List UInt8} {result : CallResult} {n : ℕ}
    (h : fileFront hdr s = .halt result n) (hlen : headerSize ≤ s.length) : n ≤ s.length := by
  unfold fileFront at h
  simp only at h
  split_ifs at h
  · injection h with _ hn
    omega
  · injection h with _ hn
    omega
  · injection h with _ hn
    omega

/-- A frame is a header alone, or a FILE packet. -/
theorem packetFront_frame_cases {s : List UInt8} {item : Option FilePacket} {n : ℕ}
    (h : packetFront s = .frame item n) :
    headerSize ≤ s.length ∧ (PacketHeader.ofBytes s).magic = magicDSYC ∧
      (item = none ∧ n = headerSize ∨
        (PacketHeader.ofBytes s).opcode = opcodeFile ∧
          fileFront (PacketHeader.ofBytes s) s = .frame item n) := by
  have hlen : headerSize ≤ s.length := by
    by_contra hshort
    rw [packetFront_of_lt (not_le.mp hshort)] at h
    cases h
  rw [packetFront_of_le hlen] at h
  unfold headerFront at h
  split_ifs at h with hmagic hend hfile
  · exact ⟨hlen, not_not.mp hmagic, .inr ⟨hfile, h⟩⟩
  · injection h with hitem hn
    exact ⟨hlen, not_not.mp hmagic, .inl ⟨hitem.symm, hn.symm⟩⟩

/-- A frame is not empty and lies inside the bytes. -/
theorem packetFront_frame {s : List UInt8} {item : Option FilePacket} {n : ℕ}
    (h : packetFront s = .frame item n) : 0 < n ∧ n ≤ s.length := by
  have hsize : 0 < headerSize := by decide
  obtain ⟨hlen, -, ⟨-, rfl⟩ | ⟨-, hfile⟩⟩ := packetFront_frame_cases h
  · exact ⟨hsize, hlen⟩
  · obtain ⟨hn, hle, -⟩ := fileFront_frame hfile
    exact ⟨by omega, hle⟩

theorem packetFront_halt {s : List UInt8} {result : CallResult} {n : ℕ}
    (h : packetFront s = .halt result n) : n ≤ s.length := by
  have hlen : headerSize ≤ s.length := by
    by_contra hshort
    rw [packetFront_of_lt (not_le.mp hshort)] at h
    cases h
  rw [packetFront_of_le hlen] at h
  unfold headerFront at h
  split_ifs at h
  · injection h with _ hn
    omega
  · injection h with _ hn
    omega
  · exact fileFront_halt h hlen

/-- The wire format. -/
def wireFormat : Grammar UInt8 FilePacket CallResult where
  front := packetFront
  frame_pos h := (packetFront_frame h).1
  frame_le h := (packetFront_frame h).2
  halt_le h := packetFront_halt h
  frame_append t h := by rw [packetFront_append t (by simp [h]), h]
  halt_append t h := by rw [packetFront_append t (by simp [h]), h]

theorem parse_of_short {pos : ℕ} {s : List UInt8} (h : packetFront s = .short) :
    wireFormat.parse pos s = ⟨[], none, s⟩ :=
  Grammar.parse_short (g := wireFormat) h

theorem parse_of_halt {pos n : ℕ} {s : List UInt8} {outcome : CallResult}
    (h : packetFront s = .halt outcome n) :
    wireFormat.parse pos s = ⟨[], some outcome, s.drop n⟩ :=
  Grammar.parse_halt (g := wireFormat) h

theorem parse_of_frame {pos n : ℕ} {s : List UInt8} {item : Option FilePacket}
    (h : packetFront s = .frame item n) :
    wireFormat.parse pos s =
      ⟨item.toList.map (pos, ·) ++ (wireFormat.parse (pos + n) (s.drop n)).items,
        (wireFormat.parse (pos + n) (s.drop n)).outcome,
        (wireFormat.parse (pos + n) (s.drop n)).rest⟩ :=
  Grammar.parse_frame (g := wireFormat) h

/-! ## Packets as they are written -/

/-- The receiver finds the header that was written. -/
theorem packetFront_toBytes (hdr : PacketHeader) (s : List UInt8) :
    packetFront (hdr.toBytes ++ s) = headerFront hdr (hdr.toBytes ++ s) := by
  rw [packetFront_of_le (by simp), PacketHeader.ofBytes_toBytes]

theorem drop_toBytes (hdr : PacketHeader) (s : List UInt8) :
    (hdr.toBytes ++ s).drop headerSize = s :=
  List.drop_left' hdr.length_toBytes

/-- A header without a body is a frame of its own. -/
theorem packetFront_header {hdr : PacketHeader} (hmagic : hdr.magic = magicDSYC)
    (hend : hdr.opcode ≠ opcodeEnd) (hfile : hdr.opcode ≠ opcodeFile) (s : List UInt8) :
    packetFront (hdr.toBytes ++ s) = .frame none headerSize := by
  rw [packetFront_toBytes, headerFront, if_neg (not_not.mpr hmagic), if_neg hend, if_neg hfile]

theorem packetFront_end {hdr : PacketHeader} (hmagic : hdr.magic = magicDSYC)
    (hend : hdr.opcode = opcodeEnd) (s : List UInt8) :
    packetFront (hdr.toBytes ++ s) = .halt (.returned true) headerSize := by
  rw [packetFront_toBytes, headerFront, if_neg (not_not.mpr hmagic), if_pos hend]

/-- A header without a body is passed over. -/
theorem parse_header {hdr : PacketHeader} (hmagic : hdr.magic = magicDSYC)
    (hend : hdr.opcode ≠ opcodeEnd) (hfile : hdr.opcode ≠ opcodeFile) (pos : ℕ) (s : List UInt8) :
    wireFormat.parse pos (hdr.toBytes ++ s) = wireFormat.parse (pos + headerSize) s := by
  rw [parse_of_frame (packetFront_header hmagic hend hfile s), drop_toBytes]
  rfl

/-- An END header ends the session. -/
theorem parse_end (hdr : PacketHeader) (hmagic : hdr.magic = magicDSYC)
    (hend : hdr.opcode = opcodeEnd) (pos : ℕ) (s : List UInt8) :
    wireFormat.parse pos (hdr.toBytes ++ s) = ⟨[], some (.returned true), s⟩ := by
  rw [parse_of_halt (packetFront_end hmagic hend s), drop_toBytes]

/-- What the front of a FILE header and more bytes is. -/
theorem packetFront_fileHeader {hdr : PacketHeader} (hmagic : hdr.magic = magicDSYC)
    (hfile : hdr.opcode = opcodeFile) (s : List UInt8) :
    packetFront (hdr.toBytes ++ s) = fileFront hdr (hdr.toBytes ++ s) := by
  rw [packetFront_toBytes, headerFront, if_neg (not_not.mpr hmagic),
    if_neg (by rw [hfile]; decide), if_pos hfile]

/-- A whole FILE packet is one frame. -/
theorem packetFront_whole {p : FilePacket} (hmagic : p.header.magic = magicDSYC)
    (hfile : p.header.opcode = opcodeFile) (hpath : p.header.pathLen.toNat = p.path.length)
    (hpathLen : p.path.length < 2 ^ 31) (hdata : p.header.fileSize.toNat = p.data.length)
    (hdataLen : p.data.length < 2 ^ 31) (s : List UInt8) :
    packetFront (p.header.toBytes ++ p.path ++ p.data ++ s) = .frame (some p) p.size := by
  obtain ⟨hdr, path, data⟩ := p
  simp only [FilePacket.size] at *
  have hmax : data.length ≤ vectorMaxSize := le_trans hdataLen.le (by decide)
  simp only [List.append_assoc]
  rw [packetFront_fileHeader hmagic hfile, fileFront]
  simp only [hpath, hdata, List.length_append, PacketHeader.length_toBytes]
  rw [if_neg (by omega), if_neg (by omega), if_neg (by omega), if_neg (by omega),
    if_neg (by omega), ← List.drop_drop, drop_toBytes, List.drop_left, List.take_left,
    List.take_left]

theorem drop_packet (p : FilePacket) (s : List UInt8) :
    (p.header.toBytes ++ p.path ++ p.data ++ s).drop p.size = s :=
  List.drop_left' (by
    simp only [FilePacket.size, List.length_append, PacketHeader.length_toBytes])

/-- A whole FILE packet is one item. -/
theorem parse_file {p : FilePacket} (hmagic : p.header.magic = magicDSYC)
    (hfile : p.header.opcode = opcodeFile) (hpath : p.header.pathLen.toNat = p.path.length)
    (hpathLen : p.path.length < 2 ^ 31) (hdata : p.header.fileSize.toNat = p.data.length)
    (hdataLen : p.data.length < 2 ^ 31) (pos : ℕ) (s : List UInt8) :
    wireFormat.parse pos (p.header.toBytes ++ p.path ++ p.data ++ s) =
      ⟨(pos, p) :: (wireFormat.parse (pos + p.size) s).items,
        (wireFormat.parse (pos + p.size) s).outcome,
        (wireFormat.parse (pos + p.size) s).rest⟩ := by
  have hfront := packetFront_whole hmagic hfile hpath hpathLen hdata hdataLen s
  rw [parse_of_frame hfront, drop_packet]
  rfl

/-! ## The receiver reads the wire format -/

/-- What `HandleIncoming` stores for a FILE packet that began at `pos`. -/
def toWrite (cfg : IniState) (reply : StoreReply) (pos : ℕ) (p : FilePacket) : FileWrite where
  fileName := utf8ToWide p.path
  target := WindowsPath.join (targetDirOf cfg) (utf8ToWide p.path)
  data := p.data
  offset := pos + headerSize + p.path.length
  reply := reply

/-- The files stored for a list of packets, the first of them as the `stored`-th. -/
def writesOf (cfg : IniState) (disk : ℕ → StoreReply) : ℕ → List (ℕ × FilePacket) → List FileWrite
  | _, [] => []
  | stored, (pos, p) :: rest =>
      toWrite cfg (disk stored) pos p :: writesOf cfg disk (stored + 1) rest

/-- A pass of the packet loop does what the front of its bytes says. -/
def Follows (cfg : IniState) (reply : StoreReply) (pos : ℕ) (bytes : List UInt8) :
    Verdict FilePacket CallResult → PacketStep → Prop
  | .short, .done result _ => result = .returned false
  | .halt outcome n, .done result s =>
      result = outcome ∧ (outcome = .returned true → s.toList = bytes.drop n)
  | .frame item n, .next write size s =>
      write = item.map (toWrite cfg reply pos) ∧ size = n ∧ s.toList = bytes.drop n
  | _, _ => False

theorem recvAll_of_le (s : Conn) (len : ℕ) (hint : len < 2 ^ 31) (hlen : len ≤ s.toList.length) :
    ∃ s', recvAll s len = some (s.toList.take len, s') ∧ s'.toList = s.toList.drop len :=
  recvLoop_some recvAllGiveUp s len hint hlen

theorem recvPayload_of_le (s : Conn) (len : ℕ) (hint : len < 2 ^ 31)
    (hlen : len ≤ s.toList.length) :
    ∃ s', recvPayload s len = some (s.toList.take len, s') ∧ s'.toList = s.toList.drop len :=
  recvLoop_some payloadGiveUp s len hint hlen

theorem recvAll_of_lt {s : Conn} {len : ℕ} (hlen : s.toList.length < len) :
    recvAll s len = none :=
  recvLoop_none_of_short recvAllGiveUp s len hlen

theorem recvPayload_of_lt {s : Conn} {len : ℕ} (hlen : s.toList.length < len) :
    recvPayload s len = none :=
  recvLoop_none_of_short payloadGiveUp s len hlen

theorem recvAll_of_large {s : Conn} {len : ℕ} (hlen : 2 ^ 31 ≤ len) : recvAll s len = none :=
  recvLoop_none_of_large recvAllGiveUp s len hlen

theorem recvPayload_of_large {s : Conn} {len : ℕ} (hlen : 2 ^ 31 ≤ len) :
    recvPayload s len = none :=
  recvLoop_none_of_large payloadGiveUp s len hlen

/-- The FILE branch does what the packet's front says. -/
theorem handleFile_follows (cfg : IniState) (reply : StoreReply) (pos : ℕ) (hdr : PacketHeader)
    (bytes : List UInt8) (hbytes : headerSize ≤ bytes.length) (s : Conn)
    (hs : s.toList = bytes.drop headerSize) :
    Follows cfg reply pos bytes (fileFront hdr bytes) (handleFile cfg reply pos hdr s) := by
  have hslen : s.toList.length = bytes.length - headerSize := by rw [hs, List.length_drop]
  unfold fileFront handleFile
  simp only
  by_cases hlarge : 2 ^ 31 ≤ hdr.pathLen.toNat
  · rw [if_pos hlarge, recvAll_of_large hlarge]
    exact ⟨rfl, by simp⟩
  rw [if_neg hlarge]
  by_cases hshort : bytes.length < headerSize + hdr.pathLen.toNat
  · rw [if_pos hshort, recvAll_of_lt (by omega)]
    rfl
  rw [if_neg hshort]
  obtain ⟨s₁, hrecv, hs₁⟩ := recvAll_of_le s hdr.pathLen.toNat (by omega) (by omega)
  rw [hs, List.drop_drop] at hs₁
  have hslen₁ : s₁.toList.length = bytes.length - (headerSize + hdr.pathLen.toNat) := by
    rw [hs₁, List.length_drop]
  simp only [hrecv]
  by_cases hthrow : vectorMaxSize < hdr.fileSize.toNat
  · rw [if_pos hthrow, if_pos hthrow]
    exact ⟨rfl, by simp⟩
  rw [if_neg hthrow, if_neg hthrow]
  by_cases hlarge' : 2 ^ 31 ≤ hdr.fileSize.toNat
  · rw [if_pos hlarge', recvPayload_of_large hlarge']
    exact ⟨rfl, by simp⟩
  rw [if_neg hlarge']
  by_cases hshort' : bytes.length < headerSize + hdr.pathLen.toNat + hdr.fileSize.toNat
  · rw [if_pos hshort', recvPayload_of_lt (by omega)]
    rfl
  rw [if_neg hshort']
  obtain ⟨s₂, hrecv₂, hs₂⟩ :=
    recvPayload_of_le s₁ hdr.fileSize.toNat (by omega) (by omega)
  have hpath : ((bytes.drop headerSize).take hdr.pathLen.toNat).length = hdr.pathLen.toNat := by
    rw [List.length_take, List.length_drop]
    omega
  rw [hrecv₂]
  refine ⟨?_, rfl, ?_⟩
  · simp only [Option.map_some, toWrite, hs, hs₁, hpath]
  · rw [hs₂, hs₁, List.drop_drop]

/-- One pass of the packet loop does what the front of the connection's bytes says. -/
theorem handlePacket_follows (cfg : IniState) (reply : StoreReply) (pos : ℕ) (s : Conn) :
    Follows cfg reply pos s.toList (packetFront s.toList) (handlePacket cfg reply pos s) := by
  unfold handlePacket
  by_cases hlen : s.toList.length < headerSize
  · rw [packetFront_of_lt hlen, recvAll_of_lt hlen]
    rfl
  obtain ⟨s₁, hrecv, hs₁⟩ :=
    recvAll_of_le s headerSize (by decide) (not_lt.mp hlen)
  rw [packetFront_of_le (not_lt.mp hlen)]
  simp only [hrecv, ofBytes_take]
  generalize PacketHeader.ofBytes s.toList = hdr
  unfold headerFront
  by_cases hmagic : hdr.magic ≠ magicDSYC
  · rw [if_pos hmagic, if_pos hmagic]
    exact ⟨rfl, by simp⟩
  rw [if_neg hmagic, if_neg hmagic]
  by_cases hend : hdr.opcode = opcodeEnd
  · rw [if_pos hend, if_pos hend]
    exact ⟨rfl, fun _ => hs₁⟩
  rw [if_neg hend, if_neg hend]
  by_cases hhello : hdr.opcode = opcodeHello
  · have hfile : hdr.opcode ≠ opcodeFile := by rw [hhello]; decide
    rw [if_pos hhello, if_neg hfile]
    exact ⟨rfl, rfl, hs₁⟩
  rw [if_neg hhello]
  by_cases hfile : hdr.opcode = opcodeFile
  · rw [if_pos hfile, if_pos hfile]
    exact handleFile_follows cfg reply pos hdr s.toList (not_lt.mp hlen) s₁ hs₁
  · rw [if_neg hfile, if_neg hfile]
    exact ⟨rfl, rfl, hs₁⟩

section HandlePacket

variable {s : Conn} (cfg : IniState) (reply : StoreReply) (pos : ℕ)

theorem handlePacket_of_short (h : packetFront s.toList = .short) :
    ∃ s', handlePacket cfg reply pos s = .done (.returned false) s' := by
  have hfollows := handlePacket_follows cfg reply pos s
  rw [h] at hfollows
  cases hpacket : handlePacket cfg reply pos s with
  | done result s' =>
      rw [hpacket] at hfollows
      obtain rfl : result = .returned false := hfollows
      exact ⟨s', rfl⟩
  | next write size s' =>
      rw [hpacket] at hfollows
      exact hfollows.elim

theorem handlePacket_of_halt {outcome : CallResult} {n : ℕ}
    (h : packetFront s.toList = .halt outcome n) :
    ∃ s', handlePacket cfg reply pos s = .done outcome s' ∧
      (outcome = .returned true → s'.toList = s.toList.drop n) := by
  have hfollows := handlePacket_follows cfg reply pos s
  rw [h] at hfollows
  cases hpacket : handlePacket cfg reply pos s with
  | done result s' =>
      rw [hpacket] at hfollows
      obtain ⟨rfl, hrest⟩ := hfollows
      exact ⟨s', rfl, hrest⟩
  | next write size s' =>
      rw [hpacket] at hfollows
      exact hfollows.elim

theorem handlePacket_of_frame {item : Option FilePacket} {n : ℕ}
    (h : packetFront s.toList = .frame item n) :
    ∃ s', handlePacket cfg reply pos s = .next (item.map (toWrite cfg reply pos)) n s' ∧
      s'.toList = s.toList.drop n := by
  have hfollows := handlePacket_follows cfg reply pos s
  rw [h] at hfollows
  cases hpacket : handlePacket cfg reply pos s with
  | done result s' =>
      rw [hpacket] at hfollows
      exact hfollows.elim
  | next write size s' =>
      rw [hpacket] at hfollows
      obtain ⟨rfl, rfl, hrest⟩ := hfollows
      exact ⟨s', rfl, hrest⟩

end HandlePacket

theorem handleLoop_done {cfg : IniState} {disk : ℕ → StoreReply} {stored pos : ℕ} {s s' : Conn}
    {result : CallResult} (h : handlePacket cfg (disk stored) pos s = .done result s') :
    handleLoop cfg disk stored pos s = ⟨result, [], s'⟩ := by
  rw [handleLoop]
  split <;> simp_all

theorem handleLoop_next {cfg : IniState} {disk : ℕ → StoreReply} {stored pos size : ℕ}
    {s s' : Conn} {write : Option FileWrite}
    (h : handlePacket cfg (disk stored) pos s = .next write size s') :
    handleLoop cfg disk stored pos s =
      ⟨(handleLoop cfg disk (stored + write.toList.length) (pos + size) s').result,
        write.toList ++
          (handleLoop cfg disk (stored + write.toList.length) (pos + size) s').writes,
        (handleLoop cfg disk (stored + write.toList.length) (pos + size) s').rest⟩ := by
  rw [handleLoop]
  split <;> simp_all

/-- Over any connection the packet loop stores the packets the parse of its bytes finds
and ends as the parse does, a lost connection counting as `false`. -/
theorem handleLoop_eq (cfg : IniState) (disk : ℕ → StoreReply) (stored pos : ℕ) (s : Conn) :
    (handleLoop cfg disk stored pos s).writes =
        writesOf cfg disk stored (wireFormat.parse pos s.toList).items ∧
      (handleLoop cfg disk stored pos s).result =
        (wireFormat.parse pos s.toList).outcome.getD (.returned false) ∧
      ((wireFormat.parse pos s.toList).outcome = some (.returned true) →
        (handleLoop cfg disk stored pos s).rest.toList = (wireFormat.parse pos s.toList).rest) := by
  generalize hbytes : s.toList = bytes
  induction pos, bytes using wireFormat.parse_induction generalizing stored s with
  | short pos bytes hfront =>
      rw [← hbytes] at hfront
      obtain ⟨s', hpacket⟩ := handlePacket_of_short cfg (disk stored) pos hfront
      rw [parse_of_short (hbytes ▸ hfront), handleLoop_done hpacket]
      exact ⟨rfl, rfl, by simp⟩
  | halt pos bytes outcome n hfront =>
      rw [← hbytes] at hfront
      obtain ⟨s', hpacket, hrest⟩ := handlePacket_of_halt cfg (disk stored) pos hfront
      rw [parse_of_halt (hbytes ▸ hfront), handleLoop_done hpacket, ← hbytes]
      exact ⟨rfl, rfl, fun h => hrest (Option.some.inj h)⟩
  | frame pos bytes item n hfront ih =>
      rw [← hbytes] at hfront
      obtain ⟨s', hpacket, hs'⟩ := handlePacket_of_frame cfg (disk stored) pos hfront
      obtain ⟨hwrites, hresult, hrest⟩ := ih (stored + (item.map (toWrite cfg (disk stored)
        pos)).toList.length) s' (by rw [hs', hbytes])
      rw [parse_of_frame (hbytes ▸ hfront), handleLoop_next hpacket]
      refine ⟨?_, hresult, hrest⟩
      simp only [hwrites]
      cases item <;> rfl

end DesktopSync.Analysis
