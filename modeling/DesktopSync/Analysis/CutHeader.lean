import DesktopSync.Analysis.RoundTrip

/-!
# A packet cut short and followed by END

What the receiver reads when the sender stopped after `j` bytes of a FILE packet and
sent an END header next. Up to the twenty-third byte the END header falls on the magic,
the opcode or the lengths, and no file is found. From the twenty-fourth on the lengths
are those of the cut packet, and the receiver fills the packet up with the END header.
-/

set_option autoImplicit false

namespace DesktopSync.Analysis

open DesktopSync.Model
open Framing

/-! ## Fields as numbers -/

theorem length_field (buf : List UInt8) (off n : ℕ) : (field buf off n).toList.length = n :=
  (field buf off n).toList_length

theorem getD_field (buf : List UInt8) (off : ℕ) {n i : ℕ} (hi : i < n) :
    (field buf off n).toList.getD i 0 = buf.getD (off + i) 0 := by
  rw [List.getD_eq_getElem?_getD, List.getElem?_eq_getElem (by rw [length_field]; exact hi)]
  simp [field, List.Vector.toList]

/-- A byte of a field bounds its number from below. -/
theorem fieldNat_ge (buf : List UInt8) (off : ℕ) {n i : ℕ} (hi : i < n) :
    (buf.getD (off + i) 0).toNat * 256 ^ i ≤ fieldNat buf off n := by
  have hlen := length_field buf off n
  have hsplit : (field buf off n).toList =
      (field buf off n).toList.take i ++
        buf.getD (off + i) 0 :: (field buf off n).toList.drop (i + 1) := by
    have hbyte := getD_field buf off hi
    rw [List.getD_eq_getElem?_getD, List.getElem?_eq_getElem (by rw [hlen]; exact hi),
      Option.getD_some] at hbyte
    rw [← hbyte, ← List.drop_eq_getElem_cons, List.take_append_drop]
  have hbound := ByteOrder.le_ofBytes ((field buf off n).toList.take i)
    ((field buf off n).toList.drop (i + 1)) (buf.getD (off + i) 0)
  rw [← hsplit, List.length_take, hlen, Nat.min_eq_left hi.le] at hbound
  exact hbound

theorem fieldNat_lt (buf : List UInt8) (off n : ℕ) : fieldNat buf off n < 256 ^ n := by
  have h := ByteOrder.ofBytes_lt (field buf off n).toList
  rwa [length_field] at h

theorem toNat_opcode (buf : List UInt8) :
    (PacketHeader.ofBytes buf).opcode.toNat = fieldNat buf 6 2 :=
  UInt16.toNat_ofNat_of_lt' (fieldNat_lt buf 6 2)

theorem toNat_pathLen (buf : List UInt8) :
    (PacketHeader.ofBytes buf).pathLen.toNat = fieldNat buf 12 4 :=
  UInt32.toNat_ofNat_of_lt' (fieldNat_lt buf 12 4)

theorem toNat_fileSize (buf : List UInt8) :
    (PacketHeader.ofBytes buf).fileSize.toNat = fieldNat buf 16 8 :=
  UInt64.toNat_ofNat_of_lt' (fieldNat_lt buf 16 8)

/-! ## The cut header -/

/-- The bytes of an END packet. -/
def endBytes (pad : UInt16) : List UInt8 := PacketHeader.toBytes { opcode := opcodeEnd, pad := pad }

@[simp] theorem length_endBytes (pad : UInt16) : (endBytes pad).length = headerSize :=
  PacketHeader.length_toBytes _

theorem getD_cut_left {s : List UInt8} {j i : ℕ} (t : List UInt8) (hi : i < j)
    (hj : j ≤ s.length) : (s.take j ++ t).getD i 0 = s.getD i 0 := by
  rw [List.getD_eq_getElem?_getD, List.getD_eq_getElem?_getD,
    List.getElem?_append_left (by rw [List.length_take]; omega), List.getElem?_take, if_pos hi]

theorem getD_cut_right {s : List UInt8} {j : ℕ} (t : List UInt8) (i : ℕ) (hj : j ≤ s.length) :
    (s.take j ++ t).getD (j + i) 0 = t.getD i 0 := by
  have hlen : (s.take j).length = j := by rw [List.length_take, Nat.min_eq_left hj]
  rw [List.getD_eq_getElem?_getD, List.getD_eq_getElem?_getD,
    List.getElem?_append_right (by omega), hlen, Nat.add_sub_cancel_left]

/-- What a FILE packet found in the cut bytes would have to look like. -/
theorem frame_of_cut {s : List UInt8} {j n : ℕ} {pad : UInt16} {p : FilePacket}
    (hj : j ≤ s.length) (h : packetFront (s.take j ++ endBytes pad) = .frame (some p) n) :
    (∀ i < 4, (s.take j ++ endBytes pad).getD i 0 = magicDSYC.toList.getD i 0) ∧
      fieldNat (s.take j ++ endBytes pad) 6 2 = 2 ∧
      fieldNat (s.take j ++ endBytes pad) 12 4 +
        fieldNat (s.take j ++ endBytes pad) 16 8 ≤ j := by
  obtain ⟨hheader, hmagic, hopcode, -, hpath, -, hdata, hn, hle⟩ := packetFront_file h
  rw [hheader] at hmagic hopcode hpath hdata
  refine ⟨?_, ?_, ?_⟩
  · intro i hi
    have hbyte := getD_field (s.take j ++ endBytes pad) 0 hi
    rw [Nat.zero_add] at hbyte
    have hfield : (field (s.take j ++ endBytes pad) 0 4) = magicDSYC := hmagic
    rw [← hbyte, ← hfield]
  · rw [← toNat_opcode, hopcode]
    rfl
  · rw [toNat_pathLen] at hpath
    rw [toNat_fileSize] at hdata
    rw [hn, FilePacket.size, hpath, hdata, List.length_append, List.length_take, length_endBytes]
      at hle
    omega

theorem endBytes_getD (pad : UInt16) {i : ℕ} (hi : i < 7) :
    (endBytes pad).getD i 0 = [0x44, 0x53, 0x59, 0x43, 0x01, 0x00, 0x03].getD i 0 := by
  have hversion : ByteOrder.toBytes 2 (1 : UInt16).toNat = [0x01, 0x00] := by decide
  have hopcode : ByteOrder.toBytes 2 opcodeEnd.toNat = [0x03, 0x00] := by decide
  rw [endBytes, PacketHeader.toBytes, hversion, hopcode]
  interval_cases i <;> rfl

/-- The END header on the magic, the opcode or the lengths hides the packet. -/
theorem no_frame_of_cut {s : List UInt8} {j n : ℕ} {pad : UInt16} {p : FilePacket}
    (hj : j ≤ s.length) (hpos : 0 < j) (hlow : j < 24) :
    packetFront (s.take j ++ endBytes pad) ≠ .frame (some p) n := by
  intro h
  obtain ⟨hmagic, hopcode, hlengths⟩ := frame_of_cut hj h
  have hend : ∀ k, j ≤ k → k < j + 7 → (s.take j ++ endBytes pad).getD k 0 =
      [0x44, 0x53, 0x59, 0x43, 0x01, 0x00, 0x03].getD (k - j) 0 := by
    intro k hk hk'
    have hbyte := getD_cut_right (endBytes pad) (k - j) hj
    rw [Nat.add_sub_cancel' hk] at hbyte
    rw [hbyte, endBytes_getD pad (by omega)]
  generalize s.take j ++ endBytes pad = t at hmagic hopcode hlengths hend
  have hbound : ∀ k off n, off ≤ k → k < off + n → j ≤ k → k < j + 7 →
      ([0x44, 0x53, 0x59, 0x43, 0x01, 0x00, 0x03].getD (k - j) (0 : UInt8)).toNat *
        256 ^ (k - off) ≤ fieldNat t off n := by
    intro k off n hoff hk hjk hjk'
    have hge := fieldNat_ge t off (show k - off < n by omega)
    rwa [Nat.add_sub_cancel' hoff, hend k hjk hjk'] at hge
  -- which byte of END gives the packet away depends on the field the cut falls into
  rcases (by omega : j < 4 ∨ 4 ≤ j ∧ j < 8 ∨ j = 8 ∨ 9 ≤ j ∧ j < 12 ∨ 12 ≤ j ∧ j < 16 ∨ 16 ≤ j)
    with hj | hj | hj | hj | hj | hj
  · have hbyte := hend j le_rfl (by omega)
    rw [hmagic j hj] at hbyte
    interval_cases j <;> exact absurd hbyte (by decide)
  · have hbyte := hbound 7 6 2 (by omega) (by omega) (by omega) (by omega)
    rw [hopcode] at hbyte
    obtain ⟨hj, hj'⟩ := hj
    interval_cases j <;> exact absurd hbyte (by decide)
  · subst hj
    have hbyte := hbound 14 12 4 (by omega) (by omega) (by omega) (by omega)
    exact absurd (hbyte.trans ((Nat.le_add_right _ _).trans hlengths)) (by decide)
  · have hbyte := hbound 12 12 4 (by omega) (by omega) (by omega) (by omega)
    have hle := hbyte.trans ((Nat.le_add_right _ _).trans hlengths)
    obtain ⟨hj, hj'⟩ := hj
    interval_cases j <;> exact absurd hle (by decide)
  · have hbyte := hbound j 12 4 (by omega) (by omega) (by omega) (by omega)
    have hle := hbyte.trans ((Nat.le_add_right _ _).trans hlengths)
    obtain ⟨hj, hj'⟩ := hj
    interval_cases j <;> exact absurd hle (by decide)
  · have hbyte := hbound j 16 8 (by omega) (by omega) (by omega) (by omega)
    have hle := hbyte.trans ((Nat.le_add_left _ _).trans hlengths)
    interval_cases j <;> exact absurd hle (by decide)

/-- Nothing is found in a packet cut before its lengths are out. -/
theorem parse_cut_low {s : List UInt8} {j : ℕ} {pad : UInt16} (hj : j ≤ s.length) (hlow : j < 24)
    (pos : ℕ) : (wireFormat.parse pos (s.take j ++ endBytes pad)).items = [] := by
  rcases Nat.eq_zero_or_pos j with rfl | hpos
  · have hend := parse_end { opcode := opcodeEnd, pad := pad } rfl rfl pos []
    rw [List.append_nil] at hend
    rw [List.take_zero, List.nil_append, endBytes, hend]
  · have hlen : (s.take j ++ endBytes pad).length = j + headerSize := by
      rw [List.length_append, List.length_take, Nat.min_eq_left hj, length_endBytes]
    cases hfront : packetFront (s.take j ++ endBytes pad) with
    | short => rw [parse_of_short hfront]
    | halt outcome n => rw [parse_of_halt hfront]
    | frame item n =>
        cases item with
        | some p => exact absurd hfront (no_frame_of_cut hj hpos hlow)
        | none =>
            have hn : n = headerSize := by
              obtain ⟨-, -, ⟨-, hn⟩ | ⟨-, hfile⟩⟩ := packetFront_frame_cases hfront
              · exact hn
              · cases (fileFront_frame hfile).2.2
            have hshort : packetFront ((s.take j ++ endBytes pad).drop n) = .short := by
              apply packetFront_of_lt
              rw [List.length_drop, hlen, hn, headerSize]
              omega
            rw [parse_of_frame hfront, parse_of_short hshort]
            rfl

/-! ## Cut behind the lengths -/

section CutHigh

variable (hdr : PacketHeader) (pad : UInt16) {path data : List UInt8} {size j : ℕ}

/-- The cut packet and the END packet behind it. -/
def cutBytes (hdr : PacketHeader) (path data : List UInt8) (j : ℕ) (pad : UInt16) : List UInt8 :=
  (hdr.toBytes ++ path ++ data).take j ++ endBytes pad

theorem length_cutBytes (hj : j ≤ headerSize + path.length + data.length) :
    (cutBytes hdr path data j pad).length = j + headerSize := by
  simp only [cutBytes, List.length_append, List.length_take, PacketHeader.length_toBytes,
    length_endBytes]
  omega

/-- Behind the header the receiver reads the path and the payload as far as they are out,
and then END. -/
theorem drop_cutBytes (hj : j ≤ headerSize + path.length + data.length) :
    (cutBytes hdr path data j pad).drop headerSize =
      (path ++ data).take (j - headerSize) ++ (endBytes pad).drop (headerSize - j) := by
  have hlen : ((hdr.toBytes ++ path ++ data).take j).length = j := by
    simp only [List.length_append, List.length_take, PacketHeader.length_toBytes]
    omega
  rw [cutBytes, List.drop_append, hlen, List.drop_take, List.append_assoc, drop_toBytes]

/-- The header of the cut packet has kept what the receiver goes by. -/
theorem header_cutBytes (hj : j ≤ headerSize + path.length + data.length) (hlow : 24 ≤ j) :
    (PacketHeader.ofBytes (cutBytes hdr path data j pad)).magic = hdr.magic ∧
      (PacketHeader.ofBytes (cutBytes hdr path data j pad)).opcode = hdr.opcode ∧
      (PacketHeader.ofBytes (cutBytes hdr path data j pad)).pathLen = hdr.pathLen ∧
      (PacketHeader.ofBytes (cutBytes hdr path data j pad)).fileSize = hdr.fileSize := by
  have hlen : (hdr.toBytes ++ path ++ data).length = headerSize + path.length + data.length := by
    simp only [List.length_append, PacketHeader.length_toBytes]
  have hfield : ∀ off n, off + n ≤ 24 →
      field (cutBytes hdr path data j pad) off n = field (hdr.toBytes ++ path ++ data) off n := by
    intro off n hoff
    apply field_congr
    intro i hi
    exact getD_cut_left (endBytes pad) (by omega) (by rw [hlen]; exact hj)
  have hwhole : PacketHeader.ofBytes (hdr.toBytes ++ path ++ data) = hdr := by
    rw [List.append_assoc, PacketHeader.ofBytes_toBytes]
  rw [← congrArg PacketHeader.magic hwhole, ← congrArg PacketHeader.opcode hwhole,
    ← congrArg PacketHeader.pathLen hwhole, ← congrArg PacketHeader.fileSize hwhole]
  simp only [PacketHeader.ofBytes, fieldNat, hfield 0 4 (by omega), hfield 6 2 (by omega),
    hfield 12 4 (by omega), hfield 16 8 (by omega), and_self]

/-- The packet as the receiver fills it up. -/
def filledPacket (hdr : PacketHeader) (path data : List UInt8) (size j : ℕ) (pad : UInt16) :
    FilePacket where
  header := PacketHeader.ofBytes (cutBytes hdr path data j pad)
  path := ((cutBytes hdr path data j pad).drop headerSize).take path.length
  data := ((cutBytes hdr path data j pad).drop (headerSize + path.length)).take size

theorem packetFront_cutBytes (hmagic : hdr.magic = magicDSYC) (hopcode : hdr.opcode = opcodeFile)
    (hpath : hdr.pathLen.toNat = path.length) (hsize : hdr.fileSize.toNat = size)
    (hj : j ≤ headerSize + path.length + data.length) (hlow : 24 ≤ j) :
    packetFront (cutBytes hdr path data j pad) =
      if 2 ^ 31 ≤ path.length then .halt (.returned false) headerSize
      else if j < path.length then .short
      else if vectorMaxSize < size then .halt .threw (headerSize + path.length)
      else if 2 ^ 31 ≤ size then .halt (.returned false) (headerSize + path.length)
      else if j < path.length + size then .short
      else
        .frame (some (filledPacket hdr path data size j pad))
          (headerSize + path.length + size) := by
  obtain ⟨hm, ho, hp, hs⟩ := header_cutBytes hdr pad hj hlow
  have hlen := length_cutBytes hdr pad hj
  rw [packetFront_of_le (by omega), headerFront, if_neg (by rw [hm, hmagic]; simp),
    if_neg (by rw [ho, hopcode]; decide), if_pos (by rw [ho, hopcode]), fileFront]
  simp only [hp, hs, hpath, hsize, hlen]
  have hshort : (j + headerSize < headerSize + path.length) = (j < path.length) := by
    rw [eq_iff_iff]
    omega
  have hshort' : (j + headerSize < headerSize + path.length + size) = (j < path.length + size) := by
    rw [eq_iff_iff]
    omega
  simp only [hshort, hshort', filledPacket]

/-- The filled-up packet is the one file found in the cut bytes, if its lengths fit into
what is out. -/
theorem parse_cut_high (hmagic : hdr.magic = magicDSYC) (hopcode : hdr.opcode = opcodeFile)
    (hpath : hdr.pathLen.toNat = path.length) (hpathLen : path.length < 2 ^ 31)
    (hsize : hdr.fileSize.toNat = size) (hdata : data.length ≤ size)
    (hj : j ≤ headerSize + path.length + data.length) (hlow : 24 ≤ j) (pos : ℕ) :
    (wireFormat.parse pos (cutBytes hdr path data j pad)).items =
      if size < 2 ^ 31 ∧ path.length + size ≤ j then
        [(pos, filledPacket hdr path data size j pad)]
      else [] := by
  have hfront := packetFront_cutBytes hdr pad hmagic hopcode hpath hsize hj hlow
  have hlen := length_cutBytes hdr pad hj
  by_cases hfits : size < 2 ^ 31 ∧ path.length + size ≤ j
  · have hmax : size ≤ vectorMaxSize := le_trans hfits.1.le (by decide)
    rw [if_neg (by omega), if_neg (by omega), if_neg (by omega), if_neg (by omega),
      if_neg (by omega)] at hfront
    rw [if_pos hfits, parse_of_frame hfront]
    have hrest : (wireFormat.parse (pos + (headerSize + path.length + size))
        ((cutBytes hdr path data j pad).drop (headerSize + path.length + size))).items = [] := by
      by_cases hwhole : j = headerSize + path.length + size
      · have hlen' : (hdr.toBytes ++ path ++ data).length = headerSize + path.length + size := by
          simp only [List.length_append, PacketHeader.length_toBytes]
          omega
        have hdrop : (cutBytes hdr path data j pad).drop (headerSize + path.length + size) =
            endBytes pad := by
          rw [cutBytes, List.take_of_length_le (by omega), List.drop_left' hlen']
        have hend := parse_end { opcode := opcodeEnd, pad := pad } rfl rfl
          (pos + (headerSize + path.length + size)) []
        rw [List.append_nil] at hend
        rw [hdrop, endBytes, hend]
      · have hshort : packetFront ((cutBytes hdr path data j pad).drop
            (headerSize + path.length + size)) = .short := by
          apply packetFront_of_lt
          rw [List.length_drop, hlen]
          omega
        rw [parse_of_short hshort]
    simp only [hrest, Option.toList_some, List.map_cons, List.map_nil, List.append_nil]
  · rw [if_neg hfits]
    have hnone : ∀ item n, packetFront (cutBytes hdr path data j pad) ≠ .frame item n := by
      intro item n
      rw [hfront]
      split_ifs <;> first | omega | simp
    cases h : packetFront (cutBytes hdr path data j pad) with
    | short => rw [parse_of_short h]
    | halt outcome n => rw [parse_of_halt h]
    | frame item n => exact absurd h (hnone item n)

end CutHigh

end DesktopSync.Analysis
