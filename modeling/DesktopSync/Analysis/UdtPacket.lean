import DesktopSync.Analysis.Udt
import DesktopSync.Model.UdtPacket

/-!
# UDT packets come as they are sent

What goes over the network is read back (`recvfrom_sendto`), and every datagram of a connection
fits into a packet and says the same to the peer (`datagrams_read`). So does a handshake.
-/

set_option autoImplicit false

namespace DesktopSync.Analysis

open DesktopSync.Model
open WordBytes
open CSeqNo CAckNo

namespace RawPacket

variable (p : RawPacket)

/-! ## The network -/

/-- Turned twice the content is as it was. -/
@[simp] theorem convertData_convertData : p.convertData.convertData = p := by
  by_cases h : p.getFlag ≠ 0
  · have hconverted : p.convertData = { p with data := convert p.data } := if_pos h
    have hflag : ({ p with data := convert p.data } : RawPacket).getFlag ≠ 0 := h
    rw [hconverted, RawPacket.convertData, if_pos hflag, convert_convert]
  · have hsame : p.convertData = p := if_neg h
    rw [hsame, hsame]

/-- Turned twice the header is as it was. -/
@[simp] theorem convertHeader_convertHeader : p.convertHeader.convertHeader = p := by
  unfold RawPacket.convertHeader
  simp

/-- A datagram is its header of 16 bytes and its content. -/
@[simp] theorem length_packetVector : p.packetVector.length = 16 + p.data.length := by
  unfold RawPacket.packetVector
  simp
  omega

/-- Turning the words of the content leaves its length. -/
@[simp] theorem length_convertData : p.convertData.data.length = p.data.length := by
  unfold RawPacket.convertData
  split
  · exact length_convert p.data
  · rfl

/-- The four words of the header, and what is behind them. -/
theorem words_packetVector :
    word p.packetVector = p.seqNo ∧ word (p.packetVector.drop 4) = p.msgNo ∧
      word (p.packetVector.drop 8) = p.timeStamp ∧ word (p.packetVector.drop 12) = p.id ∧
      p.packetVector.drop 16 = p.data := by
  unfold RawPacket.packetVector
  refine ⟨word_bytes_append _ _, ?_, ?_, ?_, ?_⟩
  · rw [drop_bytes_append _ _ 0, List.drop_zero, word_bytes_append]
  · rw [drop_bytes_append _ _ 4, drop_bytes_append _ _ 0, List.drop_zero, word_bytes_append]
  · rw [drop_bytes_append _ _ 8, drop_bytes_append _ _ 4, drop_bytes_append _ _ 0,
      List.drop_zero, word_bytes_append]
  · rw [drop_bytes_append _ _ 12, drop_bytes_append _ _ 8, drop_bytes_append _ _ 4,
      drop_bytes_append _ _ 0, List.drop_zero]

/-- A packet is read back from its bytes. -/
theorem recvfrom_packetVector {size : ℕ} (h : p.data.length ≤ size) :
    RawPacket.recvfrom size p.packetVector = some p.convertHeader.convertData := by
  obtain ⟨hseqNo, hmsgNo, htimeStamp, hid, hdata⟩ := words_packetVector p
  unfold RawPacket.recvfrom
  rw [length_packetVector, if_neg (by omega), hseqNo, hmsgNo, htimeStamp, hid, hdata]

end RawPacket

/-- What is sent comes, and the sender keeps the packet as it was. -/
theorem recvfrom_sendto (p : RawPacket) {size : ℕ} (h : p.data.length ≤ size) :
    RawPacket.recvfrom size p.sendto.1 = some p ∧ p.sendto.2 = p := by
  have hfits : p.convertData.convertHeader.data.length ≤ size :=
    (RawPacket.length_convertData p).trans_le h
  unfold RawPacket.sendto
  constructor
  · rw [RawPacket.recvfrom_packetVector _ hfits, RawPacket.convertHeader_convertHeader,
      RawPacket.convertData_convertData]
  · rw [RawPacket.convertHeader_convertHeader, RawPacket.convertData_convertData]

/-- A short ACK comes through. -/
theorem recvfrom_sendto_ack :
    let packet : RawPacket := { RawPacket.pack 2 (some 5) (some (bytes 7)) with id := 3 }
    RawPacket.recvfrom 1456 packet.sendto.1 = some packet ∧ packet.sendto.2 = packet :=
  recvfrom_sendto _ (show (bytes 7).length ≤ 1456 by decide)

/-! ## What the packets say -/

/-- The numbers of a packet are written with 31 bits. -/
def Writable : CPacket → Prop
  | .data seqNo _ => 0 ≤ seqNo ∧ seqNo ≤ maxSeqNo
  | .ack ackSeqNo ack availBufSize =>
      (0 ≤ ackSeqNo ∧ ackSeqNo ≤ maxSeqNo) ∧ (0 ≤ ack ∧ ack ≤ maxSeqNo) ∧
        (0 ≤ availBufSize ∧ availBufSize ≤ maxSeqNo)
  | .liteAck ack => 0 ≤ ack ∧ ack ≤ maxSeqNo
  | .ack2 ackSeqNo => 0 ≤ ackSeqNo ∧ ackSeqNo ≤ maxSeqNo
  | .lossReport _ => True

/-- A sequence number survives in 32 bits. -/
theorem toInt_int32 {v : ℤ} (h : 0 ≤ v ∧ v ≤ maxSeqNo) : (int32 v).toInt = v :=
  (word_one h.1 h.2).2

/-- A sequence number leaves the bit free that marks control packets. -/
theorem getFlag_int32 {v : ℤ} (h : 0 ≤ v ∧ v ≤ maxSeqNo) : int32 v >>> 31 = 0#32 := by
  obtain ⟨hnat, hlt⟩ := toNat_ofInt h.1 h.2
  apply BitVec.eq_of_toNat_eq
  rw [BitVec.toNat_ushiftRight, int32, hnat, Nat.shiftRight_eq_div_pow, Nat.div_eq_of_lt hlt]
  rfl

/-- An ACK is packed with its words. -/
@[simp] theorem data_pack_ack (lparam : Option (BitVec 32)) (data : List UInt8) :
    (RawPacket.pack 2#32 lparam (some data)).data = data := rfl

/-- A loss report is packed with its words. -/
@[simp] theorem data_pack_lossReport (lparam : Option (BitVec 32)) (data : List UInt8) :
    (RawPacket.pack 3#32 lparam (some data)).data = data := rfl

/-- A control packet is read by its type. -/
theorem read_control {p : RawPacket} {t : ℕ} (ht : t = 2 ∨ t = 3 ∨ t = 6)
    (h : p.seqNo = 0x80000000#32 ||| (BitVec.ofNat 32 t <<< 16)) :
    p.getFlag ≠ 0 ∧ p.getType.toNat = t := by
  unfold RawPacket.getFlag RawPacket.getType
  rw [h]
  rcases ht with rfl | rfl | rfl <;> decide

/-- What is written is read. -/
theorem read_write (f : PacketFields) {m : CPacket} (h : Writable m) :
    (RawPacket.write f m).read = some m := by
  cases m with
  | data seqNo payload =>
      have hflag : (RawPacket.write f (.data seqNo payload)).getFlag = 0 := getFlag_int32 h
      have hnumber : (RawPacket.write f (.data seqNo payload)).seqNo.toInt = seqNo := toInt_int32 h
      rw [RawPacket.read, if_pos hflag, hnumber]
      rfl
  | ack ackSeqNo ack availBufSize =>
      obtain ⟨hackSeqNo, hack, havail⟩ := h
      obtain ⟨hflag, htype⟩ := read_control
        (p := RawPacket.write f (.ack ackSeqNo ack availBufSize)) (t := 2) (by simp) rfl
      have hnumber : (RawPacket.write f (.ack ackSeqNo ack availBufSize)).msgNo = int32 ackSeqNo :=
        rfl
      obtain ⟨rest, hdata⟩ : ∃ rest, (RawPacket.write f (.ack ackSeqNo ack availBufSize)).data =
          bytes (int32 ack) ++ (bytes (int32 f.rtt) ++ (bytes (int32 f.rttVar) ++
            (bytes (int32 availBufSize) ++ rest))) := ⟨_, rfl⟩
      have hlong : (RawPacket.write f (.ack ackSeqNo ack availBufSize)).data.length ≠ 4 := by
        rw [hdata]
        simp
      have hfirst : int32At (RawPacket.write f (.ack ackSeqNo ack availBufSize)).data 0 = ack := by
        rw [hdata, int32At, List.drop_zero, word_bytes_append, toInt_int32 hack]
      have hfourth : int32At (RawPacket.write f (.ack ackSeqNo ack availBufSize)).data 12 =
          availBufSize := by
        rw [hdata, int32At, drop_bytes_append _ _ 8, drop_bytes_append _ _ 4,
          drop_bytes_append _ _ 0, List.drop_zero, word_bytes_append, toInt_int32 havail]
      unfold RawPacket.read
      rw [if_neg hflag, htype]
      rw [if_neg hlong, hfirst, hfourth, hnumber, toInt_int32 hackSeqNo]
      rfl
  | liteAck ack =>
      obtain ⟨hflag, htype⟩ := read_control (p := RawPacket.write f (.liteAck ack)) (t := 2)
        (by simp) rfl
      have hdata : (RawPacket.write f (.liteAck ack)).data = bytes (int32 ack) := rfl
      unfold RawPacket.read int32At
      rw [if_neg hflag, htype]
      rw [hdata, if_pos (length_bytes _), List.drop_zero, word_bytes, toInt_int32 h]
      rfl
  | ack2 ackSeqNo =>
      obtain ⟨hflag, htype⟩ := read_control (p := RawPacket.write f (.ack2 ackSeqNo)) (t := 6)
        (by simp) rfl
      have hnumber : (RawPacket.write f (.ack2 ackSeqNo)).msgNo = int32 ackSeqNo := rfl
      unfold RawPacket.read
      rw [if_neg hflag, htype]
      rw [hnumber, toInt_int32 h]
      rfl
  | lossReport losslist =>
      obtain ⟨hflag, htype⟩ := read_control (p := RawPacket.write f (.lossReport losslist)) (t := 3)
        (by simp) rfl
      have hdata : (RawPacket.write f (.lossReport losslist)).data = losslist.flatMap bytes := rfl
      unfold RawPacket.read
      rw [if_neg hflag, htype]
      rw [hdata, words_flatMap_bytes]
      rfl

/-! ## The datagrams of a connection -/

/-- A packet that can be written, and is short enough, is read by the peer. -/
theorem read_sent (f : PacketFields) {m : CPacket} {size : ℕ} (h : Writable m)
    (hsize : (RawPacket.write f m).data.length ≤ size) :
    (RawPacket.recvfrom size (RawPacket.write f m).sendto.1).bind RawPacket.read = some m := by
  have hfits : (RawPacket.write f m).convertData.convertHeader.data.length ≤ size :=
    (RawPacket.length_convertData _).trans_le hsize
  unfold RawPacket.sendto
  rw [RawPacket.recvfrom_packetVector _ hfits, RawPacket.convertHeader_convertHeader,
    RawPacket.convertData_convertData]
  exact read_write f h

/-- A sequence number has 31 bits. -/
theorem seqno_range (k : ℤ) : 0 ≤ seqno k ∧ seqno k ≤ maxSeqNo := ⟨seqno_nonneg k, seqno_le k⟩

/-- An ACK number has 31 bits. -/
theorem ackno_range (k : ℤ) : 0 ≤ ackno k ∧ ackno k ≤ maxSeqNo :=
  ⟨SerialNumber.wrap_nonneg (by decide) k, SerialNumber.wrap_le (by decide) k⟩

variable {o : UdtOptions} {isn lag : ℤ} {lifetime : ℕ} {c : Udt}

/-- Every datagram of every run goes over the network as the bytes that `sendto` makes of it, and
says to the peer what it says in the model. -/
theorem datagrams_read (hb : Bounded o isn lifetime lag)
    (h : (Udt.system o isn).ReachableBy (fun c e => c.Fresh lifetime lag e) c) (f : PacketFields) :
    ∀ e ∈ c.toReceiver ++ c.toSender,
      (RawPacket.recvfrom o.payloadSize (RawPacket.write f e.2).sendto.1).bind RawPacket.read =
        some e.2 := by
  obtain ⟨s, hinv, hrep⟩ := UdtRep.of_reachable hb h
  have hpayload := o.le_payloadSize
  intro e he
  rcases List.mem_append.mp he with he | he
  · rw [hrep.toReceiver] at he
    obtain ⟨⟨t, m⟩, hmem, rfl⟩ := List.mem_map.mp he
    have hm := hinv.forward _ hmem
    cases m with
    | data q x =>
        obtain ⟨hx, -, -⟩ := hm
        exact read_sent f (seqno_range q) (hrep.packets x (mem_of_block hx)).2
    | ack2 k =>
        refine read_sent f (ackno_range k) ?_
        exact show RawPacket.pad.length ≤ o.payloadSize from hpayload.trans' (by decide)
  · rw [hrep.toSender] at he
    obtain ⟨⟨t, m⟩, hmem, rfl⟩ := List.mem_map.mp he
    have hm := hinv.backward _ hmem
    cases m with
    | ack k a w =>
        obtain ⟨-, -, -, htwo, hle, -, -⟩ := hm
        have hlimit := hb.rcvBufSize
        have hmax : seqNoTH < maxSeqNo := by decide
        refine read_sent f ⟨ackno_range k, seqno_range a, by omega, by omega⟩ ?_
        have hlength : (RawPacket.write f (ofBackward (.ack k a w))).data.length ≤ 24 := by
          unfold RawPacket.write ofBackward
          cases f.rates <;> simp
        exact hlength.trans (by omega)
    | liteAck a =>
        refine read_sent f (seqno_range a) ?_
        have hlength : (RawPacket.write f (ofBackward (.liteAck a))).data.length = 4 :=
          length_bytes _
        exact hlength.trans_le (by omega)
    | nak a b =>
        refine read_sent f trivial ?_
        have hlength : (RawPacket.write f (ofBackward (.nak a b))).data.length ≤ 8 := by
          unfold RawPacket.write ofBackward UdtReceiver.lossdata
          by_cases hone : seqno a = seqno b
          · simp [hone]
          · simp [hone]
        exact hlength.trans (by omega)

/-- The datagrams of a run over a bad network. -/
theorem datagrams_read_sample :
    (sampleUdt.toReceiver ++ sampleUdt.toSender).Forall fun e =>
      (RawPacket.recvfrom 1456 (RawPacket.write ⟨3, 0, 0, 100, 50, none⟩ e.2).sendto.1).bind
        RawPacket.read = some e.2 :=
  List.forall_iff_forall_mem.mpr
    (datagrams_read bounded_sampleIsn sampleUdt_reachable ⟨3, 0, 0, 100, 50, none⟩)

/-! ## Handshakes -/

/-- The words of a handshake. -/
def handshakeWords (h : CHandShake) : List (BitVec 32) :=
  [h.version, h.type, h.isn, h.mss, h.flightFlagSize, h.reqType, h.id, h.cookie] ++
    h.peerIP.toList

/-- A handshake is read back from its words. -/
theorem deserialize_serialize (h : CHandShake) :
    CHandShake.deserialize ((handshakeWords h).flatMap bytes) = some h := by
  have hlength : ((handshakeWords h).flatMap bytes).length = 48 := by
    rw [length_flatMap_bytes]
    unfold handshakeWords
    simp
  unfold CHandShake.deserialize
  rw [hlength, if_neg (by decide)]
  apply congrArg some
  ext1
  · exact word_drop_flatMap (i := 0) rfl
  · exact word_drop_flatMap (i := 1) rfl
  · exact word_drop_flatMap (i := 2) rfl
  · exact word_drop_flatMap (i := 3) rfl
  · exact word_drop_flatMap (i := 4) rfl
  · exact word_drop_flatMap (i := 5) rfl
  · exact word_drop_flatMap (i := 6) rfl
  · exact word_drop_flatMap (i := 7) rfl
  · apply List.Vector.ext
    intro i
    have hentry : (handshakeWords h)[8 + (i : ℕ)]? = some (h.peerIP.get i) := by
      unfold handshakeWords
      rw [List.getElem?_append_right (by simp)]
      simp [List.Vector.get_eq_get_toList]
    rw [List.Vector.get_ofFn, ← word_drop_flatMap hentry]
    congr 2
    omega

/-- A handshake that is sent in a packet is read back by the peer. -/
theorem handshake_received (h : CHandShake) {size : ℕ} (hsize : CHandShake.contentSize ≤ size)
    (id : BitVec 32) :
    ∃ buf, h.serialize size = some buf ∧
      (RawPacket.recvfrom size ({ RawPacket.pack 0 none (some buf) with id := id }.sendto.1)).bind
        (fun p => CHandShake.deserialize p.data) = some h := by
  have hlength : ((handshakeWords h).flatMap bytes).length = 48 := by
    rw [length_flatMap_bytes]
    unfold handshakeWords
    simp
  refine ⟨(handshakeWords h).flatMap bytes, if_neg (not_lt.mpr hsize), ?_⟩
  have hfits : ({ RawPacket.pack 0 none (some ((handshakeWords h).flatMap bytes)) with
      id := id } : RawPacket).convertData.convertHeader.data.length ≤ size :=
    (RawPacket.length_convertData _).trans_le (hlength.trans_le hsize)
  unfold RawPacket.sendto
  rw [RawPacket.recvfrom_packetVector _ hfits, RawPacket.convertHeader_convertHeader,
    RawPacket.convertData_convertData]
  exact deserialize_serialize h

/-- A request for a connection comes through. -/
theorem handshake_received_request :
    ∃ buf, CHandShake.serialize ⟨4, 1, 0, 1500, 8192, 1, 7, 0, .replicate 4 0⟩ 1456 = some buf ∧
      (RawPacket.recvfrom 1456 ({ RawPacket.pack 0 none (some buf) with id := 0 }.sendto.1)).bind
        (fun p => CHandShake.deserialize p.data) =
          some ⟨4, 1, 0, 1500, 8192, 1, 7, 0, .replicate 4 0⟩ :=
  handshake_received ⟨4, 1, 0, 1500, 8192, 1, 7, 0, .replicate 4 0⟩ (by decide) 0

end DesktopSync.Analysis
