import DesktopSync.Computation.WordBytes
import DesktopSync.Model.Udt

/-!
# UDT packets as bytes

`packet.cpp`, `CPacket` and `CHandShake`: a header of four words, and behind it what a data
packet carries, or the control information, which is made of words as well.
`channel.cpp`, `sendto` and `recvfrom`: the words go over the network in network order.
-/

set_option autoImplicit false

namespace DesktopSync.Model

open WordBytes

/-- A packet in memory: `m_nHeader`, under the names of its aliases, and `m_pcData`. -/
structure RawPacket where
  seqNo : BitVec 32 := 0
  msgNo : BitVec 32 := 0
  timeStamp : BitVec 32 := 0
  id : BitVec 32 := 0
  data : List UInt8 := []

namespace RawPacket

variable (p : RawPacket)

/-- "read bit 0" -/
def getFlag : BitVec 32 := p.seqNo >>> 31

/-- "read bit 1~15" -/
def getType : BitVec 32 := (p.seqNo >>> 16) &&& 0x00007FFF#32

/-- The four bytes of `__pad` -/
def pad : List UInt8 := [0, 0, 0, 0]

/-- SOURCE: packet.cpp:185-297, for a new packet. `none` stands for `NULL`. -/
def pack (pkttype : BitVec 32) (lparam : Option (BitVec 32)) (rparam : Option (List UInt8)) :
    RawPacket :=
  let packet : RawPacket := { seqNo := 0x80000000#32 ||| (pkttype <<< 16) }
  match pkttype.toNat with
  | 2 => { packet with msgNo := lparam.getD 0, data := rparam.getD [] }
  | 6 | 8 => { packet with msgNo := lparam.getD 0, data := pad }
  | 0 | 3 => { packet with data := rparam.getD [] }
  | 1 | 4 | 5 => { packet with data := pad }
  | 7 => { packet with msgNo := lparam.getD 0, data := rparam.getD [] }
  | 32767 => { packet with seqNo := packet.seqNo ||| lparam.getD 0, data := rparam.getD pad }
  | _ => packet

/-! ## The network -/

/-- The control information is converted; data are not. -/
def convertData : RawPacket :=
  if p.getFlag ≠ 0 then { p with data := convert p.data } else p

def convertHeader : RawPacket :=
  { p with
    seqNo := htonl p.seqNo
    msgNo := htonl p.msgNo
    timeStamp := htonl p.timeStamp
    id := htonl p.id }

/-- The bytes of the two parts of `m_PacketVector` -/
def packetVector : List UInt8 :=
  bytes p.seqNo ++ (bytes p.msgNo ++ (bytes p.timeStamp ++ (bytes p.id ++ p.data)))

/-- SOURCE: channel.cpp:229-281: the bytes that are sent, and the packet, converted back -/
def sendto : List UInt8 × RawPacket :=
  (p.convertData.convertHeader.packetVector, p.convertData.convertHeader.convertHeader.convertData)

/-- SOURCE: channel.cpp:283-340: what comes into a packet that has room for `size` bytes, or
`none` where the length is negative. -/
def recvfrom (size : ℕ) (datagram : List UInt8) : Option RawPacket :=
  if datagram.length < 16 ∨ 16 + size < datagram.length then none
  else
    some (convertData (convertHeader
      { seqNo := word datagram
        msgNo := word (datagram.drop 4)
        timeStamp := word (datagram.drop 8)
        id := word (datagram.drop 12)
        data := datagram.drop 16 }))

end RawPacket

/-! ## What the packets say -/

/-- The `int32_t` at a place in the control information. -/
def int32At (data : List UInt8) (offset : ℕ) : ℤ := (word (data.drop offset)).toInt

def int32 (v : ℤ) : BitVec 32 := BitVec.ofInt 32 v

/-- What a packet says besides, which `CPacket` leaves out. -/
structure PacketFields where
  id : BitVec 32
  msgNo : BitVec 32
  timeStamp : BitVec 32
  rtt : ℤ
  rttVar : ℤ
  /-- "Update Estimated Bandwidth and packet delivery rate" -/
  rates : Option (ℤ × ℤ)

/-- How `packData` and `sendCtrl` write the packets.
SOURCE: core.cpp:1741-1860 and 2263-2383 -/
def RawPacket.write (f : PacketFields) : CPacket → RawPacket
  | .data seqNo payload =>
      { seqNo := int32 seqNo, msgNo := f.msgNo, timeStamp := f.timeStamp, id := f.id,
        data := payload }
  | .ack ackSeqNo ack availBufSize =>
      let data := [ack, f.rtt, f.rttVar, availBufSize] ++
        f.rates.elim [] fun rates => [rates.1, rates.2]
      { RawPacket.pack 2 (some (int32 ackSeqNo)) (some (data.flatMap fun v => bytes (int32 v))) with
        id := f.id }
  | .liteAck ack => { RawPacket.pack 2 none (some (bytes (int32 ack))) with id := f.id }
  | .ack2 ackSeqNo => { RawPacket.pack 6 (some (int32 ackSeqNo)) none with id := f.id }
  | .lossReport losslist =>
      { RawPacket.pack 3 none (some (losslist.flatMap bytes)) with id := f.id }

/-- How `processData` and `processCtrl` read them.
SOURCE: queue.cpp:1031-1034, core.cpp:1962-2121 and 2385-2412 -/
def RawPacket.read (p : RawPacket) : Option CPacket :=
  if p.getFlag = 0 then some (.data p.seqNo.toInt p.data)
  else
    match p.getType.toNat with
    | 2 =>
        if p.data.length = 4 then some (.liteAck (int32At p.data 0))
        else some (.ack p.msgNo.toInt (int32At p.data 0) (int32At p.data 12))
    | 6 => some (.ack2 p.msgNo.toInt)
    | 3 => some (.lossReport (words p.data))
    | _ => none

/-! ## Handshakes -/

@[ext]
structure CHandShake where
  version : BitVec 32
  type : BitVec 32
  isn : BitVec 32
  mss : BitVec 32
  flightFlagSize : BitVec 32
  reqType : BitVec 32
  id : BitVec 32
  cookie : BitVec 32
  peerIP : List.Vector (BitVec 32) 4

namespace CHandShake

/-- `m_iContentSize` -/
def contentSize : ℕ := 48

/-- SOURCE: packet.cpp:371-391 -/
def serialize (h : CHandShake) (size : ℕ) : Option (List UInt8) :=
  if size < contentSize then none
  else
    some (([h.version, h.type, h.isn, h.mss, h.flightFlagSize, h.reqType, h.id, h.cookie] ++
      h.peerIP.toList).flatMap bytes)

/-- SOURCE: packet.cpp:393-411 -/
def deserialize (buf : List UInt8) : Option CHandShake :=
  if buf.length < contentSize then none
  else
    some
      { version := word buf
        type := word (buf.drop 4)
        isn := word (buf.drop 8)
        mss := word (buf.drop 12)
        flightFlagSize := word (buf.drop 16)
        reqType := word (buf.drop 20)
        id := word (buf.drop 24)
        cookie := word (buf.drop 28)
        peerIP := .ofFn fun i => word (buf.drop (32 + 4 * i)) }

end CHandShake

end DesktopSync.Model
