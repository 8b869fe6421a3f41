import DesktopSync.Computation.TransitionSystem
import DesktopSync.Model.AckWindow
import DesktopSync.Model.RcvBuffer
import DesktopSync.Model.RcvLossList
import DesktopSync.Model.SndBuffer
import DesktopSync.Model.SndLossList

/-!
# A UDT connection

`core.cpp`, `CUDT`: the part of a socket that sends, the part of its peer that receives, and
the datagrams between them, for one direction of a stream. Each socket has both parts, which
share no state but for the clocks and the measured times.

The clocks, the measured times and the congestion window are not modelled: an event says what
they are compared to. What a socket does when it is closed, or hears nothing for long, and the
drop request, which only messages need, are left out.
-/

set_option autoImplicit false

namespace DesktopSync.Model

open CSeqNo CAckNo TransitionSystem

/-- The datagrams of a connection: a packet, and the control types 2 (of two kinds), 6 and 3. -/
inductive CPacket
  | data (seqNo : ℤ) (payload : List UInt8)
  | ack (ackSeqNo ack availBufSize : ℤ)
  | liteAck (ack : ℤ)
  | ack2 (ackSeqNo : ℤ)
  | lossReport (losslist : List (BitVec 32))

/-- What the sockets have agreed on for one direction, and the sizes of the buffers. "recv buffer
MUST not be greater than FC size", and with its UDP header a packet has 76 bytes or more. -/
structure UdtOptions where
  payloadSize : ℕ
  flightFlagSize : ℤ
  rcvBufSize : ℤ
  sndBufSize : ℤ
  /-- What the receiver has offered. -/
  flowWindowSize : ℤ
  le_payloadSize : 32 ≤ payloadSize
  sndBufSize_nonneg : 0 ≤ sndBufSize
  le_rcvBufSize : 32 ≤ rcvBufSize
  rcvBufSize_le : rcvBufSize ≤ flightFlagSize
  le_flowWindowSize : rcvBufSize ≤ flowWindowSize

/-- SOURCE: core.cpp:101-106. A packet has 28 bytes of UDP and 16 of UDT before its payload. -/
def UdtOptions.default : UdtOptions where
  payloadSize := 1500 - 28 - 16
  flightFlagSize := 25600
  rcvBufSize := 8192
  sndBufSize := 8192
  flowWindowSize := 8192
  le_payloadSize := by decide
  sndBufSize_nonneg := by decide
  le_rcvBufSize := by decide
  rcvBufSize_le := by decide
  le_flowWindowSize := by decide

/-! ## The sender -/

structure UdtSender where
  sndBuffer : SndBuffer
  sndLossList : SndLossList
  sndBufSize : ℤ
  flowWindowSize : ℤ
  sndLastAck : ℤ
  sndLastDataAck : ℤ
  sndCurrSeqNo : ℤ
  sndLastAck2 : ℤ
  broken : Bool

namespace UdtSender

variable (u : UdtSender)

/-- SOURCE: core.cpp:1013-1120: how much is taken, which is nothing where `send` waits -/
def send (data : List UInt8) : ℕ × UdtSender :=
  if data = [] ∨ u.sndBufSize ≤ u.sndBuffer.getCurrBufSize then (0, u)
  else
    let size := min ((u.sndBufSize - u.sndBuffer.getCurrBufSize) * u.sndBuffer.mss).toNat
      data.length
    (size, { u with sndBuffer := u.sndBuffer.addBuffer (data.take size) })

/-- A packet that is to be sent again. -/
def packLost (seqNo : ℤ) : Option CPacket :=
  let offset := seqoff u.sndLastDataAck seqNo
  if offset < 0 then none
  else
    let payload := u.sndBuffer.readDataAt offset
    if payload = [] then none else some (.data seqNo payload)

/-- SOURCE: core.cpp:2263-2383, where `cwnd` is `(int)m_dCongestionWindow` -/
def packData (cwnd : ℤ) : Option CPacket × UdtSender :=
  let lost := u.sndLossList.getLostSeq
  if 0 ≤ lost.1 then
    ({ u with sndLossList := lost.2 }.packLost lost.1, { u with sndLossList := lost.2 })
  else if seqlen u.sndLastAck (incseq u.sndCurrSeqNo) ≤ min u.flowWindowSize cwnd then
    let read := u.sndBuffer.readData
    if read.1 ≠ [] then
      (some (.data (incseq u.sndCurrSeqNo) read.1),
        { u with sndBuffer := read.2, sndCurrSeqNo := incseq u.sndCurrSeqNo })
    else (none, { u with sndBuffer := read.2 })
  else (none, u)

/-- A lite ACK -/
def processLiteAck (ack : ℤ) : UdtSender :=
  if 0 ≤ seqcmp ack u.sndLastAck then
    { u with
      flowWindowSize := u.flowWindowSize - seqoff u.sndLastAck ack
      sndLastAck := ack }
  else u

/-- "Got data ACK" -/
def gotDataAck (ack availBufSize : ℤ) : UdtSender :=
  let u' :=
    if 0 ≤ seqcmp ack u.sndLastAck then { u with flowWindowSize := availBufSize, sndLastAck := ack }
    else u
  let offset := seqoff u'.sndLastDataAck ack
  if offset ≤ 0 then u'
  else
    { u' with
      sndBuffer := u'.sndBuffer.ackData offset
      sndLastDataAck := ack
      sndLossList := u'.sndLossList.remove (decseq ack) }

/-- An ACK. `elapsed` says whether the last ACK2 was sent longer than `m_iSYNInterval` ago. -/
def processAck (elapsed : Bool) (ackSeqNo ack availBufSize : ℤ) : List CPacket × UdtSender :=
  let due := elapsed ∨ ackSeqNo = u.sndLastAck2
  let u' := if due then { u with sndLastAck2 := ackSeqNo } else u
  (if due then [.ack2 ackSeqNo] else [],
    if 0 < seqcmp ack (incseq u'.sndCurrSeqNo) then { u' with broken := true }
    else u'.gotDataAck ack availBufSize)

/-- `losslist[i]`, without the bit that says that an interval begins -/
def lossSeq (word : BitVec 32) : ℤ := (word &&& 0x7FFFFFFF#32).toInt

/-- One packet of a loss report, or `none` where the report is not secure. -/
def insertOne (seqNo : ℤ) : Option UdtSender :=
  if seqcmp seqNo u.sndLastAck < 0 then some u
  else if 0 < seqcmp seqNo u.sndCurrSeqNo then none
  else some { u with sndLossList := (u.sndLossList.insert seqNo seqNo).2 }

/-- An interval of a loss report. -/
def insertPair (seqA seqB : ℤ) : Option UdtSender :=
  if 0 < seqcmp seqA seqB ∨ 0 < seqcmp seqB u.sndCurrSeqNo then none
  else if 0 ≤ seqcmp seqA u.sndLastAck then
    some { u with sndLossList := (u.sndLossList.insert seqA seqB).2 }
  else if 0 ≤ seqcmp seqB u.sndLastAck then
    some { u with sndLossList := (u.sndLossList.insert u.sndLastAck seqB).2 }
  else some u

/-- The loop over a loss report. Where an interval has no end, the code would read behind the
datagram, and nothing is done here. -/
def processLossReport : UdtSender → List (BitVec 32) → UdtSender
  | u, [] => u
  | u, word :: words =>
      if word &&& 0x80000000#32 ≠ 0 then
        match words with
        | [] => u
        | word' :: words =>
            (u.insertPair (lossSeq word) word'.toInt).elim { u with broken := true } fun u' =>
              processLossReport u' words
      else
        (u.insertOne word.toInt).elim { u with broken := true } fun u' =>
          processLossReport u' words

/-- SOURCE: core.cpp:1954-2261: what is sent, and what then -/
def processCtrl (elapsed : Bool) : CPacket → List CPacket × UdtSender
  | .liteAck ack => ([], u.processLiteAck ack)
  | .ack ackSeqNo ack availBufSize => u.processAck elapsed ackSeqNo ack availBufSize
  | .lossReport losslist => ([], u.processLossReport losslist)
  | _ => ([], u)

/-- SOURCE: core.cpp:2610-2620: the EXP timer -/
def checkTimers : UdtSender :=
  if 0 < u.sndBuffer.getCurrBufSize ∧ incseq u.sndCurrSeqNo ≠ u.sndLastAck ∧
      u.sndLossList.getLossLength = 0 then
    { u with sndLossList := (u.sndLossList.insert u.sndLastAck u.sndCurrSeqNo).2 }
  else u

end UdtSender

/-! ## The receiver -/

structure UdtReceiver where
  rcvBuffer : RcvBuffer
  rcvLossList : RcvLossList
  ackWindow : AckWindow
  rcvLastAck : ℤ
  rcvLastAckAck : ℤ
  rcvCurrSeqNo : ℤ
  ackSeqNo : ℤ

namespace UdtReceiver

variable (r : UdtReceiver)

/-- `lossdata`, without the first word where it is for one packet -/
def lossdata (seqA seqB : ℤ) : List (BitVec 32) :=
  if seqA = seqB then [BitVec.ofInt 32 seqB]
  else [BitVec.ofInt 32 seqA ||| 0x80000000#32, BitVec.ofInt 32 seqB]

/-- "Loss detection" of a packet that was added. -/
def detectLoss (seqNo : ℤ) : List CPacket × UdtReceiver :=
  if 0 < seqcmp seqNo (incseq r.rcvCurrSeqNo) then
    ([.lossReport (lossdata (incseq r.rcvCurrSeqNo) (decseq seqNo))],
      { r with rcvLossList := r.rcvLossList.insert (incseq r.rcvCurrSeqNo) (decseq seqNo) })
  else ([], r)

/-- The packet is the last that has come, or was missing. -/
def enter (seqNo : ℤ) : UdtReceiver :=
  if 0 < seqcmp seqNo r.rcvCurrSeqNo then { r with rcvCurrSeqNo := seqNo }
  else { r with rcvLossList := (r.rcvLossList.remove seqNo).2 }

/-- SOURCE: core.cpp:2385-2448: what is sent, and what then -/
def processData (seqNo : ℤ) (payload : List UInt8) : List CPacket × UdtReceiver :=
  let offset := seqoff r.rcvLastAck seqNo
  if offset < 0 ∨ r.rcvBuffer.getAvailBufSize ≤ offset then ([], r)
  else
    let added := r.rcvBuffer.addData payload offset
    if added.1 = false then ([], r)
    else
      let detected := { r with rcvBuffer := added.2 }.detectLoss seqNo
      (detected.1, detected.2.enter seqNo)

/-- What is acknowledged next. -/
def ack : ℤ :=
  if r.rcvLossList.getLossLength = 0 then incseq r.rcvCurrSeqNo else r.rcvLossList.getFirstLostSeq

/-- "Send out the ACK only if has not been received by the sender before" -/
def emitAck (now : ℤ) : Option CPacket × UdtReceiver :=
  if 0 < seqcmp r.rcvLastAck r.rcvLastAckAck then
    (some (.ack (incack r.ackSeqNo) r.rcvLastAck (max r.rcvBuffer.getAvailBufSize 2)),
      { r with
        ackSeqNo := incack r.ackSeqNo
        ackWindow := r.ackWindow.store (incack r.ackSeqNo) r.rcvLastAck now })
  else (none, r)

/-- SOURCE: core.cpp:1743-1842. `due` says whether the last ACK was sent so long ago that it is
repeated. -/
def sendAck (due : Bool) (now : ℤ) : Option CPacket × UdtReceiver :=
  if r.ack = r.rcvLastAckAck then (none, r)
  else if 0 < seqcmp r.ack r.rcvLastAck then
    { r with
      rcvLastAck := r.ack
      rcvBuffer := r.rcvBuffer.ackData (seqoff r.rcvLastAck r.ack) }.emitAck now
  else if r.ack = r.rcvLastAck ∧ due = true then r.emitAck now
  else (none, r)

/-- SOURCE: core.cpp:1743-1766 -/
def sendLiteAck : Option CPacket := if r.ack = r.rcvLastAckAck then none else some (.liteAck r.ack)

/-- SOURCE: core.cpp:2085-2109 -/
def processAck2 (ackSeqNo now : ℤ) : UdtReceiver :=
  let found := r.ackWindow.acknowledge ackSeqNo now
  let r' := { r with ackWindow := found.2 }
  match found.1 with
  | some (rtt, ack) =>
      if rtt ≤ 0 then r'
      else if 0 < seqcmp ack r'.rcvLastAckAck then { r' with rcvLastAckAck := ack }
      else r'
  | none => r'

/-- What comes to the receiver. -/
def process (now : ℤ) : CPacket → List CPacket × UdtReceiver
  | .data seqNo payload => r.processData seqNo payload
  | .ack2 ackSeqNo => ([], r.processAck2 ackSeqNo now)
  | _ => ([], r)

/-- SOURCE: core.cpp:1122-1207: what is read, or `none` where `recv` waits -/
def recv (len : ℤ) : Option (List UInt8 × UdtReceiver) :=
  if len ≤ 0 then some ([], r)
  else if r.rcvBuffer.getRcvDataSize = 0 then none
  else (r.rcvBuffer.readBuffer len).map fun read => (read.1, { r with rcvBuffer := read.2.2 })

end UdtReceiver

/-! ## The connection -/

/-- Each datagram is stamped with the number of those that were sent before it. -/
structure Udt where
  sender : UdtSender
  receiver : UdtReceiver
  clock : ℕ
  toReceiver : List (ℕ × CPacket)
  toSender : List (ℕ × CPacket)
  /-- What `send` has taken. -/
  sent : List UInt8
  /-- What `recv` has returned. -/
  received : List UInt8
  /-- How many packets the receiver has acknowledged. -/
  acked : ℤ
  /-- How many of them it has heard to be acknowledged. -/
  heard : ℤ

inductive UdtEvent
  | send (data : List UInt8)
  | packData (cwnd : ℤ)
  | expire
  | deliverForward (i : ℕ) (now : ℤ)
  | deliverBackward (i : ℕ) (elapsed : Bool)
  | sendAck (due : Bool) (now : ℤ)
  | sendLiteAck
  | recv (len : ℤ)

namespace Udt

variable (c : Udt)

def postForward (packet : CPacket) : Udt :=
  { c with toReceiver := c.toReceiver ++ [(c.clock, packet)], clock := c.clock + 1 }

def postBackward (packet : CPacket) : Udt :=
  { c with toSender := c.toSender ++ [(c.clock, packet)], clock := c.clock + 1 }

/-- The datagrams that the sender sends. -/
def postAllForward (packets : List CPacket) : Udt := packets.foldl postForward c

/-- The datagrams that the receiver sends. -/
def postAllBackward (packets : List CPacket) : Udt := packets.foldl postBackward c

/-- One event. Datagrams may be lost, repeated and overtaken. A broken sender does nothing. -/
def step : UdtEvent → Option Udt
  | .send data =>
      if c.sender.broken then none
      else
        some { c with
          sender := (c.sender.send data).2
          sent := c.sent ++ data.take (c.sender.send data).1 }
  | .packData cwnd =>
      if c.sender.broken then none
      else
        some ({ c with sender := (c.sender.packData cwnd).2 }.postAllForward
          (c.sender.packData cwnd).1.toList)
  | .expire =>
      if c.sender.broken then none else some { c with sender := c.sender.checkTimers }
  | .deliverForward i now =>
      c.toReceiver[i]?.map fun e =>
        { c with
          receiver := (c.receiver.process now e.2).2
          heard := c.heard + seqoff c.receiver.rcvLastAckAck
            (c.receiver.process now e.2).2.rcvLastAckAck }.postAllBackward
          (c.receiver.process now e.2).1
  | .deliverBackward i elapsed =>
      if c.sender.broken then none
      else
        c.toSender[i]?.map fun e =>
          { c with sender := (c.sender.processCtrl elapsed e.2).2 }.postAllForward
            (c.sender.processCtrl elapsed e.2).1
  | .sendAck due now =>
      some ({ c with
        receiver := (c.receiver.sendAck due now).2
        acked := c.acked + seqoff c.receiver.rcvLastAck
          (c.receiver.sendAck due now).2.rcvLastAck }.postAllBackward
        (c.receiver.sendAck due now).1.toList)
  | .sendLiteAck => some (c.postAllBackward c.receiver.sendLiteAck.toList)
  | .recv len =>
      (c.receiver.recv len).map fun read =>
        { c with receiver := read.2, received := c.received ++ read.1 }

/-- No datagram comes after `lifetime` others were sent, and the receiver does not acknowledge
`lag` packets or more without hearing an ACK2. -/
def Fresh (lifetime : ℕ) (lag : ℤ) : UdtEvent → Prop
  | .deliverForward i _ =>
      (∀ e ∈ c.toReceiver[i]?, c.clock ≤ e.1 + lifetime) ∧ c.acked - c.heard < lag
  | .deliverBackward i _ => ∀ e ∈ c.toSender[i]?, c.clock ≤ e.1 + lifetime
  | .sendAck _ _ => c.acked - c.heard < lag
  | .sendLiteAck => c.acked - c.heard < lag
  | _ => True

instance (lifetime : ℕ) (lag : ℤ) (e : UdtEvent) : Decidable (c.Fresh lifetime lag e) := by
  unfold Fresh
  split <;> infer_instance

/-- What the memory of the arrays holds before it is written to. -/
structure Memory where
  blocks : ℕ → List UInt8
  sndNext : ℤ → ℤ
  rcvNext : ℤ → ℤ
  rcvPrior : ℤ → ℤ
  ackSeqNo : ℤ → ℤ
  ack : ℤ → ℤ
  timeStamp : ℤ → ℤ

/-- The connection, as `connect` leaves it. `isn` is the first number of the sender. -/
def new (o : UdtOptions) (isn : ℤ) (mem : Memory) : Udt where
  sender :=
    { sndBuffer := .new 32 o.payloadSize mem.blocks
      sndLossList := .new (o.flowWindowSize * 2) mem.sndNext
      sndBufSize := o.sndBufSize
      flowWindowSize := o.flowWindowSize
      sndLastAck := isn
      sndLastDataAck := isn
      sndCurrSeqNo := isn - 1
      sndLastAck2 := isn
      broken := false }
  receiver :=
    { rcvBuffer := .new o.rcvBufSize
      rcvLossList := .new o.flightFlagSize mem.rcvNext mem.rcvPrior
      ackWindow := .new 1024 mem.ackSeqNo mem.ack mem.timeStamp
      rcvLastAck := isn
      rcvLastAckAck := isn
      rcvCurrSeqNo := isn - 1
      ackSeqNo := 0 }
  clock := 0
  toReceiver := []
  toSender := []
  sent := []
  received := []
  acked := 0
  heard := 0

/-- The runs of a connection. -/
def system (o : UdtOptions) (isn : ℤ) : System Udt UdtEvent where
  init c := ∃ mem, c = new o isn mem
  step := step

end Udt

end DesktopSync.Model
