import DesktopSync.Computation.Hexadecimal
import DesktopSync.Computation.TransitionSystem
import DesktopSync.Model.Shared

/-!
# The peer-to-peer handshake

`RunP2PHandshake` of `p2p_dll.cpp`: the texts of the two datagrams, how they are scanned,
and what one datagram does to a run. `handshakes` puts any number of runs on one network
that may lose, repeat, reorder and misdirect what they send. The clock is left open: a
run sends HELLO whenever it listens and gives up at any time, so every timing of the
source is among the runs.
-/

set_option autoImplicit false

namespace DesktopSync.Model

open TransitionSystem

structure Ipv4 where
  a : UInt8
  b : UInt8
  c : UInt8
  d : UInt8
  deriving DecidableEq

/-- The bytes of an ASCII text. -/
def ascii (s : String) : List UInt8 := s.toList.map fun c => UInt8.ofNat c.toNat

/-- SOURCE: p2p_dll.cpp:30-35 -/
def ipv4ToString (ip : Ipv4) : List UInt8 :=
  ascii (toString ip.a.toNat ++ "." ++ toString ip.b.toNat ++ "." ++ toString ip.c.toNat ++ "." ++
    toString ip.d.toNat)

/-- `HELLO %016llX`
SOURCE: p2p_dll.cpp:40 -/
def helloText (selfId : UInt64) : List UInt8 :=
  ascii "HELLO " ++ Hexadecimal.encode 16 selfId.toNat

/-- `ACK %016llX %016llX`
SOURCE: p2p_dll.cpp:51-53 -/
def ackText (selfId peerId : UInt64) : List UInt8 :=
  ascii "ACK " ++ (Hexadecimal.encode 16 selfId.toNat ++
    (ascii " " ++ Hexadecimal.encode 16 peerId.toNat))

/-- What `sendto(s, msg, len, ..)` takes of a text that `snprintf(msg, size, ..)` has
written: as many bytes of the buffer as it returned. -/
def sentText (size : ℕ) (text : List UInt8) : List UInt8 :=
  (text.take (size - 1) ++ [0]).take text.length

/-- `char msg[64]` -/
def helloSize : ℕ := 64

/-- `char msg[80]` -/
def ackSize : ℕ := 80

/-- SOURCE: p2p_dll.cpp:37-46 -/
def helloDatagram (selfId : UInt64) : List UInt8 := sentText helloSize (helloText selfId)

/-- SOURCE: p2p_dll.cpp:48-60 -/
def ackDatagram (selfId peerId : UInt64) : List UInt8 := sentText ackSize (ackText selfId peerId)

/-- `sscanf(text, "HELLO %llx", &id) == 1` -/
def scanHello (text : List UInt8) : Option UInt64 :=
  if (ascii "HELLO").isPrefixOf text then do
    let id ← Hexadecimal.scan (text.drop 5)
    some (ull id.1 id.2.1)
  else none

/-- `sscanf(text, "ACK %llx %llx", &fromId, &toId) == 2` -/
def scanAck (text : List UInt8) : Option (UInt64 × UInt64) :=
  if (ascii "ACK").isPrefixOf text then do
    let fromId ← Hexadecimal.scan (text.drop 3)
    let toId ← Hexadecimal.scan fromId.2.2
    some (ull fromId.1 fromId.2.1, ull toId.1 toId.2.1)
  else none

/-! ## One run -/

/-- The variables of a run.
SOURCE: p2p_dll.cpp:117-119 -/
structure RunState where
  peerId : UInt64 := 0
  peerIp : List UInt8 := []
  sawHello : Bool := false
  sawAck : Bool := false
  havePeer : Bool := false

/-- SOURCE: p2p_dll.cpp:205 -/
def RunState.success (st : RunState) : Bool :=
  st.sawHello && st.sawAck && st.havePeer && st.peerIp != []

/-- The first message of a peer binds the run to it.
SOURCE: p2p_dll.cpp:164-169, 186-191 -/
def RunState.bindPeer (st : RunState) (id : UInt64) (source : Ipv4) : RunState :=
  if st.havePeer then st
  else { st with peerId := id, peerIp := ipv4ToString source, havePeer := true }

/-- A HELLO with another id, and the ACK that `send_ack` answers it with.
SOURCE: p2p_dll.cpp:162-175 -/
def handleHello (selfId : UInt64) (st : RunState) (id : UInt64) (source : Ipv4) :
    RunState × Option (Ipv4 × List UInt8) :=
  if id = selfId then (st, none)
  else if (st.bindPeer id source).peerId = id then
    ({ st.bindPeer id source with sawHello := true },
      some (source, ackText selfId (st.bindPeer id source).peerId))
  else (st.bindPeer id source, none)

/-- SOURCE: p2p_dll.cpp:184-196 -/
def handleAck (selfId : UInt64) (st : RunState) (fromId toId : UInt64) (source : Ipv4) :
    RunState :=
  if toId = selfId then
    if (st.bindPeer fromId source).peerId = fromId then
      { st.bindPeer fromId source with sawAck := true }
    else st.bindPeer fromId source
  else st

/-- `sizeof(buf) - 1` -/
def maxDatagram : ℕ := 255

/-- One `recvfrom` and what follows it; an empty datagram, or one longer than the buffer,
ends the inner loop.
SOURCE: p2p_dll.cpp:144-198 -/
def handleDatagram (selfId : UInt64) (st : RunState) (payload : List UInt8) (source : Ipv4) :
    RunState × Option (Ipv4 × List UInt8) :=
  if payload = [] ∨ maxDatagram < payload.length then (st, none)
  else if (ascii "HELLO ").isPrefixOf payload then
    match scanHello (payload.takeWhile (· ≠ 0)) with
    | some id => handleHello selfId st id source
    | none => (st, none)
  else if (ascii "ACK ").isPrefixOf payload then
    match scanAck (payload.takeWhile (· ≠ 0)) with
    | some (fromId, toId) => (handleAck selfId st fromId toId source, none)
    | none => (st, none)
  else (st, none)

/-- `outLen` of the call in `wmain`. -/
def outLen : ℕ := 64

/-- What a successful run hands to its caller. -/
structure HandshakeResult where
  ip : WString
  peerId : UInt64
  selfId : UInt64

/-- SOURCE: p2p_dll.cpp:205-217 -/
def handshakeResult (selfId : UInt64) (st : RunState) : Option HandshakeResult :=
  if st.success then some ⟨(utf8ToWide st.peerIp).take (outLen - 1), st.peerId, selfId⟩ else none

/-- A datagram as `recvfrom` hands it to a run. -/
structure Received where
  payload : List UInt8
  source : Ipv4
  deriving DecidableEq

/-- The variables of a run after the datagrams it has received.
SOURCE: p2p_dll.cpp:117-202 -/
def receiveAll (selfId : UInt64) (ds : List Received) : RunState :=
  ds.foldl (fun st d => (handleDatagram selfId st d.payload d.source).1) {}

/-! ## Any number of runs -/

/-- The runs `ι` with their ids and addresses. -/
structure Network (ι : Type) where
  selfId : ι → UInt64
  addr : ι → Ipv4
  distinct : Function.Injective selfId

inductive Destination where
  | broadcast
  | multicast
  | unicast (ip : Ipv4)
  deriving DecidableEq

/-- A datagram a run has sent. -/
structure Datagram (ι : Type) where
  sender : ι
  dest : Destination
  payload : List UInt8
  deriving DecidableEq

inductive Phase where
  | waiting
  | listening
  | returned (result : Option HandshakeResult)

def Phase.isListening : Phase → Bool
  | .listening => true
  | _ => false

def Phase.isWaiting : Phase → Bool
  | .waiting => true
  | _ => false

/-- The runs and everything they have sent; any of it may arrive at any time, anywhere,
once, often or never. -/
structure NetState (ι : Type) where
  phase : ι → Phase
  runs : ι → RunState
  sent : List (Datagram ι)

inductive NetEvent (ι : Type) where
  | start (i : ι)
  | hello (i : ι)
  | deliver (i : ι) (d : Datagram ι)
  /-- A datagram of somebody else, which is neither a HELLO nor an ACK. -/
  | foreign (i : ι) (payload : List UInt8) (source : Ipv4)
  | stop (i : ι)

section Handshakes

variable {ι : Type} [DecidableEq ι] (net : Network ι)

/-- Run `i` receives a payload. -/
def NetState.receive (s : NetState ι) (i : ι) (payload : List UInt8) (source : Ipv4) :
    NetState ι :=
  let handled := handleDatagram (net.selfId i) (s.runs i) payload source
  { s with
    runs := Function.update s.runs i handled.1
    sent := s.sent ++ handled.2.toList.map (fun ack => ⟨i, .unicast ack.1, ack.2⟩) }

def netStep (s : NetState ι) : NetEvent ι → Option (NetState ι)
  | .start i =>
      if (s.phase i).isWaiting then some { s with phase := Function.update s.phase i .listening }
      else none
  | .hello i =>
      if (s.phase i).isListening then
        some { s with sent := s.sent ++
          [⟨i, .broadcast, helloText (net.selfId i)⟩, ⟨i, .multicast, helloText (net.selfId i)⟩] }
      else none
  | .deliver i d =>
      if (s.phase i).isListening && s.sent.contains d then
        some (s.receive net i d.payload (net.addr d.sender))
      else none
  | .foreign i payload source =>
      if (s.phase i).isListening && !(ascii "HELLO ").isPrefixOf payload &&
          !(ascii "ACK ").isPrefixOf payload then
        some (s.receive net i payload source)
      else none
  | .stop i =>
      if (s.phase i).isListening then
        let result := handshakeResult (net.selfId i) (s.runs i)
        some { s with phase := Function.update s.phase i (.returned result) }
      else none

/-- All runs before they start. -/
def netInit : NetState ι := ⟨fun _ => .waiting, fun _ => {}, []⟩

def handshakes : System (NetState ι) (NetEvent ι) where
  init s := s = netInit
  step := netStep net

end Handshakes

end DesktopSync.Model
