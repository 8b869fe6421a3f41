import DesktopSync.Computation.TransitionSystem
import DesktopSync.Model.Desktop

/-!
# Two uploads that overlap

Two peers, each with the desktop it uploads from and receives into. The main thread of
each goes once through `SyncUploadOnce`: it lists the desktop, sends one file after the
other, and sends END. The server thread of each takes one packet after the other off what
the other side has sent, as `HandleIncoming` does. The steps of the four threads come in
any order. Only complete uploads are among the runs: nothing is refused, every received
file is stored, and no packet ends the session but END.

`arrived` and `early` are ghosts: the names stored by the server, and the names sent
before anything had been stored under them.
-/

set_option autoImplicit false

namespace DesktopSync.Model

open Exchange TransitionSystem

/-- Where the main thread is in `SyncUploadOnce`. -/
inductive UploadPhase where
  | idle
  /-- The files still to be sent, `totalBytes` and the number of the next packet. -/
  | sending (files : List WString) (total : UInt64) (k : ℕ)
  | ended

structure PeerState where
  desktop : Desktop
  phase : UploadPhase
  /-- The sending side of the peer's own connection. -/
  st : SendState
  /-- What the server has taken of the other side's stream. -/
  received : ℕ
  /-- `HandleIncoming` has returned `true`. -/
  served : Bool
  arrived : List FileName
  early : List FileName

/-- Both peers. -/
abbrev PairState := Side → PeerState

inductive OverlapEvent where
  /-- The main thread lists the desktop in some order and says HELLO. -/
  | scan (p : Side) (order : List FileName) (now : UInt64) (pad : UInt16)
  /-- It sends the next file. -/
  | send (p : Side) (pad : UInt16)
  /-- It sends END. -/
  | finish (p : Side) (pad : UInt16)
  /-- The server takes a packet; the transport cuts what is there as in `conn`. -/
  | receive (p : Side) (conn : Conn) (time : ℤ)

/-- Listing, adding up the sizes, and HELLO.
SOURCE: sync_dll.cpp:272-277 -/
def PeerState.scan (cfg : IniState) (me : PeerState) (order : List FileName) (now : UInt64)
    (pad : UInt16) : Option PeerState := do
  let entries ← collectFiles cfg.desktopPath cfg.lastSync (some (me.desktop.listing order))
  let total ← totalSize entries
  let hello := sendHello (me.st.report ⟨.uploading, 0, total, ""⟩) now pad
  if hello.1 then
    some { me with
      phase := .sending (entries.map fun e => e.file.name) total 1
      st := hello.2 }
  else none

/-- One file.
SOURCE: sync_dll.cpp:278-285 -/
def PeerState.send (md5 : Digest) (me : PeerState) (pad : UInt16) : Option PeerState :=
  match me.phase with
  | .sending (file :: rest) total k =>
      match sendFilePacket md5 .update total pad me.st (me.desktop.access file) with
      | (.returned true, st) => some { me with
          phase := .sending rest total (k + 1)
          st := st
          early := (FileName.ofUnits file).toList.filter (· ∉ me.arrived) ++ me.early }
      | _ => none
  | _ => none

/-- END.
SOURCE: sync_dll.cpp:287-293 -/
def PeerState.finish (me : PeerState) (pad : UInt16) : Option PeerState :=
  match me.phase with
  | .sending [] _ _ =>
      let ending := sendEnd me.st pad
      if ending.1 then some { me with phase := .ended, st := ending.2 } else none
  | _ => none

/-- One pass of the packet loop over the bytes that have come in.
SOURCE: sync_dll.cpp:167-200 -/
def PeerState.receive (cfg : IniState) (me you : PeerState) (conn : Conn) (time : ℤ) :
    Option PeerState :=
  if !me.served && conn.toList = you.st.sink.taken.drop me.received then
    match handlePacket cfg ⟨true, true⟩ me.received conn with
    | .next none size _ => some { me with received := me.received + size }
    | .next (some w) size _ => some { me with
        desktop := me.desktop.write cfg.desktopPath time w
        received := me.received + size
        arrived := (FileName.ofTarget cfg.desktopPath w.target).toList ++ me.arrived }
    | .done (.returned true) _ => some { me with served := true }
    | .done _ _ => none
  else none

def PeerState.isIdle (me : PeerState) : Bool :=
  match me.phase with
  | .idle => true
  | _ => false

def PeerState.isEnded (me : PeerState) : Bool :=
  match me.phase with
  | .ended => true
  | _ => false

section Overlap

variable (net : Pairing)

def overlapStep (s : PairState) : OverlapEvent → Option PairState
  | .scan p order now pad =>
      if (s p).isIdle && order.isPerm (s p).desktop.keys then
        ((s p).scan (net.cfg p) order now pad).map (Function.update s p)
      else none
  | .send p pad => ((s p).send net.md5 pad).map (Function.update s p)
  | .finish p pad => ((s p).finish pad).map (Function.update s p)
  | .receive p conn time =>
      ((s p).receive (net.cfg p) (s p.other) conn time).map (Function.update s p)

/-- A peer before its upload, on a connection that refuses nothing. -/
def PeerState.start (desktop : Desktop) (limit : ℕ → ℕ) : PeerState :=
  ⟨desktop, .idle, ⟨⟨[], [], limit, 0⟩, 0, [], []⟩, 0, false, [], []⟩

/-- The two uploads. -/
def overlapping (initial : Side → Desktop) : System PairState OverlapEvent where
  init s := ∃ limit : Side → ℕ → ℕ, s = fun p => .start (initial p) (limit p)
  step := overlapStep net

/-- Both uploads have ended, and both servers have seen END. -/
def PairState.over (s : PairState) : Bool :=
  (s .left).isEnded && (s .right).isEnded && (s .left).served && (s .right).served

end Overlap

end DesktopSync.Model
