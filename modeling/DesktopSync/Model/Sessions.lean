import DesktopSync.Model.Overlap

/-!
# Two peers over many sessions

Both peers run the loop of `wmain`: a trigger, an upload of the files that `CollectFiles`
selects, the new `lastSync`. The main thread of each lists its desktop, sends one file after
the other and then END; the server thread of each takes one packet after the other off what
the other side has sent, session after session. Files are edited and removed and time passes.
All these steps come in any order, so sessions overlap as they like, but each is complete:
nothing is refused, every received file is stored, and no packet ends a session but END.

Versions are ghosts: `history` numbers the edits of both peers in the order in which they
were made, `version` is the edit that made what a peer holds under a name, `own` says
that it was made there and that no session has stored it at the other peer, `flight` are the
copies that were read and are not stored yet, and `replaced` records what servers have
overwritten. `crossed` says that, since both peers last held the same edit of a file with no
copy of it under way, one has read the file while a copy of the other's was under way.
-/

set_option autoImplicit false

namespace DesktopSync.Model

open Exchange TransitionSystem

/-- A peer; `received` counts what its server has taken in all sessions. -/
structure Holder extends PeerState where
  lastSync : UInt64
  /-- `g_triggerEvent` is set. -/
  triggered : Bool
  version : FileName → ℕ
  own : FileName → Bool

/-- A file as a session has read it. -/
structure Copy where
  name : FileName
  data : List UInt8
  version : ℕ

/-- A server has overwritten the content `old` of a file by `new`. -/
structure Replacement where
  receiver : Side
  name : FileName
  old : List UInt8
  new : List UInt8
  oldVersion : ℕ
  newVersion : ℕ
  /-- The old content was the receiver's own. -/
  own : Bool
  crossed : Bool

/-- Both peers, and what is under way between them. -/
structure PeersState where
  peers : Side → Holder
  /-- The file clock, in ticks since 1601. -/
  clock : ℤ
  history : List (FileName × List UInt8)
  /-- By the side that has read them, oldest first. -/
  flight : Side → List Copy
  crossed : FileName → Bool
  replaced : List Replacement

/-- A step of somebody at a desktop, of a main thread or of a server thread. -/
inductive PeersEvent where
  /-- Somebody writes a file and leaves it with that last write time. -/
  | edit (p : Side) (name : FileName) (data : List UInt8) (lastWriteTime : ℤ)
  | remove (p : Side) (name : FileName)
  | tick (ticks : ℕ)
  | trigger (p : Side)
  /-- The main thread takes a trigger, lists the desktop in some order and says HELLO. -/
  | scan (p : Side) (order : List FileName) (pad : UInt16)
  /-- It reads and sends the next file. -/
  | send (p : Side) (pad : UInt16)
  /-- It sends END. -/
  | finish (p : Side) (pad : UInt16)
  /-- It stores the new `lastSync` and waits again. -/
  | stamp (p : Side)
  /-- The server takes a packet; the transport cuts what is there as in `conn`. -/
  | receive (p : Side) (conn : Conn)

namespace PeersState

/-- One peer changes. -/
def set (s : PeersState) (p : Side) (holder : Holder) : PeersState :=
  { s with peers := Function.update s.peers p holder }

/-- The peer that changes. -/
@[simp] theorem set_peers_self (s : PeersState) (p : Side) (holder : Holder) :
    (s.set p holder).peers p = holder :=
  Function.update_self _ _ _

/-- The other peer stays. -/
@[simp] theorem set_peers_other (s : PeersState) (p : Side) (holder : Holder) :
    (s.set p holder).peers p.other = s.peers p.other :=
  Function.update_of_ne p.other_ne _ _

/-- Somebody writes a file on the desktop of `p`. -/
def edit (s : PeersState) (p : Side) (name : FileName) (f : File) : PeersState :=
  let holder := s.peers p
  { s.set p { holder with
      desktop := holder.desktop.insert name f
      version := Function.update holder.version name s.history.length
      own := Function.update holder.own name true } with
    history := s.history ++ [(name, f.data)] }

/-- Somebody removes a file from the desktop of `p`. -/
def remove (s : PeersState) (p : Side) (name : FileName) : PeersState :=
  s.set p { s.peers p with desktop := (s.peers p).desktop.erase name }

/-! ## The main thread -/

/-- SOURCE: desktopsync_main.cpp:55-59, sync_dll.cpp:272-277 -/
def scan (net : Pairing) (s : PeersState) (p : Side) (order : List FileName) (pad : UInt16) :
    Option PeersState :=
  let me := s.peers p
  if me.triggered && me.isIdle && order.isPerm me.desktop.keys then
    (me.toPeerState.scan { net.cfg p with lastSync := me.lastSync } order (nowSec s.clock) pad).map
      fun sending => s.set p { me with toPeerState := sending, triggered := false }
  else none

/-- What the next file of a session of `p` is when it is read now. -/
def nextCopy (s : PeersState) (p : Side) : Option Copy :=
  match (s.peers p).phase with
  | .sending (file :: _) _ _ => do
      let name ← FileName.ofUnits file
      let data ← (s.peers p).desktop.data name
      some ⟨name, data, (s.peers p).version name⟩
  | _ => none

/-- A copy that `p` reads is under way. It crosses with those of the other side. -/
def depart (s : PeersState) (p : Side) (copy : Copy) : PeersState :=
  { s with
    flight := Function.update s.flight p (s.flight p ++ [copy])
    crossed := fun name => s.crossed name ||
      (name == copy.name && (s.flight p.other).any fun c => c.name == name) }

/-- SOURCE: sync_dll.cpp:278-285 -/
def send (net : Pairing) (s : PeersState) (p : Side) (pad : UInt16) : Option PeersState :=
  let me := s.peers p
  (me.toPeerState.send net.md5 pad).map fun sent =>
    (s.nextCopy p).elim (s.set p { me with toPeerState := sent }) fun copy =>
      (s.set p { me with toPeerState := sent }).depart p copy

/-- SOURCE: sync_dll.cpp:287-293 -/
def finish (s : PeersState) (p : Side) (pad : UInt16) : Option PeersState :=
  let me := s.peers p
  (me.toPeerState.finish pad).map fun ended => s.set p { me with toPeerState := ended }

/-- SOURCE: desktopsync_main.cpp:60-61 -/
def stamp (s : PeersState) (p : Side) : Option PeersState :=
  let me := s.peers p
  if me.isEnded then some (s.set p { me with phase := .idle, lastSync := nowSec s.clock })
  else none

/-! ## The server thread -/

/-- Both peers hold the same edit of a file, and no copy of it is under way. -/
def agrees (s : PeersState) (name : FileName) : Bool :=
  name ∈ (s.peers .left).desktop && name ∈ (s.peers .right).desktop &&
    (s.peers .left).version name == (s.peers .right).version name &&
    (s.flight .left).all (fun c => c.name != name) &&
    (s.flight .right).all fun c => c.name != name

/-- What the server of `p` overwrites when it stores `copy` under `name`. -/
def overwritten (s : PeersState) (p : Side) (name : FileName) (copy : Copy)
    (data : List UInt8) : List Replacement :=
  ((s.peers p).desktop.data name).toList.map fun old =>
    { receiver := p
      name := name
      old := old
      new := data
      oldVersion := (s.peers p).version name
      newVersion := copy.version
      own := (s.peers p).own name
      crossed := s.crossed name }

/-- The server of `p` has stored `copy` as `data` under `name`, and `rest` stays under way. -/
def land (s : PeersState) (p : Side) (name : FileName) (desktop : Desktop) (data : List UInt8)
    (copy : Copy) (rest : List Copy) : PeersState :=
  let me := s.peers p
  let you := s.peers p.other
  let stored := (s.set p.other { you with
      own := Function.update you.own copy.name
        (you.own copy.name && you.version copy.name != copy.version) }).set p { me with
      desktop := desktop
      version := Function.update me.version name copy.version
      own := Function.update me.own name false }
  let landed := { stored with
    flight := Function.update s.flight p.other rest
    replaced := s.overwritten p name copy data ++ s.replaced }
  { landed with crossed := fun name => s.crossed name && !landed.agrees name }

/-- Storing a file ends a crossing where both peers agree then. -/
theorem crossed_land (s : PeersState) (p : Side) (name : FileName) (desktop : Desktop)
    (data : List UInt8) (copy : Copy) (rest : List Copy) (other : FileName) :
    (s.land p name desktop data copy rest).crossed other =
      (s.crossed other && !(s.land p name desktop data copy rest).agrees other) := rfl

/-- The server of `p` stores a file: the first of the copies that are under way to it. -/
def store (dir : WString) (s : PeersState) (p : Side) (w : FileWrite) : PeersState :=
  match FileName.ofTarget dir w.target, s.flight p.other with
  | some name, copy :: rest =>
      s.land p name ((s.peers p).desktop.write dir s.clock w) w.data copy rest
  | _, _ => s

/-- One pass of the packet loop over the bytes that have come in. Behind END the next session
follows.
SOURCE: sync_dll.cpp:167-200, 214-226 -/
def receive (net : Pairing) (s : PeersState) (p : Side) (conn : Conn) : Option PeersState :=
  let me := s.peers p
  if conn.toList = (s.peers p.other).st.sink.taken.drop me.received then
    match handlePacket (net.cfg p) ⟨true, true⟩ me.received conn with
    | .next none size _ => some (s.set p { me with received := me.received + size })
    | .next (some w) size _ =>
        some ((s.set p { me with received := me.received + size }).store
          (net.cfg p).desktopPath p w)
    | .done (.returned true) _ => some (s.set p { me with received := me.received + headerSize })
    | .done _ _ => none
  else none

end PeersState

/-- One step. -/
def peersStep (net : Pairing) (s : PeersState) : PeersEvent → Option PeersState
  | .edit p name data lastWriteTime => (File.ofData data lastWriteTime).map (s.edit p name)
  | .remove p name => some (s.remove p name)
  | .tick ticks => some { s with clock := s.clock + ticks }
  | .trigger p => some (s.set p { s.peers p with triggered := true })
  | .scan p order pad => s.scan net p order pad
  | .send p pad => s.send net p pad
  | .finish p pad => s.finish p pad
  | .stamp p => s.stamp p
  | .receive p conn => s.receive net p conn

/-- Two peers that begin with arbitrary desktops. What they hold was made by edits before,
in any order, and nothing of it has been carried over. -/
structure Beginning (s : PeersState) : Prop where
  start : ∀ p, ∃ limit, (s.peers p).toPeerState = .start (s.peers p).desktop limit
  made : ∀ p name data, (s.peers p).desktop.data name = some data →
    s.history[(s.peers p).version name]? = some (name, data)
  own : ∀ p name, (s.peers p).own name = true
  flight : ∀ p, s.flight p = []
  crossed : ∀ name, s.crossed name = false
  replaced : s.replaced = []

/-- The two peers. -/
def pairedPeers (net : Pairing) : System PeersState PeersEvent where
  init := Beginning
  step := peersStep net

end DesktopSync.Model
