import DesktopSync.Computation.TransitionSystem
import DesktopSync.Model.Desktop

/-!
# Uploads, one at a time

Two desktops between which files are carried and that nobody edits. An upload of one side
is `SyncUploadOnce` with whatever `lastSync` its configuration holds. The other side's
`HandleIncoming` receives the bytes that were sent, or any number of them from the front
when the connection is lost. Every target opens and accepts its write.
-/

set_option autoImplicit false

namespace DesktopSync.Model

open Exchange TransitionSystem

/-- One upload, and what is left open about it. -/
structure Transfer where
  sender : Side
  lastSync : UInt64
  /-- The order in which the sender's desktop is listed. -/
  order : List FileName
  /-- `NowSec()` -/
  now : UInt64
  /-- The alignment bytes of the headers. -/
  pads : ℕ → UInt16
  /-- How much the transport takes at a time. -/
  limit : ℕ → ℕ
  /-- What the transport delivers. -/
  conn : Conn
  /-- The file clock of the receiver at each write. -/
  times : ℕ → ℤ

/-- The writes of a session that are all stored, the first of them at `times k`. -/
def Desktop.storeAll (dir : WString) (times : ℕ → ℤ) : ℕ → Desktop → List FileWrite → Desktop
  | _, d, [] => d
  | k, d, w :: rest => storeAll dir times (k + 1) (d.write dir (times k) w) rest

namespace Transfer

/-- `SyncUploadOnce` of the sender. -/
def upload (net : Pairing) (d : Side → Desktop) (t : Transfer) : Upload :=
  let env : UploadEnv :=
    { resolves := fun _ => true
      connects := true
      listing := some ((d t.sender).listing t.order)
      now := t.now
      pads := t.pads
      md5 := net.md5 }
  syncUploadOnce (some { net.cfg t.sender with lastSync := t.lastSync }) (some []) env
    ⟨[], [], t.limit, 0⟩

/-- The bytes the sender puts on the connection. -/
def sent (net : Pairing) (d : Side → Desktop) (t : Transfer) : List UInt8 :=
  (t.upload net d).st.sink.taken

/-- `HandleIncoming` of the other side, whose targets all open and accept. -/
def session (net : Pairing) (t : Transfer) : Session :=
  handleIncoming (net.cfg t.sender.other) (fun _ => ⟨true, true⟩) t.conn

end Transfer

/-- The two desktops after an upload. The sender's own stays as it is. -/
def transferStep (net : Pairing) (d : Side → Desktop) (t : Transfer) : Option (Side → Desktop) :=
  if t.order.isPerm (d t.sender).keys && t.conn.toList.isPrefixOf (t.sent net d) then
    some (Function.update d t.sender.other
      ((d t.sender.other).storeAll (net.cfg t.sender.other).desktopPath t.times 0
        (t.session net).writes))
  else none

/-- Any number of uploads from `start` on. -/
def transfers (net : Pairing) (start : Side → Desktop) : System (Side → Desktop) Transfer where
  init d := d = start
  step := transferStep net

/-- An upload of side `p` of everything it holds, that arrives whole. -/
structure Completes (net : Pairing) (d : Side → Desktop) (p : Side) (t : Transfer) : Prop where
  sender : t.sender = p
  lastSync : t.lastSync = 0
  whole : t.conn.toList = t.sent net d

end DesktopSync.Model
