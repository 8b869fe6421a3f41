import Mathlib.Logic.Function.Basic
import DesktopSync.Model.SequenceNumber

/-!
# The window of acknowledgements

`window.cpp`, `CACKWindow`: the acknowledgements that were sent and are not acknowledged
themselves, in a circular array. The oldest is forgotten when there is no room.
-/

set_option autoImplicit false

namespace DesktopSync.Model

structure AckWindow where
  /-- `m_piACKSeqNo`: the number of the acknowledgement -/
  ackSeqNo : ℤ → ℤ
  /-- `m_piACK`: what it acknowledges -/
  ack : ℤ → ℤ
  timeStamp : ℤ → ℤ
  size : ℤ
  head : ℤ
  tail : ℤ

namespace AckWindow

/-- What the arrays hold at first is indeterminate, but for `m_piACKSeqNo[0]`. -/
def new (size : ℤ) (ackSeqNo ack timeStamp : ℤ → ℤ) : AckWindow where
  ackSeqNo := Function.update ackSeqNo 0 (-1)
  ack := ack
  timeStamp := timeStamp
  size := size
  head := 0
  tail := 0

/-- SOURCE: window.cpp:70-81 -/
def store (w : AckWindow) (seq ack now : ℤ) : AckWindow :=
  let head := (w.head + 1).tmod w.size
  { w with
    ackSeqNo := Function.update w.ackSeqNo w.head seq
    ack := Function.update w.ack w.head ack
    timeStamp := Function.update w.timeStamp w.head now
    head := head
    tail := if head = w.tail then (w.tail + 1).tmod w.size else w.tail }

/-- The loops of `acknowledge`: the first of `n` indices from `i` on that has `seq`. -/
def search (seqs : ℤ → ℤ) (seq : ℤ) : ℕ → ℤ → Option ℤ
  | 0, _ => none
  | n + 1, i => if seq = seqs i then some i else search seqs seq n (i + 1)

/-- The window behind the entry at `i`; `last` says whether it is the last. -/
def dropTo (w : AckWindow) (i : ℤ) (last : Prop) [Decidable last] : AckWindow :=
  if last then { w with tail := 0, head := 0, ackSeqNo := Function.update w.ackSeqNo 0 (-1) }
  else { w with tail := (i + 1).tmod w.size }

/-- `int(CTimer::getTime() - m_pTimeStamp[i])` -/
def rtt (w : AckWindow) (i now : ℤ) : ℤ := (now - w.timeStamp i).bmod (2 ^ 32)

/-- SOURCE: window.cpp:83-143: the time that is returned and `ack`; `none` where -1 is returned -/
def acknowledge (w : AckWindow) (seq now : ℤ) : Option (ℤ × ℤ) × AckWindow :=
  if w.tail ≤ w.head then
    match search w.ackSeqNo seq (w.head - w.tail).toNat w.tail with
    | some i => (some (w.rtt i now, w.ack i), w.dropTo i (i + 1 = w.head))
    | none => (none, w)
  else
    match search (fun j => w.ackSeqNo (j.tmod w.size)) seq (w.head + w.size - w.tail).toNat
        w.tail with
    | some j =>
        let j := j.tmod w.size
        (some (w.rtt j now, w.ack j), w.dropTo j (j = w.head))
    | none => (none, w)

end AckWindow

end DesktopSync.Model
