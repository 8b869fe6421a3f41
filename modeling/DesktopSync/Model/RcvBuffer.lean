import Mathlib.Logic.Function.Basic
import DesktopSync.Model.SequenceNumber

/-!
# The receiver's buffer

`buffer.cpp`, `CRcvBuffer`, as it is used for streams: the payloads of the packets that have
come, in a circular array. `startPos` is the packet that is read next and `lastAckPos` the one
that is acknowledged next; what lies from there on may have gaps. The flags and the count by
which packets are given back to the queue are left out, and so is `m_iMaxPos`, which only
messages need.
-/

set_option autoImplicit false

namespace DesktopSync.Model

structure RcvBuffer where
  /-- `m_pUnit`: the payload of the packet, or `NULL` -/
  unit : ℤ → Option (List UInt8)
  size : ℤ
  startPos : ℤ
  lastAckPos : ℤ
  /-- How much of the packet at `startPos` has been read. -/
  notch : ℤ

namespace RcvBuffer

def new (bufsize : ℤ) : RcvBuffer where
  unit _ := none
  size := bufsize
  startPos := 0
  lastAckPos := 0
  notch := 0

/-- SOURCE: buffer.cpp:374-389; `false` where -1 is returned -/
def addData (b : RcvBuffer) (payload : List UInt8) (offset : ℤ) : Bool × RcvBuffer :=
  let pos := (b.lastAckPos + offset).tmod b.size
  if b.unit pos ≠ none then (false, b)
  else (true, { b with unit := Function.update b.unit pos (some payload) })

/-- The loop of `readBuffer`: what is copied, and how much is still wanted. `none` where a `NULL`
packet would be read. -/
def readLoop : ℕ → RcvBuffer → ℤ → Option (List UInt8 × RcvBuffer × ℤ)
  | 0, b, rs => some ([], b, rs)
  | n + 1, b, rs =>
      if b.startPos ≠ b.lastAckPos ∧ 0 < rs then
        match b.unit b.startPos with
        | none => none
        | some payload =>
            let unitsize := min (payload.length - b.notch) rs
            let copied := (payload.drop b.notch.toNat).take unitsize.toNat
            let b' :=
              if unitsize < rs ∨ rs = payload.length - b.notch then
                { b with
                  unit := Function.update b.unit b.startPos none
                  startPos := if b.startPos + 1 = b.size then 0 else b.startPos + 1
                  notch := 0 }
              else { b with notch := b.notch + rs }
            (readLoop n b' (rs - unitsize)).map fun r => (copied ++ r.1, r.2)
      else some ([], b, rs)

/-- SOURCE: buffer.cpp:391-426: what is copied, and what is returned -/
def readBuffer (b : RcvBuffer) (len : ℤ) : Option (List UInt8 × ℤ × RcvBuffer) :=
  (readLoop (b.size.toNat + 1) b len).map fun r => (r.1, len - r.2.2, r.2.1)

/-- SOURCE: buffer.cpp:467-475 -/
def ackData (b : RcvBuffer) (len : ℤ) : RcvBuffer :=
  { b with lastAckPos := (b.lastAckPos + len).tmod b.size }

def getRcvDataSize (b : RcvBuffer) : ℤ :=
  if b.startPos ≤ b.lastAckPos then b.lastAckPos - b.startPos
  else b.size + b.lastAckPos - b.startPos

/-- One slot must be empty in order to tell the difference between "empty buffer" and "full
buffer". -/
def getAvailBufSize (b : RcvBuffer) : ℤ := b.size - b.getRcvDataSize - 1

end RcvBuffer

end DesktopSync.Model
