import Mathlib.Data.Nat.Notation
import Mathlib.Algebra.Ring.Int.Defs
import Mathlib.Logic.Function.Basic
import Mathlib.Logic.Function.Iterate

/-!
# The sender's buffer

`buffer.cpp`, `CSndBuffer`, as it is used for streams: the packets from the first that is not
acknowledged to the last that the user handed over, in a circular list of blocks. `currBlock`
is the packet that is sent next. The list gets longer when the user hands over more than there
are blocks for. The message numbers and the times are left out: for a stream there is no time
after which a packet is not sent any more.
-/

set_option autoImplicit false

namespace DesktopSync.Model

structure SndBuffer where
  /-- The first `m_iLength` bytes of `m_pcData`. -/
  data : ℕ → List UInt8
  next : ℕ → ℕ
  firstBlock : ℕ
  currBlock : ℕ
  lastBlock : ℕ
  /-- How many blocks the list begins with, and how many it is lengthened by. -/
  unitsize : ℕ
  /-- How many blocks there are. -/
  size : ℕ
  mss : ℕ
  count : ℤ

namespace SndBuffer

/-- What the blocks hold at first is indeterminate. -/
def new (size mss : ℕ) (data : ℕ → List UInt8) : SndBuffer where
  data := data
  next p := if p + 1 = size then 0 else p + 1
  firstBlock := 0
  currBlock := 0
  lastBlock := 0
  unitsize := size
  size := size
  mss := mss
  count := 0

/-- SOURCE: buffer.cpp:285-342: new blocks come behind `lastBlock`. -/
def increase (b : SndBuffer) : SndBuffer :=
  { b with
    next := fun p =>
      if p < b.size then Function.update b.next b.lastBlock b.size p
      else if p + 1 = b.size + b.unitsize then b.next b.lastBlock
      else p + 1
    size := b.size + b.unitsize }

/-- `while (size + m_iCount >= m_iSize) increase();` -/
def reserve : ℕ → SndBuffer → ℕ → SndBuffer
  | 0, b, _ => b
  | n + 1, b, size => if (b.size : ℤ) ≤ size + b.count then reserve n b.increase size else b

/-- The loop of `addBuffer`, with `lastBlock` for `s`. -/
def fill : ℕ → SndBuffer → List UInt8 → SndBuffer
  | 0, b, _ => b
  | n + 1, b, data =>
      fill n { b with
        data := Function.update b.data b.lastBlock (data.take b.mss)
        lastBlock := b.next b.lastBlock } (data.drop b.mss)

/-- How many blocks `len` bytes take. -/
def blocks (mss len : ℕ) : ℕ := if len % mss ≠ 0 then len / mss + 1 else len / mss

/-- SOURCE: buffer.cpp:119-165 -/
def addBuffer (b : SndBuffer) (data : List UInt8) : SndBuffer :=
  let size := blocks b.mss data.length
  let b := fill size (b.reserve (size + b.count.toNat + 1) size) data
  { b with count := b.count + size }

/-- SOURCE: buffer.cpp:217-230, the packet that is sent next; nothing where there is none -/
def readData (b : SndBuffer) : List UInt8 × SndBuffer :=
  if b.currBlock = b.lastBlock then ([], b)
  else (b.data b.currBlock, { b with currBlock := b.next b.currBlock })

/-- SOURCE: buffer.cpp:232-266, the packet at `offset` from the first -/
def readDataAt (b : SndBuffer) (offset : ℤ) : List UInt8 :=
  b.data (b.next^[offset.toNat] b.firstBlock)

/-- SOURCE: buffer.cpp:268-278 -/
def ackData (b : SndBuffer) (offset : ℤ) : SndBuffer :=
  { b with
    firstBlock := b.next^[offset.toNat] b.firstBlock
    count := b.count - offset }

/-- `getCurrBufSize` -/
def getCurrBufSize (b : SndBuffer) : ℤ := b.count

end SndBuffer

end DesktopSync.Model
