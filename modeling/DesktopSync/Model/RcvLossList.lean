import Mathlib.Logic.Function.Basic
import DesktopSync.Model.SequenceNumber

/-!
# The receiver's loss list

`list.cpp`, `CRcvLossList`: the numbers of the packets that are missing, as a doubly linked
list of intervals. The nodes are slots of arrays; the slot of an interval is as far from the
head as its first number is from that of the head. `-1` stands for no number, no second
number and no node.
-/

set_option autoImplicit false

namespace DesktopSync.Model

open CSeqNo

structure RcvLossList where
  /-- `m_piData1`: the first number of the interval -/
  data1 : ℤ → ℤ
  /-- `m_piData2`: the last number, unless it is the first -/
  data2 : ℤ → ℤ
  next : ℤ → ℤ
  prior : ℤ → ℤ
  head : ℤ
  tail : ℤ
  length : ℤ
  size : ℤ

namespace RcvLossList

/-- What `next` and `prior` hold at first is indeterminate. -/
def new (size : ℤ) (next prior : ℤ → ℤ) : RcvLossList where
  data1 _ := -1
  data2 _ := -1
  next := next
  prior := prior
  head := -1
  tail := -1
  length := 0
  size := size

/-- SOURCE: list.cpp:453-499 -/
def insert (l : RcvLossList) (seqno1 seqno2 : ℤ) : RcvLossList :=
  if l.length = 0 then
    { l with
      head := 0
      tail := 0
      data1 := Function.update l.data1 0 seqno1
      data2 := if seqno2 ≠ seqno1 then Function.update l.data2 0 seqno2 else l.data2
      next := Function.update l.next 0 (-1)
      prior := Function.update l.prior 0 (-1)
      length := l.length + seqlen seqno1 seqno2 }
  else
    let offset := seqoff (l.data1 l.head) seqno1
    let loc := (l.head + offset).tmod l.size
    if l.data2 l.tail ≠ -1 ∧ incseq (l.data2 l.tail) = seqno1 then
      { l with
        data2 := Function.update l.data2 l.tail seqno2
        length := l.length + seqlen seqno1 seqno2 }
    else
      { l with
        data1 := Function.update l.data1 loc seqno1
        data2 := if seqno2 ≠ seqno1 then Function.update l.data2 loc seqno2 else l.data2
        next := Function.update (Function.update l.next l.tail loc) loc (-1)
        prior := Function.update l.prior loc l.tail
        tail := loc
        length := l.length + seqlen seqno1 seqno2 }

/-- The node at `loc` is for one number, and goes. -/
def unlink (l : RcvLossList) (loc : ℤ) : RcvLossList :=
  if l.head = loc then
    let head := l.next l.head
    { l with
      head := head
      prior := if head ≠ -1 then Function.update l.prior head (-1) else l.prior
      data1 := Function.update l.data1 loc (-1)
      length := l.length - 1 }
  else
    let next := Function.update l.next (l.prior loc) (l.next loc)
    { l with
      next := next
      prior := if next loc ≠ -1 then Function.update l.prior (next loc) (l.prior loc) else l.prior
      tail := if next loc ≠ -1 then l.tail else l.prior loc
      data1 := Function.update l.data1 loc (-1)
      length := l.length - 1 }

/-- The node at `loc` loses its first number, and moves to the next slot. -/
def shift (l : RcvLossList) (loc : ℤ) : RcvLossList :=
  let i := (loc + 1).tmod l.size
  let data1 := Function.update l.data1 i (incseq (l.data1 loc))
  let data2 :=
    if 0 < seqcmp (l.data2 loc) (incseq (data1 loc)) then Function.update l.data2 i (l.data2 loc)
    else l.data2
  let next := Function.update l.next i (l.next loc)
  let prior := Function.update l.prior i (l.prior loc)
  let next := if l.head = loc then next else Function.update next (prior i) i
  { l with
    data1 := Function.update data1 loc (-1)
    data2 := Function.update data2 loc (-1)
    next := next
    prior := if l.tail = loc then prior else Function.update prior (next i) i
    head := if l.head = loc then i else l.head
    tail := if l.tail = loc then i else l.tail
    length := l.length - 1 }

/-- The last number of a node that starts with `first` and ends before `seqno`. -/
def cutEnd (first seqno : ℤ) : ℤ := if seqno = incseq first then -1 else decseq seqno

/-- `seqno` lies inside the node at `i`, which is split. What is behind `seqno` goes to the slot
behind `loc`. -/
def split (l : RcvLossList) (i loc seqno : ℤ) : RcvLossList :=
  let loc := (loc + 1).tmod l.size
  let data1 := Function.update l.data1 loc (incseq seqno)
  let data2 :=
    if 0 < seqcmp (l.data2 i) (data1 loc) then Function.update l.data2 loc (l.data2 i)
    else l.data2
  let next := Function.update (Function.update l.next loc (l.next i)) i loc
  let prior := Function.update l.prior loc i
  { l with
    data1 := data1
    data2 := Function.update data2 i (cutEnd (data1 i) seqno)
    next := next
    prior := if l.tail = i then prior else Function.update prior (next loc) loc
    tail := if l.tail = i then loc else l.tail
    length := l.length - 1 }

/-- `while (-1 == m_piData1[i]) i = (i - 1 + m_iSize) % m_iSize` -/
def searchBack (l : RcvLossList) : ℕ → ℤ → ℤ
  | 0, i => i
  | n + 1, i => if l.data1 i = -1 then l.searchBack n ((i - 1 + l.size).tmod l.size) else i

/-- SOURCE: list.cpp:501-629 -/
def remove (l : RcvLossList) (seqno : ℤ) : Bool × RcvLossList :=
  if l.length = 0 then (false, l)
  else
    let offset := seqoff (l.data1 l.head) seqno
    if offset < 0 then (false, l)
    else
      let loc := (l.head + offset).tmod l.size
      if seqno = l.data1 loc then
        if l.data2 loc = -1 then (true, l.unlink loc) else (true, l.shift loc)
      else
        let i := l.searchBack l.size.toNat ((loc - 1 + l.size).tmod l.size)
        if l.data2 i = -1 ∨ 0 < seqcmp seqno (l.data2 i) then (false, l)
        else if seqno = l.data2 i then
          (true, { l with
            data2 := Function.update l.data2 i (cutEnd (l.data1 i) seqno)
            length := l.length - 1 })
        else (true, l.split i loc seqno)

/-- `getLossLength` -/
def getLossLength (l : RcvLossList) : ℤ := l.length

/-- `getFirstLostSeq` -/
def getFirstLostSeq (l : RcvLossList) : ℤ := if l.length = 0 then -1 else l.data1 l.head

end RcvLossList

end DesktopSync.Model
