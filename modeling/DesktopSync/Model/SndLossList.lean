import Mathlib.Logic.Function.Basic
import DesktopSync.Model.SequenceNumber

/-!
# The sender's loss list

`list.cpp`, `CSndLossList`: the numbers of the packets that are to be sent again. It is laid
out as the receiver's loss list is, but linked forwards only, and packets may come in anywhere.
-/

set_option autoImplicit false

namespace DesktopSync.Model

open CSeqNo

structure SndLossList where
  /-- `m_piData1`: the first number of the interval -/
  data1 : ℤ → ℤ
  /-- `m_piData2`: the last number, unless it is the first -/
  data2 : ℤ → ℤ
  next : ℤ → ℤ
  head : ℤ
  length : ℤ
  size : ℤ
  lastInsertPos : ℤ

namespace SndLossList

/-- What `next` holds at first is indeterminate. -/
def new (size : ℤ) (next : ℤ → ℤ) : SndLossList where
  data1 _ := -1
  data2 _ := -1
  next := next
  head := -1
  length := 0
  size := size
  lastInsertPos := -1

/-! ## `insert` -/

/-- The interval gets the node at `loc`, in front of `n`. -/
def write (l : SndLossList) (loc seqno1 seqno2 n : ℤ) : SndLossList :=
  { l with
    data1 := Function.update l.data1 loc seqno1
    data2 := if seqno2 ≠ seqno1 then Function.update l.data2 loc seqno2 else l.data2
    next := Function.update l.next loc n
    lastInsertPos := loc
    length := l.length + seqlen seqno1 seqno2 }

/-- `while ((-1 != m_piNext[i]) && (CSeqNo::seqcmp(m_piData1[m_piNext[i]], seqno) < 0))` -/
def searchNext (l : SndLossList) (seqno : ℤ) : ℕ → ℤ → ℤ
  | 0, i => i
  | n + 1, i =>
      if l.next i ≠ -1 ∧ seqcmp (l.data1 (l.next i)) seqno < 0 then
        l.searchNext seqno n (l.next i)
      else i

/-- The node at `loc` starts with `seqno1` already. `none` where it stays as it is, and the caller
returns 0. -/
def grow (l : SndLossList) (loc seqno1 seqno2 : ℤ) : Option SndLossList :=
  if l.data2 loc = -1 then
    if seqno2 ≠ seqno1 then
      some { l with
        length := l.length + (seqlen seqno1 seqno2 - 1)
        data2 := Function.update l.data2 loc seqno2 }
    else none
  else if 0 < seqcmp seqno2 (l.data2 loc) then
    some { l with
      length := l.length + (seqlen (l.data2 loc) seqno2 - 1)
      data2 := Function.update l.data2 loc seqno2 }
  else none

/-- Where the interval goes: the node to go on with, or `none` where 0 is returned. -/
def place (l : SndLossList) (seqno1 seqno2 : ℤ) : Option ℤ × SndLossList :=
  let offset := seqoff (l.data1 l.head) seqno1
  let loc := (l.head + offset + l.size).tmod l.size
  if offset < 0 then
    -- data prior to the head pointer
    (some loc, { l.write loc seqno1 seqno2 l.head with head := loc })
  else if 0 < offset then
    if seqno1 = l.data1 loc then
      let l := { l with lastInsertPos := loc }
      match l.grow loc seqno1 seqno2 with
      | some l' => (some loc, l')
      | none => if l.data2 loc = -1 then (some loc, l) else (none, l)
    else
      let i := l.searchNext seqno1 l.size.toNat
        (if l.lastInsertPos ≠ -1 ∧ seqcmp (l.data1 l.lastInsertPos) seqno1 < 0 then l.lastInsertPos
        else l.head)
      if l.data2 i = -1 ∨ seqcmp (l.data2 i) seqno1 < 0 then
        -- no overlap, create new node
        let l := l.write loc seqno1 seqno2 (l.next i)
        (some loc, { l with next := Function.update l.next i loc })
      else
        -- overlap, coalesce with prior node
        let l := { l with lastInsertPos := i }
        if seqcmp (l.data2 i) seqno2 < 0 then
          (some i, { l with
            length := l.length + (seqlen (l.data2 i) seqno2 - 1)
            data2 := Function.update l.data2 i seqno2 })
        else (none, l)
  else
    let l := { l with lastInsertPos := l.head }
    if seqno2 ≠ seqno1 then
      match l.grow loc seqno1 seqno2 with
      | some l' => (some loc, l')
      | none => (none, l)
    else (none, l)

/-- The node at `i`, behind the one at `loc`, becomes part of that. -/
def absorb (l : SndLossList) (loc i : ℤ) : SndLossList :=
  let l :=
    if l.data2 i ≠ -1 then
      if 0 < seqcmp (l.data2 i) (l.data2 loc) then
        { l with
          length :=
            if 0 ≤ seqcmp (l.data2 loc) (l.data1 i) then
              l.length - seqlen (l.data1 i) (l.data2 loc)
            else l.length
          data2 := Function.update l.data2 loc (l.data2 i) }
      else { l with length := l.length - seqlen (l.data1 i) (l.data2 i) }
    else if l.data1 i = incseq (l.data2 loc) then
      { l with data2 := Function.update l.data2 loc (l.data1 i) }
    else { l with length := l.length - 1 }
  { l with
    data1 := Function.update l.data1 i (-1)
    data2 := Function.update l.data2 i (-1)
    next := Function.update l.next loc (l.next i) }

/-- `while ((-1 != m_piNext[loc]) && (-1 != m_piData2[loc]))` -/
def coalesce : ℕ → SndLossList → ℤ → SndLossList
  | 0, l, _ => l
  | n + 1, l, loc =>
      if l.next loc ≠ -1 ∧ l.data2 loc ≠ -1 then
        let i := l.next loc
        if seqcmp (l.data1 i) (incseq (l.data2 loc)) ≤ 0 then coalesce n (l.absorb loc i) loc
        else l
      else l

/-- SOURCE: list.cpp:85-255 -/
def insert (l : SndLossList) (seqno1 seqno2 : ℤ) : ℤ × SndLossList :=
  if l.length = 0 then
    let l := { l.write 0 seqno1 seqno2 (-1) with head := 0 }
    (l.length, l)
  else
    match l.place seqno1 seqno2 with
    | (none, l') => (0, l')
    | (some loc, l') =>
        let l' := coalesce l.size.toNat l' loc
        (l'.length - l.length, l')

/-! ## `remove` and `getLostSeq` -/

/-- The first number of the node at `loc` goes. What is left moves to the next slot. -/
def shift (l : SndLossList) (loc seqno : ℤ) : ℤ × SndLossList :=
  let i := (loc + 1).tmod l.size
  let data1 := Function.update l.data1 i (incseq seqno)
  let data2 :=
    if 0 < seqcmp (l.data2 loc) (incseq seqno) then Function.update l.data2 i (l.data2 loc)
    else l.data2
  (i, { l with
    data1 := data1
    data2 := Function.update data2 loc (-1)
    next := Function.update l.next i (l.next loc) })

/-- The head is for `seqno`, or starts with it, and the number goes. -/
def pop (l : SndLossList) (seqno : ℤ) : SndLossList :=
  let (i, l') := if l.data2 l.head = -1 then (l.next l.head, l) else l.shift l.head seqno
  { l' with
    data1 := Function.update l'.data1 l.head (-1)
    lastInsertPos := if l.lastInsertPos = l.head then -1 else l.lastInsertPos
    head := i
    length := l.length - 1 }

/-- The node at `i`, which has `seqno` and more, is cut behind `seqno`. What is left goes to the
slot behind `loc`. -/
def cut (l : SndLossList) (i loc seqno last : ℤ) : ℤ × SndLossList :=
  let loc := (loc + 1).tmod l.size
  let data1 := Function.update l.data1 loc (incseq seqno)
  let data2 :=
    if 0 < seqcmp (l.data2 i) (data1 loc) then Function.update l.data2 loc (l.data2 i)
    else l.data2
  (loc, { l with
    data1 := data1
    data2 := Function.update data2 i last
    next := Function.update (Function.update l.next loc (l.next i)) i loc })

/-- `while (h != m_iHead)`: all nodes prior to the new head go. -/
def dropUntil : ℕ → SndLossList → ℤ → SndLossList
  | 0, l, _ => l
  | n + 1, l, h =>
      if h = l.head then l
      else
        dropUntil n { l with
          length := if l.data2 h ≠ -1 then l.length - seqlen (l.data1 h) (l.data2 h)
            else l.length - 1
          data2 := if l.data2 h ≠ -1 then Function.update l.data2 h (-1) else l.data2
          data1 := Function.update l.data1 h (-1)
          lastInsertPos := if l.lastInsertPos = h then -1 else l.lastInsertPos } (l.next h)

/-- SOURCE: list.cpp:257-367 -/
def remove (l : SndLossList) (seqno : ℤ) : SndLossList :=
  if l.length = 0 then l
  else
    let offset := seqoff (l.data1 l.head) seqno
    let loc := (l.head + offset + l.size).tmod l.size
    if offset = 0 then l.pop seqno
    else if 0 < offset then
      let h := l.head
      let (i, l') :=
        if seqno = l.data1 loc then
          if l.data2 loc = -1 then (l.next loc, l) else l.cut loc loc seqno (-1)
        else
          let i := l.searchNext seqno l.size.toNat l.head
          if l.data2 i = -1 then (l.next i, l)
          else if 0 < seqcmp (l.data2 i) seqno then l.cut i loc seqno seqno
          else (l.next i, l)
      dropUntil (l.size.toNat + 1) { l' with head := i } h
    else l

/-- `getLossLength` -/
def getLossLength (l : SndLossList) : ℤ := l.length

/-- SOURCE: list.cpp:376-418 -/
def getLostSeq (l : SndLossList) : ℤ × SndLossList :=
  if l.length = 0 then (-1, l)
  else
    let seqno := l.data1 l.head
    (seqno, l.pop seqno)

end SndLossList

end DesktopSync.Model
