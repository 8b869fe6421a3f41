import Mathlib
import DesktopSync.Computation.TransitionSystem

/-!
# Selective repeat

A sender hands packets to a network that may lose, repeat and reorder them, and a receiver
with a bounded buffer puts them in order again. Packets are numbered from `first`.

The receiver keeps the set of the packets it misses. Acknowledgements are of two kinds: an
`ack` says what the receiver gives free for reading, and how much room it has left; a
`liteAck` only says what has come. A gap is reported at once by a `nak`, and the sender
keeps the set of the packets to send again. `ack2` acknowledges an `ack`.

A datagram is stamped with the number of datagrams that were sent before it.
-/

set_option autoImplicit false

universe u

namespace SelectiveRepeat

variable {α : Type u}

/-- The datagrams to the receiver. -/
inductive Forward (α : Type u)
  | data (q : ℤ) (x : α)
  | ack2 (k : ℕ)

/-- The datagrams to the sender. -/
inductive Backward
  | ack (k : ℕ) (a w : ℤ)
  | liteAck (a : ℤ)
  | nak (a b : ℤ)

structure State (α : Type u) where
  /-- All that the sender was given. -/
  input : List α
  /-- What is before `dataAck` is not kept any more. -/
  dataAck : ℤ
  /-- What is before `lastAck` has come. -/
  lastAck : ℤ
  /-- The packet that is sent next, when none is to be sent again. -/
  next : ℤ
  window : ℤ
  /-- What is to be sent again. -/
  lost : Finset ℤ
  broken : Bool
  /-- The packet that is read next. -/
  start : ℤ
  /-- What is before `acked` can be read. -/
  acked : ℤ
  /-- Behind all packets that have come. -/
  upto : ℤ
  missing : Finset ℤ
  held : ℤ → Option α
  /-- What the sender knows to be acknowledged. -/
  acknowledged : ℤ
  /-- What was acknowledged, all in all. -/
  acks : List ℤ
  /-- The acknowledgements whose `ack2` is awaited. -/
  ackWindow : List (ℕ × ℤ)
  clock : ℕ
  toReceiver : List (ℕ × Forward α)
  toSender : List (ℕ × Backward)

/-- The least member, or a default. -/
def leastOr (S : Finset ℤ) (d : ℤ) : ℤ := if h : S.Nonempty then S.min' h else d

theorem leastOr_empty (d : ℤ) : leastOr ∅ d = d := dif_neg Finset.not_nonempty_empty

theorem leastOr_mem {S : Finset ℤ} (h : S.Nonempty) (d : ℤ) : leastOr S d ∈ S := by
  rw [leastOr, dif_pos h]
  exact S.min'_mem h

theorem leastOr_le {S : Finset ℤ} (d : ℤ) {q : ℤ} (hq : q ∈ S) : leastOr S d ≤ q := by
  rw [leastOr, dif_pos ⟨q, hq⟩]
  exact S.min'_le q hq

/-- What is below all members and the default is below the least. -/
theorem le_leastOr {S : Finset ℤ} {d b : ℤ} (hd : b ≤ d) (hS : ∀ q ∈ S, b ≤ q) :
    b ≤ leastOr S d := by
  rcases S.eq_empty_or_nonempty with rfl | h
  · rwa [leastOr_empty]
  · exact hS _ (leastOr_mem h d)

namespace State

variable (first size : ℤ) (room : ℕ) (s : State α)

/-- The packet `q`. -/
def block (q : ℤ) : Option α := if q < first then none else s.input[(q - first).toNat]?

/-- The first packet that has not come. -/
def ackPoint : ℤ := leastOr s.missing s.upto

def postForward (m : Forward α) : State α :=
  { s with toReceiver := s.toReceiver ++ [(s.clock, m)], clock := s.clock + 1 }

def postBackward (m : Backward) : State α :=
  { s with toSender := s.toSender ++ [(s.clock, m)], clock := s.clock + 1 }

/-! ## The sender -/

def send (xs : List α) : State α := { s with input := s.input ++ xs }

/-- A packet goes out: one that is to be sent again first, else the next, if the windows allow. -/
def pack (cwnd : ℤ) : State α :=
  if s.lost.Nonempty then
    let q := leastOr s.lost s.next
    match s.block first q with
    | some x => { s with lost := s.lost.erase q }.postForward (.data q x)
    | none => { s with lost := s.lost.erase q }
  else if s.next - s.lastAck + 1 ≤ min s.window cwnd then
    match s.block first s.next with
    | some x => { s with next := s.next + 1 }.postForward (.data s.next x)
    | none => s
  else s

/-- What is before `a` can be read, and there is room for `w` packets. -/
def advance (a w : ℤ) : State α :=
  let s' := if s.lastAck ≤ a then { s with window := w, lastAck := a } else s
  if s'.dataAck < a then { s' with dataAck := a, lost := s'.lost.filter (a ≤ ·) } else s'

/-- An `ack` comes. `confirm` says whether an `ack2` is due. -/
def onAck (k : ℕ) (a w : ℤ) (confirm : Bool) : State α :=
  let s' := if confirm then s.postForward (.ack2 k) else s
  if s'.next < a then { s' with broken := true } else s'.advance a w

def onLiteAck (a : ℤ) : State α :=
  if s.lastAck ≤ a then { s with window := s.window - (a - s.lastAck), lastAck := a } else s

noncomputable def onNak (a b : ℤ) : State α :=
  if s.next ≤ b then { s with broken := true }
  else { s with lost := s.lost ∪ Finset.Icc (max a s.lastAck) b }

/-- Nothing came for long: all that is out is to be sent again. -/
noncomputable def expire : State α :=
  if s.dataAck < first + s.input.length ∧ s.lastAck ≠ s.next ∧ s.lost = ∅ then
    { s with lost := Finset.Icc s.lastAck (s.next - 1) }
  else s

/-! ## The receiver -/

/-- What the receiver enters about a new packet. -/
noncomputable def enter (q : ℤ) (x : α) : State α :=
  let s' :=
    if s.upto < q then
      { s with
        held := Function.update s.held q (some x)
        missing := s.missing ∪ Finset.Icc s.upto (q - 1) }.postBackward (.nak s.upto (q - 1))
    else { s with held := Function.update s.held q (some x) }
  if s.upto ≤ q then { s' with upto := q + 1 } else { s' with missing := s.missing.erase q }

/-- A packet comes. It is kept if there is room, and if it has not come before. -/
noncomputable def onData (q : ℤ) (x : α) : State α :=
  if q < s.acked ∨ s.start + size - 1 ≤ q ∨ s.held q ≠ none then s else s.enter q x

/-- The acknowledgements that are remembered: the oldest are forgotten. -/
def store (w : List (ℕ × ℤ)) (k : ℕ) (a : ℤ) : List (ℕ × ℤ) :=
  if room ≤ w.length then (w ++ [(k, a)]).drop 1 else w ++ [(k, a)]

def emitAck : State α :=
  if s.acknowledged < s.acked then
    { s with
      acks := s.acks ++ [s.acked]
      ackWindow := store room s.ackWindow (s.acks.length + 1) s.acked }.postBackward
        (.ack (s.acks.length + 1) s.acked (max (s.start + size - 1 - s.acked) 2))
  else s

/-- What has come is given free for reading, and acknowledged. `due` says whether it is time to
repeat an acknowledgement. -/
def sendAck (due : Bool) : State α :=
  if s.ackPoint = s.acknowledged then s
  else if s.acked < s.ackPoint then { s with acked := s.ackPoint }.emitAck size room
  else if s.ackPoint = s.acked ∧ due then s.emitAck size room
  else s

def sendLiteAck : State α :=
  if s.ackPoint = s.acknowledged then s else s.postBackward (.liteAck s.ackPoint)

/-- An `ack2` comes. `timely` says whether a time can be taken from it. -/
def onAck2 (k : ℕ) (timely : Bool) : State α :=
  match s.ackWindow.dropWhile (·.1 ≠ k) with
  | [] => s
  | (_, a) :: w =>
      { s with
        ackWindow := w
        acknowledged := if timely ∧ s.acknowledged < a then a else s.acknowledged }

/-- Packets are read, and their room is free. -/
def take (p : ℤ) : State α :=
  { s with start := p, held := fun q => if q < p then none else s.held q }

end State

/-! ## Runs -/

inductive Event (α : Type u)
  | send (xs : List α)
  | pack (cwnd : ℤ)
  | expire
  | deliverForward (i : ℕ) (timely : Bool)
  | deliverBackward (i : ℕ) (confirm : Bool)
  | sendAck (due : Bool)
  | sendLiteAck
  | take (p : ℤ)

variable (first size limit : ℤ) (room : ℕ)

/-- At first nothing was sent, and `limit` packets may be under way. -/
def init : State α where
  input := []
  dataAck := first
  lastAck := first
  next := first
  window := limit
  lost := ∅
  broken := false
  start := first
  acked := first
  upto := first
  missing := ∅
  held _ := none
  acknowledged := first
  acks := []
  ackWindow := []
  clock := 0
  toReceiver := []
  toSender := []

noncomputable def step (s : State α) : Event α → Option (State α)
  | .send xs => some (s.send xs)
  | .pack cwnd => some (s.pack first cwnd)
  | .expire => some (s.expire first)
  | .deliverForward i timely =>
      match s.toReceiver[i]? with
      | some (_, .data q x) => some (s.onData size q x)
      | some (_, .ack2 k) => some (s.onAck2 k timely)
      | none => none
  | .deliverBackward i confirm =>
      match s.toSender[i]? with
      | some (_, .ack k a w) => some (s.onAck k a w confirm)
      | some (_, .liteAck a) => some (s.onLiteAck a)
      | some (_, .nak a b) => some (s.onNak a b)
      | none => none
  | .sendAck due => some (s.sendAck size room due)
  | .sendLiteAck => some s.sendLiteAck
  | .take p => if s.start ≤ p ∧ p ≤ s.acked then some (s.take p) else none

/-- No datagram is delivered after `lifetime` others were sent, and the receiver does not
acknowledge `lag` packets or more without hearing an `ack2`. -/
def Fresh (lifetime : ℕ) (lag : ℤ) (s : State α) : Event α → Prop
  | .deliverForward i _ =>
      (∀ t m, s.toReceiver[i]? = some (t, m) → s.clock ≤ t + lifetime) ∧
        s.acked - s.acknowledged < lag
  | .deliverBackward i _ => ∀ t m, s.toSender[i]? = some (t, m) → s.clock ≤ t + lifetime
  | .sendAck _ => s.acked - s.acknowledged < lag
  | .sendLiteAck => s.acked - s.acknowledged < lag
  | _ => True

/-- The runs from the initial state. -/
noncomputable def system : TransitionSystem.System (State α) (Event α) where
  init s := s = init first limit
  step := step first size room

end SelectiveRepeat
