import DesktopSync.Analysis.UdtReceiver
import DesktopSync.Computation.SelectiveRepeatProgress

/-!
# A UDT connection is a stream

`UdtRep` relates the connection to selective repeat. Every event of the connection is one of
selective repeat (`UdtRep.step`), so what is received is what was sent, as far as it goes
(`received_of_sent`). The other way round, the connection can follow selective repeat to where
all is received (`exists_received`).
-/

set_option autoImplicit false

namespace DesktopSync.Analysis

open DesktopSync.Model
open CSeqNo CAckNo
open SelectiveRepeat (State Forward Backward Inv)

/-- Sizes and delays for which no number is confused with another. -/
structure Bounded (o : UdtOptions) (isn : ℤ) (lifetime : ℕ) (lag : ℤ) : Prop extends
    Near o isn where
  lifetime : 2 * lifetime + 2 * o.flowWindowSize < seqNoTH
  lag : lag + o.rcvBufSize ≤ seqNoTH

/-- What selective repeat keeps, with the sizes of the connection. -/
abbrev InvFor (o : UdtOptions) (first : ℤ) (lifetime : ℕ) (s : State (List UInt8)) : Prop :=
  Inv first o.rcvBufSize o.flowWindowSize lifetime s

/-- The connection is the state of selective repeat: both parties, the datagrams under way, the
stream before and behind them, and the counters. -/
structure UdtRep (o : UdtOptions) (first : ℤ) (s : State (List UInt8)) (c : Udt) : Prop where
  sender : SenderRep o first s c.sender
  receiver : ReceiverRep o s c.receiver
  clock : c.clock = s.clock
  toReceiver : c.toReceiver = s.toReceiver.map fun e => (e.1, ofForward e.2)
  toSender : c.toSender = s.toSender.map fun e => (e.1, ofBackward e.2)
  packets : ∀ x ∈ s.input, x ≠ [] ∧ x.length ≤ o.payloadSize
  sent : c.sent = s.input.flatten
  received : c.received ++ unread s c.receiver = (s.input.take (s.acked - first).toNat).flatten
  acked : c.acked = s.acked - first
  heard : c.heard = s.acknowledged - first

/-- A step of a run in which nothing is sent any more. -/
def Draining (lifetime : ℕ) (lag : ℤ) (c c' : Udt) : Prop :=
  ∃ e : UdtEvent, (∀ data, e ≠ .send data) ∧ c.Fresh lifetime lag e ∧ c.step e = some c'

namespace UdtRep

variable {o : UdtOptions} {first lag : ℤ} {lifetime : ℕ} {s : State (List UInt8)} {c : Udt}

/-! ## Datagrams -/

/-- Both send to the receiver. -/
theorem postForward (h : UdtRep o first s c) (m : Option (Forward (List UInt8))) :
    UdtRep o first (m.elim s s.postForward) (c.postAllForward (m.map ofForward).toList) := by
  cases m with
  | none => exact h
  | some m =>
      refine { h with
        sender := { h.sender with }
        receiver := { h.receiver with }
        clock := congrArg (· + 1) h.clock
        toReceiver := ?_ }
      change c.toReceiver ++ [(c.clock, ofForward m)] = (s.toReceiver ++ [(s.clock, m)]).map _
      rw [h.clock, h.toReceiver, List.map_append]
      rfl

/-- Both send to the sender. -/
theorem postBackward (h : UdtRep o first s c) (m : Option Backward) :
    UdtRep o first (m.elim s s.postBackward) (c.postAllBackward (m.map ofBackward).toList) := by
  cases m with
  | none => exact h
  | some m =>
      refine { h with
        sender := { h.sender with }
        receiver := { h.receiver with }
        clock := congrArg (· + 1) h.clock
        toSender := ?_ }
      change c.toSender ++ [(c.clock, ofBackward m)] = (s.toSender ++ [(s.clock, m)]).map _
      rw [h.clock, h.toSender, List.map_append]
      rfl

/-- The same datagrams are on the way to the receiver. -/
theorem getElem?_toReceiver (h : UdtRep o first s c) (i : ℕ) :
    c.toReceiver[i]? = (s.toReceiver[i]?).map fun e => (e.1, ofForward e.2) := by
  rw [h.toReceiver, List.getElem?_map]

/-- The same datagrams are on the way to the sender. -/
theorem getElem?_toSender (h : UdtRep o first s c) (i : ℕ) :
    c.toSender[i]? = (s.toSender[i]?).map fun e => (e.1, ofBackward e.2) := by
  rw [h.toSender, List.getElem?_map]

/-! ## The sender -/

/-- `send` cuts what it takes into packets. -/
theorem send (h : UdtRep o first s c) (hs : SoundFor o first s) (data : List UInt8) :
    ∃ xs, UdtRep o first (s.send xs)
      { c with
        sender := (c.sender.send data).2
        sent := c.sent ++ data.take (c.sender.send data).1 } := by
  have horder := hs.order
  have hacked := hs.acked_le
  obtain ⟨xs, hflatten, hne, hsender⟩ := h.sender.send hs data
  refine ⟨xs, { h with
    sender := hsender
    receiver := { h.receiver with }
    packets := fun x hx => (List.mem_append.mp hx).elim (h.packets x) (hne x)
    sent := ?_
    received := ?_ }⟩
  · unfold State.send
    dsimp only
    rw [List.flatten_append, h.sent, hflatten]
  · unfold State.send
    dsimp only
    rw [List.take_append_of_le_length (by omega)]
    exact h.received

/-- What the sender does on its own account. -/
theorem of_sender (h : UdtRep o first s c) {W A D N : ℤ} {L : Finset ℤ} {u : UdtSender}
    (hsender : SenderRep o first
      { s with window := W, lastAck := A, dataAck := D, next := N, lost := L } u) :
    UdtRep o first { s with window := W, lastAck := A, dataAck := D, next := N, lost := L }
      { c with sender := u } :=
  { h with
    sender := hsender
    receiver := { h.receiver with } }

/-- `packData` sends the packet that selective repeat sends, new or again. -/
theorem packData (h : UdtRep o first s c) (hs : SoundFor o first s) (ho : Near o first)
    (cwnd : ℤ) :
    UdtRep o first (s.pack first cwnd)
      ({ c with sender := (c.sender.packData cwnd).2 }.postAllForward
        (c.sender.packData cwnd).1.toList) := by
  obtain ⟨m, L, n, habstract, hout, hsender⟩ := h.sender.packData hs ho
    (fun x hx => (h.packets x hx).1) cwnd
  rw [habstract, hout]
  exact (h.of_sender hsender).postForward m

/-- The EXP timer puts into the loss list what selective repeat declares lost. -/
theorem checkTimers (h : UdtRep o first s c) (hs : SoundFor o first s)
    (ho : Near o first) :
    UdtRep o first (s.expire first) { c with sender := c.sender.checkTimers } := by
  have hsender := h.sender.checkTimers hs ho
  unfold State.expire at hsender ⊢
  split_ifs at hsender ⊢ <;> exact h.of_sender hsender

/-- An ACK moves the marks of both. -/
theorem advance (h : UdtRep o first s c) {a w : ℤ} {u : UdtSender}
    (hsender : SenderRep o first (s.advance a w) u) :
    UdtRep o first (s.advance a w) { c with sender := u } := by
  unfold State.advance at hsender ⊢
  dsimp only at hsender ⊢
  split_ifs at hsender ⊢ <;> exact h.of_sender hsender

/-- A datagram comes to the sender. -/
theorem processCtrl (h : UdtRep o first s c) (hinv : InvFor o first lifetime s)
    (hb : Bounded o first lifetime lag) {i t : ℕ} {m : Backward}
    (hentry : s.toSender[i]? = some (t, m)) (hfresh : s.clock ≤ t + lifetime) (elapsed : Bool) :
    ∃ (confirm : Bool) (s' : State (List UInt8)), (elapsed = true → confirm = true) ∧
      SelectiveRepeat.step first o.rcvBufSize ackRoom s (.deliverBackward i confirm) = some s' ∧
      UdtRep o first s'
        ({ c with sender := (c.sender.processCtrl elapsed (ofBackward m)).2 }.postAllForward
          (c.sender.processCtrl elapsed (ofBackward m)).1) := by
  have horder := hinv.sound.order
  have hm := hinv.backward _ (List.mem_of_getElem? hentry)
  have hnear := hb.lifetime
  have hsize := o.le_rcvBufSize
  unfold SelectiveRepeat.step
  dsimp only
  rw [hentry]
  cases m with
  | ack k a w =>
      obtain ⟨-, -, hle, -, -, hlate, -⟩ := hm
      obtain ⟨confirm, helapsed, hout, hsender⟩ :=
        h.sender.processAck hinv.sound hb.toNear (show a ≤ s.next by omega) (by omega) elapsed k w
      refine ⟨confirm, _, helapsed, rfl, ?_⟩
      have hrep := h.advance hsender
      unfold State.onAck UdtSender.processCtrl ofBackward
      dsimp only
      rw [hout]
      cases confirm with
      | false =>
          rw [if_neg Bool.false_ne_true, if_neg Bool.false_ne_true, if_neg (by omega)]
          exact hrep
      | true =>
          have hnext : (s.postForward (.ack2 k)).next = s.next := rfl
          rw [if_pos rfl, if_pos rfl, hnext, if_neg (by omega), State.advance_postForward]
          exact hrep.postForward (some (.ack2 k))
  | liteAck a =>
      obtain ⟨-, hle, hlate⟩ := hm
      have hsender :=
        h.sender.processLiteAck hinv.sound hb.toNear (show a ≤ s.next by omega) (by omega)
      refine ⟨true, _, fun _ => rfl, rfl, ?_⟩
      unfold State.onLiteAck at hsender ⊢
      split_ifs at hsender ⊢ <;> exact h.of_sender hsender
  | nak a b =>
      obtain ⟨hfirst, hab, hlt, hlate⟩ := hm
      have hsender := h.sender.processLossReport hinv.sound hb.toNear hfirst hab
        (show b < s.next by omega) (by omega)
      refine ⟨true, _, fun _ => rfl, rfl, ?_⟩
      unfold State.onNak at hsender ⊢
      rw [if_neg (by omega)] at hsender ⊢
      exact h.of_sender hsender

/-! ## The receiver -/

/-- A datagram comes to the receiver. An ACK2 that comes after `stamp` counts. -/
theorem process (h : UdtRep o first s c) (hinv : InvFor o first lifetime s)
    (hb : Bounded o first lifetime lag) {i t : ℕ} {m : Forward (List UInt8)}
    (hentry : s.toReceiver[i]? = some (t, m)) (hfresh : s.clock ≤ t + lifetime)
    (hlag : s.acked - s.acknowledged < lag) :
    ∃ stamp : ℤ, ∀ now, ∃ s' : State (List UInt8),
      SelectiveRepeat.step first o.rcvBufSize ackRoom s
        (.deliverForward i (decide (0 < (now - stamp).bmod (2 ^ 32)))) = some s' ∧
      UdtRep o first s'
        ({ c with
          receiver := (c.receiver.process now (ofForward m)).2
          heard := c.heard + seqoff c.receiver.rcvLastAckAck
            (c.receiver.process now (ofForward m)).2.rcvLastAckAck }.postAllBackward
          (c.receiver.process now (ofForward m)).1) := by
  have horder := hinv.sound.order
  have hm := hinv.forward _ (List.mem_of_getElem? hentry)
  have hnear := hb.lifetime
  have hlimit := hb.lag
  have hsize := o.le_rcvBufSize
  have hth : seqNoTH < maxAckSeqNo := by decide
  unfold SelectiveRepeat.step
  dsimp only
  rw [hentry]
  cases m with
  | data q x =>
      obtain ⟨-, hlt, hlate⟩ := hm
      obtain ⟨m', H, M, U, habstract, hout, hrep, hunread, hheard⟩ :=
        h.receiver.processData hinv.sound hb.toNear hlt (by omega) x
      refine ⟨0, fun now => ⟨_, rfl, ?_⟩⟩
      have hself : seqoff c.receiver.rcvLastAckAck
          (c.receiver.processData (seqno q) x).2.rcvLastAckAck = 0 := by
        rw [hheard, h.receiver.rcvLastAckAck, seqoff_seqno (by
          rw [sub_self]
          decide), sub_self]
      have hentered : UdtRep o first { s with held := H, missing := M, upto := U }
          { c with
            receiver := (c.receiver.processData (seqno q) x).2
            heard := c.heard + seqoff c.receiver.rcvLastAckAck
              (c.receiver.processData (seqno q) x).2.rcvLastAckAck } :=
        { h with
          sender := { h.sender with }
          receiver := hrep
          received := (congrArg _ hunread).trans h.received
          heard := (congrArg _ hself).trans ((add_zero _).trans h.heard) }
      unfold UdtReceiver.process ofForward
      dsimp only
      rw [habstract, hout]
      exact hentered.postBackward m'
  | ack2 k =>
      obtain ⟨a, ha, hle, hlate, hlate'⟩ := hm
      obtain ⟨stamp, hstamp⟩ := h.receiver.processAck2 hinv.sound ha (by omega) (by
        rw [abs_lt]
        omega)
      refine ⟨stamp, fun now => ?_⟩
      obtain ⟨w, A, habstract, hrep, hbuffer, hheard⟩ := hstamp now
      refine ⟨_, rfl, ?_⟩
      rw [habstract]
      have hunread : unread { s with ackWindow := w, acknowledged := A }
          (c.receiver.processAck2 (ackno k) now) = unread s c.receiver := by
        unfold unread
        rw [hbuffer]
      exact { h with
        sender := { h.sender with }
        receiver := hrep
        received := (congrArg _ hunread).trans h.received
        heard := by
          change c.heard + seqoff c.receiver.rcvLastAckAck
            (c.receiver.processAck2 (ackno k) now).rcvLastAckAck = A - first
          rw [hheard, h.heard]
          omega }

/-- What the receiver holds is what the sender was given. -/
theorem flatten_take {size limit : ℤ} (hs : SelectiveRepeat.Sound first size limit s) (n : ℕ)
    {q : ℤ} (hq : first ≤ q)
    (hheld : ∀ p, q ≤ p → p < q + n → s.held p ≠ none) :
    (s.input.take (q - first).toNat).flatten ++ bytesFrom s.held q n =
      (s.input.take (q + n - first).toNat).flatten := by
  induction n generalizing q with
  | zero =>
      rw [Nat.cast_zero, add_zero]
      exact List.append_nil _
  | succ n ih =>
      obtain ⟨x, hx⟩ := Option.ne_none_iff_exists'.mp (hheld q le_rfl (by omega))
      have hblock := hs.content q x hx
      unfold State.block at hblock
      rw [if_neg (not_lt.mpr hq)] at hblock
      obtain ⟨hlt, hentry⟩ := List.getElem?_eq_some_iff.mp hblock
      have hnext : (q + 1 - first).toNat = (q - first).toNat + 1 := by omega
      have hrest := ih (q := q + 1) (by omega) fun p hp hlt' => hheld p (by omega) (by omega)
      rw [hnext, List.take_succ_eq_append_getElem hlt, hentry, List.flatten_append,
        List.append_assoc] at hrest
      rw [bytesFrom_succ, hx, Option.getD_some, Nat.cast_succ, ← add_assoc, add_right_comm]
      rw [List.flatten_singleton] at hrest
      exact hrest

/-- `sendCtrl` acknowledges what selective repeat acknowledges. -/
theorem sendAck (h : UdtRep o first s c) (hs : SoundFor o first s)
    (hb : Bounded o first lifetime lag) (hlag : s.acked - s.acknowledged < lag) (due : Bool)
    (now : ℤ) :
    UdtRep o first (s.sendAck o.rcvBufSize ackRoom due)
      ({ c with
        receiver := (c.receiver.sendAck due now).2
        acked := c.acked + seqoff c.receiver.rcvLastAck
          (c.receiver.sendAck due now).2.rcvLastAck }.postAllBackward
        (c.receiver.sendAck due now).1.toList) := by
  have horder := hs.order
  have hlimit := hb.lag
  obtain ⟨m, R, ks, w, habstract, hout, hrep, hR, hunread, hacked⟩ :=
    h.receiver.sendAck hs hb.toNear (by omega) due now
  have hmore : R = s.acked + (R - s.acked).toNat := by omega
  have hall := flatten_take hs (R - s.acked).toNat (q := s.acked) (by omega) fun q hge hlt => by
    refine (hs.held q).mpr ⟨hs.start_le.trans hge, by omega, fun hmem => ?_⟩
    have hle := SelectiveRepeat.Sound.ackPoint_le_missing hmem
    omega
  rw [← hmore] at hall
  have hsent : UdtRep o first { s with acked := R, acks := ks, ackWindow := w }
      { c with
        receiver := (c.receiver.sendAck due now).2
        acked := c.acked + seqoff c.receiver.rcvLastAck
          (c.receiver.sendAck due now).2.rcvLastAck } :=
    { h with
      sender := { h.sender with }
      receiver := hrep
      received := by
        change c.received ++ unread _ (c.receiver.sendAck due now).2 =
          (s.input.take (R - first).toNat).flatten
        rw [hunread, ← List.append_assoc, h.received, hall]
      acked := by
        change c.acked + seqoff c.receiver.rcvLastAck
          (c.receiver.sendAck due now).2.rcvLastAck = R - first
        rw [hacked, h.acked]
        omega }
  rw [habstract, hout]
  exact hsent.postBackward m

/-- A lite ACK is the same for both. -/
theorem sendLiteAck (h : UdtRep o first s c) (hs : SoundFor o first s)
    (hb : Bounded o first lifetime lag) (hlag : s.acked - s.acknowledged < lag) :
    UdtRep o first s.sendLiteAck (c.postAllBackward c.receiver.sendLiteAck.toList) := by
  have hlimit := hb.lag
  obtain ⟨m, habstract, hout⟩ := h.receiver.sendLiteAck hs (by omega)
  rw [habstract, hout]
  exact h.postBackward m

/-- `recv` takes whole packets off the stream, and perhaps the front of one more. -/
theorem recv (h : UdtRep o first s c) (hs : SoundFor o first s) (len : ℤ)
    {out : List UInt8} {r : UdtReceiver} (hrecv : c.receiver.recv len = some (out, r)) :
    ∃ p, (s.start ≤ p ∧ p ≤ s.acked) ∧
      UdtRep o first (s.take p) { c with receiver := r, received := c.received ++ out } ∧
      out = (unread s c.receiver).take len.toNat ∧
      ((unread s c.receiver).length < len → p = s.acked) := by
  obtain ⟨p, hge, hle, hrep, hout, hleft, hall⟩ := h.receiver.recv hs len hrecv
  refine ⟨p, ⟨hge, hle⟩, { h with
    sender := { h.sender with }
    receiver := hrep
    received := ?_ }, hout, hall⟩
  change c.received ++ out ++ unread (s.take p) r = (s.input.take (s.acked - first).toNat).flatten
  rw [List.append_assoc, hleft, h.received]

/-! ## Steps -/

/-- As `connect` leaves it. -/
theorem init (hb : Bounded o first lifetime lag) (mem : Udt.Memory) :
    UdtRep o first (SelectiveRepeat.init first o.flowWindowSize) (Udt.new o first mem) := by
  have hsize := o.le_rcvBufSize
  have hle := o.rcvBufSize_le
  have hwindow := o.le_flowWindowSize
  have hlimit := hb.flightFlagSize
  have hnear := hb.flowWindowSize
  have hnonneg := hb.first_nonneg
  have hfirst := hb.first_le
  have hnumber : first = seqno first := (Int.emod_eq_of_lt hnonneg (by omega)).symm
  have hbefore : Before (first - 1) first := by
    rcases eq_or_lt_of_le hnonneg with hzero | hpos
    · exact .inr ⟨by omega, hzero.symm⟩
    · exact .inl (Int.emod_eq_of_lt (by omega) (by omega)).symm
  have hnothing : (first - first).toNat = 0 := by
    rw [sub_self]
    rfl
  have hqueue : SndQueue (.new 32 o.payloadSize mem.blocks) (between [] first first first)
      (([] : List (List UInt8)).drop (first - first).toNat) := by
    unfold between
    rw [hnothing]
    exact .empty (by decide) o.payloadSize mem.blocks
  refine
    { sender :=
        { sndBuffer := hqueue
          mss := rfl
          sndLossList := .new (by omega) mem.sndNext
          lossSize := rfl
          flowWindowSize := rfl
          sndLastAck := hnumber
          sndLastDataAck := hnumber
          sndCurrSeqNo := hbefore
          broken := rfl
          sndBufSize := rfl
          room := le_add_of_le_of_nonneg (le_of_eq (add_zero first)) o.sndBufSize_nonneg }
      receiver :=
        { rcvBuffer := ⟨-first, .new (by omega) first⟩
          bufSize := rfl
          rcvLossList := .new (by omega) mem.rcvNext mem.rcvPrior
          lossSize := rfl
          ackWindow := ⟨[], .new (by decide) mem.ackSeqNo mem.ack mem.timeStamp, rfl⟩
          ackSize := rfl
          rcvLastAck := hnumber
          rcvLastAckAck := hnumber
          rcvCurrSeqNo := hbefore
          ackSeqNo := rfl }
      clock := rfl
      toReceiver := rfl
      toSender := rfl
      packets := fun x hx => absurd hx List.not_mem_nil
      sent := rfl
      received := ?_
      acked := (sub_self first).symm
      heard := (sub_self first).symm }
  unfold unread readable SelectiveRepeat.init Udt.new RcvBuffer.new
  dsimp only
  rw [hnothing]
  rfl

/-- Every event of the connection is one of selective repeat. -/
theorem step (h : UdtRep o first s c) (hinv : InvFor o first lifetime s)
    (hb : Bounded o first lifetime lag) {e : UdtEvent} {c' : Udt}
    (hfresh : c.Fresh lifetime lag e) (hstep : c.step e = some c') :
    ∃ (a : SelectiveRepeat.Event (List UInt8)) (s' : State (List UInt8)),
      SelectiveRepeat.Fresh lifetime lag s a ∧
      SelectiveRepeat.step first o.rcvBufSize ackRoom s a = some s' ∧ UdtRep o first s' c' := by
  have hsound := hinv.sound
  have hlag : c.acked - c.heard < lag → s.acked - s.acknowledged < lag := by
    rw [h.acked, h.heard]
    omega
  have hgood : ¬ c.sender.broken = true := by
    rw [h.sender.broken, hsound.broken]
    exact Bool.false_ne_true
  unfold Udt.step at hstep
  cases e with
  | send data =>
      dsimp only at hstep
      rw [if_neg hgood] at hstep
      obtain ⟨xs, hrep⟩ := h.send hsound data
      exact ⟨.send xs, _, trivial, rfl, Option.some.inj hstep ▸ hrep⟩
  | packData cwnd =>
      dsimp only at hstep
      rw [if_neg hgood] at hstep
      exact ⟨.pack cwnd, _, trivial, rfl,
        Option.some.inj hstep ▸ h.packData hsound hb.toNear cwnd⟩
  | expire =>
      dsimp only at hstep
      rw [if_neg hgood] at hstep
      exact ⟨.expire, _, trivial, rfl, Option.some.inj hstep ▸ h.checkTimers hsound hb.toNear⟩
  | deliverForward i now =>
      obtain ⟨e, he, rfl⟩ := Option.map_eq_some_iff.mp hstep
      rw [h.getElem?_toReceiver] at he
      obtain ⟨⟨t, m⟩, hentry, rfl⟩ := Option.map_eq_some_iff.mp he
      have htimely : s.clock ≤ t + lifetime := by
        refine h.clock ▸ hfresh.1 (t, ofForward m) ?_
        rw [h.getElem?_toReceiver, hentry]
        rfl
      obtain ⟨stamp, hstamp⟩ := h.process hinv hb hentry htimely (hlag hfresh.2)
      obtain ⟨s', hs', hrep⟩ := hstamp now
      refine ⟨.deliverForward i _, s', ⟨fun t' m' hentry' => ?_, hlag hfresh.2⟩, hs', hrep⟩
      cases hentry.symm.trans hentry'
      exact htimely
  | deliverBackward i elapsed =>
      dsimp only at hstep
      rw [if_neg hgood] at hstep
      obtain ⟨e, he, rfl⟩ := Option.map_eq_some_iff.mp hstep
      rw [h.getElem?_toSender] at he
      obtain ⟨⟨t, m⟩, hentry, rfl⟩ := Option.map_eq_some_iff.mp he
      have htimely : s.clock ≤ t + lifetime := by
        refine h.clock ▸ hfresh (t, ofBackward m) ?_
        rw [h.getElem?_toSender, hentry]
        rfl
      obtain ⟨confirm, s', -, hs', hrep⟩ := h.processCtrl hinv hb hentry htimely elapsed
      refine ⟨.deliverBackward i confirm, s', fun t' m' hentry' => ?_, hs', hrep⟩
      cases hentry.symm.trans hentry'
      exact htimely
  | sendAck due now =>
      exact ⟨.sendAck due, _, hlag hfresh, rfl,
        Option.some.inj hstep ▸ h.sendAck hsound hb (hlag hfresh) due now⟩
  | sendLiteAck =>
      exact ⟨.sendLiteAck, _, hlag hfresh, rfl,
        Option.some.inj hstep ▸ h.sendLiteAck hsound hb (hlag hfresh)⟩
  | recv len =>
      obtain ⟨⟨out, r⟩, hread, rfl⟩ := Option.map_eq_some_iff.mp hstep
      obtain ⟨p, hp, hrep, -⟩ := h.recv hsound len hread
      exact ⟨.take p, _, trivial, if_pos hp, hrep⟩

/-! ## Draining -/

/-- A step of selective repeat that drains is one of the connection, or none. -/
theorem move (h : UdtRep o first s c) (hinv : InvFor o first lifetime s)
    (hb : Bounded o first lifetime lag) {s' : State (List UInt8)}
    (hmove : SelectiveRepeat.Move first o.rcvBufSize ackRoom lifetime lag s s') :
    ∃ c', Relation.ReflTransGen (Draining lifetime lag) c c' ∧ UdtRep o first s' c' := by
  have hsound := hinv.sound
  have hlag : s.acked - s.acknowledged < lag → c.acked - c.heard < lag := by
    rw [h.acked, h.heard]
    omega
  have hgood : ¬ c.sender.broken = true := by
    rw [h.sender.broken, hsound.broken]
    exact Bool.false_ne_true
  obtain ⟨e, hdrain, hfresh, hstep⟩ := hmove
  unfold SelectiveRepeat.step at hstep
  cases e with
  | send xs => exact hdrain.elim
  | pack cwnd =>
      refine ⟨_, .single ⟨.packData cwnd, nofun, trivial, if_neg hgood⟩, ?_⟩
      exact Option.some.inj hstep ▸ h.packData hsound hb.toNear cwnd
  | expire =>
      refine ⟨_, .single ⟨.expire, nofun, trivial, if_neg hgood⟩, ?_⟩
      exact Option.some.inj hstep ▸ h.checkTimers hsound hb.toNear
  | deliverForward i timely =>
      cases hentry : s.toReceiver[i]? with
      | none =>
          dsimp only at hstep
          rw [hentry] at hstep
          cases hstep
      | some e =>
          obtain ⟨t, m⟩ := e
          have hcome : c.toReceiver[i]? = some (t, ofForward m) := by
            rw [h.getElem?_toReceiver, hentry]
            rfl
          obtain ⟨stamp, hstamp⟩ := h.process hinv hb hentry (hfresh.1 t m hentry) hfresh.2
          obtain ⟨s'', hs'', hrep⟩ := hstamp (stamp + 1)
          have hone : decide (0 < (stamp + 1 - stamp).bmod (2 ^ 32)) = timely := by
            rw [hdrain, add_sub_cancel_left]
            rfl
          rw [hone] at hs''
          cases hs''.symm.trans hstep
          refine ⟨_, .single ⟨.deliverForward i (stamp + 1), nofun, ⟨fun e he => ?_,
            hlag hfresh.2⟩, ?_⟩, hrep⟩
          · cases hcome.symm.trans he
            exact h.clock ▸ hfresh.1 t m hentry
          · unfold Udt.step
            dsimp only
            rw [hcome]
            rfl
  | deliverBackward i confirm =>
      cases hentry : s.toSender[i]? with
      | none =>
          dsimp only at hstep
          rw [hentry] at hstep
          cases hstep
      | some e =>
          obtain ⟨t, m⟩ := e
          have hcome : c.toSender[i]? = some (t, ofBackward m) := by
            rw [h.getElem?_toSender, hentry]
            rfl
          obtain ⟨confirm', s'', helapsed, hs'', hrep⟩ :=
            h.processCtrl hinv hb hentry (hfresh t m hentry) true
          rw [helapsed rfl, ← show confirm = true from hdrain] at hs''
          cases hs''.symm.trans hstep
          refine ⟨_, .single ⟨.deliverBackward i true, nofun, fun e he => ?_, ?_⟩, hrep⟩
          · cases hcome.symm.trans he
            exact h.clock ▸ hfresh t m hentry
          · unfold Udt.step
            dsimp only
            rw [if_neg hgood, hcome]
            rfl
  | sendAck due =>
      refine ⟨_, .single ⟨.sendAck due 0, nofun, hlag hfresh, rfl⟩, ?_⟩
      exact Option.some.inj hstep ▸ h.sendAck hsound hb hfresh due 0
  | sendLiteAck =>
      refine ⟨_, .single ⟨.sendLiteAck, nofun, hlag hfresh, rfl⟩, ?_⟩
      exact Option.some.inj hstep ▸ h.sendLiteAck hsound hb hfresh
  | take p =>
      obtain rfl : p = s.acked := hdrain
      dsimp only at hstep
      rw [if_pos ⟨hsound.start_le, le_rfl⟩] at hstep
      cases hstep
      rcases eq_or_lt_of_le hsound.start_le with heq | hlt
      · refine ⟨c, .refl, ?_⟩
        rw [← heq, ReceiverRep.take_start hsound]
        exact h
      · obtain ⟨⟨out, r⟩, hread⟩ :=
          h.receiver.exists_recv hlt ((unread s c.receiver).length + 1) (by omega)
        obtain ⟨p, -, hrep, -, hall⟩ := h.recv hsound _ hread
        obtain rfl := hall (by omega)
        refine ⟨_, .single ⟨.recv ((unread s c.receiver).length + 1), nofun, trivial, ?_⟩, hrep⟩
        unfold Udt.step
        dsimp only
        rw [hread]
        rfl

/-- The connection follows selective repeat wherever it can go without new data. -/
theorem moves (h : UdtRep o first s c) (hinv : InvFor o first lifetime s)
    (hb : Bounded o first lifetime lag) {s' : State (List UInt8)}
    (hmoves : SelectiveRepeat.Moves first o.rcvBufSize ackRoom lifetime lag s s') :
    ∃ c', Relation.ReflTransGen (Draining lifetime lag) c c' ∧ UdtRep o first s' c' := by
  have hsize := o.le_rcvBufSize
  induction hmoves with
  | refl => exact ⟨c, .refl, h⟩
  | tail hmoves hmove ih =>
      obtain ⟨c', hmoves', hrep⟩ := ih
      obtain ⟨c'', hmove', hrep'⟩ := hrep.move (hinv.moves (by omega) hmoves) hb hmove
      exact ⟨c'', hmoves'.trans hmove', hrep'⟩

end UdtRep

/-! ## Runs -/

section Runs

variable {o : UdtOptions} {isn lag : ℤ} {lifetime : ℕ} {c : Udt}

/-- Every run is one of selective repeat. -/
theorem UdtRep.of_reachable (hb : Bounded o isn lifetime lag)
    (h : (Udt.system o isn).ReachableBy (fun c e => c.Fresh lifetime lag e) c) :
    ∃ s, InvFor o isn lifetime s ∧ UdtRep o isn s c := by
  have hsize := o.le_rcvBufSize
  have hstart : ∀ c, (Udt.system o isn).init c →
      ∃ s, InvFor o isn lifetime s ∧ UdtRep o isn s c := by
    rintro c ⟨mem, rfl⟩
    exact ⟨_, SelectiveRepeat.inv_init (by omega) o.le_flowWindowSize, .init hb mem⟩
  refine h.invariant hstart fun c e c' hc hfresh hstep => ?_
  obtain ⟨s, hinv, hrep⟩ := hc
  obtain ⟨a, s', hfresh', hstep', hrep'⟩ := hrep.step hinv hb hfresh hstep
  exact ⟨s', hinv.step (by omega) hfresh' hstep', hrep'⟩

/-- What has been received is the front of what was sent. -/
theorem UdtRep.isPrefix_sent {first : ℤ} {s : State (List UInt8)} (h : UdtRep o first s c) :
    c.received <+: c.sent := by
  have hpart : c.received <+: (s.input.take (s.acked - first).toNat).flatten := ⟨_, h.received⟩
  have htake : (s.input.take (s.acked - first).toNat).flatten <+: s.input.flatten := by
    obtain ⟨rest, hrest⟩ := List.take_prefix (s.acked - first).toNat s.input
    refine ⟨rest.flatten, ?_⟩
    rw [← List.flatten_append, hrest]
  rw [h.sent]
  exact hpart.trans htake

/-- A run goes on to where all is received and acknowledged. -/
theorem UdtRep.exists_drained {first : ℤ} {s : State (List UInt8)} (h : UdtRep o first s c)
    (hinv : InvFor o first lifetime s) (hb : Bounded o first lifetime lag)
    (hlifetime : 1 ≤ lifetime) (hlag : c.acked - c.heard + o.rcvBufSize ≤ lag) :
    ∃ c', Relation.ReflTransGen (Draining lifetime lag) c c' ∧ c'.sent = c.sent ∧
      c'.received = c'.sent ∧ c'.sender.sndBuffer.getCurrBufSize = 0 := by
  have hsize := o.le_rcvBufSize
  rw [h.acked, h.heard] at hlag
  obtain ⟨s', hmoves, hinput, hall, hstart⟩ :=
    @SelectiveRepeat.Inv.exists_delivery _ _ _ _ lag ackRoom _ _ hinv (by omega) (by decide)
      hlifetime (by omega)
  obtain ⟨c', hmoves', hrep⟩ := h.moves hinv hb hmoves
  have hinv' := hinv.moves (by omega) hmoves
  have horder := hinv'.sound.order
  have hle := hinv'.sound.start_le
  have hcount := hrep.sender.getCurrBufSize hinv'.sound
  rw [hinput] at horder hcount
  refine ⟨c', hmoves', ?_, ?_, by omega⟩
  · rw [hrep.sent, hinput, h.sent]
  · have hnone : unread s' c'.receiver = [] := by
      unfold unread readable
      rw [show s'.acked - s'.start = 0 by omega]
      exact List.drop_nil
    have hreceived := hrep.received
    rwa [hnone, List.append_nil, List.take_of_length_le (by
      rw [hinput]
      omega), ← hrep.sent] at hreceived

/-- With the default options, up to `2 ^ 28` datagrams may overtake one. -/
theorem bounded_default {isn : ℤ} (hnonneg : 0 ≤ isn) (hle : isn ≤ maxSeqNo) :
    Bounded .default isn (2 ^ 28) (2 ^ 29) where
  first_nonneg := hnonneg
  first_le := hle
  flightFlagSize := by decide
  flowWindowSize := by decide
  lifetime := by decide
  lag := by decide

/-! ## A run over a bad network -/

/-- The numbers wrap around at the third packet. -/
def sampleIsn : ℤ := maxSeqNo - 1

/-- The bounds hold up to the last number. -/
theorem bounded_sampleIsn : Bounded .default sampleIsn (2 ^ 28) (2 ^ 29) :=
  bounded_default (by decide +kernel) (by decide +kernel)

/-- Four packets are sent. The second is lost, the last comes before the third, and the third
comes twice. What has come of the first is acknowledged and read, and the loss is reported; the
ACK is late. -/
def sampleRun (pieces : List (List UInt8)) (len : ℤ) : List (Udt → UdtEvent) :=
  pieces.map (fun data _ => .send data) ++ List.replicate 4 (fun _ => .packData 16) ++
    [fun _ => .deliverForward 0 0, fun _ => .deliverForward 3 0, fun _ => .deliverForward 2 0,
      fun _ => .deliverForward 2 0, fun _ => .sendAck false 0, fun _ => .recv len,
      fun _ => .deliverBackward 0 true]

/-- Arrays full of zeros. -/
def sampleMemory : Udt.Memory where
  blocks _ := []
  sndNext _ := 0
  rcvNext _ := 0
  rcvPrior _ := 0
  ackSeqNo _ := 0
  ack _ := 0
  timeStamp _ := 0

/-- The missing packet is sent again and comes, and its ACK overtakes the first one. -/
def sampleRest : List (Udt → UdtEvent) :=
  [fun _ => .packData 16, fun _ => .deliverForward 4 0, fun _ => .sendAck false 0,
    fun _ => .deliverBackward 2 true]

/-- Runs of a new connection whose first number is `sampleIsn`. -/
def sampleExec (run : List (Udt → UdtEvent)) : Option Udt :=
  ((Udt.system .default sampleIsn).restrict fun c e => c.Fresh (2 ^ 28) (2 ^ 29) e).exec
    (.new .default sampleIsn sampleMemory) run

/-- What such a run ends in is reachable. -/
theorem reachable_of_sampleExec {run : List (Udt → UdtEvent)} {c : Udt}
    (h : sampleExec run = some c) :
    (Udt.system .default sampleIsn).ReachableBy (fun c e => c.Fresh (2 ^ 28) (2 ^ 29) e) c :=
  .exec (.init ⟨sampleMemory, rfl⟩) h

/-- Two of eight bytes have been read, and one packet is missing. -/
def sampleUdt : Udt :=
  (sampleExec (sampleRun [[1, 2, 3], [4, 5], [6], [7, 8]] 2)).get (by decide +kernel)

/-- The network keeps to its bounds. -/
theorem sampleUdt_reachable :
    (Udt.system .default sampleIsn).ReachableBy (fun c e => c.Fresh (2 ^ 28) (2 ^ 29) e)
      sampleUdt :=
  reachable_of_sampleExec (Option.some_get _).symm

/-- All eight bytes have been acknowledged. -/
def acknowledgedUdt : Udt :=
  (sampleExec (sampleRun [[1, 2, 3], [4, 5], [6], [7, 8]] 2 ++ sampleRest)).get
    (by decide +kernel)

/-- It does so to the end. -/
theorem acknowledgedUdt_reachable :
    (Udt.system .default sampleIsn).ReachableBy (fun c e => c.Fresh (2 ^ 28) (2 ^ 29) e)
      acknowledgedUdt :=
  reachable_of_sampleExec (Option.some_get _).symm

/-- What is received is what was sent, as far as it goes, and the sender never sees a number it
has not sent. -/
theorem received_of_sent (hb : Bounded o isn lifetime lag)
    (h : (Udt.system o isn).ReachableBy (fun c e => c.Fresh lifetime lag e) c) :
    c.received <+: c.sent ∧ c.sender.broken = false := by
  obtain ⟨s, hinv, hrep⟩ := UdtRep.of_reachable hb h
  exact ⟨hrep.isPrefix_sent, hrep.sender.broken.trans hinv.sound.broken⟩

/-- Over the bad network, two bytes of eight. -/
theorem received_of_sent_sample :
    sampleUdt.received <+: sampleUdt.sent ∧ sampleUdt.sender.broken = false :=
  received_of_sent bounded_sampleIsn sampleUdt_reachable

/-- No buffer and no list ever holds more than it has room for. -/
theorem buffers_bounded (hb : Bounded o isn lifetime lag)
    (h : (Udt.system o isn).ReachableBy (fun c e => c.Fresh lifetime lag e) c) :
    c.sender.sndBuffer.getCurrBufSize ≤ o.sndBufSize ∧
      c.sender.sndLossList.getLossLength ≤ o.flowWindowSize ∧
      c.receiver.rcvBuffer.getRcvDataSize < o.rcvBufSize ∧
      c.receiver.rcvLossList.getLossLength < o.rcvBufSize := by
  obtain ⟨s, hinv, hrep⟩ := UdtRep.of_reachable hb h
  have hsound := hinv.sound
  have horder := hsound.order
  have hcount := hrep.sender.getCurrBufSize hsound
  have hroom := hrep.sender.room
  have hupto := hsound.upto_lt
  have hstart := hsound.start_le
  obtain ⟨slots, hheld⟩ := hrep.receiver.rcvBuffer
  have hlost : s.lost.card ≤ (Finset.Ico s.dataAck s.next).card :=
    Finset.card_le_card fun q hq => Finset.mem_Ico.mpr (hsound.lost q hq)
  have hmissing : s.missing.card ≤ (Finset.Ico s.acked s.upto).card :=
    Finset.card_le_card fun q hq => Finset.mem_Ico.mpr (hsound.missing q hq)
  rw [Int.card_Ico] at hlost hmissing
  rw [hrep.sender.sndLossList.getLossLength, hrep.receiver.rcvLossList.getLossLength,
    hheld.getRcvDataSize]
  omega

/-- Over the bad network nothing overflows. -/
theorem buffers_bounded_sample :
    sampleUdt.sender.sndBuffer.getCurrBufSize ≤ UdtOptions.default.sndBufSize ∧
      sampleUdt.sender.sndLossList.getLossLength ≤ UdtOptions.default.flowWindowSize ∧
      sampleUdt.receiver.rcvBuffer.getRcvDataSize < UdtOptions.default.rcvBufSize ∧
      sampleUdt.receiver.rcvLossList.getLossLength < UdtOptions.default.rcvBufSize :=
  buffers_bounded bounded_sampleIsn sampleUdt_reachable

/-- A sender whose buffer is empty may go: all that it has sent can be read. -/
theorem recv_rest (hb : Bounded o isn lifetime lag)
    (h : (Udt.system o isn).ReachableBy (fun c e => c.Fresh lifetime lag e) c)
    (hempty : c.sender.sndBuffer.getCurrBufSize = 0) (hmore : c.received ≠ c.sent) {len : ℤ}
    (hlen : c.sent.length ≤ c.received.length + len) :
    ∃ c', c.step (.recv len) = some c' ∧ c'.received = c.sent := by
  obtain ⟨s, hinv, hrep⟩ := UdtRep.of_reachable hb h
  have hsound := hinv.sound
  have horder := hsound.order
  have hcount := hrep.sender.getCurrBufSize hsound
  have hall : c.received ++ unread s c.receiver = c.sent := by
    rw [hrep.received, hrep.sent, List.take_of_length_le (by omega)]
  have hne : unread s c.receiver ≠ [] := fun hnil => by
    rw [hnil, List.append_nil] at hall
    exact hmore hall
  have hlt : s.start < s.acked := by
    refine lt_of_le_of_ne hsound.start_le fun heq => hne ?_
    unfold unread readable
    rw [heq, sub_self]
    exact List.drop_nil
  have hlength : (c.received.length + (unread s c.receiver).length : ℤ) = c.sent.length := by
    rw [← hall, List.length_append]
    push_cast
    rfl
  have hpos := List.length_pos_iff.mpr hne
  obtain ⟨⟨out, r⟩, hread⟩ := hrep.receiver.exists_recv hlt len (by omega)
  obtain ⟨p, -, -, rfl, -⟩ := hrep.recv hsound len hread
  rw [List.take_of_length_le (by omega)] at hread
  refine ⟨{ c with receiver := r, received := c.received ++ unread s c.receiver }, ?_, hall⟩
  unfold Udt.step
  dsimp only
  rw [hread]
  rfl

/-- The last six bytes are read at once. -/
theorem recv_rest_sample :
    ∃ c', acknowledgedUdt.step (.recv 6) = some c' ∧ c'.received = acknowledgedUdt.sent :=
  recv_rest bounded_sampleIsn acknowledgedUdt_reachable (by decide +kernel) (by decide +kernel)
    (by decide +kernel)

/-- What was sent comes through when nothing more is sent, whatever the network has done. -/
theorem exists_received (hb : Bounded o isn lifetime lag) (hlifetime : 1 ≤ lifetime)
    (h : (Udt.system o isn).ReachableBy (fun c e => c.Fresh lifetime lag e) c)
    (hlag : c.acked - c.heard + o.rcvBufSize ≤ lag) :
    ∃ c', Relation.ReflTransGen (Draining lifetime lag) c c' ∧ c'.sent = c.sent ∧
      c'.received = c'.sent ∧ c'.sender.sndBuffer.getCurrBufSize = 0 := by
  obtain ⟨s, hinv, hrep⟩ := UdtRep.of_reachable hb h
  exact hrep.exists_drained hinv hb hlifetime hlag

/-- The missing packet can still come. -/
theorem exists_received_sample :
    ∃ c', Relation.ReflTransGen (Draining (2 ^ 28) (2 ^ 29)) sampleUdt c' ∧
      c'.sent = sampleUdt.sent ∧ c'.received = c'.sent ∧
      c'.sender.sndBuffer.getCurrBufSize = 0 :=
  exists_received bounded_sampleIsn (by decide) sampleUdt_reachable (by decide +kernel)

end Runs

end DesktopSync.Analysis
