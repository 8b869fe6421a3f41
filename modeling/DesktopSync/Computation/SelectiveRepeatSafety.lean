import Mathlib.Data.List.Infix
import DesktopSync.Computation.SelectiveRepeat

/-!
# What selective repeat keeps

`Sound` is what holds of the two parties, and `ForwardOk` and `BackwardOk` of the datagrams
under way: a datagram may be late, but it is at most as many packets behind as datagrams
were sent since. `Inv` is all of this, and `inv_of_reachable` says that it holds in every
run in which no datagram comes too late.
-/

set_option autoImplicit false

universe u

namespace SelectiveRepeat

variable {α : Type u} {first size limit lag : ℤ} {room lifetime : ℕ}

/-- The acknowledgements with their numbers. -/
def numbered (acks : List ℤ) : List (ℕ × ℤ) := acks.zipIdx.map fun e => (e.2 + 1, e.1)

/-- The two parties. -/
structure Sound (first size limit : ℤ) (s : State α) : Prop where
  size_le : size ≤ limit
  first_le : first ≤ s.acknowledged
  acknowledged_le : s.acknowledged ≤ s.dataAck
  dataAck_le : s.dataAck ≤ s.lastAck
  lastAck_le : s.lastAck ≤ s.ackPoint
  next_le_input : s.next ≤ first + s.input.length
  next_le : s.next ≤ s.dataAck + limit
  window_le : s.lastAck + s.window ≤ s.dataAck + limit
  window_open : s.lastAck = s.dataAck → 2 ≤ s.window
  lost : ∀ q ∈ s.lost, s.dataAck ≤ q ∧ q < s.next
  broken : s.broken = false
  first_le_start : first ≤ s.start
  start_le : s.start ≤ s.acked
  dataAck_le_acked : s.dataAck ≤ s.acked
  acked_le : s.acked ≤ s.upto
  upto_lt : s.upto < s.start + size
  upto_le : s.upto ≤ s.next
  missing : ∀ q ∈ s.missing, s.acked ≤ q ∧ q < s.upto
  held : ∀ q, s.held q ≠ none ↔ s.start ≤ q ∧ q < s.upto ∧ q ∉ s.missing
  content : ∀ q x, s.held q = some x → s.block first q = some x
  acks : ∀ a ∈ s.acks, first ≤ a ∧ a ≤ s.acked
  ackWindow : s.ackWindow <:+ numbered s.acks

/-- A datagram to the receiver that was stamped with `t`. -/
def ForwardOk (first limit : ℤ) (lifetime : ℕ) (s : State α) (t : ℕ) : Forward α → Prop
  | .data q x => s.block first q = some x ∧ q < s.next ∧ s.next - (s.clock - t) - limit ≤ q
  | .ack2 k => ∃ a, s.acks[k - 1]? = some a ∧ a ≤ s.dataAck ∧
      (s.acks.length : ℤ) - (s.clock - t) - lifetime ≤ k ∧
      s.next - (s.clock - t) - lifetime - limit ≤ a

/-- A datagram to the sender that was stamped with `t`. -/
def BackwardOk (first size limit : ℤ) (s : State α) (t : ℕ) : Backward → Prop
  | .ack k a w => s.acks[k - 1]? = some a ∧ first ≤ a ∧ a ≤ s.acked ∧ 2 ≤ w ∧ w ≤ size ∧
      s.next - (s.clock - t) - limit ≤ a ∧ (s.acks.length : ℤ) - (s.clock - t) ≤ k
  | .liteAck a => first ≤ a ∧ a ≤ s.ackPoint ∧ s.next - (s.clock - t) - limit ≤ a
  | .nak a b => first ≤ a ∧ a ≤ b ∧ b < s.upto ∧ s.next - (s.clock - t) - limit ≤ a

/-- What holds in every run. -/
structure Inv (first size limit : ℤ) (lifetime : ℕ) (s : State α) : Prop where
  sound : Sound first size limit s
  stamp : (∀ e ∈ s.toReceiver, e.1 ≤ s.clock) ∧ ∀ e ∈ s.toSender, e.1 ≤ s.clock
  forward : ∀ e ∈ s.toReceiver, ForwardOk first limit lifetime s e.1 e.2
  backward : ∀ e ∈ s.toSender, BackwardOk first size limit s e.1 e.2

/-! ## Time -/

/-- What time does not take back. -/
structure Advances (s s' : State α) : Prop where
  input : s.input <+: s'.input
  dataAck : s.dataAck ≤ s'.dataAck
  acked : s.acked ≤ s'.acked
  ackPoint : s.ackPoint ≤ s'.ackPoint
  upto : s.upto ≤ s'.upto
  acks : s.acks <+: s'.acks
  next : s.next ≤ s'.next
  nextClock : s'.next - s.next ≤ s'.clock - s.clock
  acksClock : (s'.acks.length : ℤ) - s.acks.length ≤ s'.clock - s.clock

/-- Nothing is undone when nothing is done. -/
theorem Advances.refl (s : State α) : Advances s s :=
  ⟨List.prefix_rfl, le_rfl, le_rfl, le_rfl, le_rfl, List.prefix_rfl, le_rfl, by omega, by omega⟩

/-- Two steps undo no more than each. -/
theorem Advances.trans {s s' s'' : State α} (h : Advances s s') (h' : Advances s' s'') :
    Advances s s'' := by
  have hnext := h.nextClock
  have hnext' := h'.nextClock
  have hacks := h.acksClock
  have hacks' := h'.acksClock
  exact ⟨h.input.trans h'.input, h.dataAck.trans h'.dataAck, h.acked.trans h'.acked,
    h.ackPoint.trans h'.ackPoint, h.upto.trans h'.upto, h.acks.trans h'.acks,
    h.next.trans h'.next, by omega, by omega⟩

/-- The clock never goes back. -/
theorem Advances.clock {s s' : State α} (h : Advances s s') : s.clock ≤ s'.clock := by
  have hnext := h.next
  have hclock := h.nextClock
  omega

/-- Sending to the receiver undoes nothing. -/
theorem Advances.postForward (s : State α) (m : Forward α) : Advances s (s.postForward m) := by
  refine { Advances.refl s with nextClock := ?_, acksClock := ?_ }
  · unfold State.postForward
    dsimp only
    omega
  · unfold State.postForward
    dsimp only
    omega

/-- Sending to the sender undoes nothing. -/
theorem Advances.postBackward (s : State α) (m : Backward) : Advances s (s.postBackward m) := by
  refine { Advances.refl s with nextClock := ?_, acksClock := ?_ }
  · unfold State.postBackward
    dsimp only
    omega
  · unfold State.postBackward
    dsimp only
    omega

/-- An entry of a list stays where it is when the list gets longer. -/
theorem entry_of_longer {β : Type u} {l l' : List β} (h : l <+: l') {i : ℕ} {x : β}
    (hx : l[i]? = some x) : l'[i]? = some x := by
  obtain ⟨hi, rfl⟩ := List.getElem?_eq_some_iff.mp hx
  exact List.prefix_iff_getElem?.mp h i hi

/-- A packet that was handed over stays what it is. -/
theorem block_of_longer {s s' : State α} (h : s.input <+: s'.input) {q : ℤ} {x : α}
    (hx : s.block first q = some x) : s'.block first q = some x := by
  unfold State.block at hx ⊢
  split at hx
  · cases hx
  · next hge =>
      rw [if_neg hge]
      exact entry_of_longer h hx

/-- What was true of a datagram to the receiver stays true. -/
theorem ForwardOk.mono {s s' : State α} (h : Advances s s') {t : ℕ} {m : Forward α}
    (hm : ForwardOk first limit lifetime s t m) : ForwardOk first limit lifetime s' t m := by
  have hnext := h.next
  have hclock := h.nextClock
  have hacks := h.acksClock
  have hdataAck := h.dataAck
  cases m with
  | data q x =>
      obtain ⟨hx, hlt, hlate⟩ := hm
      exact ⟨block_of_longer h.input hx, by omega, by omega⟩
  | ack2 k =>
      obtain ⟨a, ha, hle, hlate, hlate'⟩ := hm
      exact ⟨a, entry_of_longer h.acks ha, by omega, by omega, by omega⟩

/-- What was true of a datagram to the sender stays true. -/
theorem BackwardOk.mono {s s' : State α} (h : Advances s s') {t : ℕ} {m : Backward}
    (hm : BackwardOk first size limit s t m) : BackwardOk first size limit s' t m := by
  have hnext := h.next
  have hclock := h.nextClock
  have hacks := h.acksClock
  have hacked := h.acked
  have hpoint := h.ackPoint
  have hupto := h.upto
  cases m with
  | ack k a w =>
      obtain ⟨ha, hfirst, hle, htwo, hsize, hlate, hk⟩ := hm
      exact ⟨entry_of_longer h.acks ha, hfirst, by omega, htwo, hsize, by omega, by omega⟩
  | liteAck a =>
      obtain ⟨hfirst, hle, hlate⟩ := hm
      exact ⟨hfirst, by omega, by omega⟩
  | nak a b =>
      obtain ⟨hfirst, hab, hlt, hlate⟩ := hm
      exact ⟨hfirst, hab, by omega, by omega⟩

/-- A step that sends nothing. -/
theorem Inv.of_quiet {s s' : State α} (h : Inv first size limit lifetime s)
    (hsound : Sound first size limit s') (hadvances : Advances s s')
    (hreceiver : s'.toReceiver = s.toReceiver) (hsender : s'.toSender = s.toSender) :
    Inv first size limit lifetime s' := by
  have hclock := hadvances.clock
  refine ⟨hsound, ?_, ?_, ?_⟩
  · rw [hreceiver, hsender]
    exact ⟨fun e he => (h.stamp.1 e he).trans hclock, fun e he => (h.stamp.2 e he).trans hclock⟩
  · rw [hreceiver]
    exact fun e he => (h.forward e he).mono hadvances
  · rw [hsender]
    exact fun e he => (h.backward e he).mono hadvances

/-- A step that sends a datagram to the receiver. -/
theorem Inv.of_forward {s s' : State α} (h : Inv first size limit lifetime s)
    (hsound : Sound first size limit s') (hadvances : Advances s s') {m : Forward α}
    (hreceiver : s'.toReceiver = s.toReceiver ++ [(s.clock, m)])
    (hsender : s'.toSender = s.toSender) (hm : ForwardOk first limit lifetime s' s.clock m) :
    Inv first size limit lifetime s' := by
  have hclock := hadvances.clock
  refine ⟨hsound, ⟨fun e he => ?_, ?_⟩, fun e he => ?_, ?_⟩
  · rw [hreceiver, List.mem_append, List.mem_singleton] at he
    rcases he with he | rfl
    · exact (h.stamp.1 e he).trans hclock
    · exact hclock
  · rw [hsender]
    exact fun e he => (h.stamp.2 e he).trans hclock
  · rw [hreceiver, List.mem_append, List.mem_singleton] at he
    rcases he with he | rfl
    · exact (h.forward e he).mono hadvances
    · exact hm
  · rw [hsender]
    exact fun e he => (h.backward e he).mono hadvances

/-- A step that sends a datagram to the sender. -/
theorem Inv.of_backward {s s' : State α} (h : Inv first size limit lifetime s)
    (hsound : Sound first size limit s') (hadvances : Advances s s') {m : Backward}
    (hreceiver : s'.toReceiver = s.toReceiver)
    (hsender : s'.toSender = s.toSender ++ [(s.clock, m)])
    (hm : BackwardOk first size limit s' s.clock m) : Inv first size limit lifetime s' := by
  have hclock := hadvances.clock
  refine ⟨hsound, ⟨?_, fun e he => ?_⟩, ?_, fun e he => ?_⟩
  · rw [hreceiver]
    exact fun e he => (h.stamp.1 e he).trans hclock
  · rw [hsender, List.mem_append, List.mem_singleton] at he
    rcases he with he | rfl
    · exact (h.stamp.2 e he).trans hclock
    · exact hclock
  · rw [hreceiver]
    exact fun e he => (h.forward e he).mono hadvances
  · rw [hsender, List.mem_append, List.mem_singleton] at he
    rcases he with he | rfl
    · exact (h.backward e he).mono hadvances
    · exact hm

/-- What is given free has come, and what has come was sent. -/
theorem Sound.ackPoint_between {s : State α} (h : Sound first size limit s) :
    s.acked ≤ s.ackPoint ∧ s.ackPoint ≤ s.upto := by
  refine ⟨le_leastOr h.acked_le fun q hq => (h.missing q hq).1, ?_⟩
  unfold State.ackPoint
  rcases s.missing.eq_empty_or_nonempty with hempty | hne
  · rw [hempty, leastOr_empty]
  · exact le_of_lt (h.missing _ (leastOr_mem hne _)).2

/-- The order of the numbers of both parties. -/
theorem Sound.order {s : State α} (h : Sound first size limit s) :
    first ≤ s.acknowledged ∧ s.acknowledged ≤ s.dataAck ∧ s.dataAck ≤ s.lastAck ∧
      s.dataAck ≤ s.acked ∧ s.lastAck ≤ s.ackPoint ∧ s.acked ≤ s.ackPoint ∧
      s.ackPoint ≤ s.upto ∧ s.upto ≤ s.next ∧ s.next ≤ s.dataAck + limit ∧
      s.next ≤ first + s.input.length :=
  ⟨h.first_le, h.acknowledged_le, h.dataAck_le, h.dataAck_le_acked, h.lastAck_le,
    h.ackPoint_between.1, h.ackPoint_between.2, h.upto_le, h.next_le, h.next_le_input⟩

/-! ## The sender -/

/-- The packets between `dataAck` and `next` are there to be sent again. -/
theorem Sound.block_isSome {s : State α} (h : Sound first size limit s) {q : ℤ}
    (hge : s.dataAck ≤ q) (hlt : q < first + s.input.length) : ∃ x, s.block first q = some x := by
  have hfirst := h.first_le
  have hack := h.acknowledged_le
  unfold State.block
  rw [if_neg (by omega)]
  exact ⟨_, List.getElem?_eq_getElem (by omega)⟩

/-- More to send breaks nothing. -/
theorem Inv.send {s : State α} (h : Inv first size limit lifetime s) (xs : List α) :
    Inv first size limit lifetime (s.send xs) := by
  have hinput : s.input <+: (s.send xs).input := List.prefix_append s.input xs
  have hsound := h.sound
  refine h.of_quiet { hsound with
    next_le_input := ?_
    content := fun q x hx => block_of_longer hinput (hsound.content q x hx) }
    { Advances.refl s with input := hinput } rfl rfl
  have hle := hsound.next_le_input
  unfold State.send
  dsimp only
  rw [List.length_append]
  push_cast
  omega

/-- A packet goes out, for the first time or again. -/
theorem Inv.pack {s : State α} (h : Inv first size limit lifetime s) (cwnd : ℤ) :
    Inv first size limit lifetime (s.pack first cwnd) := by
  have hsound := h.sound
  have horder := hsound.order
  unfold State.pack
  by_cases hlost : s.lost.Nonempty
  · rw [if_pos hlost]
    have hmem := leastOr_mem hlost s.next
    obtain ⟨hge, hlt⟩ := hsound.lost _ hmem
    obtain ⟨x, hx⟩ := hsound.block_isSome hge (by omega)
    dsimp only
    rw [hx]
    refine h.of_forward (m := .data (leastOr s.lost s.next) x) { hsound with
      lost := fun q hq => hsound.lost q (Finset.mem_of_mem_erase hq) }
      { Advances.postForward s (.data (leastOr s.lost s.next) x) with } rfl rfl ⟨hx, hlt, ?_⟩
    unfold State.postForward
    dsimp only
    push_cast
    omega
  · rw [if_neg hlost]
    split
    · next hwindow =>
        have hwindow' := le_min_iff.mp hwindow
        have hlimit := hsound.window_le
        cases hblock : s.block first s.next with
        | none => exact h
        | some x =>
            dsimp only
            have hlength : s.next < first + s.input.length := by
              unfold State.block at hblock
              split at hblock
              · cases hblock
              · have hi := (List.getElem?_eq_some_iff.mp hblock).1
                omega
            have hlength' : s.next + 1 ≤ first + s.input.length := hlength
            have hnext' : s.next + 1 ≤ s.dataAck + limit := by omega
            have hupto' : s.upto ≤ s.next + 1 := hsound.upto_le.trans (le_of_lt (lt_add_one _))
            have hadvances : Advances s
                ({ s with next := s.next + 1 }.postForward (.data s.next x)) :=
              { Advances.postForward s (.data s.next x) with
                next := show s.next ≤ s.next + 1 by omega
                nextClock := show s.next + 1 - s.next ≤ ((s.clock + 1 : ℕ) : ℤ) - s.clock by omega }
            refine h.of_forward (m := .data s.next x) { hsound with
              next_le_input := hlength'
              next_le := hnext'
              upto_le := hupto'
              lost := fun q hq => absurd ⟨q, hq⟩ hlost } hadvances rfl rfl ⟨hblock, ?_, ?_⟩
            · exact lt_add_one s.next
            · unfold State.postForward
              dsimp only
              push_cast
              omega
    · exact h

/-- The timer declares all that is out and not acknowledged lost. -/
theorem Inv.expire {s : State α} (h : Inv first size limit lifetime s) :
    Inv first size limit lifetime (s.expire first) := by
  have hsound := h.sound
  unfold State.expire
  split
  · refine h.of_quiet { hsound with lost := fun q hq => ?_ } { Advances.refl s with } rfl rfl
    obtain ⟨hge, hle⟩ := Finset.mem_Icc.mp hq
    have horder := hsound.order
    dsimp only
    omega
  · exact h

/-- An `ack2` for an acknowledgement that was taken. -/
theorem Inv.confirm {s : State α} (h : Inv first size limit lifetime s) {k : ℕ} {a : ℤ}
    (hk : s.acks[k - 1]? = some a) (ha : a ≤ s.dataAck)
    (hlate : (s.acks.length : ℤ) - lifetime ≤ k ∧ s.next - lifetime - limit ≤ a) :
    Inv first size limit lifetime (s.postForward (.ack2 k)) := by
  refine h.of_forward { h.sound with } (.postForward s _) rfl rfl ⟨a, hk, ha, ?_, ?_⟩
  · unfold State.postForward
    dsimp only
    push_cast
    omega
  · unfold State.postForward
    dsimp only
    push_cast
    omega

/-- An `ack` that is new to the sender, or repeats the last. -/
theorem Sound.acknowledge {s : State α} (h : Sound first size limit s) {a w : ℤ}
    (hge : s.lastAck ≤ a) (hle : a ≤ s.acked) (htwo : 2 ≤ w) (hw : w ≤ size) :
    Sound first size limit { s with
      window := w, lastAck := a, dataAck := a, lost := s.lost.filter (a ≤ ·) } := by
  have horder := h.order
  have hold : s.acknowledged ≤ a := by omega
  have hpoint : a ≤ s.ackPoint := by omega
  have hnext : s.next ≤ a + limit := by omega
  have hwindow : a + w ≤ a + limit := by
    have hlimit := h.size_le
    omega
  exact { h with
    acknowledged_le := hold
    dataAck_le := le_rfl
    lastAck_le := hpoint
    next_le := hnext
    window_le := hwindow
    window_open := fun _ => htwo
    dataAck_le_acked := hle
    lost := fun q hq => ⟨(Finset.mem_filter.mp hq).2, (h.lost q (Finset.mem_filter.mp hq).1).2⟩ }

/-- What an `ack` says to the sender. -/
theorem Inv.advance {s : State α} (h : Inv first size limit lifetime s) {a w : ℤ}
    (hle : a ≤ s.acked) (htwo : 2 ≤ w) (hw : w ≤ size) :
    Inv first size limit lifetime (s.advance a w) := by
  have hsound := h.sound
  have horder := hsound.order
  have hwindow := hsound.window_le
  unfold State.advance
  by_cases hnew : s.lastAck ≤ a
  · rw [if_pos hnew]
    have hacknowledged := hsound.acknowledge hnew hle htwo hw
    by_cases hmore : s.dataAck < a
    · dsimp only
      rw [if_pos hmore]
      exact h.of_quiet hacknowledged
        { Advances.refl s with dataAck := le_of_lt hmore } rfl rfl
    · dsimp only
      rw [if_neg hmore]
      have hsame : a = s.dataAck := by omega
      have hlost : s.lost.filter (a ≤ ·) = s.lost := Finset.filter_true_of_mem fun q hq => by
        have hge := (hsound.lost q hq).1
        omega
      rw [hlost] at hacknowledged
      refine h.of_quiet { hacknowledged with
        acknowledged_le := hsound.acknowledged_le
        dataAck_le := le_of_eq hsame.symm
        next_le := hsound.next_le
        window_le := ?_
        window_open := fun _ => htwo
        dataAck_le_acked := hsound.dataAck_le_acked
        lost := hsound.lost } { Advances.refl s with } rfl rfl
      rw [← hsame]
      exact hacknowledged.window_le
  · rw [if_neg hnew]
    dsimp only
    split
    · next hmore =>
        have hold : s.acknowledged ≤ a := by omega
        have hlast : a ≤ s.lastAck := by omega
        have hnext : s.next ≤ a + limit := by omega
        have hlimit : s.lastAck + s.window ≤ a + limit := by omega
        exact h.of_quiet { hsound with
          acknowledged_le := hold
          dataAck_le := hlast
          next_le := hnext
          window_le := hlimit
          window_open := fun heq => absurd (le_of_eq heq) hnew
          dataAck_le_acked := hle
          lost := fun q hq => ⟨(Finset.mem_filter.mp hq).2,
            (hsound.lost q (Finset.mem_filter.mp hq).1).2⟩ }
          { Advances.refl s with dataAck := le_of_lt hmore } rfl rfl
    · exact h

/-- What is acknowledged is behind the mark. -/
theorem State.le_advance_dataAck (s : State α) (a w : ℤ) : a ≤ (s.advance a w).dataAck := by
  unfold State.advance
  dsimp only
  split_ifs with _ hless hless
  · exact le_rfl
  · exact not_lt.mp hless
  · exact le_rfl
  · exact not_lt.mp hless

/-- The sender numbers no ACK. -/
@[simp] theorem State.advance_acks (s : State α) (a w : ℤ) : (s.advance a w).acks = s.acks := by
  unfold State.advance
  dsimp only
  split_ifs <;> rfl

/-- An ACK sends nothing. -/
@[simp] theorem State.advance_next (s : State α) (a w : ℤ) : (s.advance a w).next = s.next := by
  unfold State.advance
  dsimp only
  split_ifs <;> rfl

/-- Taking an ACK and answering it can change places. -/
theorem State.advance_postForward (s : State α) (m : Forward α) (a w : ℤ) :
    (s.postForward m).advance a w = (s.advance a w).postForward m := by
  unfold State.advance State.postForward
  dsimp only
  split_ifs <;> rfl

/-- An ACK arrives that is not too old. -/
theorem Inv.onAck {s : State α} (h : Inv first size limit lifetime s) {t k : ℕ} {a w : ℤ}
    (hm : BackwardOk first size limit s t (.ack k a w)) (hfresh : s.clock ≤ t + lifetime)
    (confirm : Bool) : Inv first size limit lifetime (s.onAck k a w confirm) := by
  obtain ⟨hk, -, hle, htwo, hw, hlate', hlate⟩ := hm
  have horder := h.sound.order
  have hadvance := h.advance hle htwo hw
  unfold State.onAck
  cases confirm with
  | false =>
      dsimp only
      rw [if_neg Bool.false_ne_true, if_neg (by omega)]
      exact hadvance
  | true =>
      have hnext : (s.postForward (.ack2 k)).next = s.next := rfl
      dsimp only
      rw [if_pos rfl, hnext, if_neg (by omega), State.advance_postForward]
      -- What is acknowledged once more is before `dataAck` by now.
      refine hadvance.confirm (a := a) ?_ (s.le_advance_dataAck a w) ?_
      · rwa [State.advance_acks]
      · rw [State.advance_acks, State.advance_next]
        omega

/-- A lite ACK arrives. -/
theorem Inv.onLiteAck {s : State α} (h : Inv first size limit lifetime s) {a : ℤ}
    (hle : a ≤ s.ackPoint) : Inv first size limit lifetime (s.onLiteAck a) := by
  have hsound := h.sound
  have hwindow := hsound.window_le
  have horder := hsound.order
  unfold State.onLiteAck
  split
  · next hnew =>
      refine h.of_quiet { hsound with
        dataAck_le := hsound.dataAck_le.trans hnew
        lastAck_le := hle
        window_le := ?_
        window_open := fun heq => ?_ } { Advances.refl s with } rfl rfl
      · dsimp only
        omega
      · dsimp only at heq ⊢
        have hopen := hsound.window_open (by omega)
        omega
  · exact h

/-- A loss report arrives. -/
theorem Inv.onNak {s : State α} (h : Inv first size limit lifetime s) {t : ℕ} {a b : ℤ}
    (hm : BackwardOk first size limit s t (.nak a b)) :
    Inv first size limit lifetime (s.onNak a b) := by
  obtain ⟨-, hab, hlt, -⟩ := hm
  have hsound := h.sound
  have horder := hsound.order
  unfold State.onNak
  rw [if_neg (by omega)]
  refine h.of_quiet { hsound with lost := fun q hq => ?_ } { Advances.refl s with } rfl rfl
  rcases Finset.mem_union.mp hq with hq | hq
  · exact hsound.lost q hq
  · obtain ⟨hge, hle⟩ := Finset.mem_Icc.mp hq
    have hge' := max_le_iff.mp hge
    dsimp only
    omega

/-! ## The receiver -/

/-- What has not come is before what has come last. -/
theorem State.le_ackPoint {s s' : State α} (hmissing : ∀ q ∈ s'.missing, s.ackPoint ≤ q)
    (hupto : s.ackPoint ≤ s'.upto) : s.ackPoint ≤ s'.ackPoint :=
  le_leastOr hupto hmissing

/-- Nothing before what is acknowledged next is missing. -/
theorem Sound.ackPoint_le_missing {s : State α} {q : ℤ} (hq : q ∈ s.missing) : s.ackPoint ≤ q :=
  leastOr_le s.upto hq

/-- What the receiver holds after a packet has come. -/
theorem Sound.held_update {s : State α} (h : Sound first size limit s) {q : ℤ} {x : α}
    (hx : s.block first q = some x) (p : ℤ) (y : α)
    (hy : Function.update s.held q (some x) p = some y) : s.block first p = some y := by
  by_cases heq : p = q
  · subst heq
    rw [Function.update_self] at hy
    exact hx.trans hy
  · rw [Function.update_of_ne heq] at hy
    exact h.content p y hy

/-- A packet behind all that have come. Those between are missing. -/
theorem Sound.extend {s : State α} (h : Sound first size limit s) {q : ℤ} {x : α}
    (hx : s.block first q = some x) (hnext : q < s.next) (hge : s.upto ≤ q)
    (hroom : q < s.start + size - 1) :
    Sound first size limit { s with
      held := Function.update s.held q (some x)
      missing := s.missing ∪ Finset.Icc s.upto (q - 1)
      upto := q + 1 } := by
  have horder := h.order
  have hstart := h.start_le
  have hacked : s.acked ≤ q + 1 := by omega
  have hlimit : q + 1 < s.start + size := by omega
  have hsent : q + 1 ≤ s.next := hnext
  have hmissing : ∀ p ∈ s.missing ∪ Finset.Icc s.upto (q - 1), p ∈ s.missing ∨
      s.upto ≤ p ∧ p < q := fun p hp => by
    rcases Finset.mem_union.mp hp with hp | hp
    · exact .inl hp
    · have hp' := Finset.mem_Icc.mp hp
      exact .inr (by omega)
  refine { h with
    lastAck_le := h.lastAck_le.trans (State.le_ackPoint (fun p hp => ?_) ?_)
    acked_le := hacked
    upto_lt := hlimit
    upto_le := hsent
    missing := fun p hp => ?_
    held := fun p => ?_
    content := h.held_update hx }
  · rcases hmissing p hp with hp | hp
    · exact Sound.ackPoint_le_missing hp
    · omega
  · dsimp only
    omega
  · dsimp only
    rcases hmissing p hp with hp | hp
    · have hp' := h.missing p hp
      omega
    · omega
  · dsimp only
    rw [Finset.mem_union, Finset.mem_Icc]
    by_cases heq : p = q
    · subst heq
      rw [Function.update_self]
      refine ⟨fun _ => ⟨by omega, by omega, ?_⟩, fun _ => Option.some_ne_none x⟩
      rintro (hp | hp)
      · have hp' := h.missing p hp
        omega
      · omega
    · rw [Function.update_of_ne heq, h.held p]
      constructor
      · rintro ⟨hlow, hhigh, hnot⟩
        refine ⟨hlow, by omega, ?_⟩
        rintro (hp | hp)
        · exact hnot hp
        · omega
      · rintro ⟨hlow, hhigh, hnot⟩
        refine ⟨hlow, ?_, fun hp => hnot (.inl hp)⟩
        by_contra hge'
        exact hnot (.inr (by omega))

/-- A packet that was missing. -/
theorem Sound.fill {s : State α} (h : Sound first size limit s) {q : ℤ} {x : α}
    (hx : s.block first q = some x) (hge : s.acked ≤ q) (hlt : q < s.upto) :
    Sound first size limit { s with
      held := Function.update s.held q (some x)
      missing := s.missing.erase q } := by
  have hstart := h.start_le
  refine { h with
    lastAck_le := h.lastAck_le.trans (State.le_ackPoint (fun p hp => ?_) h.ackPoint_between.2)
    missing := fun p hp => h.missing p (Finset.mem_of_mem_erase hp)
    held := fun p => ?_
    content := h.held_update hx }
  · exact Sound.ackPoint_le_missing (Finset.mem_of_mem_erase hp)
  · dsimp only
    rw [Finset.mem_erase]
    by_cases heq : p = q
    · subst heq
      rw [Function.update_self]
      exact ⟨fun _ => ⟨by omega, hlt, fun hp => hp.1 rfl⟩, fun _ => Option.some_ne_none x⟩
    · rw [Function.update_of_ne heq, h.held p, and_iff_right heq]

/-- A packet is stored, and what it leaves out is missing. -/
theorem Inv.enter {s : State α} (h : Inv first size limit lifetime s) {q : ℤ} {x : α}
    (hx : s.block first q = some x) (hnext : q < s.next) (hge : s.acked ≤ q)
    (hroom : q < s.start + size - 1) : Inv first size limit lifetime (s.enter q x) := by
  have hsound := h.sound
  have horder := hsound.order
  unfold State.enter
  by_cases hlast : s.upto ≤ q
  · have hextend := hsound.extend hx hnext hlast hroom
    have hpoint : s.ackPoint ≤ ({ s with
        held := Function.update s.held q (some x)
        missing := s.missing ∪ Finset.Icc s.upto (q - 1)
        upto := q + 1 } : State α).ackPoint := by
      refine State.le_ackPoint (fun p hp => ?_) (show s.ackPoint ≤ q + 1 by omega)
      rcases Finset.mem_union.mp hp with hp | hp
      · exact Sound.ackPoint_le_missing hp
      · have hp' := Finset.mem_Icc.mp hp
        omega
    have hupto : s.upto ≤ q + 1 := by omega
    by_cases hgap : s.upto < q
    · rw [if_pos hgap]
      dsimp only
      rw [if_pos (show s.upto ≤ q from hlast)]
      refine h.of_backward (m := .nak s.upto (q - 1)) { hextend with }
        { Advances.postBackward s (.nak s.upto (q - 1)) with
          ackPoint := hpoint
          upto := hupto } rfl rfl ⟨by omega, by omega, ?_, ?_⟩
      · exact show q - 1 < q + 1 by omega
      · unfold State.postBackward
        dsimp only
        push_cast
        omega
    · have heq : q = s.upto := by omega
      rw [if_neg hgap]
      dsimp only
      rw [if_pos hlast]
      have hnone : s.missing ∪ Finset.Icc s.upto (q - 1) = s.missing := by
        rw [Finset.Icc_eq_empty (by omega), Finset.union_empty]
      rw [hnone] at hextend hpoint
      exact h.of_quiet hextend { Advances.refl s with ackPoint := hpoint, upto := hupto } rfl rfl
  · have hlt := not_le.mp hlast
    rw [if_neg (show ¬ s.upto < q by omega)]
    dsimp only
    rw [if_neg hlast]
    refine h.of_quiet (hsound.fill hx hge hlt) { Advances.refl s with
      ackPoint := State.le_ackPoint (fun p hp => ?_) hsound.ackPoint_between.2 } rfl rfl
    exact Sound.ackPoint_le_missing (Finset.mem_of_mem_erase hp)

/-- A packet arrives, however old. -/
theorem Inv.onData {s : State α} (h : Inv first size limit lifetime s) {t : ℕ} {q : ℤ} {x : α}
    (hm : ForwardOk first limit lifetime s t (.data q x)) :
    Inv first size limit lifetime (s.onData size q x) := by
  obtain ⟨hx, hnext, -⟩ := hm
  unfold State.onData
  split
  · exact h
  · next hnot =>
      rw [not_or, not_or] at hnot
      exact h.enter hx hnext (not_lt.mp hnot.1) (not_le.mp hnot.2.1)

/-- What has come is given free for reading. -/
theorem Inv.release {s : State α} (h : Inv first size limit lifetime s) :
    Inv first size limit lifetime { s with acked := s.ackPoint } := by
  have hsound := h.sound
  have horder := hsound.order
  have hstart : s.start ≤ s.ackPoint := hsound.start_le.trans hsound.ackPoint_between.1
  have hdataAck : s.dataAck ≤ s.ackPoint := by omega
  refine h.of_quiet { hsound with
    start_le := hstart
    dataAck_le_acked := hdataAck
    acked_le := hsound.ackPoint_between.2
    missing := fun q hq => ⟨Sound.ackPoint_le_missing hq, (hsound.missing q hq).2⟩
    acks := fun a ha => ⟨(hsound.acks a ha).1, (hsound.acks a ha).2.trans horder.2.2.2.2.2.1⟩ }
    { Advances.refl s with acked := hsound.ackPoint_between.1 } rfl rfl

/-- A new ACK takes the next number. -/
theorem numbered_append (acks : List ℤ) (a : ℤ) :
    numbered (acks ++ [a]) = numbered acks ++ [(acks.length + 1, a)] := by
  unfold numbered
  rw [List.zipIdx_append, List.map_append, zero_add]
  rfl

/-- Every ACK has a number. -/
theorem length_numbered (acks : List ℤ) : (numbered acks).length = acks.length := by
  unfold numbered
  rw [List.length_map, List.length_zipIdx]

/-- The numbers go up from one. -/
theorem getElem?_numbered {acks : List ℤ} {i : ℕ} {e : ℕ × ℤ} (h : (numbered acks)[i]? = some e) :
    e.1 = i + 1 ∧ acks[i]? = some e.2 := by
  unfold numbered at h
  rw [List.getElem?_map, List.getElem?_zipIdx, Option.map_map, Option.map_eq_some_iff] at h
  obtain ⟨a, ha, rfl⟩ := h
  exact ⟨by
    dsimp only [Function.comp]
    omega, ha⟩

/-- What is remembered of an acknowledgement, and how old it is. -/
theorem Sound.mem_ackWindow {s : State α} (h : Sound first size limit s) {e : ℕ × ℤ}
    (he : e ∈ s.ackWindow) : s.acks[e.1 - 1]? = some e.2 ∧ e.1 ≤ s.acks.length ∧
      s.acks.length < e.1 + s.ackWindow.length := by
  obtain ⟨pre, hpre⟩ := h.ackWindow
  obtain ⟨i, hi, rfl⟩ := List.mem_iff_getElem.mp he
  have hentry : (numbered s.acks)[pre.length + i]? = some s.ackWindow[i] := by
    rw [← hpre, List.getElem?_append_right (Nat.le_add_right _ _), Nat.add_sub_cancel_left]
    exact List.getElem?_eq_getElem hi
  obtain ⟨hnumber, hack⟩ := getElem?_numbered hentry
  have hlength := congrArg List.length hpre
  rw [List.length_append, length_numbered] at hlength
  refine ⟨?_, by omega, by omega⟩
  rw [hnumber, Nat.add_sub_cancel]
  exact hack

/-- Only old acknowledgements are forgotten. -/
theorem State.store_suffix {w : List (ℕ × ℤ)} {acks : List ℤ} (h : w <:+ numbered acks) (a : ℤ) :
    State.store room w (acks.length + 1) a <:+ numbered (acks ++ [a]) := by
  have happend : w ++ [(acks.length + 1, a)] <:+ numbered (acks ++ [a]) := by
    obtain ⟨pre, hpre⟩ := h
    refine ⟨pre, ?_⟩
    rw [numbered_append, ← hpre, List.append_assoc]
  unfold State.store
  split
  · exact (List.drop_suffix 1 _).trans happend
  · exact happend

/-- An ACK goes out under a new number. -/
theorem Inv.emitAck {s : State α} (h : Inv first size limit lifetime s) (hsize : 2 ≤ size) :
    Inv first size limit lifetime (s.emitAck size room) := by
  have hsound := h.sound
  have horder := hsound.order
  have hstart := hsound.start_le
  unfold State.emitAck
  split
  · have hlonger : s.acks <+: s.acks ++ [s.acked] := List.prefix_append _ _
    have hlast : (s.acks ++ [s.acked])[s.acks.length + 1 - 1]? = some s.acked := by
      rw [Nat.add_sub_cancel, List.getElem?_concat_length]
    refine h.of_backward
      (m := .ack (s.acks.length + 1) s.acked (max (s.start + size - 1 - s.acked) 2))
      { hsound with
        acks := fun a ha => ?_
        ackWindow := State.store_suffix hsound.ackWindow s.acked }
      { Advances.postBackward s
          (.ack (s.acks.length + 1) s.acked (max (s.start + size - 1 - s.acked) 2)) with
        acks := hlonger
        acksClock := ?_ } rfl rfl
      ⟨hlast, by omega, le_rfl, le_max_right _ _, by omega, ?_, ?_⟩
    · rcases List.mem_append.mp ha with ha | ha
      · exact hsound.acks a ha
      · rw [List.mem_singleton.mp ha]
        exact ⟨show first ≤ s.acked by omega, le_rfl⟩
    · unfold State.postBackward
      dsimp only
      rw [List.length_append, List.length_singleton]
      push_cast
      omega
    · unfold State.postBackward
      dsimp only
      push_cast
      omega
    · unfold State.postBackward
      dsimp only
      rw [List.length_append, List.length_singleton]
      push_cast
      omega
  · exact h

/-- What has come in order is acknowledged. -/
theorem Inv.sendAck {s : State α} (h : Inv first size limit lifetime s) (hsize : 2 ≤ size)
    (due : Bool) : Inv first size limit lifetime (s.sendAck size room due) := by
  unfold State.sendAck
  split_ifs
  · exact h
  · exact h.release.emitAck hsize
  · exact h.emitAck hsize
  · exact h

/-- It may be acknowledged without a number. -/
theorem Inv.sendLiteAck {s : State α} (h : Inv first size limit lifetime s) :
    Inv first size limit lifetime s.sendLiteAck := by
  have horder := h.sound.order
  unfold State.sendLiteAck
  split
  · exact h
  · refine h.of_backward { h.sound with } (.postBackward s (.liteAck s.ackPoint)) rfl rfl
      ⟨by omega, le_rfl, ?_⟩
    unfold State.postBackward
    dsimp only
    push_cast
    omega

/-- What an `ack2` finds. -/
theorem Sound.found {s : State α} (h : Sound first size limit s) {k : ℕ} {e : ℕ × ℤ}
    {w : List (ℕ × ℤ)} (hdrop : s.ackWindow.dropWhile (·.1 ≠ k) = e :: w) :
    e.1 = k ∧ s.acks[k - 1]? = some e.2 ∧ w <:+ numbered s.acks := by
  have hsuffix : e :: w <:+ s.ackWindow := hdrop ▸ List.dropWhile_suffix _
  have hk : e.1 = k := by
    have hne : s.ackWindow.dropWhile (·.1 ≠ k) ≠ [] := hdrop ▸ List.cons_ne_nil _ _
    have hhead := List.head_dropWhile_not _ hne
    simp only [hdrop, List.head_cons] at hhead
    simpa using hhead
  refine ⟨hk, ?_, (List.suffix_cons e w).trans (hsuffix.trans h.ackWindow)⟩
  have hentry := (h.mem_ackWindow (hsuffix.subset List.mem_cons_self)).1
  rwa [hk] at hentry

/-- An ACK2 arrives that is not too old. -/
theorem Inv.onAck2 {s : State α} (h : Inv first size limit lifetime s) {t k : ℕ}
    (hm : ForwardOk first limit lifetime s t (.ack2 k)) (timely : Bool) :
    Inv first size limit lifetime (s.onAck2 k timely) := by
  obtain ⟨a', ha', hle, -, -⟩ := hm
  have hsound := h.sound
  unfold State.onAck2
  cases hdrop : s.ackWindow.dropWhile (·.1 ≠ k) with
  | nil => exact h
  | cons e w =>
      obtain ⟨k', a⟩ := e
      obtain ⟨-, ha, hrest⟩ := hsound.found hdrop
      rw [ha'] at ha
      cases ha
      dsimp only
      split
      · next hmore =>
          have hfirst := hsound.first_le.trans (le_of_lt hmore.2)
          exact h.of_quiet { hsound with
            first_le := hfirst
            acknowledged_le := hle
            ackWindow := hrest } { Advances.refl s with } rfl rfl
      · exact h.of_quiet { hsound with ackWindow := hrest } { Advances.refl s with } rfl rfl

/-- What is acknowledged is read. -/
theorem Inv.take {s : State α} (h : Inv first size limit lifetime s) {p : ℤ} (hge : s.start ≤ p)
    (hle : p ≤ s.acked) : Inv first size limit lifetime (s.take p) := by
  have hsound := h.sound
  have hfirst := hsound.first_le_start.trans hge
  have hroom : s.upto < p + size := lt_of_lt_of_le hsound.upto_lt (by omega)
  unfold State.take
  refine h.of_quiet { hsound with
    first_le_start := hfirst
    start_le := hle
    upto_lt := hroom
    held := fun q => ?_
    content := fun q x hx => ?_ } { Advances.refl s with } rfl rfl
  · dsimp only
    split
    · next hlt => exact ⟨fun hne => absurd rfl hne, fun hq => absurd hq.1 (not_le.mpr hlt)⟩
    · next hnot =>
        rw [hsound.held q]
        have hq := not_lt.mp hnot
        exact and_congr_left fun _ => iff_of_true (hge.trans hq) hq
  · dsimp only at hx
    split at hx
    · cases hx
    · exact hsound.content q x hx

/-! ## Runs -/

/-- Nothing has been sent. -/
theorem inv_init (hsize : 2 ≤ size) (hlimit : size ≤ limit) :
    Inv first size limit lifetime (init first limit : State α) where
  sound :=
    { size_le := hlimit
      first_le := le_rfl
      acknowledged_le := le_rfl
      dataAck_le := le_rfl
      lastAck_le := le_of_eq (leastOr_empty first).symm
      next_le_input := le_of_eq (add_zero first).symm
      next_le := show first ≤ first + limit by omega
      window_le := le_rfl
      window_open := fun _ => hsize.trans hlimit
      lost := fun q hq => absurd hq (Finset.notMem_empty q)
      broken := rfl
      first_le_start := le_rfl
      start_le := le_rfl
      dataAck_le_acked := le_rfl
      acked_le := le_rfl
      upto_lt := show first < first + size by omega
      upto_le := le_rfl
      missing := fun q hq => absurd hq (Finset.notMem_empty q)
      held := fun q => ⟨fun hne => absurd rfl hne, fun hq => absurd (hq.1.trans_lt hq.2.1)
        (lt_irrefl first)⟩
      content := fun q x hx => absurd hx.symm (Option.some_ne_none x)
      acks := fun a ha => absurd ha List.not_mem_nil
      ackWindow := List.nil_suffix }
  stamp := ⟨fun e he => absurd he List.not_mem_nil, fun e he => absurd he List.not_mem_nil⟩
  forward := fun e he => absurd he List.not_mem_nil
  backward := fun e he => absurd he List.not_mem_nil

/-- Every event that is fresh keeps the invariant. -/
theorem Inv.step {s s' : State α} (h : Inv first size limit lifetime s) (hsize : 2 ≤ size)
    {e : Event α} (hfresh : Fresh lifetime lag s e)
    (hstep : SelectiveRepeat.step first size room s e = some s') :
    Inv first size limit lifetime s' := by
  unfold SelectiveRepeat.step at hstep
  cases e with
  | send xs => exact Option.some.inj hstep ▸ h.send xs
  | pack cwnd => exact Option.some.inj hstep ▸ h.pack cwnd
  | expire => exact Option.some.inj hstep ▸ h.expire
  | deliverForward i timely =>
      dsimp only at hstep
      split at hstep
      · next t q x hentry =>
          exact Option.some.inj hstep ▸ h.onData (h.forward _ (List.mem_of_getElem? hentry))
      · next t k hentry =>
          exact Option.some.inj hstep ▸
            h.onAck2 (h.forward _ (List.mem_of_getElem? hentry)) timely
      · cases hstep
  | deliverBackward i confirm =>
      dsimp only at hstep
      split at hstep
      · next t k a w hentry =>
          exact Option.some.inj hstep ▸
            h.onAck (h.backward _ (List.mem_of_getElem? hentry)) (hfresh t _ hentry) confirm
      · next t a hentry =>
          exact Option.some.inj hstep ▸
            h.onLiteAck (h.backward _ (List.mem_of_getElem? hentry)).2.1
      · next t a b hentry =>
          exact Option.some.inj hstep ▸ h.onNak (h.backward _ (List.mem_of_getElem? hentry))
      · cases hstep
  | sendAck due => exact Option.some.inj hstep ▸ h.sendAck hsize due
  | sendLiteAck => exact Option.some.inj hstep ▸ h.sendLiteAck
  | take p =>
      dsimp only at hstep
      split at hstep
      · next hp => exact Option.some.inj hstep ▸ h.take hp.1 hp.2
      · cases hstep

/-- What holds in every run in which no datagram comes too late. -/
theorem inv_of_reachable (hsize : 2 ≤ size) (hlimit : size ≤ limit) {s : State α}
    (h : (system first size limit room).ReachableBy (Fresh lifetime lag) s) :
    Inv first size limit lifetime s :=
  h.invariant (fun _ hs => hs ▸ inv_init hsize hlimit) fun _ _ _ hs hfresh hstep =>
    hs.step hsize hfresh hstep

end SelectiveRepeat
