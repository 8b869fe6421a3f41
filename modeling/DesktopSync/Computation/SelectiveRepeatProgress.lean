import Mathlib.Data.List.TakeWhile
import Mathlib.Logic.Relation
import DesktopSync.Computation.SelectiveRepeatSafety

/-!
# Selective repeat gets through

Nothing that the network has done can keep a packet from coming through when datagrams are
delivered again: `exists_delivery` says that a run goes on from every state to one in which
all that was handed over is read and acknowledged.

The packet at `dataAck` is the one the receiver waits for, or else an acknowledgement is due
(`exists_receipt`). A sender that has it in no list finds it by `expire`, for it empties its
list first (`exists_lost_eq_empty`).
-/

set_option autoImplicit false

universe u

namespace SelectiveRepeat

variable {α : Type u} {first size limit lag : ℤ} {room lifetime : ℕ}

/-- Nothing is handed over, all that can be read is read, and all that is acknowledged is
acknowledged. -/
def Draining (s : State α) : Event α → Prop
  | .send _ => False
  | .deliverForward _ timely => timely = true
  | .deliverBackward _ confirm => confirm = true
  | .take p => p = s.acked
  | _ => True

/-- A step of a run that drains. -/
def Move (first size : ℤ) (room lifetime : ℕ) (lag : ℤ) (s s' : State α) : Prop :=
  ∃ e : Event α, Draining s e ∧ Fresh lifetime lag s e ∧ step first size room s e = some s'

/-- Some steps of a run that drains. -/
abbrev Moves (first size : ℤ) (room lifetime : ℕ) (lag : ℤ) : State α → State α → Prop :=
  Relation.ReflTransGen (Move first size room lifetime lag)

theorem Inv.move {s s' : State α} (h : Inv first size limit lifetime s) (hsize : 2 ≤ size)
    (hmove : Move first size room lifetime lag s s') : Inv first size limit lifetime s' := by
  obtain ⟨e, -, hfresh, hstep⟩ := hmove
  exact h.step hsize hfresh hstep

theorem Inv.moves {s s' : State α} (h : Inv first size limit lifetime s) (hsize : 2 ≤ size)
    (hmoves : Moves first size room lifetime lag s s') : Inv first size limit lifetime s' := by
  induction hmoves with
  | refl => exact h
  | tail _ hmove ih => exact ih.move hsize hmove

/-! ## The sender -/

/-- The packet that goes out when some are to be sent again. -/
theorem Sound.pack_lost {s : State α} (h : Sound first size limit s) (hlost : s.lost.Nonempty)
    (cwnd : ℤ) : ∃ x, s.block first (leastOr s.lost s.next) = some x ∧
      s.pack first cwnd =
        { s with lost := s.lost.erase (leastOr s.lost s.next) }.postForward
          (.data (leastOr s.lost s.next) x) := by
  have horder := h.order
  obtain ⟨hge, hlt⟩ := h.lost _ (leastOr_mem hlost s.next)
  obtain ⟨x, hx⟩ := h.block_isSome hge (by omega)
  refine ⟨x, hx, ?_⟩
  unfold State.pack
  rw [if_pos hlost]
  dsimp only
  rw [hx]

/-- The receiver waits for the packet at `dataAck`, and has read all that it can. -/
structure Waiting (first size limit : ℤ) (lifetime : ℕ) (s : State α) : Prop where
  inv : Inv first size limit lifetime s
  start_eq : s.start = s.acked
  ackPoint_eq : s.ackPoint = s.dataAck
  more : s.dataAck < first + s.input.length

/-- Steps by which neither party knows more about the other. -/
structure SameKnowledge (s s' : State α) : Prop where
  input : s'.input = s.input
  dataAck : s'.dataAck = s.dataAck
  start : s'.start = s.start
  acked : s'.acked = s.acked
  acknowledged : s'.acknowledged = s.acknowledged

theorem SameKnowledge.refl (s : State α) : SameKnowledge s s := ⟨rfl, rfl, rfl, rfl, rfl⟩

theorem SameKnowledge.trans {s s' s'' : State α} (h : SameKnowledge s s')
    (h' : SameKnowledge s' s'') : SameKnowledge s s'' :=
  ⟨h'.input.trans h.input, h'.dataAck.trans h.dataAck, h'.start.trans h.start,
    h'.acked.trans h.acked, h'.acknowledged.trans h.acknowledged⟩

theorem Waiting.lastAck_eq {s : State α} (h : Waiting first size limit lifetime s) :
    s.lastAck = s.dataAck := by
  have horder := h.inv.sound.order
  have hpoint := h.ackPoint_eq
  omega

theorem Waiting.acked_eq {s : State α} (h : Waiting first size limit lifetime s) :
    s.acked = s.dataAck := by
  have horder := h.inv.sound.order
  have hpoint := h.ackPoint_eq
  omega

/-- A packet that goes out leaves all as it was, but for the sender's list. -/
theorem Waiting.pack_lost {s : State α} (h : Waiting first size limit lifetime s)
    (hne : s.lost.Nonempty) :
    ∃ x, s.block first (leastOr s.lost s.next) = some x ∧
      s.pack first 1 =
        { s with lost := s.lost.erase (leastOr s.lost s.next) }.postForward
          (.data (leastOr s.lost s.next) x) ∧
      Move first size room lifetime lag s (s.pack first 1) ∧
      Waiting first size limit lifetime (s.pack first 1) ∧ SameKnowledge s (s.pack first 1) := by
  obtain ⟨x, hx, hpack⟩ := h.inv.sound.pack_lost hne 1
  refine ⟨x, hx, hpack, ⟨.pack 1, trivial, trivial, rfl⟩, ⟨h.inv.pack 1, ?_, ?_, ?_⟩, ?_⟩ <;>
    rw [hpack]
  · exact h.start_eq
  · exact h.ackPoint_eq
  · exact h.more
  · exact ⟨rfl, rfl, rfl, rfl, rfl⟩

/-- All that is to be sent again can be sent. -/
theorem Waiting.exists_lost_eq_empty {s : State α} (h : Waiting first size limit lifetime s) :
    ∃ s', Moves first size room lifetime lag s s' ∧
      (Waiting first size limit lifetime s' ∧ SameKnowledge s s') ∧ s'.lost = ∅ := by
  refine TransitionSystem.exists_of_measure (fun s' => s'.lost.card)
    (fun s' hs' => ?_) ⟨h, .refl s⟩
  obtain ⟨hwaiting, hsame⟩ := hs'
  rcases s'.lost.eq_empty_or_nonempty with hempty | hne
  · exact .inl hempty
  · obtain ⟨x, -, hpack, hmove, hwaiting', hsame'⟩ :=
      @Waiting.pack_lost _ _ _ _ lag room _ _ hwaiting hne
    refine .inr ⟨_, .single hmove, ⟨hwaiting', hsame.trans hsame'⟩, ?_⟩
    rw [hpack]
    exact Finset.card_erase_lt_of_mem (leastOr_mem hne s'.next)

/-- The packet at `dataAck` is under way. -/
def UnderWay (s : State α) : Prop :=
  ∃ x t, s.toReceiver.getLast? = some (t, .data s.dataAck x) ∧ s.clock = t + 1

/-- When the packet at `dataAck` is to be sent again, it goes out next. -/
theorem Waiting.exists_again {s : State α} (h : Waiting first size limit lifetime s)
    (hmem : s.dataAck ∈ s.lost) :
    ∃ s', Moves first size room lifetime lag s s' ∧ Waiting first size limit lifetime s' ∧
      SameKnowledge s s' ∧ UnderWay s' := by
  have hne : s.lost.Nonempty := ⟨_, hmem⟩
  have hleast : leastOr s.lost s.next = s.dataAck :=
    le_antisymm (leastOr_le s.next hmem) (h.inv.sound.lost _ (leastOr_mem hne s.next)).1
  obtain ⟨x, -, hpack, hmove, hwaiting, hsame⟩ := @Waiting.pack_lost _ _ _ _ lag room _ _ h hne
  refine ⟨_, .single hmove, hwaiting, hsame, x, s.clock, ?_⟩
  rw [hpack, hleast]
  exact ⟨List.getLast?_concat, rfl⟩

/-- A sender that has sent the packet at `dataAck`, and has nothing to send again, will send it
again. -/
theorem Waiting.exists_expiry {s : State α} (h : Waiting first size limit lifetime s)
    (hempty : s.lost = ∅) (hlt : s.dataAck < s.next) :
    ∃ s', Moves first size room lifetime lag s s' ∧ Waiting first size limit lifetime s' ∧
      SameKnowledge s s' ∧ UnderWay s' := by
  have hlast := h.lastAck_eq
  have hexpire : s.expire first = { s with lost := Finset.Icc s.lastAck (s.next - 1) } :=
    if_pos ⟨h.more, by omega, hempty⟩
  have hwaiting : Waiting first size limit lifetime (s.expire first) := by
    refine ⟨h.inv.expire, ?_, ?_, ?_⟩ <;> rw [hexpire]
    · exact h.start_eq
    · exact h.ackPoint_eq
    · exact h.more
  have hsame : SameKnowledge s (s.expire first) := by
    rw [hexpire]
    exact ⟨rfl, rfl, rfl, rfl, rfl⟩
  have hmem : (s.expire first).dataAck ∈ (s.expire first).lost := by
    rw [hexpire]
    exact Finset.mem_Icc.mpr ⟨le_of_eq hlast, show s.dataAck ≤ s.next - 1 by omega⟩
  obtain ⟨s', hmoves, hwaiting', hsame', hway⟩ := hwaiting.exists_again hmem
  exact ⟨s', .head ⟨.expire, trivial, trivial, rfl⟩ hmoves, hwaiting', hsame.trans hsame', hway⟩

/-- A sender that has not sent the packet at `dataAck` can send it. -/
theorem Waiting.exists_next {s : State α} (h : Waiting first size limit lifetime s)
    (heq : s.next = s.dataAck) :
    ∃ s', Moves first size room lifetime lag s s' ∧ Waiting first size limit lifetime s' ∧
      SameKnowledge s s' ∧ UnderWay s' := by
  have hlast := h.lastAck_eq
  have hopen := h.inv.sound.window_open hlast
  have hempty : ¬ s.lost.Nonempty := fun ⟨q, hq⟩ => by
    have hq' := h.inv.sound.lost q hq
    omega
  obtain ⟨x, hx⟩ := h.inv.sound.block_isSome le_rfl h.more
  have hpack : s.pack first 1 =
      { s with next := s.next + 1 }.postForward (.data s.next x) := by
    unfold State.pack
    rw [if_neg hempty, if_pos (le_min (by omega) (by omega)), heq, hx]
  refine ⟨s.pack first 1, .single ⟨.pack 1, trivial, trivial, rfl⟩,
    ⟨h.inv.pack 1, ?_, ?_, ?_⟩, ?_, ?_⟩ <;> rw [hpack]
  · exact h.start_eq
  · exact h.ackPoint_eq
  · exact h.more
  · exact ⟨rfl, rfl, rfl, rfl, rfl⟩
  · refine ⟨x, s.clock, ?_, rfl⟩
    rw [heq]
    exact List.getLast?_concat

/-- The packet at `dataAck` can be sent. -/
theorem Waiting.exists_underWay {s : State α} (h : Waiting first size limit lifetime s) :
    ∃ s', Moves first size room lifetime lag s s' ∧ Waiting first size limit lifetime s' ∧
      SameKnowledge s s' ∧ UnderWay s' := by
  obtain ⟨s', hmoves, ⟨hwaiting, hsame⟩, hempty⟩ :=
    @Waiting.exists_lost_eq_empty _ _ _ _ lag room _ _ h
  have horder := hwaiting.inv.sound.order
  have hnext : ∃ s'', Moves first size room lifetime lag s' s'' ∧
      Waiting first size limit lifetime s'' ∧ SameKnowledge s' s'' ∧ UnderWay s'' := by
    rcases lt_or_eq_of_le (show s'.dataAck ≤ s'.next by omega) with hlt | heq
    · exact hwaiting.exists_expiry hempty hlt
    · exact hwaiting.exists_next heq.symm
  obtain ⟨s'', hmoves', hwaiting', hsame', hway⟩ := hnext
  exact ⟨s'', hmoves.trans hmoves', hwaiting', hsame.trans hsame', hway⟩

/-! ## The receiver -/

/-- What the receiver waits for, when it comes, is not waited for any more. -/
theorem Sound.lt_ackPoint_enter {s : State α} (h : Sound first size limit s) (x : α) :
    s.ackPoint < (s.enter s.ackPoint x).ackPoint := by
  have hupto := h.ackPoint_between.2
  unfold State.enter
  rw [if_neg (not_lt.mpr hupto)]
  dsimp only
  refine Int.lt_of_add_one_le ?_
  split
  · next hge =>
      refine le_leastOr le_rfl fun p hp => ?_
      have hp' := h.missing p hp
      have hle : s.ackPoint ≤ p := Sound.ackPoint_le_missing hp
      omega
  · next hlt =>
      refine le_leastOr (not_le.mp hlt) fun p hp => ?_
      obtain ⟨hne, hp⟩ := Finset.mem_erase.mp hp
      have hle := Sound.ackPoint_le_missing hp
      omega

/-- The receiver does not have the packet it waits for. -/
theorem Sound.held_ackPoint {s : State α} (h : Sound first size limit s) :
    s.held s.ackPoint = none := by
  by_contra hne
  obtain ⟨-, hlt, hnot⟩ := (h.held s.ackPoint).mp hne
  rcases s.missing.eq_empty_or_nonempty with hempty | hne'
  · refine absurd hlt (not_lt.mpr (le_of_eq ?_))
    unfold State.ackPoint
    rw [hempty, leastOr_empty]
  · exact hnot (leastOr_mem hne' s.upto)

theorem SameKnowledge.enter (s : State α) (q : ℤ) (x : α) : SameKnowledge s (s.enter q x) := by
  unfold State.enter State.postBackward
  dsimp only
  constructor <;> split_ifs <;> rfl

/-- The last datagram can be delivered. -/
theorem fresh_of_last (lifetime : ℕ) {β : Type u} {l : List (ℕ × β)} {clock t : ℕ} {m : β}
    (hlast : l.getLast? = some (t, m)) (hclock : clock ≤ t + lifetime) :
    l[l.length - 1]? = some (t, m) ∧
      ∀ t' m', l[l.length - 1]? = some (t', m') → clock ≤ t' + lifetime := by
  rw [List.getLast?_eq_getElem?] at hlast
  refine ⟨hlast, fun t' m' hentry => ?_⟩
  obtain ⟨rfl, -⟩ := Prod.mk.inj (Option.some.inj (hlast.symm.trans hentry))
  exact hclock

/-- The packet that the receiver waits for can come. -/
theorem Waiting.exists_receipt {s : State α} (h : Waiting first size limit lifetime s)
    (hsize : 2 ≤ size) (hlifetime : 1 ≤ lifetime) (hlag : s.acked - s.acknowledged < lag)
    (hway : UnderWay s) :
    ∃ s', Moves first size room lifetime lag s s' ∧ SameKnowledge s s' ∧
      s'.dataAck < s'.ackPoint := by
  obtain ⟨x, t, hlast, hclock⟩ := hway
  have hacked := h.acked_eq
  have hstart := h.start_eq
  have hheld := h.inv.sound.held_ackPoint
  rw [h.ackPoint_eq] at hheld
  have hdata : s.onData size s.dataAck x = s.enter s.dataAck x := by
    refine if_neg ?_
    rw [not_or, not_or, not_not]
    exact ⟨by omega, by omega, hheld⟩
  obtain ⟨hentry, hfresh⟩ := fresh_of_last lifetime hlast
    (show s.clock ≤ t + lifetime by omega)
  have hsame := SameKnowledge.enter s s.dataAck x
  refine ⟨s.enter s.dataAck x,
    .single ⟨.deliverForward (s.toReceiver.length - 1) true, rfl, ⟨hfresh, hlag⟩, ?_⟩,
    hsame, ?_⟩
  · unfold step
    dsimp only
    rw [hentry, ← hdata]
  · have hlt := h.inv.sound.lt_ackPoint_enter x
    rw [h.ackPoint_eq] at hlt
    rwa [hsame.dataAck]

/-! ## Acknowledgements -/

/-- An acknowledgement is remembered. -/
theorem State.mem_store (hroom : 1 ≤ room) (w : List (ℕ × ℤ)) (k : ℕ) (a : ℤ) :
    (k, a) ∈ State.store room w k a := by
  unfold State.store
  split
  · rw [List.drop_append_of_le_length (by omega)]
    exact List.mem_append_right _ (List.mem_singleton_self _)
  · exact List.mem_append_right _ (List.mem_singleton_self _)

/-- What is acknowledged when the sender does not know that it can be read. -/
theorem Sound.sendAck_due {s : State α} (h : Sound first size limit s) (hroom : 1 ≤ room)
    (hlt : s.dataAck < s.ackPoint) :
    ∃ k w s', s.sendAck size room true = s' ∧
      s'.toSender.getLast? = some (s.clock, .ack k s.ackPoint w) ∧ s'.clock = s.clock + 1 ∧
      s'.next = s.next ∧ s'.input = s.input ∧ s'.acked = s.ackPoint ∧
      s'.acknowledged = s.acknowledged ∧ (k, s.ackPoint) ∈ s'.ackWindow := by
  have horder := h.order
  have hne : s.ackPoint ≠ s.acknowledged := by omega
  unfold State.sendAck
  rw [if_neg hne]
  by_cases hmore : s.acked < s.ackPoint
  · rw [if_pos hmore]
    unfold State.emitAck
    rw [if_pos (show s.acknowledged < s.ackPoint by omega)]
    exact ⟨_, _, _, rfl, List.getLast?_concat, rfl, rfl, rfl, rfl, rfl,
      State.mem_store hroom _ _ _⟩
  · have heq : s.ackPoint = s.acked := by omega
    rw [if_neg hmore, if_pos ⟨heq, rfl⟩]
    unfold State.emitAck
    rw [if_pos (show s.acknowledged < s.acked by omega), heq]
    exact ⟨_, _, _, rfl, List.getLast?_concat, rfl, rfl, rfl, rfl, rfl,
      State.mem_store hroom _ _ _⟩

@[simp] theorem State.advance_input (s : State α) (a w : ℤ) :
    (s.advance a w).input = s.input := by
  unfold State.advance
  dsimp only
  split_ifs <;> rfl

/-- The sender learns nothing about what the receiver knows. -/
theorem State.advance_receiver (s : State α) (a w : ℤ) :
    (s.advance a w).acked = s.acked ∧ (s.advance a w).acknowledged = s.acknowledged ∧
      (s.advance a w).ackWindow = s.ackWindow ∧ (s.advance a w).clock = s.clock := by
  unfold State.advance
  dsimp only
  refine ⟨?_, ?_, ?_, ?_⟩ <;> split_ifs <;> rfl

/-- An `ack2` for what is remembered is heard. -/
theorem Sound.onAck2_heard {s : State α} (h : Sound first size limit s) {k : ℕ} {a : ℤ}
    (hmem : (k, a) ∈ s.ackWindow) (hlt : s.acknowledged < a) :
    (s.onAck2 k true).acknowledged = a ∧ (s.onAck2 k true).acked = s.acked ∧
      (s.onAck2 k true).input = s.input ∧ (s.onAck2 k true).dataAck = s.dataAck := by
  unfold State.onAck2
  cases hdrop : s.ackWindow.dropWhile (·.1 ≠ k) with
  | nil => exact absurd (List.dropWhile_eq_nil_iff.mp hdrop _ hmem) (by simp)
  | cons e w =>
      obtain ⟨k', a'⟩ := e
      obtain ⟨-, ha', -⟩ := h.found hdrop
      rw [(h.mem_ackWindow hmem).1] at ha'
      cases ha'
      exact ⟨if_pos ⟨rfl, hlt⟩, rfl, rfl, rfl⟩

/-- The sender can learn what has come, and the receiver that it has. -/
theorem Inv.exists_acknowledgement {s : State α} (h : Inv first size limit lifetime s)
    (hsize : 2 ≤ size) (hroom : 1 ≤ room) (hlifetime : 1 ≤ lifetime)
    (hlag : s.ackPoint - s.acknowledged < lag) (hlt : s.dataAck < s.ackPoint) :
    ∃ s', Moves first size room lifetime lag s s' ∧ s'.input = s.input ∧
      s.dataAck < s'.dataAck ∧ s'.acknowledged = s'.acked := by
  have horder := h.sound.order
  obtain ⟨k, w, s₁, hs₁, hlast, hclock, hnext, hinput, hacked, hacknowledged, hmem⟩ :=
    h.sound.sendAck_due hroom hlt
  have hmove₁ : Move first size room lifetime lag s s₁ :=
    ⟨.sendAck true, trivial, show s.acked - s.acknowledged < lag by omega, congrArg some hs₁⟩
  have hinv₁ := h.move hsize hmove₁
  -- The acknowledgement comes to the sender.
  have hack : s₁.onAck k s.ackPoint w true =
      (s₁.advance s.ackPoint w).postForward (.ack2 k) := by
    have hnext' : (s₁.postForward (.ack2 k)).next = s₁.next := rfl
    unfold State.onAck
    dsimp only
    rw [if_pos rfl, hnext', if_neg (by omega), State.advance_postForward]
  obtain ⟨hentry, hfresh⟩ := fresh_of_last lifetime hlast
    (show s₁.clock ≤ s.clock + lifetime by omega)
  have hmove₂ : Move first size room lifetime lag s₁ (s₁.onAck k s.ackPoint w true) := by
    refine ⟨.deliverBackward (s₁.toSender.length - 1) true, rfl, hfresh, ?_⟩
    unfold SelectiveRepeat.step
    dsimp only
    rw [hentry]
  have hinv₂ := hinv₁.move hsize hmove₂
  -- The `ack2` comes to the receiver.
  obtain ⟨hacked', hacknowledged', hwindow', hclock'⟩ := s₁.advance_receiver s.ackPoint w
  rw [hack] at hmove₂ hinv₂
  obtain ⟨s₂, hs₂⟩ : ∃ s₂, (s₁.advance s.ackPoint w).postForward (.ack2 k) = s₂ := ⟨_, rfl⟩
  have hdataAck : s.ackPoint ≤ s₂.dataAck := hs₂ ▸ s₁.le_advance_dataAck s.ackPoint w
  have hlast' : s₂.toReceiver.getLast? = some (s₁.clock, .ack2 k) := by
    rw [← hs₂, ← hclock']
    exact List.getLast?_concat
  have hclock'' : s₂.clock = s₁.clock + 1 := by
    rw [← hs₂, ← hclock']
    rfl
  have hacked'' : s₂.acked = s.ackPoint := hs₂ ▸ hacked'.trans hacked
  have hacknowledged'' : s₂.acknowledged = s.acknowledged :=
    hs₂ ▸ hacknowledged'.trans hacknowledged
  have hinput' : s₂.input = s.input := hs₂ ▸ (s₁.advance_input s.ackPoint w).trans hinput
  have hmem' : (k, s.ackPoint) ∈ s₂.ackWindow := by
    rw [← hs₂]
    exact hwindow' ▸ hmem
  rw [hs₂] at hmove₂ hinv₂
  obtain ⟨hheard, hacked₃, hinput₃, hdataAck₃⟩ := hinv₂.sound.onAck2_heard hmem' (by omega)
  obtain ⟨hentry', hfresh'⟩ := fresh_of_last lifetime hlast'
    (show s₂.clock ≤ s₁.clock + lifetime by omega)
  have hmove₃ : Move first size room lifetime lag s₂ (s₂.onAck2 k true) := by
    refine ⟨.deliverForward (s₂.toReceiver.length - 1) true, rfl, ⟨hfresh', by omega⟩, ?_⟩
    unfold SelectiveRepeat.step
    dsimp only
    rw [hentry']
  exact ⟨s₂.onAck2 k true, .head hmove₁ (.head hmove₂ (.single hmove₃)), hinput₃.trans hinput',
    by omega, by omega⟩

/-! ## Delivery -/

/-- Wherever some packets are not acknowledged, one more can be. -/
theorem Inv.exists_more {s : State α} (h : Inv first size limit lifetime s) (hsize : 2 ≤ size)
    (hroom : 1 ≤ room) (hlifetime : 1 ≤ lifetime) (hlag : s.acked - s.acknowledged + size ≤ lag)
    (hmore : s.dataAck < first + s.input.length) :
    ∃ s', Moves first size room lifetime lag s s' ∧ s'.input = s.input ∧
      s.dataAck < s'.dataAck ∧ s'.acknowledged = s'.acked := by
  have horder := h.sound.order
  have htake : Move first size room lifetime lag s (s.take s.acked) :=
    ⟨.take s.acked, rfl, trivial, if_pos ⟨h.sound.start_le, le_rfl⟩⟩
  have hinv := h.move hsize htake
  have hroom' : s.ackPoint < s.acked + size :=
    hinv.sound.ackPoint_between.2.trans_lt hinv.sound.upto_lt
  rcases lt_or_eq_of_le (show s.dataAck ≤ s.ackPoint by omega) with hlt | heq
  · obtain ⟨s', hmoves, hinput, hless, hheard⟩ :=
      @Inv.exists_acknowledgement _ _ _ _ lag room _ _ hinv hsize hroom hlifetime
        (show s.ackPoint - s.acknowledged < lag by omega) hlt
    exact ⟨s', .head htake hmoves, hinput, hless, hheard⟩
  · have hwaiting : Waiting first size limit lifetime (s.take s.acked) :=
      ⟨hinv, rfl, heq.symm, hmore⟩
    obtain ⟨s₁, hmoves₁, hwaiting₁, hsame₁, hway⟩ :=
      @Waiting.exists_underWay _ _ _ _ lag room _ _ hwaiting
    have hacked₁ : s₁.acked = s.acked := hsame₁.acked
    have hacknowledged₁ : s₁.acknowledged = s.acknowledged := hsame₁.acknowledged
    obtain ⟨s₂, hmoves₂, hsame₂, hlt⟩ :=
      @Waiting.exists_receipt _ _ _ _ lag room _ _ hwaiting₁ hsize hlifetime (by omega) hway
    have hinv₂ := hwaiting₁.inv.moves hsize hmoves₂
    have hsame := hsame₁.trans hsame₂
    have hstart₂ : s₂.start = s.acked := hsame.start
    have hacknowledged₂ : s₂.acknowledged = s.acknowledged := hsame.acknowledged
    have hroom₂ : s₂.ackPoint < s₂.start + size :=
      hinv₂.sound.ackPoint_between.2.trans_lt hinv₂.sound.upto_lt
    obtain ⟨s₃, hmoves₃, hinput, hless, hheard⟩ :=
      @Inv.exists_acknowledgement _ _ _ _ lag room _ _ hinv₂ hsize hroom hlifetime (by omega) hlt
    refine ⟨s₃, (Relation.ReflTransGen.head htake hmoves₁).trans (hmoves₂.trans hmoves₃),
      hinput.trans hsame.input, ?_, hheard⟩
    rwa [hsame.dataAck] at hless

/-- A run goes on from every state to one in which all that was handed over is read and
acknowledged. -/
theorem Inv.exists_delivery {s : State α} (h : Inv first size limit lifetime s) (hsize : 2 ≤ size)
    (hroom : 1 ≤ room) (hlifetime : 1 ≤ lifetime)
    (hlag : s.acked - s.acknowledged + size ≤ lag) :
    ∃ s', Moves first size room lifetime lag s s' ∧ s'.input = s.input ∧
      s'.dataAck = first + s.input.length ∧ s'.start = first + s.input.length := by
  have horder := h.sound.order
  have hround : ∀ s', (Inv first size limit lifetime s' ∧ s'.input = s.input ∧
      s'.acked - s'.acknowledged + size ≤ lag) →
      s'.dataAck = first + s.input.length ∨
        ∃ s'', Moves first size room lifetime lag s' s'' ∧
          (Inv first size limit lifetime s'' ∧ s''.input = s.input ∧
            s''.acked - s''.acknowledged + size ≤ lag) ∧
          (first + s.input.length - s''.dataAck).toNat <
            (first + s.input.length - s'.dataAck).toNat := by
    rintro s' ⟨hinv, hinput, hlag'⟩
    have horder' := hinv.sound.order
    rw [hinput] at horder'
    rcases lt_or_eq_of_le (show s'.dataAck ≤ first + s.input.length by omega) with hlt | heq
    · obtain ⟨s'', hmoves, hinput', hless, hheard⟩ :=
        @Inv.exists_more _ _ _ _ lag room _ _ hinv hsize hroom hlifetime hlag' (hinput ▸ hlt)
      exact .inr ⟨s'', hmoves, ⟨hinv.moves hsize hmoves, hinput'.trans hinput, by omega⟩,
        by omega⟩
    · exact .inl heq
  obtain ⟨s', hmoves, ⟨hinv, hinput, -⟩, hall⟩ :=
    TransitionSystem.exists_of_measure _ hround ⟨h, rfl, hlag⟩
  have horder' := hinv.sound.order
  rw [hinput] at horder'
  have htake : Move first size room lifetime lag s' (s'.take s'.acked) :=
    ⟨.take s'.acked, rfl, trivial, if_pos ⟨hinv.sound.start_le, le_rfl⟩⟩
  refine ⟨s'.take s'.acked, hmoves.tail htake, hinput, hall, ?_⟩
  exact show s'.acked = first + s.input.length by omega

end SelectiveRepeat
