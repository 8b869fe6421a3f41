import DesktopSync.Analysis.AckWindow
import DesktopSync.Analysis.RcvBuffer
import DesktopSync.Analysis.RcvLossList
import DesktopSync.Analysis.UdtSender

/-!
# The receiver repeats selectively

`ReceiverRep` relates the receiver of UDT to that of selective repeat, as `SenderRep` does for
the sender: its packets are in the slots of a circular array, what is missing is in its loss
list, and the acknowledgements it remembers are in its window.
-/

set_option autoImplicit false

namespace DesktopSync.Analysis

open DesktopSync.Model
open CSeqNo CAckNo
open SelectiveRepeat (State Forward Backward leastOr)

/-- One acknowledgement is not remembered in the array of 1024. -/
def ackRoom : ℕ := 1023

structure ReceiverRep (o : UdtOptions) (s : State (List UInt8)) (r : UdtReceiver) : Prop where
  rcvBuffer : ∃ c, RcvHeld r.rcvBuffer c s.start s.acked s.held
  bufSize : r.rcvBuffer.size = o.rcvBufSize
  rcvLossList : RcvHolds r.rcvLossList s.missing
  lossSize : r.rcvLossList.size = o.flightFlagSize
  ackWindow : ∃ entries : List AckEntry, AckHolds r.ackWindow entries ∧
    entries.map (fun e => (e.1, e.2.1)) = s.ackWindow.map fun e => (ackno e.1, seqno e.2)
  ackSize : r.ackWindow.size = 1024
  rcvLastAck : r.rcvLastAck = seqno s.acked
  rcvLastAckAck : r.rcvLastAckAck = seqno s.acknowledged
  rcvCurrSeqNo : Before r.rcvCurrSeqNo s.upto
  ackSeqNo : r.ackSeqNo = ackno s.acks.length

/-- The bytes that can be read, and are not. -/
def unread (s : State (List UInt8)) (r : UdtReceiver) : List UInt8 :=
  readable r.rcvBuffer s.start s.acked s.held

namespace ReceiverRep

variable {o : UdtOptions} {first : ℤ} {s : State (List UInt8)} {r : UdtReceiver}

/-- What is acknowledged next. -/
theorem ack (h : ReceiverRep o s r) : r.ack = seqno s.ackPoint := by
  have hlength := h.rcvLossList.getLossLength
  unfold UdtReceiver.ack State.ackPoint
  rcases s.missing.eq_empty_or_nonempty with hempty | hne
  · rw [hlength, hempty, if_pos (by rw [Finset.card_empty, Nat.cast_zero]),
      SelectiveRepeat.leastOr_empty, h.rcvCurrSeqNo.incseq]
  · have hcard := Finset.card_pos.mpr hne
    rw [if_neg (by omega)]
    exact h.rcvLossList.getFirstLostSeq (SelectiveRepeat.leastOr_mem hne _)
      fun q hq => SelectiveRepeat.leastOr_le _ hq

/-! ## Packets -/

/-- What is missing when a packet has come. -/
theorem detectLoss (h : ReceiverRep o s r) (hlimit : o.rcvBufSize * 2 < seqNoTH)
    (hmissing : ∀ p ∈ s.missing, s.acked ≤ p ∧ p < s.upto) (hnonneg : 0 ≤ s.acked)
    (hstart : s.start ≤ s.acked) (hupto : s.acked ≤ s.upto ∧ s.upto < s.start + o.rcvBufSize)
    {q : ℤ} (hge : s.acked ≤ q) (hroom : q < s.start + o.rcvBufSize - 1) :
    (r.detectLoss (seqno q)).1 =
        (if s.upto < q then [ofBackward (.nak s.upto (q - 1))] else []) ∧
      ((r.detectLoss (seqno q)).2.enter (seqno q)).rcvLastAckAck = r.rcvLastAckAck ∧
      ((r.detectLoss (seqno q)).2.enter (seqno q)).rcvBuffer = r.rcvBuffer ∧
      ReceiverRep o
        (if s.upto ≤ q then
          { s with missing := s.missing ∪ Finset.Icc s.upto (q - 1), upto := q + 1 }
        else { s with missing := s.missing.erase q })
        ((r.detectLoss (seqno q)).2.enter (seqno q)) := by
  have hsize := h.lossSize
  have hle := o.rcvBufSize_le
  have hgap : 0 < seqcmp (seqno q) (incseq r.rcvCurrSeqNo) ↔ s.upto < q := by
    rw [h.rcvCurrSeqNo.incseq]
    exact seqcmp_pos (by
      rw [abs_lt]
      omega)
  have hlast : 0 < seqcmp (seqno q) r.rcvCurrSeqNo ↔ s.upto ≤ q :=
    h.rcvCurrSeqNo.seqcmp_pos (by omega) (by
      rw [abs_lt]
      omega)
  have hbefore : Before (seqno q) (q + 1) := .inl (by rw [add_sub_cancel_right])
  unfold UdtReceiver.detectLoss UdtReceiver.enter
  by_cases hmore : s.upto < q
  · have hinsert := h.rcvLossList.insert (a := s.upto) (b := q - 1) (by omega)
      (fun p hp => (hmissing p hp).2) fun p hp => by
        rcases Finset.mem_insert.mp hp with rfl | hp
        · omega
        · have hp' := hmissing p hp
          omega
    rw [if_pos (hgap.mpr hmore), if_pos hmore, if_pos (le_of_lt hmore)]
    dsimp only
    rw [if_pos (hlast.mpr (le_of_lt hmore)), h.rcvCurrSeqNo.incseq, decseq_seqno]
    exact ⟨rfl, rfl, rfl, { h with
      rcvLossList := hinsert
      lossSize := (RcvHolds.kept_size r.rcvLossList _ _ 0).1.trans hsize
      rcvCurrSeqNo := hbefore }⟩
  · rw [if_neg (mt hgap.mp hmore), if_neg hmore]
    dsimp only
    by_cases hend : s.upto ≤ q
    · have hnone : s.missing ∪ Finset.Icc s.upto (q - 1) = s.missing := by
        rw [Finset.Icc_eq_empty (by omega), Finset.union_empty]
      rw [if_pos (hlast.mpr hend), if_pos hend, hnone]
      exact ⟨rfl, rfl, rfl, { h with rcvCurrSeqNo := hbefore }⟩
    · have hremove := (h.rcvLossList.remove (q := q) fun p hp => by
        have hp' := hmissing p hp
        rw [abs_lt]
        omega).2
      rw [if_neg (mt hlast.mp hend), if_neg hend]
      exact ⟨rfl, rfl, rfl, { h with
        rcvLossList := hremove
        lossSize := (RcvHolds.kept_size r.rcvLossList 0 0 _).2.trans hsize }⟩

/-- A packet comes, and is kept if there is room for it and it has not come before. -/
theorem processData (h : ReceiverRep o s r) (hs : SoundFor o first s) (ho : Near o first)
    {q : ℤ} (hlt : q < s.next) (hnear : s.next - q < seqNoTH) (x : List UInt8) :
    ∃ (m : Option Backward) (H : ℤ → Option (List UInt8)) (M : Finset ℤ) (t : ℤ),
      s.onData o.rcvBufSize q x =
        m.elim { s with held := H, missing := M, upto := t }
          { s with held := H, missing := M, upto := t }.postBackward ∧
      (r.processData (seqno q) x).1 = (m.map ofBackward).toList ∧
      ReceiverRep o { s with held := H, missing := M, upto := t }
        (r.processData (seqno q) x).2 ∧
      unread { s with held := H, missing := M, upto := t } (r.processData (seqno q) x).2 =
        unread s r ∧
      (r.processData (seqno q) x).2.rcvLastAckAck = r.rcvLastAckAck := by
  have horder := hs.order
  have hstart := hs.start_le
  have hlimit := ho.rcvBufSize
  have hwindow := ho.flowWindowSize
  have hnonneg := ho.first_nonneg
  obtain ⟨c, hheld⟩ := h.rcvBuffer
  have hoffset : seqoff r.rcvLastAck (seqno q) = q - s.acked := by
    rw [h.rcvLastAck]
    exact seqoff_seqno (by
      rw [abs_lt]
      omega)
  have havail : r.rcvBuffer.getAvailBufSize = s.start + o.rcvBufSize - 1 - s.acked := by
    rw [hheld.getAvailBufSize, h.bufSize]
  have hstay : ReceiverRep o { s with held := s.held, missing := s.missing, upto := s.upto } r := h
  unfold State.onData UdtReceiver.processData
  dsimp only
  rw [hoffset, havail]
  by_cases hout : q < s.acked ∨ s.start + o.rcvBufSize - 1 ≤ q
  · rw [if_pos (hout.elim .inl fun hright => .inr (.inl hright)), if_pos (by omega)]
    exact ⟨none, s.held, s.missing, s.upto, rfl, rfl, hstay, rfl, rfl⟩
  · obtain ⟨hge, hroom⟩ := not_or.mp hout
    have hadd := hheld.addData x (q - s.acked) (by omega) (by omega)
    have hread := hheld.readable_addData x (q - s.acked) (by omega)
    rw [add_sub_cancel] at hadd hread
    rw [if_neg (show ¬ (q - s.acked < 0 ∨ s.start + o.rcvBufSize - 1 - s.acked ≤ q - s.acked) by
      omega), hadd.1]
    by_cases hfree : s.held q = none
    · rw [if_pos hfree] at hadd
      rw [if_neg (by
        rw [not_or, not_or, not_not]
        exact ⟨hge, hroom, hfree⟩), decide_eq_true hfree, if_neg (show ¬ true = false by decide)]
      have hsize : (r.rcvBuffer.addData x (q - s.acked)).2.size = r.rcvBuffer.size := by
        unfold RcvBuffer.addData
        dsimp only
        split <;> rfl
      have hadded : ReceiverRep o { s with held := Function.update s.held q (some x) }
          { r with rcvBuffer := (r.rcvBuffer.addData x (q - s.acked)).2 } :=
        { h with
          rcvBuffer := ⟨c, hadd.2⟩
          bufSize := hsize.trans h.bufSize }
      obtain ⟨hpackets, hlastAckAck, hbuffer, hrep⟩ := hadded.detectLoss hlimit hs.missing
        (show 0 ≤ s.acked by omega) hstart ⟨hs.acked_le, hs.upto_lt⟩ (not_lt.mp hge)
        (not_le.mp hroom)
      have hunread : readable
          (({ r with rcvBuffer := (r.rcvBuffer.addData x (q - s.acked)).2 }.detectLoss
            (seqno q)).2.enter (seqno q)).rcvBuffer s.start s.acked
            (Function.update s.held q (some x)) = unread s r := by
        rw [hbuffer]
        exact hread
      unfold State.enter
      by_cases hlast : s.upto ≤ q
      · rw [if_pos hlast] at hrep
        by_cases hgap : s.upto < q
        · rw [if_pos hgap] at hpackets ⊢
          refine ⟨some (.nak s.upto (q - 1)), _, _, _, ?_, hpackets, hrep, hunread, hlastAckAck⟩
          dsimp only
          rw [if_pos (show s.upto ≤ q from hlast)]
          rfl
        · rw [if_neg hgap] at hpackets ⊢
          have hnone : s.missing ∪ Finset.Icc s.upto (q - 1) = s.missing := by
            rw [Finset.Icc_eq_empty (by omega), Finset.union_empty]
          refine ⟨none, _, _, _, ?_, hpackets, hrep, hunread, hlastAckAck⟩
          dsimp only
          rw [if_pos (show s.upto ≤ q from hlast), hnone]
          rfl
      · have hgap : ¬ s.upto < q := fun hlt => hlast (le_of_lt hlt)
        rw [if_neg hlast] at hrep
        rw [if_neg hgap] at hpackets ⊢
        refine ⟨none, _, _, _, ?_, hpackets, hrep, hunread, hlastAckAck⟩
        dsimp only
        rw [if_neg hlast]
        rfl
    · rw [if_pos (.inr (.inr hfree)), decide_eq_false hfree, if_pos rfl]
      exact ⟨none, s.held, s.missing, s.upto, rfl, rfl, hstay, rfl, rfl⟩

/-! ## Acknowledgements -/

/-- What is remembered of acknowledgements that are stored. -/
theorem map_storeEntry {entries : List AckEntry} {w : List (ℕ × ℤ)}
    (h : entries.map (fun e => (e.1, e.2.1)) = w.map fun e => (ackno e.1, seqno e.2)) (k : ℕ)
    (a now : ℤ) :
    (storeEntry ackRoom entries (ackno k, seqno a, now)).map (fun e => (e.1, e.2.1)) =
      (State.store ackRoom w k a).map fun e => (ackno e.1, seqno e.2) := by
  have hlength := congrArg List.length h
  rw [List.length_map, List.length_map] at hlength
  have happend : (entries ++ [(ackno k, seqno a, now)]).map (fun e => (e.1, e.2.1)) =
      (w ++ [(k, a)]).map fun e => (ackno e.1, seqno e.2) := by
    rw [List.map_append, List.map_append, h]
    rfl
  unfold storeEntry State.store
  rw [hlength]
  split
  · rw [List.map_drop, happend, ← List.map_drop]
  · exact happend

/-- An ACK goes out if the sender may not know what it says. -/
theorem emitAck (h : ReceiverRep o s r) (hle : s.acknowledged ≤ s.acked)
    (hlag : s.acked - s.acknowledged < seqNoTH) (now : ℤ) :
    ∃ (m : Option Backward) (ks : List ℤ) (w : List (ℕ × ℤ)),
      s.emitAck o.rcvBufSize ackRoom = m.elim { s with acks := ks, ackWindow := w }
        { s with acks := ks, ackWindow := w }.postBackward ∧
      (r.emitAck now).1 = m.map ofBackward ∧
      ReceiverRep o { s with acks := ks, ackWindow := w } (r.emitAck now).2 ∧
      (r.emitAck now).2.rcvBuffer = r.rcvBuffer ∧
      (r.emitAck now).2.rcvLastAck = r.rcvLastAck := by
  obtain ⟨c, hheld⟩ := h.rcvBuffer
  have hnew : 0 < seqcmp r.rcvLastAck r.rcvLastAckAck ↔ s.acknowledged < s.acked := by
    rw [h.rcvLastAck, h.rcvLastAckAck]
    exact seqcmp_pos (by
      rw [abs_lt]
      omega)
  have hnumber : incack r.ackSeqNo = ackno (s.acks.length + 1 : ℕ) := by
    rw [h.ackSeqNo, incack_ackno]
    rfl
  unfold State.emitAck UdtReceiver.emitAck
  by_cases hmore : s.acknowledged < s.acked
  · obtain ⟨entries, hentries, hmap⟩ := h.ackWindow
    have hstore := hentries.store (by
      rw [h.ackSize]
      decide) (ackno (s.acks.length + 1 : ℕ), seqno s.acked, now)
    rw [h.ackSize] at hstore
    rw [if_pos hmore, if_pos (hnew.mpr hmore), hnumber, h.rcvLastAck, hheld.getAvailBufSize,
      h.bufSize]
    refine ⟨some (.ack (s.acks.length + 1) s.acked _), _, _, rfl, rfl, { h with
      ackWindow := ⟨_, hstore, map_storeEntry hmap _ _ _⟩
      ackSize := h.ackSize
      rcvLastAck := rfl
      ackSeqNo := ?_ }, rfl, rfl⟩
    rw [List.length_append, List.length_singleton]
  · rw [if_neg hmore, if_neg (mt hnew.mp hmore)]
    exact ⟨none, s.acks, s.ackWindow, rfl, rfl, h, rfl, rfl⟩

/-- What has come is given free for reading, and acknowledged. -/
theorem sendAck (h : ReceiverRep o s r) (hs : SoundFor o first s) (ho : Near o first)
    (hlag : s.acked - s.acknowledged + o.rcvBufSize < seqNoTH) (due : Bool) (now : ℤ) :
    ∃ (m : Option Backward) (R : ℤ) (ks : List ℤ) (w : List (ℕ × ℤ)),
      s.sendAck o.rcvBufSize ackRoom due =
        m.elim { s with acked := R, acks := ks, ackWindow := w }
          { s with acked := R, acks := ks, ackWindow := w }.postBackward ∧
      (r.sendAck due now).1 = m.map ofBackward ∧
      ReceiverRep o { s with acked := R, acks := ks, ackWindow := w } (r.sendAck due now).2 ∧
      (s.acked ≤ R ∧ R ≤ s.ackPoint) ∧
      unread { s with acked := R, acks := ks, ackWindow := w } (r.sendAck due now).2 =
        unread s r ++ bytesFrom s.held s.acked (R - s.acked).toNat ∧
      seqoff r.rcvLastAck (r.sendAck due now).2.rcvLastAck = R - s.acked := by
  have horder := hs.order
  have hstart := hs.start_le
  have hlimit := ho.rcvBufSize
  have hupto := hs.upto_lt
  obtain ⟨c, hheld⟩ := h.rcvBuffer
  have hknown : r.ack = r.rcvLastAckAck ↔ s.ackPoint = s.acknowledged := by
    rw [h.ack, h.rcvLastAckAck]
    exact seqno_inj (by
      rw [abs_lt]
      omega)
  have hmore : 0 < seqcmp r.ack r.rcvLastAck ↔ s.acked < s.ackPoint := by
    rw [h.ack, h.rcvLastAck]
    exact seqcmp_pos (by
      rw [abs_lt]
      omega)
  have hsame : r.ack = r.rcvLastAck ↔ s.ackPoint = s.acked := by
    rw [h.ack, h.rcvLastAck]
    exact seqno_inj (by
      rw [abs_lt]
      omega)
  have hself : seqoff r.rcvLastAck r.rcvLastAck = s.acked - s.acked := by
    rw [h.rcvLastAck]
    exact seqoff_seqno (by
      rw [sub_self]
      decide)
  have hnothing : unread s r =
      unread s r ++ bytesFrom s.held s.acked (s.acked - s.acked).toNat := by
    rw [sub_self]
    exact (List.append_nil _).symm
  have hstay : ∃ (m : Option Backward) (R : ℤ) (ks : List ℤ) (w : List (ℕ × ℤ)),
      s = m.elim { s with acked := R, acks := ks, ackWindow := w }
          { s with acked := R, acks := ks, ackWindow := w }.postBackward ∧
      none = m.map ofBackward ∧
      ReceiverRep o { s with acked := R, acks := ks, ackWindow := w } r ∧
      (s.acked ≤ R ∧ R ≤ s.ackPoint) ∧
      unread { s with acked := R, acks := ks, ackWindow := w } r =
        unread s r ++ bytesFrom s.held s.acked (R - s.acked).toNat ∧
      seqoff r.rcvLastAck r.rcvLastAck = R - s.acked :=
    ⟨none, s.acked, s.acks, s.ackWindow, rfl, rfl, h, ⟨le_rfl, by omega⟩, hnothing, hself⟩
  unfold State.sendAck UdtReceiver.sendAck
  by_cases hknown' : s.ackPoint = s.acknowledged
  · rw [if_pos hknown', if_pos (hknown.mpr hknown')]
    exact hstay
  · rw [if_neg hknown', if_neg (mt hknown.mp hknown')]
    by_cases hmore' : s.acked < s.ackPoint
    · have hoffset : seqoff r.rcvLastAck r.ack = s.ackPoint - s.acked := by
        rw [h.ack, h.rcvLastAck]
        exact seqoff_seqno (by
          rw [abs_lt]
          omega)
      have hacked := hheld.ackData (n := s.ackPoint - s.acked) (by omega) fun q hq hlt => by
        refine (hs.held q).mpr ⟨by omega, by omega, fun hmem => ?_⟩
        have hle := SelectiveRepeat.Sound.ackPoint_le_missing hmem
        omega
      have hread := hheld.readable_ackData (n := s.ackPoint - s.acked) (by omega)
      rw [add_sub_cancel] at hacked hread
      have hreleased : ReceiverRep o { s with acked := s.ackPoint }
          { r with
            rcvLastAck := r.ack
            rcvBuffer := r.rcvBuffer.ackData (s.ackPoint - s.acked) } :=
        { h with
          rcvBuffer := ⟨c, hacked⟩
          bufSize := h.bufSize
          rcvLastAck := h.ack }
      obtain ⟨m, ks, w, habstract, hout, hrep, hbuffer, hlastAck⟩ := hreleased.emitAck
        (show s.acknowledged ≤ s.ackPoint by omega)
        (show s.ackPoint - s.acknowledged < seqNoTH by omega) now
      rw [if_pos hmore', if_pos (hmore.mpr hmore'), hoffset]
      refine ⟨m, s.ackPoint, ks, w, habstract, hout, hrep, ⟨le_of_lt hmore', le_rfl⟩, ?_, ?_⟩
      · unfold unread
        rw [hbuffer]
        exact hread
      · rw [hlastAck]
        exact hoffset
    · rw [if_neg hmore', if_neg (mt hmore.mp hmore')]
      by_cases hagain : s.ackPoint = s.acked ∧ due = true
      · obtain ⟨m, ks, w, habstract, hout, hrep, hbuffer, hlastAck⟩ := h.emitAck
          (show s.acknowledged ≤ s.acked by omega) (by omega) now
        rw [if_pos hagain, if_pos ⟨hsame.mpr hagain.1, hagain.2⟩]
        refine ⟨m, s.acked, ks, w, habstract, hout, hrep, ⟨le_rfl, by omega⟩, ?_, ?_⟩
        · unfold unread at hnothing ⊢
          rw [hbuffer]
          exact hnothing
        · rw [hlastAck]
          exact hself
      · rw [if_neg hagain, if_neg fun hagain' => hagain ⟨hsame.mp hagain'.1, hagain'.2⟩]
        exact hstay

theorem sendLiteAck (h : ReceiverRep o s r) (hs : SoundFor o first s)
    (hlag : s.acked - s.acknowledged + o.rcvBufSize < seqNoTH) :
    ∃ m : Option Backward, s.sendLiteAck = m.elim s s.postBackward ∧
      r.sendLiteAck = m.map ofBackward := by
  have horder := hs.order
  have hstart := hs.start_le
  have hupto := hs.upto_lt
  have hknown : r.ack = r.rcvLastAckAck ↔ s.ackPoint = s.acknowledged := by
    rw [h.ack, h.rcvLastAckAck]
    exact seqno_inj (by
      rw [abs_lt]
      omega)
  unfold State.sendLiteAck UdtReceiver.sendLiteAck
  by_cases hknown' : s.ackPoint = s.acknowledged
  · rw [if_pos hknown', if_pos (hknown.mpr hknown')]
    exact ⟨none, rfl, rfl⟩
  · rw [if_neg hknown', if_neg (mt hknown.mp hknown'), h.ack]
    exact ⟨some (.liteAck s.ackPoint), rfl, rfl⟩

/-- What is found among the entries is what is found among the acknowledgements. -/
theorem map_dropWhile {entries : List AckEntry} {w : List (ℕ × ℤ)} {k : ℕ}
    (h : entries.map (fun e => (e.1, e.2.1)) = w.map fun e => (ackno e.1, seqno e.2))
    (hk : ∀ e ∈ w, ackno e.1 = ackno k ↔ e.1 = k) :
    (entries.dropWhile (·.1 ≠ ackno k)).map (fun e => (e.1, e.2.1)) =
      (w.dropWhile (·.1 ≠ k)).map fun e => (ackno e.1, seqno e.2) := by
  induction w generalizing entries with
  | nil =>
      rw [List.map_nil, List.map_eq_nil_iff] at h
      rw [h]
      rfl
  | cons e w ih =>
      cases entries with
      | nil => cases h
      | cons e' entries =>
          rw [List.map_cons, List.map_cons] at h
          obtain ⟨hhead, htail⟩ := List.cons.inj h
          have hfirst : e'.1 = ackno e.1 := (Prod.mk.inj hhead).1
          have hsame := hk e List.mem_cons_self
          by_cases heq : e.1 = k
          · rw [List.dropWhile_cons_of_neg (by simp [hfirst, heq]),
              List.dropWhile_cons_of_neg (by simp [heq]), List.map_cons, List.map_cons, hhead,
              htail]
          · have hne : e'.1 ≠ ackno k := hfirst ▸ mt hsame.mp heq
            rw [List.dropWhile_cons_of_pos (by simpa using hne),
              List.dropWhile_cons_of_pos (by simpa using heq)]
            exact ih htail fun e he => hk e (List.mem_cons_of_mem _ he)

/-- What an ACK2 says. It counts if the time that has passed since the ACK is positive. -/
theorem processAck2 (h : ReceiverRep o s r) (hs : SoundFor o first s) {k : ℕ} {a : ℤ}
    (ha : s.acks[k - 1]? = some a) (hlate : (s.acks.length : ℤ) - k ≤ maxAckSeqNo)
    (hnear : |a - s.acknowledged| < seqNoTH) :
    ∃ stamp : ℤ, ∀ now, ∃ (w : List (ℕ × ℤ)) (A : ℤ),
      s.onAck2 k (decide (0 < (now - stamp).bmod (2 ^ 32))) =
        { s with ackWindow := w, acknowledged := A } ∧
      ReceiverRep o { s with ackWindow := w, acknowledged := A }
        (r.processAck2 (ackno k) now) ∧
      (r.processAck2 (ackno k) now).rcvBuffer = r.rcvBuffer ∧
      seqoff r.rcvLastAckAck (r.processAck2 (ackno k) now).rcvLastAckAck =
        A - s.acknowledged := by
  obtain ⟨entries, hentries, hmap⟩ := h.ackWindow
  have hself : seqoff r.rcvLastAckAck r.rcvLastAckAck = s.acknowledged - s.acknowledged := by
    rw [h.rcvLastAckAck]
    exact seqoff_seqno (by
      rw [sub_self]
      decide)
  have hroom : s.ackWindow.length ≤ ackRoom := by
    obtain ⟨c, t, hslots⟩ := hentries
    have hlength := congrArg List.length hmap
    have hfits := hslots.room
    rw [List.length_map, List.length_map] at hlength
    rw [h.ackSize, hlength] at hfits
    unfold ackRoom
    omega
  have hk := (List.getElem?_eq_some_iff.mp ha).1
  have hdrop := map_dropWhile hmap (k := k) fun e he => by
    obtain ⟨-, hle, hrecent⟩ := hs.mem_ackWindow he
    have hmax : (ackRoom : ℤ) < maxAckSeqNo := by decide
    rw [ackno_inj (by
      rw [abs_le]
      omega), Nat.cast_inj]
  unfold State.onAck2 UdtReceiver.processAck2
  cases hfound : s.ackWindow.dropWhile (·.1 ≠ k) with
  | nil =>
      rw [hfound, List.map_nil, List.map_eq_nil_iff] at hdrop
      refine ⟨0, fun now => ⟨s.ackWindow, s.acknowledged, rfl, ?_⟩⟩
      obtain ⟨hanswer, hheld⟩ := hentries.acknowledge (ackno k) now
      unfold findEntry at hanswer hheld
      rw [hdrop] at hanswer hheld
      dsimp only at hanswer hheld ⊢
      rw [hanswer]
      exact ⟨{ h with
        ackWindow := ⟨entries, hheld, hmap⟩
        ackSize := (AckHolds.acknowledge_size _ _ _).trans h.ackSize }, rfl, hself⟩
  | cons e rest =>
      obtain ⟨k', a'⟩ := e
      obtain ⟨-, ha', -⟩ := hs.found hfound
      obtain rfl : a = a' := Option.some.inj (ha.symm.trans ha')
      cases hdrop' : entries.dropWhile (·.1 ≠ ackno k) with
      | nil =>
          rw [hdrop', hfound] at hdrop
          cases hdrop
      | cons e' rest' =>
          rw [hdrop', hfound, List.map_cons, List.map_cons] at hdrop
          obtain ⟨hhead, hrest⟩ := List.cons.inj hdrop
          have hack : e'.2.1 = seqno a := (Prod.mk.inj hhead).2
          refine ⟨e'.2.2, fun now => ?_⟩
          obtain ⟨hanswer, hheld⟩ := hentries.acknowledge (ackno k) now
          unfold findEntry at hanswer hheld
          rw [hdrop'] at hanswer hheld
          dsimp only at hanswer hheld ⊢
          rw [hanswer, hack]
          dsimp only
          have hrep : ReceiverRep o { s with ackWindow := rest }
              { r with ackWindow := (r.ackWindow.acknowledge (ackno k) now).2 } :=
            { h with
              ackWindow := ⟨rest', hheld, hrest⟩
              ackSize := (AckHolds.acknowledge_size _ _ _).trans h.ackSize }
          have hnew : 0 < seqcmp (seqno a) r.rcvLastAckAck ↔ s.acknowledged < a := by
            rw [h.rcvLastAckAck]
            exact seqcmp_pos hnear
          by_cases htime : 0 < (now - e'.2.2).bmod (2 ^ 32)
          · rw [decide_eq_true htime, if_neg (not_le.mpr htime)]
            by_cases hmore : s.acknowledged < a
            · refine ⟨rest, a, ?_, ?_⟩
              · rw [if_pos ⟨rfl, hmore⟩]
              · rw [if_pos (hnew.mpr hmore)]
                refine ⟨{ hrep with rcvLastAckAck := rfl }, rfl, ?_⟩
                dsimp only
                rw [h.rcvLastAckAck]
                exact seqoff_seqno (by rwa [abs_sub_comm])
            · refine ⟨rest, s.acknowledged, ?_, ?_⟩
              · rw [if_neg fun hboth => hmore hboth.2]
              · rw [if_neg (mt hnew.mp hmore)]
                exact ⟨hrep, rfl, hself⟩
          · rw [decide_eq_false htime, if_pos (not_lt.mp htime)]
            refine ⟨rest, s.acknowledged, ?_, hrep, rfl, hself⟩
            rw [if_neg fun hboth => Bool.false_ne_true hboth.1]

/-! ## Reading -/

/-- Nothing is given back where nothing is read. -/
theorem take_start (hs : SoundFor o first s) : s.take s.start = s := by
  have hheld : (fun q => if q < s.start then none else s.held q) = s.held := by
    funext q
    split
    · next hlt =>
        by_contra hne
        have hq := (hs.held q).mp (Ne.symm hne)
        omega
    · rfl
  unfold State.take
  rw [hheld]

/-- What is read is what was not read. -/
theorem recv (h : ReceiverRep o s r) (hs : SoundFor o first s) (len : ℤ)
    {out : List UInt8} {r' : UdtReceiver} (hrecv : r.recv len = some (out, r')) :
    ∃ p, s.start ≤ p ∧ p ≤ s.acked ∧ ReceiverRep o (s.take p) r' ∧
      out = (unread s r).take len.toNat ∧ out ++ unread (s.take p) r' = unread s r ∧
      ((unread s r).length < len → p = s.acked) := by
  have hstart := hs.start_le
  unfold UdtReceiver.recv at hrecv
  split at hrecv
  · next hnone =>
      cases hrecv
      refine ⟨s.start, le_rfl, hstart, ?_, ?_, ?_, fun hlt => ?_⟩
      · rw [take_start hs]
        exact h
      · rw [Int.toNat_of_nonpos hnone]
        rfl
      · rw [take_start hs]
        rfl
      · omega
  · next hlen =>
      split at hrecv
      · cases hrecv
      · obtain ⟨c, hheld⟩ := h.rcvBuffer
        obtain ⟨b', p', held', hread, hheld', hleft, hpp', hsame, hsize, hall⟩ :=
          hheld.readBuffer (show 0 ≤ len by omega)
        have htaken : held' = fun q => if q < p' then none else s.held q := by
          funext q
          split
          · next hlt =>
              by_contra hne
              have hq := hheld'.free q hne
              omega
          · next hge => exact hsame q (not_lt.mp hge)
        rw [hread] at hrecv
        cases hrecv
        subst htaken
        refine ⟨p', hpp', hheld'.order, { h with
          rcvBuffer := ⟨c, hheld'⟩
          bufSize := hsize.trans h.bufSize }, rfl, ?_, hall⟩
        unfold unread
        exact (congrArg _ hleft).trans (List.take_append_drop _ _)

/-- There is something to read where packets are given free. -/
theorem exists_recv (h : ReceiverRep o s r) (hlt : s.start < s.acked) (len : ℤ) (hlen : 0 < len) :
    ∃ read, r.recv len = some read := by
  obtain ⟨c, hheld⟩ := h.rcvBuffer
  obtain ⟨b', p', held', hread, -⟩ := hheld.readBuffer (le_of_lt hlen)
  unfold UdtReceiver.recv
  rw [if_neg (by omega), hheld.getRcvDataSize, if_neg (by omega), hread]
  exact ⟨_, rfl⟩

end ReceiverRep

end DesktopSync.Analysis
