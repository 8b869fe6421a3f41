import Mathlib.Data.Nat.Bitwise
import DesktopSync.Analysis.SndBuffer
import DesktopSync.Analysis.SndLossList
import DesktopSync.Computation.SelectiveRepeatSafety
import DesktopSync.Model.Udt

/-!
# The sender repeats selectively

`SenderRep` relates the sender of UDT to that of selective repeat: its numbers go round and
round, its packets are in a queue, and what is to be sent again is in its loss list. As long as
all numbers that it compares are near each other, each of its functions does what selective
repeat does.
-/

set_option autoImplicit false

namespace DesktopSync.Analysis

open DesktopSync.Model
open CSeqNo CAckNo
open SelectiveRepeat (State Forward Backward leastOr)

/-- The datagrams to the receiver. -/
def ofForward : Forward (List UInt8) → CPacket
  | .data q x => .data (seqno q) x
  | .ack2 k => .ack2 (ackno k)

/-- The datagrams to the sender. -/
def ofBackward : Backward → CPacket
  | .ack k a w => .ack (ackno k) (seqno a) w
  | .liteAck a => .liteAck (seqno a)
  | .nak a b => .lossReport (UdtReceiver.lossdata (seqno a) (seqno b))

/-- `v` is the number of the packet before `k`; there is none before the packet 0. -/
def Before (v k : ℤ) : Prop := v = seqno (k - 1) ∨ v = -1 ∧ k = 0

theorem Before.incseq {v k : ℤ} (h : Before v k) : incseq v = seqno k := by
  rcases h with rfl | ⟨rfl, rfl⟩
  · rw [incseq_seqno, sub_add_cancel]
  · rfl

/-- What is compared to it. -/
theorem Before.seqcmp_pos {v k q : ℤ} (h : Before v k) (hq : 0 ≤ q)
    (hnear : |q - (k - 1)| < seqNoTH) : 0 < seqcmp (seqno q) v ↔ k ≤ q := by
  rcases h with rfl | ⟨rfl, rfl⟩
  · rw [CSeqNo.seqcmp_pos hnear]
    omega
  · rw [zero_sub, sub_neg_eq_add] at hnear
    have hsmall : seqno q = q := by
      have hth : seqNoTH ≤ maxSeqNo := by decide
      rw [abs_lt] at hnear
      exact Int.emod_eq_of_lt hq (by omega)
    rw [hsmall]
    unfold seqcmp SerialNumber.cmp
    rw [sub_neg_eq_add, if_pos hnear]
    omega

theorem Before.eq_of_lt {v k first : ℤ} (h : Before v k) (hfirst : 0 ≤ first)
    (hlt : first < k) : v = seqno (k - 1) := by
  rcases h with h | ⟨-, rfl⟩
  · exact h
  · omega

/-! ## Packets -/

/-- The packets from `a` to `b`. -/
def between (input : List (List UInt8)) (first a b : ℤ) : List (List UInt8) :=
  (input.take (b - first).toNat).drop (a - first).toNat

theorem length_between {input : List (List UInt8)} {first a b : ℤ} (hfirst : first ≤ a)
    (hab : a ≤ b) (hb : b ≤ first + input.length) :
    ((between input first a b).length : ℤ) = b - a := by
  unfold between
  rw [List.length_drop, List.length_take]
  omega

theorem getElem?_between {s : State (List UInt8)} {first a b q : ℤ} (hfirst : first ≤ a)
    (haq : a ≤ q) (hqb : q < b) :
    (between s.input first a b)[(q - a).toNat]? = s.block first q := by
  unfold between State.block
  rw [List.getElem?_drop, if_neg (by omega), List.getElem?_take_of_lt (by omega)]
  congr 1
  omega

theorem drop_between (input : List (List UInt8)) {first a b q : ℤ} (hfirst : first ≤ a)
    (haq : a ≤ q) : (between input first a b).drop (q - a).toNat = between input first q b := by
  unfold between
  rw [List.drop_drop]
  congr 1
  omega

theorem between_succ {s : State (List UInt8)} {first a b : ℤ} {x : List UInt8} (hfirst : first ≤ a)
    (hab : a ≤ b) (hx : s.block first b = some x) :
    between s.input first a (b + 1) = between s.input first a b ++ [x] := by
  unfold State.block at hx
  rw [if_neg (by omega)] at hx
  obtain ⟨hlt, rfl⟩ := List.getElem?_eq_some_iff.mp hx
  have hnat : (b + 1 - first).toNat = (b - first).toNat + 1 := by omega
  unfold between
  rw [hnat, List.take_succ_eq_append_getElem hlt, List.drop_append_of_le_length (by
    rw [List.length_take]
    omega)]

theorem drop_block {s : State (List UInt8)} {first b : ℤ} {x : List UInt8} (hfirst : first ≤ b)
    (hx : s.block first b = some x) :
    s.input.drop (b - first).toNat = x :: s.input.drop (b + 1 - first).toNat := by
  unfold State.block at hx
  rw [if_neg (by omega)] at hx
  obtain ⟨hlt, rfl⟩ := List.getElem?_eq_some_iff.mp hx
  have hnat : (b + 1 - first).toNat = (b - first).toNat + 1 := by omega
  rw [hnat]
  exact List.drop_eq_getElem_cons hlt

theorem mem_of_block {s : State (List UInt8)} {first q : ℤ} {x : List UInt8}
    (hx : s.block first q = some x) : x ∈ s.input := by
  unfold State.block at hx
  split at hx
  · cases hx
  · exact List.mem_of_getElem? hx

/-! ## The words of a loss report -/

theorem toNat_ofInt {v : ℤ} (hv : 0 ≤ v) (hv' : v ≤ maxSeqNo) :
    (BitVec.ofInt 32 v).toNat = v.toNat ∧ v.toNat < 2 ^ 31 := by
  have hmax : maxSeqNo = 2147483647 := rfl
  rw [BitVec.toNat_ofInt]
  omega

/-- One number is a word of its own. -/
theorem word_one {v : ℤ} (hv : 0 ≤ v) (hv' : v ≤ maxSeqNo) :
    BitVec.ofInt 32 v &&& 0x80000000#32 = 0 ∧ (BitVec.ofInt 32 v).toInt = v := by
  obtain ⟨hnat, hlt⟩ := toNat_ofInt hv hv'
  constructor
  · apply BitVec.eq_of_toNat_eq
    have hbit : v.toNat.testBit 31 = false := Nat.testBit_lt_two_pow hlt
    rw [BitVec.toNat_and, hnat]
    change v.toNat &&& 2 ^ 31 = 0
    rw [Nat.and_two_pow, hbit]
    rfl
  · rw [BitVec.toInt_eq_toNat_cond, hnat, if_pos (by omega)]
    omega

/-- The first word of two has the bit that the code looks at. -/
theorem word_first {v : ℤ} (hv : 0 ≤ v) (hv' : v ≤ maxSeqNo) :
    (BitVec.ofInt 32 v ||| 0x80000000#32) &&& 0x80000000#32 ≠ 0 ∧
      UdtSender.lossSeq (BitVec.ofInt 32 v ||| 0x80000000#32) = v := by
  obtain ⟨hnat, hlt⟩ := toNat_ofInt hv hv'
  have hor : (BitVec.ofInt 32 v ||| 0x80000000#32).toNat = 2 ^ 31 + v.toNat := by
    rw [BitVec.toNat_or, hnat, Nat.or_comm]
    have hadd := Nat.two_pow_add_eq_or_of_lt hlt 1
    rw [Nat.mul_one] at hadd
    exact hadd.symm
  constructor
  · intro hzero
    have hzero' := congrArg BitVec.toNat hzero
    have hbit : (2 ^ 31 + v.toNat).testBit 31 = true := by
      rw [Nat.testBit_two_pow_add_eq, Nat.testBit_lt_two_pow hlt]
      rfl
    rw [BitVec.toNat_and, hor] at hzero'
    change (2 ^ 31 + v.toNat) &&& 2 ^ 31 = 0 at hzero'
    rw [Nat.and_two_pow, hbit] at hzero'
    exact absurd hzero' (by decide)
  · unfold UdtSender.lossSeq
    rw [BitVec.toInt_eq_toNat_cond, BitVec.toNat_and, hor]
    change (if 2 * ((2 ^ 31 + v.toNat) &&& (2 ^ 31 - 1)) < 2 ^ 32 then
      (((2 ^ 31 + v.toNat) &&& (2 ^ 31 - 1) : ℕ) : ℤ) else _) = v
    rw [Nat.and_two_pow_sub_one_eq_mod, Nat.add_mod_left, Nat.mod_eq_of_lt hlt, if_pos (by omega)]
    omega

/-! ## The sender -/

structure SenderRep (o : UdtOptions) (first : ℤ) (s : State (List UInt8)) (u : UdtSender) :
    Prop where
  sndBuffer : SndQueue u.sndBuffer (between s.input first s.dataAck s.next)
    (s.input.drop (s.next - first).toNat)
  mss : u.sndBuffer.mss = o.payloadSize
  sndLossList : SndHolds u.sndLossList s.lost
  lossSize : u.sndLossList.size = o.flowWindowSize * 2
  flowWindowSize : u.flowWindowSize = s.window
  sndLastAck : u.sndLastAck = seqno s.lastAck
  sndLastDataAck : u.sndLastDataAck = seqno s.dataAck
  sndCurrSeqNo : Before u.sndCurrSeqNo s.next
  broken : u.broken = s.broken
  sndBufSize : u.sndBufSize = o.sndBufSize
  room : first + s.input.length ≤ s.dataAck + o.sndBufSize

/-- The sizes and numbers of a connection are far from the point where they are confused. -/
structure Near (o : UdtOptions) (first : ℤ) : Prop where
  first_nonneg : 0 ≤ first
  first_le : first ≤ maxSeqNo
  flightFlagSize : o.flightFlagSize < seqNoTH
  flowWindowSize : o.flowWindowSize * 2 < seqNoTH

theorem Near.rcvBufSize {o : UdtOptions} {first : ℤ} (h : Near o first) :
    o.rcvBufSize * 2 < seqNoTH := by
  have hle := o.le_flowWindowSize
  have hlimit := h.flowWindowSize
  omega

/-- What selective repeat keeps of the two parties, with the sizes of the connection. -/
abbrev SoundFor (o : UdtOptions) (first : ℤ) (s : State (List UInt8)) : Prop :=
  SelectiveRepeat.Sound first o.rcvBufSize o.flowWindowSize s

namespace SenderRep

variable {o : UdtOptions} {first : ℤ} {s : State (List UInt8)} {u : UdtSender}

/-- A packet that is to be sent again is still there. -/
theorem packLost (h : SenderRep o first s u) (hs : SoundFor o first s) (ho : Near o first)
    (hpackets : ∀ x ∈ s.input, x ≠ []) {q : ℤ} {x : List UInt8} (hx : s.block first q = some x)
    (hq : s.dataAck ≤ q ∧ q < s.next) :
    u.packLost (seqno q) = some (.data (seqno q) x) := by
  have horder := hs.order
  have hlimit := ho.flowWindowSize
  have hoffset : seqoff u.sndLastDataAck (seqno q) = q - s.dataAck := by
    rw [h.sndLastDataAck]
    refine seqoff_seqno ?_
    rw [abs_lt]
    omega
  have hread : u.sndBuffer.readDataAt (q - s.dataAck) = x := by
    refine h.sndBuffer.readDataAt ?_
    rw [getElem?_between (by omega) hq.1 hq.2, hx]
  unfold UdtSender.packLost
  dsimp only
  rw [hoffset, if_neg (by omega), hread, if_neg (hpackets x (mem_of_block hx))]

/-- Packets to be sent again go first. -/
theorem packData_lost (h : SenderRep o first s u) (hs : SoundFor o first s)
    (ho : Near o first) (hpackets : ∀ x ∈ s.input, x ≠ []) (hne : s.lost.Nonempty) (cwnd : ℤ) :
    ∃ x, s.block first (leastOr s.lost s.next) = some x ∧
      (u.packData cwnd).1 = some (ofForward (.data (leastOr s.lost s.next) x)) ∧
      SenderRep o first { s with lost := s.lost.erase (leastOr s.lost s.next) }
        (u.packData cwnd).2 := by
  have horder := hs.order
  have hmem := SelectiveRepeat.leastOr_mem hne s.next
  have hq := hs.lost _ hmem
  obtain ⟨x, hx⟩ := hs.block_isSome hq.1 (by omega)
  obtain ⟨hseq, hlost, hsize⟩ := h.sndLossList.getLostSeq hmem
    fun q hq => SelectiveRepeat.leastOr_le s.next hq
  unfold UdtSender.packData
  dsimp only
  rw [hseq, if_pos (seqno_nonneg _)]
  exact ⟨x, hx, h.packLost hs ho hpackets hx hq,
    { h with
      sndLossList := hlost
      lossSize := hsize.trans h.lossSize }⟩

/-- A new packet goes when none is to be sent again and the windows allow. -/
theorem packData_next (h : SenderRep o first s u) (hs : SoundFor o first s)
    (ho : Near o first) (hempty : s.lost = ∅) (cwnd : ℤ) :
    u.packData cwnd =
      if s.next - s.lastAck + 1 ≤ min s.window cwnd then
        if u.sndBuffer.readData.1 ≠ [] then
          (some (.data (seqno s.next) u.sndBuffer.readData.1),
            { u with sndBuffer := u.sndBuffer.readData.2, sndCurrSeqNo := seqno s.next })
        else (none, { u with sndBuffer := u.sndBuffer.readData.2 })
      else (none, u) := by
  have horder := hs.order
  have hlimit := ho.flowWindowSize
  have hth : seqNoTH ≤ maxSeqNo := by decide
  have hlost := h.sndLossList
  rw [hempty] at hlost
  unfold UdtSender.packData
  dsimp only
  rw [hlost.getLostSeq_empty]
  dsimp only
  rw [if_neg (show ¬ (0 : ℤ) ≤ -1 by decide), h.sndCurrSeqNo.incseq]
  have hlen : seqlen u.sndLastAck (seqno s.next) = s.next - s.lastAck + 1 := by
    rw [h.sndLastAck]
    exact seqlen_seqno (by omega) (by omega)
  rw [hlen, h.flowWindowSize]

/-- One datagram may go out. -/
theorem packData (h : SenderRep o first s u) (hs : SoundFor o first s) (ho : Near o first)
    (hpackets : ∀ x ∈ s.input, x ≠ []) (cwnd : ℤ) :
    ∃ (m : Option (Forward (List UInt8))) (L : Finset ℤ) (n : ℤ),
      s.pack first cwnd =
        m.elim { s with lost := L, next := n } { s with lost := L, next := n }.postForward ∧
      (u.packData cwnd).1 = m.map ofForward ∧
      SenderRep o first { s with lost := L, next := n } (u.packData cwnd).2 := by
  have horder := hs.order
  unfold State.pack
  rcases s.lost.eq_empty_or_nonempty with hempty | hne
  · rw [if_neg (Finset.not_nonempty_iff_eq_empty.mpr hempty), h.packData_next hs ho hempty]
    split
    · cases hblock : s.block first s.next with
      | none =>
          have hall : s.input.drop (s.next - first).toNat = [] := by
            unfold State.block at hblock
            rw [if_neg (by omega)] at hblock
            exact List.drop_eq_nil_of_le (List.getElem?_eq_none_iff.mp hblock)
          have hqueue := h.sndBuffer
          rw [hall] at hqueue
          rw [hqueue.readData_nil]
          exact ⟨none, s.lost, s.next, rfl, rfl, h⟩
      | some x =>
          have hqueue := h.sndBuffer
          rw [drop_block (by omega) hblock] at hqueue
          obtain ⟨hread, hqueue', hmss⟩ := hqueue.readData_cons
          have hne : u.sndBuffer.readData.1 ≠ [] := hread ▸ hpackets x (mem_of_block hblock)
          rw [if_pos hne, hread]
          refine ⟨some (.data s.next x), s.lost, s.next + 1, rfl, rfl, { h with
            sndBuffer := ?_
            mss := hmss.trans h.mss
            sndCurrSeqNo := .inl ?_ }⟩
          · dsimp only
            rw [between_succ (by omega) (by omega) hblock]
            exact hqueue'
          · dsimp only
            rw [add_sub_cancel_right]
    · exact ⟨none, s.lost, s.next, rfl, rfl, h⟩
  · obtain ⟨x, hx, hout, hrep⟩ := h.packData_lost hs ho hpackets hne cwnd
    rw [if_pos hne]
    dsimp only
    rw [hx]
    exact ⟨some (.data (leastOr s.lost s.next) x), s.lost.erase (leastOr s.lost s.next), s.next,
      rfl, hout, hrep⟩

/-- What an ACK says. -/
theorem gotDataAck (h : SenderRep o first s u) (hs : SoundFor o first s)
    (ho : Near o first) {a : ℤ} (hle : a ≤ s.next) (hnear : s.next - a < seqNoTH) (w : ℤ) :
    SenderRep o first (s.advance a w) (u.gotDataAck (seqno a) w) := by
  have horder := hs.order
  have hlimit := ho.flowWindowSize
  -- The numbers of the first step, whichever it is.
  have hlastAck : 0 ≤ seqcmp (seqno a) u.sndLastAck ↔ s.lastAck ≤ a := by
    have hneg : seqcmp (seqno a) (seqno s.lastAck) < 0 ↔ a < s.lastAck := seqcmp_neg (by
      rw [abs_lt]
      omega)
    rw [h.sndLastAck, ← not_lt, hneg, not_lt]
  have hoffset : seqoff (seqno s.dataAck) (seqno a) = a - s.dataAck := seqoff_seqno (by
    rw [abs_lt]
    omega)
  have hfirst : SenderRep o first
      (if s.lastAck ≤ a then { s with window := w, lastAck := a } else s)
      (if 0 ≤ seqcmp (seqno a) u.sndLastAck then
        { u with flowWindowSize := w, sndLastAck := seqno a } else u) := by
    by_cases hnew : s.lastAck ≤ a
    · rw [if_pos hnew, if_pos (hlastAck.mpr hnew)]
      exact { h with flowWindowSize := rfl, sndLastAck := rfl }
    · rw [if_neg hnew, if_neg (mt hlastAck.mp hnew)]
      exact h
  have hdataAck : (if s.lastAck ≤ a then { s with window := w, lastAck := a } else s).dataAck =
      s.dataAck := by split <;> rfl
  have hnext : (if s.lastAck ≤ a then { s with window := w, lastAck := a } else s).next =
      s.next := by split <;> rfl
  have hlost : (if s.lastAck ≤ a then { s with window := w, lastAck := a } else s).lost =
      s.lost := by split <;> rfl
  have hinput : (if s.lastAck ≤ a then { s with window := w, lastAck := a } else s).input =
      s.input := by split <;> rfl
  unfold State.advance UdtSender.gotDataAck
  dsimp only
  generalize (if s.lastAck ≤ a then { s with window := w, lastAck := a } else s) = s₁ at *
  generalize (if 0 ≤ seqcmp (seqno a) u.sndLastAck then
    { u with flowWindowSize := w, sndLastAck := seqno a } else u) = u₁ at *
  rw [hfirst.sndLastDataAck, hdataAck, hoffset]
  by_cases hmore : s.dataAck < a
  · rw [if_pos hmore, if_neg (by omega), decseq_seqno]
    obtain ⟨hremoved, hsize⟩ := hfirst.sndLossList.remove (q := a - 1) fun r hr => by
      rw [hlost] at hr
      have hr' := hs.lost r hr
      have hsize := hfirst.lossSize
      rw [abs_lt]
      omega
    have hqueue := hfirst.sndBuffer
    have hroom := hfirst.room
    rw [hdataAck, hnext, hinput] at hqueue
    rw [hdataAck] at hroom
    refine { hfirst with
      sndBuffer := ?_
      mss := hfirst.mss
      sndLossList := ?_
      lossSize := hsize.trans hfirst.lossSize
      sndLastDataAck := rfl
      room := hroom.trans (by
        dsimp only
        omega) }
    · dsimp only
      rw [hnext, hinput, ← drop_between s.input (by omega) (le_of_lt hmore)]
      refine hqueue.ackData (by omega) ?_
      rw [length_between (by omega) (by omega) (by omega)]
      omega
    · dsimp only
      have hfilter : s₁.lost.filter (a ≤ ·) = s₁.lost.filter (a - 1 < ·) :=
        Finset.filter_congr fun q _ => by omega
      rw [hfilter]
      exact hremoved
  · rw [if_neg hmore, if_pos (by omega)]
    exact hfirst

/-- An ACK is acknowledged when the time has come. -/
theorem processAck (h : SenderRep o first s u) (hs : SoundFor o first s)
    (ho : Near o first) {a : ℤ} (hle : a ≤ s.next) (hnear : s.next - a < seqNoTH) (elapsed : Bool)
    (k : ℕ) (w : ℤ) :
    ∃ confirm : Bool, (elapsed = true → confirm = true) ∧
      (u.processAck elapsed (ackno k) (seqno a) w).1 =
        (if confirm then [ofForward (.ack2 k)] else []) ∧
      SenderRep o first (s.advance a w) (u.processAck elapsed (ackno k) (seqno a) w).2 := by
  have hlate : ¬ 0 < seqcmp (seqno a) (incseq u.sndCurrSeqNo) := by
    rw [h.sndCurrSeqNo.incseq, seqcmp_pos (by
      rw [abs_lt]
      omega)]
    omega
  unfold UdtSender.processAck
  dsimp only
  by_cases hdue : elapsed = true ∨ ackno k = u.sndLastAck2
  · rw [if_pos hdue, if_pos hdue, if_neg hlate]
    refine ⟨true, fun _ => rfl, rfl, ?_⟩
    exact @SenderRep.gotDataAck o first s { u with sndLastAck2 := ackno k } { h with } hs ho a hle
      hnear w
  · rw [if_neg hdue, if_neg hdue, if_neg hlate]
    exact ⟨false, fun helapsed => absurd (.inl helapsed) hdue, rfl, h.gotDataAck hs ho hle hnear w⟩

theorem processLiteAck (h : SenderRep o first s u) (hs : SoundFor o first s)
    (ho : Near o first) {a : ℤ} (hle : a ≤ s.next) (hnear : s.next - a < seqNoTH) :
    SenderRep o first (s.onLiteAck a) (u.processLiteAck (seqno a)) := by
  have horder := hs.order
  have hlimit := ho.flowWindowSize
  have hneg : seqcmp (seqno a) (seqno s.lastAck) < 0 ↔ a < s.lastAck := seqcmp_neg (by
    rw [abs_lt]
    omega)
  unfold State.onLiteAck UdtSender.processLiteAck
  rw [h.sndLastAck]
  by_cases hnew : s.lastAck ≤ a
  · have hoffset : seqoff (seqno s.lastAck) (seqno a) = a - s.lastAck := seqoff_seqno (by
      rw [abs_lt]
      omega)
    rw [if_pos hnew, if_pos (by omega), hoffset, h.flowWindowSize]
    exact { h with flowWindowSize := rfl, sndLastAck := rfl }
  · rw [if_neg hnew, if_neg (by omega)]
    exact h

/-- Packets that were sent and not acknowledged are to be sent again. -/
theorem insertLost (h : SenderRep o first s u) (hs : SoundFor o first s) {a b : ℤ}
    (hab : a ≤ b) (ha : s.dataAck ≤ a) (hb : b < s.next) :
    SenderRep o first { s with lost := s.lost ∪ Finset.Icc a b }
      { u with sndLossList := (u.sndLossList.insert (seqno a) (seqno b)).2 } := by
  have horder := hs.order
  have hin : ∀ r ∈ s.lost ∪ Finset.Icc a b, s.dataAck ≤ r ∧ r < s.next := fun r hr => by
    rcases Finset.mem_union.mp hr with hr | hr
    · exact hs.lost r hr
    · have hr' := Finset.mem_Icc.mp hr
      omega
  obtain ⟨hholds, -, hsize⟩ := h.sndLossList.insert hab fun r hr r' hr' => by
    have hr := hin r hr
    have hr' := hin r' hr'
    have hsize := h.lossSize
    omega
  exact { h with
    sndLossList := hholds
    lossSize := hsize.trans h.lossSize }

/-- A report of packets that were sent. -/
theorem processLossReport (h : SenderRep o first s u) (hs : SoundFor o first s)
    (ho : Near o first) {a b : ℤ} (hfirst : first ≤ a) (hab : a ≤ b) (hb : b < s.next)
    (hnear : s.next - a < seqNoTH) :
    SenderRep o first (s.onNak a b)
      (u.processLossReport (UdtReceiver.lossdata (seqno a) (seqno b))) := by
  have horder := hs.order
  have hlimit := ho.flowWindowSize
  have hnonneg := ho.first_nonneg
  have hlate : ¬ 0 < seqcmp (seqno b) u.sndCurrSeqNo := by
    rw [h.sndCurrSeqNo.seqcmp_pos (by omega) (by
      rw [abs_lt]
      omega)]
    omega
  have hend : seqcmp (seqno b) u.sndLastAck < 0 ↔ b < s.lastAck := by
    rw [h.sndLastAck]
    exact seqcmp_neg (by
      rw [abs_lt]
      omega)
  have hold : b < s.lastAck → s.lost ∪ Finset.Icc (max a s.lastAck) b = s.lost := fun hlt => by
    rw [Finset.Icc_eq_empty (by omega), Finset.union_empty]
  obtain ⟨-, hint⟩ := word_one (seqno_nonneg b) (seqno_le b)
  unfold State.onNak
  rw [if_neg (by omega)]
  by_cases heq : a = b
  · -- The report is for one packet.
    subst heq
    obtain ⟨hbit, -⟩ := word_one (seqno_nonneg a) (seqno_le a)
    unfold UdtReceiver.lossdata
    rw [if_pos rfl, UdtSender.processLossReport, if_neg (not_not_intro hbit), hint]
    unfold UdtSender.insertOne
    by_cases hlt : a < s.lastAck
    · rw [if_pos (hend.mpr hlt), hold hlt]
      exact h
    · rw [if_neg (mt hend.mp hlt), if_neg hlate, max_eq_left (by omega)]
      exact h.insertLost hs le_rfl (by omega) hb
  · obtain ⟨hbit, hseq⟩ := word_first (seqno_nonneg a) (seqno_le a)
    have hne : seqno a ≠ seqno b := fun hseq => heq ((seqno_inj (by
      rw [abs_lt]
      omega)).mp hseq)
    have hbegin : seqcmp (seqno a) u.sndLastAck < 0 ↔ a < s.lastAck := by
      rw [h.sndLastAck]
      exact seqcmp_neg (by
        rw [abs_lt]
        omega)
    have hgood : ¬ 0 < seqcmp (seqno a) (seqno b) := by
      rw [seqcmp_pos (by
        rw [abs_lt]
        omega)]
      omega
    unfold UdtReceiver.lossdata
    rw [if_neg hne, UdtSender.processLossReport, if_pos hbit, hseq, hint]
    have hpair : ∃ u', u.insertPair (seqno a) (seqno b) = some u' ∧
        SenderRep o first { s with lost := s.lost ∪ Finset.Icc (max a s.lastAck) b } u' := by
      unfold UdtSender.insertPair
      rw [if_neg (not_or.mpr ⟨hgood, hlate⟩)]
      by_cases hlt : a < s.lastAck
      · rw [if_neg (not_le.mpr (hbegin.mpr hlt)), max_eq_right (le_of_lt hlt)]
        by_cases hlt' : b < s.lastAck
        · rw [if_neg (not_le.mpr (hend.mpr hlt'))]
          refine ⟨u, rfl, ?_⟩
          rw [Finset.Icc_eq_empty (by omega), Finset.union_empty]
          exact h
        · have hinsert := h.insertLost hs (not_lt.mp hlt') (by omega) hb
          rw [← h.sndLastAck] at hinsert
          rw [if_pos (not_lt.mp (mt hend.mp hlt'))]
          exact ⟨_, rfl, hinsert⟩
      · rw [if_pos (not_lt.mp (mt hbegin.mp hlt)), max_eq_left (by omega)]
        exact ⟨_, rfl, h.insertLost hs hab (by omega) hb⟩
    obtain ⟨u', hpair, hrep⟩ := hpair
    rw [hpair]
    exact hrep

/-- How many packets are kept, sent or not. -/
theorem getCurrBufSize (h : SenderRep o first s u) (hs : SoundFor o first s) :
    u.sndBuffer.getCurrBufSize = first + s.input.length - s.dataAck := by
  have horder := hs.order
  rw [h.sndBuffer.getCurrBufSize, length_between (by omega) (by omega) (by omega),
    List.length_drop]
  omega

/-- The EXP timer. -/
theorem checkTimers (h : SenderRep o first s u) (hs : SoundFor o first s)
    (ho : Near o first) : SenderRep o first (s.expire first) u.checkTimers := by
  have horder := hs.order
  have hlimit := ho.flowWindowSize
  have hcount := h.getCurrBufSize hs
  have hcurr : CSeqNo.incseq u.sndCurrSeqNo ≠ u.sndLastAck ↔ s.lastAck ≠ s.next := by
    rw [h.sndCurrSeqNo.incseq, h.sndLastAck, ne_comm]
    exact not_congr (seqno_inj (by
      rw [abs_lt]
      omega))
  have hlost : u.sndLossList.getLossLength = 0 ↔ s.lost = ∅ := by
    rw [h.sndLossList.getLossLength, Nat.cast_eq_zero, Finset.card_eq_zero]
  unfold State.expire UdtSender.checkTimers
  by_cases hdue : s.dataAck < first + s.input.length ∧ s.lastAck ≠ s.next ∧ s.lost = ∅
  · have hlt : s.lastAck < s.next := lt_of_le_of_ne (by omega) hdue.2.1
    have hinsert := h.insertLost hs (a := s.lastAck) (b := s.next - 1) (by omega) (by omega)
      (by omega)
    rw [hdue.2.2, Finset.empty_union, ← h.sndLastAck,
      ← h.sndCurrSeqNo.eq_of_lt ho.first_nonneg (by omega)] at hinsert
    rw [if_pos hdue, if_pos ⟨by omega, hcurr.mpr hdue.2.1, hlost.mpr hdue.2.2⟩]
    exact hinsert
  · rw [if_neg hdue, if_neg fun hdue' =>
      hdue ⟨by omega, hcurr.mp hdue'.2.1, hlost.mp hdue'.2.2⟩]
    exact h

/-- What is handed over is cut into packets, for which there is room. -/
theorem send (h : SenderRep o first s u) (hs : SoundFor o first s)
    (data : List UInt8) :
    ∃ xs, xs.flatten = data.take (u.send data).1 ∧
      (∀ x ∈ xs, x ≠ [] ∧ x.length ≤ o.payloadSize) ∧
      SenderRep o first (s.send xs) (u.send data).2 := by
  have horder := hs.order
  have hcount := h.getCurrBufSize hs
  unfold UdtSender.send
  split
  · refine ⟨[], rfl, fun x hx => absurd hx List.not_mem_nil, ?_⟩
    unfold State.send
    rw [List.append_nil]
    exact h
  · next hopen =>
      have hless := not_le.mp (not_or.mp hopen).2
      dsimp only
      have hsize : ((min ((u.sndBufSize - u.sndBuffer.getCurrBufSize) * u.sndBuffer.mss).toNat
          data.length : ℕ) : ℤ) ≤
            (u.sndBufSize - u.sndBuffer.getCurrBufSize) * u.sndBuffer.mss := by
        have hnonneg : 0 ≤ (u.sndBufSize - u.sndBuffer.getCurrBufSize) * (u.sndBuffer.mss : ℤ) :=
          mul_nonneg (by omega) (Nat.cast_nonneg _)
        omega
      generalize min _ data.length = size at hsize ⊢
      have hmss := h.mss
      have hpayload := o.le_payloadSize
      have hpos : 0 < u.sndBuffer.mss := by omega
      obtain ⟨hlow, hhigh⟩ := blocks_bounds hpos (data.take size).length
      obtain ⟨hqueue, hsame⟩ := h.sndBuffer.addBuffer (data.take size)
      have hfits : (SndBuffer.blocks u.sndBuffer.mss (data.take size).length : ℤ) ≤
          u.sndBufSize - u.sndBuffer.getCurrBufSize := by
        have hlength := List.length_take_le size data
        have hlt : (SndBuffer.blocks u.sndBuffer.mss (data.take size).length : ℤ) *
            u.sndBuffer.mss <
            (u.sndBufSize - u.sndBuffer.getCurrBufSize + 1) * u.sndBuffer.mss := by
          rw [add_mul, one_mul]
          norm_cast at hsize ⊢
          omega
        have hless := lt_of_mul_lt_mul_right hlt (Nat.cast_nonneg _)
        omega
      refine ⟨_, flatten_packets hlow, fun x hx => hmss ▸ of_mem_packets hpos hhigh hx, { h with
        sndBuffer := ?_
        mss := hsame.trans hmss
        room := ?_ }⟩
      · unfold State.send between at *
        dsimp only
        rw [List.take_append_of_le_length (by omega), List.drop_append_of_le_length (by omega)]
        exact hqueue
      · have hbufSize := h.sndBufSize
        unfold State.send
        dsimp only
        rw [List.length_append, length_packets]
        push_cast
        omega

end SenderRep

end DesktopSync.Analysis
