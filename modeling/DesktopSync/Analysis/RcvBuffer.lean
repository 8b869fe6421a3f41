import DesktopSync.Computation.CircularArray
import DesktopSync.Model.RcvBuffer

/-!
# The receiver's buffer is a stream

`RcvHeld` says which packets the slots hold: all from `p` to `r`, which can be read, and some
behind. Packets go to free slots only, so none is overwritten before it is read, and what is
read are the bytes of the packets in order.
-/

set_option autoImplicit false

namespace DesktopSync.Analysis

open DesktopSync.Model
open CircularArray

/-- The bytes of `n` packets from `p` on. -/
def bytesFrom (held : ℤ → Option (List UInt8)) (p : ℤ) : ℕ → List UInt8
  | 0 => []
  | n + 1 => (held p).getD [] ++ bytesFrom held (p + 1) n

/-- The slots hold these packets; those from `p` to `r` can be read. -/
structure RcvHeld (b : RcvBuffer) (c p r : ℤ) (held : ℤ → Option (List UInt8)) : Prop where
  size : 0 < b.size
  startPos : b.startPos = slot b.size c p
  lastAckPos : b.lastAckPos = slot b.size c r
  order : p ≤ r
  room : r - p < b.size
  unit : ∀ q, p ≤ q → q < p + b.size → b.unit (slot b.size c q) = held q
  acked : ∀ q, p ≤ q → q < r → held q ≠ none
  free : ∀ q, held q ≠ none → p ≤ q ∧ q < p + b.size - 1
  notch : 0 ≤ b.notch
  inside : b.notch ≠ 0 → p < r ∧ ∀ payload, held p = some payload → b.notch < payload.length

/-- What can be read. -/
def readable (b : RcvBuffer) (p r : ℤ) (held : ℤ → Option (List UInt8)) : List UInt8 :=
  (bytesFrom held p (r - p).toNat).drop b.notch.toNat

theorem bytesFrom_succ (held : ℤ → Option (List UInt8)) (p : ℤ) (n : ℕ) :
    bytesFrom held p (n + 1) = (held p).getD [] ++ bytesFrom held (p + 1) n := rfl

theorem bytesFrom_congr {held held' : ℤ → Option (List UInt8)} (n : ℕ) {p : ℤ}
    (h : ∀ q, p ≤ q → q < p + n → held' q = held q) :
    bytesFrom held' p n = bytesFrom held p n := by
  induction n generalizing p with
  | zero => rfl
  | succ n ih =>
      rw [bytesFrom_succ, bytesFrom_succ, h p le_rfl (by omega),
        ih fun q hq hlt => h q (by omega) (by omega)]

theorem bytesFrom_add (held : ℤ → Option (List UInt8)) (p : ℤ) (m n : ℕ) :
    bytesFrom held p (m + n) = bytesFrom held p m ++ bytesFrom held (p + m) n := by
  induction m generalizing p with
  | zero => simp [bytesFrom]
  | succ m ih =>
      rw [Nat.add_right_comm, bytesFrom_succ, bytesFrom_succ, ih, List.append_assoc,
        Nat.cast_succ, add_assoc, add_comm 1]

namespace RcvHeld

variable {b : RcvBuffer} {c p r : ℤ} {held : ℤ → Option (List UInt8)}

theorem new {bufsize : ℤ} (hsize : 0 < bufsize) (first : ℤ) :
    RcvHeld (.new bufsize) (-first) first first fun _ => none := by
  have hslot : slot bufsize (-first) first = 0 := by
    unfold slot
    rw [neg_add_cancel, Int.zero_emod]
  refine ⟨hsize, hslot.symm, hslot.symm, le_rfl, ?_, fun _ _ _ => rfl, ?_, ?_, le_rfl, ?_⟩
  · exact (sub_self first).symm ▸ hsize
  · intro q hge hlt
    omega
  · exact fun q hne => absurd rfl hne
  · exact fun hne => absurd rfl hne

theorem getRcvDataSize (h : RcvHeld b c p r held) : b.getRcvDataSize = r - p := by
  unfold RcvBuffer.getRcvDataSize
  rw [h.startPos, h.lastAckPos]
  exact slot_sub h.size c h.order h.room

theorem getAvailBufSize (h : RcvHeld b c p r held) : b.getAvailBufSize = p + b.size - 1 - r := by
  unfold RcvBuffer.getAvailBufSize
  rw [h.getRcvDataSize]
  omega

/-- Only a packet that is not there is taken. -/
theorem addData (h : RcvHeld b c p r held) (payload : List UInt8) (offset : ℤ)
    (hnonneg : 0 ≤ offset) (hlt : offset < b.getAvailBufSize) :
    ((b.addData payload offset).1 = decide (held (r + offset) = none)) ∧
      RcvHeld (b.addData payload offset).2 c p r
        (if held (r + offset) = none then Function.update held (r + offset) (some payload)
        else held) := by
  have hsize := h.size
  have horder := h.order
  rw [h.getAvailBufSize] at hlt
  have hpos : (b.lastAckPos + offset).tmod b.size = slot b.size c (r + offset) := by
    rw [h.lastAckPos]
    refine tmod_slot_add c ?_
    have hnonneg' := slot_nonneg hsize c r
    omega
  have hunit := h.unit (r + offset) (by omega) (by omega)
  unfold RcvBuffer.addData
  dsimp only
  rw [hpos, hunit]
  by_cases hfree : held (r + offset) = none
  · rw [if_neg fun hne => hne hfree, if_pos hfree]
    refine ⟨(decide_eq_true hfree).symm, h.size, h.startPos, h.lastAckPos, h.order, h.room, ?_, ?_,
      ?_, h.notch, fun hne => ⟨(h.inside hne).1, fun payload' hpayload => ?_⟩⟩
    · intro q hge hltq
      dsimp only at hltq ⊢
      by_cases heq : q = r + offset
      · subst heq
        rw [Function.update_self, Function.update_self]
      · have hne : slot b.size c q ≠ slot b.size c (r + offset) := fun hslot =>
          heq ((slot_inj (by
            rw [abs_lt]
            omega)).mp hslot)
        rw [Function.update_of_ne heq, Function.update_of_ne hne]
        exact h.unit q hge hltq
    · intro q hge hltq
      rw [Function.update_of_ne (by omega)]
      exact h.acked q hge hltq
    · intro q hq
      dsimp only
      by_cases heq : q = r + offset
      · omega
      · rw [Function.update_of_ne heq] at hq
        exact h.free q hq
    · have hpr := (h.inside hne).1
      rw [Function.update_of_ne (by omega)] at hpayload
      exact (h.inside hne).2 payload' hpayload
  · rw [if_pos hfree, if_neg hfree]
    exact ⟨(decide_eq_false hfree).symm, h⟩

/-- More packets can be read. -/
theorem ackData (h : RcvHeld b c p r held) {n : ℤ} (hn : 0 ≤ n)
    (hheld : ∀ q, r ≤ q → q < r + n → held q ≠ none) :
    RcvHeld (b.ackData n) c p (r + n) held := by
  have hnonneg := slot_nonneg h.size c r
  have horder := h.order
  have hroom := h.room
  have hroom' : r + n - p < b.size := by
    rcases eq_or_lt_of_le hn with rfl | hpos
    · omega
    · have hlast := h.free _ (hheld (r + n - 1) (by omega) (by omega))
      omega
  refine ⟨h.size, h.startPos, ?_, by omega, hroom', h.unit, fun q hge hlt => ?_, h.free, h.notch,
    fun hne => ⟨?_, (h.inside hne).2⟩⟩
  · unfold RcvBuffer.ackData
    dsimp only
    rw [h.lastAckPos]
    exact tmod_slot_add c (by omega)
  · by_cases hr : q < r
    · exact h.acked q hge hr
    · exact hheld q (by omega) hlt
  · have hpr := (h.inside hne).1
    omega

/-- The packet that is read next is given back. -/
theorem release (h : RcvHeld b c p r held) (hpr : p < r) :
    RcvHeld { b with
      unit := Function.update b.unit b.startPos none
      startPos := if b.startPos + 1 = b.size then 0 else b.startPos + 1
      notch := 0 } c (p + 1) r (Function.update held p none) := by
  have hsize := h.size
  have hroom := h.room
  rw [h.startPos]
  refine ⟨h.size, (slot_succ hsize c p).symm, h.lastAckPos, by omega, by
    dsimp only
    omega, fun q hge hlt => ?_, fun q hge hlt => ?_, fun q hne => ?_, le_rfl,
    fun hne => absurd rfl hne⟩
  · dsimp only at hlt ⊢
    have hqp : q ≠ p := by omega
    rw [Function.update_of_ne hqp]
    by_cases hlast : q = p + b.size
    · have hslot : slot b.size c q = slot b.size c p := by
        unfold slot
        rw [hlast, ← add_assoc, Int.add_emod_right]
      rw [hslot, Function.update_self]
      refine (not_not.mp fun hne => ?_ : held q = none).symm
      have hfree := h.free q hne
      omega
    · rw [Function.update_of_ne fun hslot => hqp ((slot_inj (by
        rw [abs_lt]
        omega)).mp hslot)]
      exact h.unit q (by omega) (by omega)
  · rw [Function.update_of_ne (by omega)]
    exact h.acked q (by omega) hlt
  · dsimp only
    by_cases hqp : q = p
    · subst hqp
      exact absurd (Function.update_self _ _ _) hne
    · rw [Function.update_of_ne hqp] at hne
      have hfree := h.free q hne
      omega

/-- What is read before the packet is given back, and what then. -/
theorem readable_release (h : RcvHeld b c p r held) (hpr : p < r) {payload : List UInt8}
    (hp : held p = some payload) {b' : RcvBuffer} (hb' : b'.notch = 0) :
    readable b p r held = payload.drop b.notch.toNat ++
      readable b' (p + 1) r (Function.update held p none) := by
  have hle : b.notch.toNat ≤ payload.length := by
    by_cases hzero : b.notch = 0
    · rw [hzero]
      exact Nat.zero_le _
    · have hlt := (h.inside hzero).2 payload hp
      omega
  obtain ⟨n, hn⟩ : ∃ n : ℕ, (r - p).toNat = n + 1 := ⟨(r - p).toNat - 1, by omega⟩
  have hn' : (r - (p + 1)).toNat = n := by omega
  unfold readable
  rw [hn, hn', bytesFrom_succ, hp, Option.getD_some, List.drop_append_of_le_length hle, hb',
    Int.toNat_zero, List.drop_zero]
  congr 1
  refine (bytesFrom_congr n fun q hge _ => ?_).symm
  exact Function.update_of_ne (show q ≠ p by omega) none held

/-- The loop copies as many bytes as there are, and as are wanted. -/
theorem readLoop (n : ℕ) (h : RcvHeld b c p r held) {rs : ℤ} (hrs : 0 ≤ rs)
    (hn : (r - p).toNat < n) :
    ∃ b' p' held', RcvBuffer.readLoop n b rs =
        some ((readable b p r held).take rs.toNat, b',
          rs - ((readable b p r held).take rs.toNat).length) ∧
      RcvHeld b' c p' r held' ∧ readable b' p' r held' = (readable b p r held).drop rs.toNat ∧
      p ≤ p' ∧ (∀ q, p' ≤ q → held' q = held q) ∧ b'.size = b.size ∧
      ((readable b p r held).length < rs → p' = r) := by
  induction n generalizing b p held rs with
  | zero => omega
  | succ n ih =>
      have horder := h.order
      have hroom := h.room
      have hempty : b.startPos = b.lastAckPos ↔ p = r := by
        rw [h.startPos, h.lastAckPos]
        exact slot_inj (by
          rw [abs_lt]
          omega)
      unfold RcvBuffer.readLoop
      by_cases hmore : b.startPos ≠ b.lastAckPos ∧ 0 < rs
      · rw [if_pos hmore]
        obtain ⟨hne, hpos⟩ := hmore
        have hpr : p < r := lt_of_le_of_ne horder fun heq => hne (hempty.mpr heq)
        obtain ⟨payload, hp⟩ := Option.ne_none_iff_exists'.mp (h.acked p le_rfl hpr)
        have hunit : b.unit b.startPos = some payload := by
          rw [h.startPos, h.unit p le_rfl (by omega), hp]
        have hnotch := h.notch
        have hle : b.notch ≤ payload.length := by
          by_cases hzero : b.notch = 0
          · rw [hzero]
            omega
          · exact le_of_lt ((h.inside hzero).2 payload hp)
        have hlength : (payload.drop b.notch.toNat).length = payload.length - b.notch.toNat :=
          List.length_drop
        rw [hunit]
        dsimp only
        by_cases hwhole : (payload.length : ℤ) - b.notch ≤ rs
        · -- The rest of the packet is wanted.
          have hmin : min ((payload.length : ℤ) - b.notch) rs = payload.length - b.notch :=
            min_eq_left hwhole
          have hreleased := h.release hpr
          obtain ⟨b₀, hb₀⟩ : ∃ b₀, b₀ = { b with
            unit := Function.update b.unit b.startPos none
            startPos := if b.startPos + 1 = b.size then 0 else b.startPos + 1
            notch := 0 } := ⟨_, rfl⟩
          rw [← hb₀] at hreleased ⊢
          have hread := h.readable_release hpr hp (hb₀ ▸ rfl : b₀.notch = 0)
          obtain ⟨b', p', held', hloop, h', hleft, hpp', hsame, hsize, hall⟩ :=
            ih hreleased (show 0 ≤ rs - (payload.length - b.notch) by omega) (by omega)
          have hnat : rs.toNat = (payload.drop b.notch.toNat).length +
              (rs - (payload.length - b.notch)).toNat := by omega
          rw [hmin, if_pos (by omega), hloop, Option.map_some]
          have hsize' : b₀.size = b.size := hb₀ ▸ rfl
          refine ⟨b', p', held', ?_, h', ?_, by omega, fun q hq => ?_, hsize.trans hsize',
            fun hlt => hall ?_⟩
          · rw [hread, hnat, List.take_length_add_append, List.length_append]
            have hcopied : (payload.drop b.notch.toNat).take
                ((payload.length : ℤ) - b.notch).toNat = payload.drop b.notch.toNat :=
              List.take_of_length_le (by omega)
            dsimp only
            rw [hcopied, hlength, sub_sub, Nat.cast_add, Nat.cast_sub (by omega),
              Int.toNat_of_nonneg hnotch]
          · rw [hleft, hread, hnat, List.drop_length_add_append]
          · rw [hsame q hq, Function.update_of_ne (show q ≠ p by omega)]
          · rw [hread, List.length_append, hlength] at hlt
            push_cast at hlt
            omega
        · -- Only a part is wanted, and then nothing.
          have hmin : min ((payload.length : ℤ) - b.notch) rs = rs := min_eq_right (by omega)
          rw [hmin, if_neg (by omega), sub_self]
          have hdone : RcvBuffer.readLoop n { b with notch := b.notch + rs } 0 =
              some ([], { b with notch := b.notch + rs }, 0) := by
            cases n with
            | zero => rfl
            | succ n =>
                unfold RcvBuffer.readLoop
                exact if_neg fun hcond => lt_irrefl 0 hcond.2
          rw [hdone, Option.map_some]
          have hn' : (r - p).toNat ≠ 0 := by omega
          obtain ⟨m, hm⟩ := Nat.exists_eq_succ_of_ne_zero hn'
          have htake : (readable b p r held).take rs.toNat =
              (payload.drop b.notch.toNat).take rs.toNat := by
            unfold readable
            rw [hm, bytesFrom_succ, hp, Option.getD_some,
              List.drop_append_of_le_length (by omega), List.take_append_of_le_length (by omega)]
          have hlong : rs < (readable b p r held).length := by
            unfold readable
            rw [hm, bytesFrom_succ, hp, Option.getD_some,
              List.drop_append_of_le_length (by omega), List.length_append, hlength]
            push_cast
            omega
          refine ⟨{ b with notch := b.notch + rs }, p, held, ?_, ⟨h.size, h.startPos,
            h.lastAckPos, h.order, h.room, h.unit, h.acked, h.free, by
              dsimp only
              omega, fun _ => ⟨hpr, fun payload' hp' => ?_⟩⟩, ?_, le_rfl,
            fun q _ => rfl, rfl, fun hlt => absurd hlong (not_lt.mpr (le_of_lt hlt))⟩
          · rw [htake, List.append_nil, List.length_take, hlength]
            dsimp only
            rw [min_eq_left (by omega), Int.toNat_of_nonneg hrs, sub_self]
          · rw [hp] at hp'
            cases hp'
            dsimp only
            omega
          · unfold readable
            rw [List.drop_drop]
            congr 1
            dsimp only
            omega
      · rw [if_neg hmore]
        have hnil : (readable b p r held).take rs.toNat = [] ∧
            (readable b p r held).drop rs.toNat = readable b p r held := by
          rcases eq_or_lt_of_le hrs with rfl | hpos
          · exact ⟨rfl, rfl⟩
          · have hpr : p = r := hempty.mp (not_not.mp fun hne => hmore ⟨hne, hpos⟩)
            have hnothing : readable b p r held = [] := by
              unfold readable
              rw [hpr, sub_self]
              exact List.drop_nil
            rw [hnothing]
            exact ⟨List.take_nil, List.drop_nil⟩
        rw [hnil.1, hnil.2]
        refine ⟨b, p, held, ?_, h, rfl, le_rfl, fun q _ => rfl, rfl, fun hlt => ?_⟩
        swap
        · exact hempty.mp (not_not.mp fun hne => hmore ⟨hne, by omega⟩)
        rw [List.length_nil, Nat.cast_zero, sub_zero]

/-- `readBuffer` takes bytes from the stream, as many as there are and as are wanted. -/
theorem readBuffer (h : RcvHeld b c p r held) {len : ℤ} (hlen : 0 ≤ len) :
    ∃ b' p' held', b.readBuffer len = some ((readable b p r held).take len.toNat,
        (((readable b p r held).take len.toNat).length : ℤ), b') ∧
      RcvHeld b' c p' r held' ∧ readable b' p' r held' = (readable b p r held).drop len.toNat ∧
      p ≤ p' ∧ (∀ q, p' ≤ q → held' q = held q) ∧ b'.size = b.size ∧
      ((readable b p r held).length < len → p' = r) := by
  have hroom := h.room
  obtain ⟨b', p', held', hloop, h', hleft, hpp', hsame, hsize, hall⟩ :=
    h.readLoop (b.size.toNat + 1) hlen (by omega)
  refine ⟨b', p', held', ?_, h', hleft, hpp', hsame, hsize, hall⟩
  unfold RcvBuffer.readBuffer
  rw [hloop, Option.map_some, sub_sub_cancel]

/-- A packet that comes can not be read yet. -/
theorem readable_addData (h : RcvHeld b c p r held) (payload : List UInt8) (offset : ℤ)
    (hnonneg : 0 ≤ offset) : readable (b.addData payload offset).2 p r
      (Function.update held (r + offset) (some payload)) = readable b p r held := by
  have horder := h.order
  have hnotch : (b.addData payload offset).2.notch = b.notch := by
    unfold RcvBuffer.addData
    dsimp only
    split <;> rfl
  have hsame : bytesFrom (Function.update held (r + offset) (some payload)) p (r - p).toNat =
      bytesFrom held p (r - p).toNat :=
    bytesFrom_congr _ fun q hq hlt =>
      Function.update_of_ne (show q ≠ r + offset by omega) (some payload) held
  unfold readable
  rw [hnotch, hsame]

/-- What is given free is read behind the rest. -/
theorem readable_ackData (h : RcvHeld b c p r held) {n : ℤ} (hn : 0 ≤ n) :
    readable (b.ackData n) p (r + n) held = readable b p r held ++ bytesFrom held r n.toNat := by
  have horder := h.order
  have hnotch : b.notch.toNat ≤ (bytesFrom held p (r - p).toNat).length := by
    by_cases hzero : b.notch = 0
    · rw [hzero]
      exact Nat.zero_le _
    · obtain ⟨hpr, hlt⟩ := h.inside hzero
      obtain ⟨payload, hp⟩ := Option.ne_none_iff_exists'.mp (h.acked p le_rfl hpr)
      obtain ⟨m, hm⟩ : ∃ m : ℕ, (r - p).toNat = m + 1 := ⟨(r - p).toNat - 1, by omega⟩
      have hlt' := hlt payload hp
      rw [hm, bytesFrom_succ, hp, Option.getD_some, List.length_append]
      omega
  have hsplit : (r + n - p).toNat = (r - p).toNat + n.toNat := by omega
  have hstart : p + ((r - p).toNat : ℤ) = r := by omega
  unfold readable
  rw [hsplit, bytesFrom_add, hstart]
  exact List.drop_append_of_le_length hnotch

end RcvHeld

end DesktopSync.Analysis
