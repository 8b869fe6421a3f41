import Mathlib.Data.List.Range
import DesktopSync.Computation.DataRefinement
import DesktopSync.Computation.LinkedNodes
import DesktopSync.Model.SndBuffer

/-!
# The sender's buffer is a queue

`SndRing` says how the blocks are linked: those of the packets that were sent, those of the
packets that were not, and those that are free, of which there is always one. New blocks come
in among the free ones, so the packets do not move. `SndQueue` is what a user sees.
-/

set_option autoImplicit false

namespace DesktopSync.Analysis

open DesktopSync.Model
open LinkedNodes

/-- The blocks `us` were sent, the blocks `vs` were not, and those from `lastBlock` on are free. -/
structure SndRing (b : SndBuffer) (us vs fs : List ℕ) : Prop where
  next : NextOf b.next (us ++ (vs ++ b.lastBlock :: fs)) b.firstBlock
  nodup : (us ++ (vs ++ b.lastBlock :: fs)).Nodup
  bound : ∀ p ∈ us ++ (vs ++ b.lastBlock :: fs), p < b.size
  firstBlock : b.firstBlock = (us ++ vs).headD b.lastBlock
  currBlock : b.currBlock = vs.headD b.lastBlock
  length : us.length + vs.length + fs.length + 1 = b.size
  unitsize : 0 < b.unitsize

/-- The packets `old` are sent and not acknowledged, and the packets `new` are to be sent. -/
def SndQueue (b : SndBuffer) (old new : List (List UInt8)) : Prop :=
  b.count = old.length + new.length ∧
    ∃ us vs fs, SndRing b us vs fs ∧ us.map b.data = old ∧ vs.map b.data = new

/-- Numbers that follow each other. -/
theorem nextOf_range {next : ℕ → ℕ} (n a m : ℕ)
    (h : ∀ i < n, next (a + i) = if i + 1 = n then m else a + i + 1) :
    NextOf next (List.range' a n) m := by
  induction n generalizing a with
  | zero => trivial
  | succ n ih =>
      rw [List.range'_succ]
      refine ⟨?_, ih (a + 1) fun i hi => ?_⟩
      · have hnext := h 0 (Nat.succ_pos n)
        rw [Nat.add_zero] at hnext
        rw [hnext]
        cases n with
        | zero => rfl
        | succ n => rfl
      · have hnext := h (i + 1) (Nat.succ_lt_succ hi)
        rw [show a + 1 + i = a + (i + 1) by omega, hnext]
        by_cases hlast : i + 1 = n
        · rw [if_pos hlast, if_pos (by omega)]
        · rw [if_neg hlast, if_neg (by omega)]

/-- From a node one comes to the one that is `n` further. -/
theorem NextOf.iterate {next : ℕ → ℕ} (as : List ℕ) {bs : List ℕ} {m : ℕ}
    (h : NextOf next (as ++ bs) m) :
    next^[as.length] ((as ++ bs).headD m) = bs.headD m := by
  induction as with
  | nil => rfl
  | cons a as ih =>
      rw [List.length_cons, Function.iterate_succ_apply, List.cons_append, List.headD_cons,
        h.1]
      exact ih h.2

/-- The bytes, cut into `n` packets. -/
def packets (mss : ℕ) : ℕ → List UInt8 → List (List UInt8)
  | 0, _ => []
  | n + 1, data => data.take mss :: packets mss n (data.drop mss)

theorem length_packets (mss n : ℕ) (data : List UInt8) : (packets mss n data).length = n := by
  induction n generalizing data with
  | zero => rfl
  | succ n ih => rw [packets, List.length_cons, ih]

theorem flatten_packets {mss n : ℕ} {data : List UInt8} (h : data.length ≤ n * mss) :
    (packets mss n data).flatten = data := by
  induction n generalizing data with
  | zero =>
      rw [Nat.zero_mul, Nat.le_zero, List.length_eq_zero_iff] at h
      exact h.symm
  | succ n ih =>
      rw [Nat.succ_mul] at h
      rw [packets, List.flatten_cons, ih (by rw [List.length_drop]; omega),
        List.take_append_drop]

/-- No packet is empty, and none is too long. -/
theorem of_mem_packets {mss n : ℕ} (hmss : 0 < mss) {data x : List UInt8}
    (h : n * mss < data.length + mss)
    (hx : x ∈ packets mss n data) : x ≠ [] ∧ x.length ≤ mss := by
  induction n generalizing data with
  | zero => cases hx
  | succ n ih =>
      rw [Nat.succ_mul] at h
      rcases List.mem_cons.mp hx with rfl | hx
      · refine ⟨fun hnil => ?_, List.length_take_le mss data⟩
        have hlength := congrArg List.length hnil
        rw [List.length_take, List.length_nil] at hlength
        rcases Nat.min_eq_zero_iff.mp hlength with hzero | hzero
        · omega
        · omega
      · refine ih ?_ hx
        rw [List.length_drop]
        omega

/-- As many packets as are needed. -/
theorem blocks_bounds {mss : ℕ} (hmss : 0 < mss) (len : ℕ) :
    len ≤ SndBuffer.blocks mss len * mss ∧ SndBuffer.blocks mss len * mss < len + mss := by
  have hdiv := Nat.div_add_mod' len mss
  have hmod := Nat.mod_lt len hmss
  unfold SndBuffer.blocks
  split
  · rw [Nat.succ_mul]
    omega
  · omega

namespace SndRing

variable {b : SndBuffer} {us vs fs : List ℕ}

theorem new {size : ℕ} (hsize : 0 < size) (mss : ℕ) (data : ℕ → List UInt8) :
    SndRing (.new size mss data) [] [] (List.range' 1 (size - 1)) := by
  have hrange : List.range' 0 size = 0 :: List.range' 1 (size - 1) := by
    obtain ⟨n, rfl⟩ := Nat.exists_eq_succ_of_ne_zero (Nat.pos_iff_ne_zero.mp hsize)
    rfl
  refine ⟨?_, ?_, ?_, rfl, rfl, ?_, hsize⟩
  · change NextOf _ (0 :: List.range' 1 (size - 1)) 0
    rw [← hrange]
    refine nextOf_range size 0 0 fun i _ => ?_
    rw [Nat.zero_add]
    rfl
  · change (0 :: List.range' 1 (size - 1)).Nodup
    rw [← hrange]
    exact List.nodup_range'
  · change ∀ p ∈ 0 :: List.range' 1 (size - 1), p < size
    rw [← hrange]
    intro p hp
    have hp' := List.mem_range'_1.mp hp
    omega
  · change 0 + 0 + (List.range' 1 (size - 1)).length + 1 = size
    rw [List.length_range']
    omega

/-- New blocks come in behind `lastBlock`. -/
theorem increase (h : SndRing b us vs fs) :
    SndRing b.increase us vs (List.range' b.size b.unitsize ++ fs) := by
  have hunitsize := h.unitsize
  have hbound := h.bound
  have hfresh : ∀ p ∈ List.range' b.size b.unitsize,
      b.size ≤ p ∧ p < b.size + b.unitsize := fun p hp => List.mem_range'_1.mp hp
  have hperm : (us ++ (vs ++ b.lastBlock :: (List.range' b.size b.unitsize ++ fs))).Perm
      (List.range' b.size b.unitsize ++ (us ++ (vs ++ b.lastBlock :: fs))) :=
    List.perm_iff_count.mpr fun p => by
      simp only [List.count_append, List.count_cons]
      omega
  have hlast : b.lastBlock < b.size :=
    hbound _ (List.mem_append_right _ (List.mem_append_right _ List.mem_cons_self))
  have hnextLast : b.increase.next b.lastBlock = b.size :=
    (if_pos hlast).trans (Function.update_self _ _ _)
  have hnextOld : ∀ p, p < b.size → p ≠ b.lastBlock → b.increase.next p = b.next p :=
    fun p hp hne => (if_pos hp).trans (Function.update_of_ne hne _ _)
  refine ⟨?_, hperm.nodup_iff.mpr ?_, fun p hp => ?_, h.firstBlock, h.currBlock, ?_,
    hunitsize⟩
  · have hnext := h.next
    have hnodup := h.nodup
    rw [← List.append_assoc] at hnext hnodup hbound
    obtain ⟨hnextUsed, hnextFirst, hnextFree⟩ := nextOf_append.mp hnext
    obtain ⟨-, hnodupFree, hcross⟩ := List.nodup_append.mp hnodup
    rw [← List.append_assoc]
    refine nextOf_append.mpr ⟨hnextUsed.congr fun p hp => ?_, ?_,
      nextOf_append.mpr ⟨?_, hnextFree.congr fun p hp => ?_⟩⟩
    · exact hnextOld p (hbound p (List.mem_append_left _ hp)) fun heq =>
        hcross p hp _ List.mem_cons_self heq
    · obtain ⟨n, hn⟩ := Nat.exists_eq_succ_of_ne_zero (Nat.pos_iff_ne_zero.mp hunitsize)
      rw [hn]
      exact hnextLast
    · refine nextOf_range _ _ _ fun i hi => ?_
      refine (if_neg (show ¬ b.size + i < b.size by omega)).trans ?_
      by_cases hend : i + 1 = b.unitsize
      · rw [if_pos hend, if_pos (by omega)]
        exact hnextFirst
      · rw [if_neg hend, if_neg (by omega)]
    · refine hnextOld p (hbound p (List.mem_append_right _ (List.mem_cons_of_mem _ hp))) ?_
      rintro rfl
      exact (List.nodup_cons.mp hnodupFree).1 hp
  · refine List.nodup_append.mpr ⟨List.nodup_range', h.nodup, fun p hp q hq heq => ?_⟩
    have hp' := hfresh p hp
    have hq' := hbound q hq
    omega
  · change p < b.size + b.unitsize
    rcases List.mem_append.mp (hperm.subset hp) with hp | hp
    · exact (hfresh p hp).2
    · have hp' := hbound p hp
      omega
  · have hlength := h.length
    rw [List.length_append, List.length_range']
    change _ = b.size + b.unitsize
    omega

/-- Blocks are added until there are enough, whatever is wanted. -/
theorem reserve (h : SndRing b us vs fs) (hcount : b.count = us.length + vs.length) {n size : ℕ}
    (hn : size + b.count < b.size + n) :
    ∃ fs', SndRing (b.reserve n size) us vs fs' ∧ size ≤ fs'.length ∧
      (b.reserve n size).data = b.data ∧ (b.reserve n size).mss = b.mss ∧
      (b.reserve n size).count = b.count := by
  induction n generalizing b fs with
  | zero =>
      have hlength := h.length
      exact ⟨fs, h, by omega, rfl, rfl, rfl⟩
  | succ n ih =>
      unfold SndBuffer.reserve
      split
      · have hunitsize := h.unitsize
        have hmore : (size : ℤ) + b.increase.count < b.increase.size + n := by
          change (size : ℤ) + b.count < (b.size + b.unitsize : ℕ) + n
          push_cast at hn ⊢
          omega
        exact ih h.increase hcount hmore
      · have hlength := h.length
        exact ⟨fs, h, by omega, rfl, rfl, rfl⟩

/-- A packet goes to the first free block. -/
theorem push (h : SndRing b us vs fs) (hfs : fs ≠ []) (x : List UInt8) :
    SndRing { b with
      data := Function.update b.data b.lastBlock x
      lastBlock := b.next b.lastBlock } us (vs ++ [b.lastBlock]) fs.tail ∧
      b.lastBlock ∉ us ∧ b.lastBlock ∉ vs := by
  cases fs with
  | nil => exact absurd rfl hfs
  | cons f fs =>
      have hnext := h.next
      have hnodup := h.nodup
      have hlength := h.length
      have hlink : b.next b.lastBlock = f := by
        rw [← List.append_assoc] at hnext
        exact (nextOf_append.mp hnext).2.1
      have hsame : us ++ (vs ++ b.lastBlock :: f :: fs) =
          us ++ ((vs ++ [b.lastBlock]) ++ f :: fs) := by
        rw [List.append_assoc vs]
        rfl
      rw [← List.append_assoc] at hnodup
      have hcross := (List.nodup_append.mp hnodup).2.2
      rw [List.length_cons] at hlength
      refine ⟨⟨?_, ?_, ?_, ?_, ?_, ?_, h.unitsize⟩, fun hp => ?_, fun hp => ?_⟩
      · dsimp only
        rw [hlink, List.tail_cons, ← hsame]
        exact hnext
      · dsimp only
        rw [hlink, List.tail_cons, ← hsame]
        exact h.nodup
      · dsimp only
        rw [hlink, List.tail_cons, ← hsame]
        exact h.bound
      · dsimp only
        rw [h.firstBlock, ← List.append_assoc, headD_append (us ++ vs)]
        rfl
      · dsimp only
        rw [h.currBlock, headD_append]
        rfl
      · rw [List.length_append, List.length_singleton, List.tail_cons]
        dsimp only
        omega
      · exact hcross _ (List.mem_append_left _ hp) _ List.mem_cons_self rfl
      · exact hcross _ (List.mem_append_right _ hp) _ List.mem_cons_self rfl

/-- The bytes go to as many free blocks as there are packets. -/
theorem fill (h : SndRing b us vs fs) {n : ℕ} (hn : n ≤ fs.length) (data : List UInt8) :
    ∃ ws fs', SndRing (b.fill n data) us (vs ++ ws) fs' ∧
      (us ++ vs).map (b.fill n data).data = (us ++ vs).map b.data ∧
      ws.map (b.fill n data).data = packets b.mss n data ∧
      (b.fill n data).mss = b.mss ∧ (b.fill n data).count = b.count := by
  induction n generalizing b vs fs data with
  | zero =>
      refine ⟨[], fs, ?_, rfl, rfl, rfl, rfl⟩
      rw [List.append_nil]
      exact h
  | succ n ih =>
      have hfs : fs ≠ [] := fun hnil => by
        rw [hnil] at hn
        exact Nat.not_succ_le_zero n hn
      obtain ⟨hpush, hus, hvs⟩ := h.push hfs (data.take b.mss)
      have hlast : b.lastBlock ∉ us ++ vs := fun hp => (List.mem_append.mp hp).elim hus hvs
      obtain ⟨ws, fs', hring, hsame, hws, hmss, hcount⟩ := ih hpush
        (by rw [List.length_tail]; omega) (data.drop b.mss)
      rw [← List.append_assoc, @List.map_append _ _ _ (us ++ vs), @List.map_append _ _ _ (us ++ vs)]
        at hsame
      obtain ⟨hsame, hlastData⟩ := List.append_inj' hsame rfl
      refine ⟨b.lastBlock :: ws, fs', ?_, ?_, ?_, hmss, hcount⟩
      · rw [List.append_assoc] at hring
        exact hring
      · refine hsame.trans (List.map_congr_left fun p hp => ?_)
        refine Function.update_of_ne (fun heq => hlast ?_) _ _
        rwa [← heq]
      · rw [List.map_cons, packets]
        refine congrArg₂ List.cons ?_ hws
        have hhead := List.head_eq_of_cons_eq hlastData
        exact hhead.trans (Function.update_self _ _ _)

/-- The blocks of the packets that are acknowledged become free. -/
theorem release (h : SndRing b us vs fs) {n : ℕ} (hn : n ≤ us.length) (count : ℤ) :
    SndRing { b with firstBlock := b.next^[n] b.firstBlock, count := count }
      (us.drop n) vs (fs ++ us.take n) := by
  have hsplit : us ++ (vs ++ b.lastBlock :: fs) =
      us.take n ++ (us.drop n ++ (vs ++ b.lastBlock :: fs)) := by
    rw [← List.append_assoc (us.take n), List.take_append_drop]
  have hturn : us.drop n ++ (vs ++ b.lastBlock :: (fs ++ us.take n)) =
      us.drop n ++ (vs ++ b.lastBlock :: fs) ++ us.take n := by
    rw [List.append_assoc, List.append_assoc]
    rfl
  have hperm : (us.drop n ++ (vs ++ b.lastBlock :: (fs ++ us.take n))).Perm
      (us ++ (vs ++ b.lastBlock :: fs)) := by
    rw [hturn, hsplit]
    exact List.perm_append_comm
  have hnext := h.next
  have hfirst : b.firstBlock = (us ++ (vs ++ b.lastBlock :: fs)).headD b.firstBlock := by
    rw [h.firstBlock, ← List.append_assoc, headD_append (us ++ vs)]
    rfl
  have hfirst' : b.next^[n] b.firstBlock =
      (us.drop n ++ (vs ++ b.lastBlock :: fs)).headD b.firstBlock := by
    rw [hsplit] at hnext hfirst
    have hstep := NextOf.iterate (us.take n) hnext
    rw [← hfirst, List.length_take, min_eq_left hn] at hstep
    exact hstep
  refine ⟨?_, hperm.nodup_iff.mpr h.nodup, fun p hp => h.bound p (hperm.subset hp), ?_,
    h.currBlock, ?_, h.unitsize⟩
  · rw [hsplit] at hnext
    obtain ⟨hnextOld, hnextRest⟩ := nextOf_append.mp hnext
    dsimp only
    rw [hturn]
    refine nextOf_append.mpr ⟨?_, ?_⟩
    · have hback : (us.take n).headD (b.next^[n] b.firstBlock) = b.firstBlock := by
        cases n with
        | zero => rfl
        | succ n =>
            cases us with
            | nil => exact absurd hn (Nat.not_succ_le_zero n)
            | cons u us => exact h.firstBlock.symm
      rw [hback]
      exact hnextRest
    · rw [hfirst']
      exact hnextOld
  · dsimp only
    rw [hfirst', ← List.append_assoc, headD_append (us.drop n ++ vs)]
    rfl
  · have hlength := h.length
    rw [List.length_append, List.length_drop, List.length_take, min_eq_left hn]
    dsimp only
    omega

end SndRing

/-! ## The queue -/

namespace SndQueue

variable {b : SndBuffer} {old new : List (List UInt8)}

theorem empty {size : ℕ} (hsize : 0 < size) (mss : ℕ) (data : ℕ → List UInt8) :
    SndQueue (.new size mss data) [] [] :=
  ⟨rfl, [], [], _, .new hsize mss data, rfl, rfl⟩

/-- The bytes that are handed over come behind all packets. -/
theorem addBuffer (h : SndQueue b old new) (data : List UInt8) :
    SndQueue (b.addBuffer data) old
      (new ++ packets b.mss (SndBuffer.blocks b.mss data.length) data) ∧
      (b.addBuffer data).mss = b.mss := by
  obtain ⟨hcount, us, vs, fs, hring, rfl, rfl⟩ := h
  rw [List.length_map, List.length_map] at hcount
  have henough : SndBuffer.blocks b.mss data.length + b.count <
      b.size + (SndBuffer.blocks b.mss data.length + b.count.toNat + 1 : ℕ) := by omega
  obtain ⟨fs', hreserved, hroom, hdata, hmss, hcount'⟩ := hring.reserve hcount henough
  obtain ⟨ws, fs'', hfilled, hsame, hws, hmss', hcount''⟩ := hreserved.fill hroom data
  rw [List.map_append, List.map_append] at hsame
  obtain ⟨hus, hvs⟩ := List.append_inj hsame (by rw [List.length_map, List.length_map])
  rw [hdata] at hus hvs
  rw [hmss] at hws hmss'
  have hlength : ws.length = SndBuffer.blocks b.mss data.length := by
    rw [← length_packets b.mss (SndBuffer.blocks b.mss data.length) data, ← hws, List.length_map]
  refine ⟨⟨?_, us, vs ++ ws, fs'', { hfilled with }, hus, ?_⟩, hmss'⟩
  · change _ + _ = _
    rw [hcount'', hcount', hcount, List.length_append, List.length_map, List.length_map,
      length_packets]
    push_cast
    omega
  · change (vs ++ ws).map (SndBuffer.fill _ _ data).data = _
    rw [List.map_append, hvs, hws]

/-- There is nothing to send when all packets are sent. -/
theorem readData_nil (h : SndQueue b old []) : b.readData = ([], b) := by
  obtain ⟨-, us, vs, fs, hring, -, hvs⟩ := h
  rw [List.map_eq_nil_iff] at hvs
  subst hvs
  exact if_pos hring.currBlock

/-- Else the first is sent that was not. -/
theorem readData_cons {x : List UInt8} (h : SndQueue b old (x :: new)) :
    b.readData.1 = x ∧ SndQueue b.readData.2 (old ++ [x]) new ∧ b.readData.2.mss = b.mss := by
  obtain ⟨hcount, us, vs, fs, hring, rfl, hvs⟩ := h
  cases vs with
  | nil => cases hvs
  | cons v vs =>
      rw [List.map_cons] at hvs
      obtain ⟨rfl, rfl⟩ := List.cons.inj hvs
      have hcurr : b.currBlock = v := hring.currBlock
      have hnext := hring.next
      have hnodup := hring.nodup
      have hlink : b.next v = vs.headD b.lastBlock := by
        have hv := (nextOf_append.mp hnext).2.1
        exact hv.trans (headD_append vs (b.lastBlock :: fs) b.firstBlock)
      have hne : v ≠ b.lastBlock := by
        have hcons := (List.nodup_append.mp hnodup).2.1
        rintro rfl
        exact (List.nodup_cons.mp hcons).1 (List.mem_append_right vs List.mem_cons_self)
      have hmove : us ++ (v :: vs ++ b.lastBlock :: fs) =
          us ++ [v] ++ (vs ++ b.lastBlock :: fs) := by
        rw [List.append_assoc]
        rfl
      have hread : b.readData = (b.data v, { b with currBlock := b.next v }) := by
        unfold SndBuffer.readData
        rw [hcurr, if_neg hne]
      rw [hread]
      refine ⟨rfl, ⟨?_, us ++ [v], vs, fs, ⟨?_, ?_, ?_, ?_, hlink, ?_, hring.unitsize⟩, ?_, rfl⟩,
        rfl⟩
      · dsimp only
        rw [hcount, List.length_append, List.length_cons, List.length_singleton]
        push_cast
        omega
      · exact hmove ▸ hnext
      · exact hmove ▸ hnodup
      · exact hmove ▸ hring.bound
      · have hfirst := hring.firstBlock
        rw [List.append_assoc]
        exact hfirst
      · have hlength := hring.length
        rw [List.length_append, List.length_singleton]
        rw [List.length_cons] at hlength
        dsimp only
        omega
      · exact List.map_append

/-- A packet that was sent can be sent again. -/
theorem readDataAt (h : SndQueue b old new) {offset : ℤ} {x : List UInt8}
    (hx : old[offset.toNat]? = some x) : b.readDataAt offset = x := by
  obtain ⟨-, us, vs, fs, hring, rfl, rfl⟩ := h
  rw [List.getElem?_map, Option.map_eq_some_iff] at hx
  obtain ⟨p, hp, rfl⟩ := hx
  obtain ⟨hlt, rfl⟩ := List.getElem?_eq_some_iff.mp hp
  have hrelease := (hring.release (n := offset.toNat) (le_of_lt hlt) 0).firstBlock
  unfold SndBuffer.readDataAt
  dsimp only at hrelease
  rw [hrelease, List.drop_eq_getElem_cons hlt]
  rfl

/-- What is acknowledged leaves the queue. -/
theorem ackData (h : SndQueue b old new) {offset : ℤ} (hnonneg : 0 ≤ offset)
    (hle : offset ≤ old.length) : SndQueue (b.ackData offset) (old.drop offset.toNat) new := by
  obtain ⟨hcount, us, vs, fs, hring, rfl, rfl⟩ := h
  rw [List.length_map] at hle
  refine ⟨?_, us.drop offset.toNat, vs, _, hring.release (by omega) (b.count - offset), ?_, rfl⟩
  · rw [List.length_map, List.length_map] at hcount
    rw [List.length_drop, List.length_map, List.length_map]
    change b.count - offset = _
    omega
  · exact List.map_drop

theorem getCurrBufSize (h : SndQueue b old new) :
    b.getCurrBufSize = old.length + new.length := h.1

end SndQueue

/-! ## All calls -/

inductive SndBufferCall
  | addBuffer (data : List UInt8)
  | readData
  | readDataAt (offset : ℤ)
  | ackData (offset : ℤ)
  | getCurrBufSize

/-- What a call answers. -/
inductive SndBufferAnswer
  | none
  | packet (data : List UInt8)
  | size (n : ℤ)

/-- The calls of the buffer. -/
def sndBufferCall (b : SndBuffer) : SndBufferCall → SndBufferAnswer × SndBuffer
  | .addBuffer data => (.none, b.addBuffer data)
  | .readData => (.packet b.readData.1, b.readData.2)
  | .readDataAt offset => (.packet (b.readDataAt offset), b)
  | .ackData offset => (.none, b.ackData offset)
  | .getCurrBufSize => (.size b.getCurrBufSize, b)

/-- The calls of a queue: the packets that were sent, and those that were not. -/
def sndQueueCall (mss : ℕ) (q : List (List UInt8) × List (List UInt8)) :
    SndBufferCall → SndBufferAnswer × List (List UInt8) × List (List UInt8)
  | .addBuffer data =>
      (.none, q.1, q.2 ++ packets mss (SndBuffer.blocks mss data.length) data)
  | .readData => (.packet (q.2.headD []), q.1 ++ q.2.take 1, q.2.tail)
  | .readDataAt offset => (.packet (q.1[offset.toNat]?.getD []), q)
  | .ackData offset => (.none, q.1.drop offset.toNat, q.2)
  | .getCurrBufSize => (.size (q.1.length + q.2.length), q)

/-- What the sender keeps to: only packets that were sent are sent again, or acknowledged. -/
def SndBufferCall.Sent (q : List (List UInt8) × List (List UInt8)) : SndBufferCall → Prop
  | .readDataAt offset => offset.toNat < q.1.length
  | .ackData offset => 0 ≤ offset ∧ offset ≤ q.1.length
  | _ => True

/-- One call. -/
theorem SndQueue.call {b : SndBuffer} {q : List (List UInt8) × List (List UInt8)}
    (h : SndQueue b q.1 q.2) {k : SndBufferCall} (hk : k.Sent q) :
    (sndBufferCall b k).1 = (sndQueueCall b.mss q k).1 ∧
      SndQueue (sndBufferCall b k).2 (sndQueueCall b.mss q k).2.1
        (sndQueueCall b.mss q k).2.2 ∧
      (sndBufferCall b k).2.mss = b.mss := by
  obtain ⟨old, new⟩ := q
  cases k with
  | addBuffer data =>
      obtain ⟨h', hmss⟩ := h.addBuffer data
      exact ⟨rfl, h', hmss⟩
  | readData =>
      cases new with
      | nil =>
          unfold sndBufferCall sndQueueCall
          dsimp only
          rw [h.readData_nil, List.take_nil, List.append_nil]
          exact ⟨rfl, h, rfl⟩
      | cons x new =>
          obtain ⟨hx, h', hmss⟩ := h.readData_cons
          exact ⟨congrArg SndBufferAnswer.packet hx, h', hmss⟩
  | readDataAt offset =>
      have hx : old[offset.toNat]? = some (old.get ⟨offset.toNat, hk⟩) :=
        List.getElem?_eq_getElem hk
      refine ⟨congrArg SndBufferAnswer.packet ?_, h, rfl⟩
      dsimp only
      rw [h.readDataAt hx, hx, Option.getD_some]
  | ackData offset => exact ⟨rfl, h.ackData hk.1 hk.2, rfl⟩
  | getCurrBufSize => exact ⟨congrArg SndBufferAnswer.size h.getCurrBufSize, h, rfl⟩

/-- The buffer answers all calls as a queue does, and never runs out of blocks. -/
theorem sndBuffer_transcript {size : ℕ} (hsize : 0 < size) (mss : ℕ) (data : ℕ → List UInt8)
    {ks : List SndBufferCall}
    (hks : DataRefinement.Permitted (sndQueueCall mss) (fun q k => k.Sent q) ([], []) ks) :
    DataRefinement.transcript sndBufferCall (.new size mss data) ks =
      DataRefinement.transcript (sndQueueCall mss) ([], []) ks := by
  refine (DataRefinement.transcript_eq (R := fun b q => SndQueue b q.1 q.2 ∧ b.mss = mss)
    (fun b q k hb hk => ?_) ⟨.empty hsize mss data, rfl⟩ hks).1
  obtain ⟨hanswer, h', hmss⟩ := hb.1.call hk
  rw [hb.2] at hanswer h' hmss
  exact ⟨hanswer, h', hmss⟩

/-- A list of two blocks gets longer while a packet is in it. -/
theorem sndBuffer_transcript_lengthened :
    DataRefinement.transcript sndBufferCall (.new 2 3 fun _ => [])
        [.addBuffer [1, 2], .readData, .addBuffer [3, 4, 5, 6], .readDataAt 0, .readData,
          .ackData 1, .readData, .getCurrBufSize] =
      DataRefinement.transcript (sndQueueCall 3) ([], [])
        [.addBuffer [1, 2], .readData, .addBuffer [3, 4, 5, 6], .readDataAt 0, .readData,
          .ackData 1, .readData, .getCurrBufSize] :=
  sndBuffer_transcript (by decide) 3 _
    ⟨trivial, trivial, trivial, show 0 < 1 by decide, trivial,
      ⟨by decide, show (1 : ℤ) ≤ (2 : ℕ) by decide⟩, trivial, trivial, trivial⟩

end DesktopSync.Analysis
