import DesktopSync.Computation.CircularArray
import DesktopSync.Computation.IntervalList
import DesktopSync.Computation.LinkedNodes
import DesktopSync.Model.SequenceNumber

/-!
# The nodes of a loss list

Both loss lists keep intervals in arrays. `LossNodes` says which intervals the arrays hold,
and how these change where nodes are written: `replace` for one that is there, `add` for
one that comes in. Each list then adds what it alone keeps.
-/

set_option autoImplicit false

namespace DesktopSync.Analysis

open DesktopSync.Model
open CSeqNo CircularArray IntervalList LinkedNodes

/-- The nodes of a list of intervals. -/
def slots (size c : ℤ) (ivs : List Interval) : List ℤ := ivs.map fun x => slot size c x.1

/-- The last number of a node, unless it is the first. -/
def endOf (x : Interval) : ℤ := if x.1 = x.2 then -1 else seqno x.2

/-- Whether a node is for one packet. -/
theorem endOf_eq_iff {x : Interval} : endOf x = -1 ↔ x.1 = x.2 := by
  unfold endOf
  split
  · next heq => exact iff_of_true rfl heq
  · next hne => exact iff_of_false (seqno_ne_neg_one _) hne

@[simp] theorem slots_nil (size c : ℤ) : slots size c [] = [] := rfl

@[simp] theorem slots_cons (size c : ℤ) (x : Interval) (ivs : List Interval) :
    slots size c (x :: ivs) = slot size c x.1 :: slots size c ivs := rfl

@[simp] theorem slots_append (size c : ℤ) (ivs ivs' : List Interval) :
    slots size c (ivs ++ ivs') = slots size c ivs ++ slots size c ivs' :=
  List.map_append

/-- A packet that is near has the slot of a node only if it is the first of the node. -/
theorem slot_mem_slots {size c q : ℤ} {ivs : List Interval} (h : ∀ x ∈ ivs, |q - x.1| < size) :
    slot size c q ∈ slots size c ivs ↔ ∃ x ∈ ivs, x.1 = q := by
  unfold slots
  rw [List.mem_map]
  constructor
  · rintro ⟨x, hx, heq⟩
    exact ⟨x, hx, ((slot_inj (h x hx)).mp heq.symm).symm⟩
  · rintro ⟨x, hx, rfl⟩
    exact ⟨x, hx, rfl⟩

/-- The first slot of some nodes is a slot. -/
theorem headD_ne {size : ℤ} (hsize : 0 < size) (c : ℤ) {ivs : List Interval} (hne : ivs ≠ []) :
    (slots size c ivs).headD (-1) ≠ -1 := by
  cases ivs with
  | nil => exact absurd rfl hne
  | cons x ivs => exact slot_ne_neg_one hsize c x.1

/-- What is written at a slot for the last number. -/
theorem data2_update {a b : ℤ} (hnear : |b - a| < seqNoTH) {p : ℤ} {data2 : ℤ → ℤ}
    (hfree : data2 p = -1) :
    (if seqno b ≠ seqno a then Function.update data2 p (seqno b) else data2) p = endOf (a, b) := by
  have hinj := seqno_inj hnear
  unfold endOf
  by_cases heq : a = b
  · rw [if_neg fun hne => hne (hinj.mpr heq.symm), if_pos heq, hfree]
  · rw [if_pos fun hseq => heq (hinj.mp hseq).symm, if_neg heq, Function.update_self]

/-- Only that slot is written. -/
theorem data2_update_of_ne {a b p q : ℤ} (data2 : ℤ → ℤ) (hne : q ≠ p) :
    (if seqno b ≠ seqno a then Function.update data2 p (seqno b) else data2) q = data2 q := by
  split
  · exact Function.update_of_ne hne _ _
  · rfl

/-- The arrays hold these intervals, in the order of their starts. -/
structure LossChain (data1 data2 succ : ℤ → ℤ) (start count n c : ℤ)
    (ivs : List Interval) : Prop where
  size : 0 < n ∧ n < seqNoTH
  ordered : Ordered ivs
  span : ∀ x ∈ ivs, ∀ y ∈ ivs, y.2 - x.1 < n
  first : ∀ x ∈ ivs, data1 (slot n c x.1) = seqno x.1
  last : ∀ x ∈ ivs, data2 (slot n c x.1) = endOf x
  unused : ∀ p ∉ slots n c ivs, data1 p = -1 ∧ data2 p = -1
  next : NextOf succ (slots n c ivs) (-1)
  head : start = (slots n c ivs).headD (-1)
  length : count = total ivs

/-- They do not overlap. -/
structure LossNodes (data1 data2 succ : ℤ → ℤ) (start count n c : ℤ)
    (ivs : List Interval) : Prop extends LossChain data1 data2 succ start count n c ivs where
  ascending : Ascending ivs

namespace LossChain

variable {data1 data2 next data1' data2' next' : ℤ → ℤ} {head length size c head' length' : ℤ}

/-- Arrays without nodes can be cut open anywhere. -/
theorem nil (hsize : 0 < size ∧ size < seqNoTH) (hunused : ∀ p, data1 p = -1 ∧ data2 p = -1)
    (next : ℤ → ℤ) : LossChain data1 data2 next (-1) 0 size c [] where
  size := hsize
  ordered := ascending_nil.ordered
  span x hx := by cases hx
  first x hx := by cases hx
  last x hx := by cases hx
  unused p _ := hunused p
  next := trivial
  head := rfl
  length := rfl

/-- Two nodes lie less than the size of the arrays apart. -/
theorem near {ivs : List Interval} (h : LossChain data1 data2 next head length size c ivs)
    {x y : Interval} (hx : x ∈ ivs) (hy : y ∈ ivs) : |x.1 - y.1| < size := by
  have hxy := h.span x hx y hy
  have hyx := h.span y hy x hx
  have hvx := h.ordered.valid x hx
  have hvy := h.ordered.valid y hy
  rw [abs_lt]
  omega

/-- The slot of a node is no other one's. -/
theorem slot_notMem {pre post : List Interval} {x : Interval}
    (h : LossChain data1 data2 next head length size c (pre ++ x :: post)) :
    slot size c x.1 ∉ slots size c pre ∧ slot size c x.1 ∉ slots size c post := by
  obtain ⟨-, -, hbefore, hbehind⟩ := ordered_split_iff.mp h.ordered
  have hx : x ∈ pre ++ x :: post := List.mem_append_right pre List.mem_cons_self
  constructor
  · rw [slot_mem_slots fun y hy => h.near hx (List.mem_append_left _ hy)]
    rintro ⟨y, hy, hstart⟩
    have hlt := hbefore y hy
    omega
  · rw [slot_mem_slots fun y hy =>
      h.near hx (List.mem_append_right pre (List.mem_cons_of_mem x hy))]
    rintro ⟨y, hy, hstart⟩
    have hlt := hbehind y hy
    omega

/-- The head is the first node. -/
theorem head_eq_iff {pre post : List Interval} {x : Interval}
    (h : LossChain data1 data2 next head length size c (pre ++ x :: post)) :
    head = slot size c x.1 ↔ pre = [] := by
  rw [h.head, slots_append, slots_cons]
  cases pre with
  | nil => exact iff_of_true rfl rfl
  | cons y pre =>
      refine iff_of_false (fun heq => ?_) (List.cons_ne_nil y pre)
      have hnot := h.slot_notMem.1
      rw [slots_cons, ← heq] at hnot
      exact hnot List.mem_cons_self

/-- No two nodes have one slot. -/
theorem nodup {ivs : List Interval} (h : LossChain data1 data2 next head length size c ivs) :
    (slots size c ivs).Nodup := by
  unfold slots
  refine List.Nodup.map_on (fun x hx y hy heq => ?_) ?_
  · exact h.ordered.eq_of_start hx hy ((slot_inj (h.near hx hy)).mp heq)
  · refine h.ordered.starts.imp_of_mem fun {x y} hx hy hlt heq => ?_
    rw [heq] at hlt
    omega

/-- Where the node `x` goes, and nodes for `mid` come in its place. What is written there is
nothing to the other nodes. -/
theorem replace {pre post : List Interval} {x : Interval}
    (h : LossChain data1 data2 next head length size c (pre ++ x :: post)) (mid : List Interval)
    (hordered : Ordered (pre ++ (mid ++ post)))
    (hspan : ∀ y ∈ pre ++ (mid ++ post), ∀ z ∈ pre ++ (mid ++ post), z.2 - y.1 < size)
    (hsame : ∀ p, p ≠ slot size c x.1 → p ∉ slots size c mid →
      data1' p = data1 p ∧ data2' p = data2 p)
    (hmid : ∀ y ∈ mid, data1' (slot size c y.1) = seqno y.1 ∧
      data2' (slot size c y.1) = endOf y)
    (hgone : slot size c x.1 ∉ slots size c mid →
      data1' (slot size c x.1) = -1 ∧ data2' (slot size c x.1) = -1)
    (hlength : length' = length - (x.2 - x.1 + 1) + total mid)
    (hnext : NextOf next' (slots size c (pre ++ (mid ++ post))) (-1))
    (hhead : head' = (slots size c (pre ++ (mid ++ post))).headD (-1)) :
    LossChain data1' data2' next' head' length' size c (pre ++ (mid ++ post)) := by
  obtain ⟨hpre, hpost⟩ := h.slot_notMem
  -- A node that was there before has its slot neither at `x` nor in `mid`.
  have hother : ∀ y ∈ pre ++ post,
      slot size c y.1 ≠ slot size c x.1 ∧ slot size c y.1 ∉ slots size c mid := by
    intro y hy
    have hold : y ∈ pre ++ x :: post ∧ y ∈ pre ++ (mid ++ post) := by
      rcases List.mem_append.mp hy with hy | hy
      · exact ⟨List.mem_append_left _ hy, List.mem_append_left _ hy⟩
      · exact ⟨List.mem_append_right pre (List.mem_cons_of_mem x hy),
          List.mem_append_right pre (List.mem_append_right mid hy)⟩
    constructor
    · intro heq
      rcases List.mem_append.mp hy with hy | hy
      · exact hpre (heq ▸ List.mem_map_of_mem hy)
      · exact hpost (heq ▸ List.mem_map_of_mem hy)
    · have hnear : ∀ z ∈ mid, |y.1 - z.1| < size := by
        intro z hz
        have hz' : z ∈ pre ++ (mid ++ post) :=
          List.mem_append_right pre (List.mem_append_left post hz)
        have hyz := hspan y hold.2 z hz'
        have hzy := hspan z hz' y hold.2
        have hvy := hordered.valid y hold.2
        have hvz := hordered.valid z hz'
        rw [abs_lt]
        omega
      rw [slot_mem_slots hnear]
      rintro ⟨z, hz, hstart⟩
      have heq := hordered.eq_of_start hold.2
        (List.mem_append_right pre (List.mem_append_left post hz)) hstart.symm
      subst heq
      obtain ⟨-, hmidPost, hbefore⟩ := List.pairwise_append.mp hordered.starts
      rcases List.mem_append.mp hy with hy | hy
      · exact lt_irrefl _ (hbefore y hy y (List.mem_append_left post hz))
      · exact lt_irrefl _ ((List.pairwise_append.mp hmidPost).2.2 y hz y hy)
  have hcontents : ∀ y ∈ pre ++ (mid ++ post),
      data1' (slot size c y.1) = seqno y.1 ∧ data2' (slot size c y.1) = endOf y := by
    have hold : ∀ y ∈ pre ++ post, y ∈ pre ++ x :: post →
        data1' (slot size c y.1) = seqno y.1 ∧ data2' (slot size c y.1) = endOf y := by
      intro y hy hmem
      obtain ⟨hdata1, hdata2⟩ := hsame _ (hother y hy).1 (hother y hy).2
      exact ⟨hdata1.trans (h.first y hmem), hdata2.trans (h.last y hmem)⟩
    intro y hy
    rcases List.mem_append.mp hy with hy | hy
    · exact hold y (List.mem_append_left post hy) (List.mem_append_left _ hy)
    · rcases List.mem_append.mp hy with hy | hy
      · exact hmid y hy
      · exact hold y (List.mem_append_right pre hy)
          (List.mem_append_right pre (List.mem_cons_of_mem x hy))
  have holdLength := h.length
  refine ⟨h.size, hordered, hspan, fun y hy => (hcontents y hy).1,
    fun y hy => (hcontents y hy).2, ?_, hnext, hhead, ?_⟩
  · intro p hp
    rw [slots_append, slots_append, List.mem_append, List.mem_append, not_or, not_or] at hp
    by_cases hpx : p = slot size c x.1
    · rw [hpx]
      rw [hpx] at hp
      exact hgone hp.2.1
    · obtain ⟨hdata1, hdata2⟩ := hsame p hpx hp.2.1
      rw [hdata1, hdata2]
      refine h.unused p ?_
      rw [slots_append, slots_cons, List.mem_append, List.mem_cons, not_or, not_or]
      exact ⟨hp.1, hpx, hp.2.2⟩
  · rw [total_append, total_cons] at holdLength
    rw [hlength, total_append, total_append]
    omega

/-- The slot of a node that comes in is no other one's. -/
theorem fresh_notMem {pre post : List Interval} {x : Interval}
    (hordered : Ordered (pre ++ x :: post))
    (hspan : ∀ y ∈ pre ++ x :: post, ∀ z ∈ pre ++ x :: post, z.2 - y.1 < size) :
    slot size c x.1 ∉ slots size c (pre ++ post) := by
  have hx : x ∈ pre ++ x :: post := List.mem_append_right pre List.mem_cons_self
  have hold : ∀ y ∈ pre ++ post, y ∈ pre ++ x :: post := fun y hy =>
    (List.mem_append.mp hy).elim (List.mem_append_left _)
      fun hy => List.mem_append_right pre (List.mem_cons_of_mem _ hy)
  obtain ⟨hvalid, -, hbefore, hbehind⟩ := ordered_split_iff.mp hordered
  rw [slot_mem_slots fun y hy => ?_]
  · rintro ⟨y, hy, hstart⟩
    rcases List.mem_append.mp hy with hy | hy
    · have hlt := hbefore y hy
      omega
    · have hlt := hbehind y hy
      omega
  · have hxy := hspan x hx y (hold y hy)
    have hyx := hspan y (hold y hy) x hx
    have hvalid' := hordered.valid y (hold y hy)
    rw [abs_lt]
    omega

/-- A node comes in between. -/
theorem add {pre post : List Interval} {a b : ℤ}
    (h : LossChain data1 data2 next head length size c (pre ++ post))
    (hordered : Ordered (pre ++ (a, b) :: post))
    (hspan : ∀ y ∈ pre ++ (a, b) :: post, ∀ z ∈ pre ++ (a, b) :: post, z.2 - y.1 < size)
    (hnext : NextOf next' (slots size c (pre ++ (a, b) :: post)) (-1))
    (hhead : head' = (slots size c (pre ++ (a, b) :: post)).headD (-1)) :
    LossChain (Function.update data1 (slot size c a) (seqno a))
      (if seqno b ≠ seqno a then Function.update data2 (slot size c a) (seqno b) else data2)
      next' head' (length + (b - a + 1)) size c (pre ++ (a, b) :: post) := by
  obtain ⟨hsize, hth⟩ := h.size
  have hx : (a, b) ∈ pre ++ (a, b) :: post := List.mem_append_right pre List.mem_cons_self
  have hold : ∀ y ∈ pre ++ post, y ∈ pre ++ (a, b) :: post := fun y hy =>
    (List.mem_append.mp hy).elim (List.mem_append_left _)
      fun hy => List.mem_append_right pre (List.mem_cons_of_mem _ hy)
  have hvalid := hordered.valid _ hx
  have hnearEnds := hspan _ hx _ hx
  have hnear : |b - a| < seqNoTH := by
    dsimp only at hvalid hnearEnds
    rw [abs_lt]
    omega
  have hnotMem : slot size c a ∉ slots size c (pre ++ post) := fresh_notMem hordered hspan
  have hother : ∀ y ∈ pre ++ post, slot size c y.1 ≠ slot size c a := fun y hy heq =>
    hnotMem (heq ▸ List.mem_map_of_mem hy)
  have hmem : ∀ y ∈ pre ++ (a, b) :: post, y = (a, b) ∨ y ∈ pre ++ post := by
    intro y hy
    rcases List.mem_append.mp hy with hy | hy
    · exact Or.inr (List.mem_append_left post hy)
    · exact (List.mem_cons.mp hy).imp id (List.mem_append_right pre)
  refine ⟨h.size, hordered, hspan, fun y hy => ?_, fun y hy => ?_, fun p hp => ?_, hnext, hhead,
    ?_⟩
  · rcases hmem y hy with rfl | hy
    · exact Function.update_self _ _ _
    · exact (Function.update_of_ne (hother y hy) _ _).trans (h.first y hy)
  · rcases hmem y hy with rfl | hy
    · exact data2_update hnear (h.unused _ hnotMem).2
    · exact (data2_update_of_ne data2 (hother y hy)).trans (h.last y hy)
  · rw [slots_append, slots_cons, List.mem_append, List.mem_cons, not_or, not_or] at hp
    rw [Function.update_of_ne hp.2.1, data2_update_of_ne data2 hp.2.1]
    refine h.unused p ?_
    rw [slots_append, List.mem_append, not_or]
    exact ⟨hp.1, hp.2.2⟩
  · have holdLength := h.length
    rw [total_append] at holdLength
    rw [total_append, total_cons]
    dsimp only
    omega

/-- The first node is at the start of the arrays. -/
theorem add_first (h : LossChain data1 data2 next head length size c []) {a b : ℤ} (hab : a ≤ b)
    (hspan : b - a < size) (hnext : next' 0 = -1) :
    LossChain (Function.update data1 0 (seqno a))
      (if seqno b ≠ seqno a then Function.update data2 0 (seqno b) else data2)
      next' 0 (length + seqlen (seqno a) (seqno b)) size (-a) [(a, b)] := by
  have hth := two_mul_seqNoTH
  have hslot : slot size (-a) a = 0 := by
    unfold slot
    rw [neg_add_cancel, Int.zero_emod]
  have hempty : LossChain data1 data2 next (-1) length size (-a) ([] ++ []) := by
    rw [h.length]
    exact .nil h.size (fun p => h.unused p List.not_mem_nil) next
  have hspan' : ∀ y ∈ [(a, b)], ∀ z ∈ [(a, b)], z.2 - y.1 < size := by
    intro y hy z hz
    rw [List.mem_singleton.mp hy, List.mem_singleton.mp hz]
    exact hspan
  have hsize := h.size
  have hnext' : NextOf next' (slots size (-a) [(a, b)]) (-1) := by
    rw [slots_cons, hslot]
    exact ⟨hnext, trivial⟩
  have hadd := hempty.add (ascending_singleton hab).ordered hspan' hnext'
    (show 0 = _ from hslot.symm)
  rw [hslot] at hadd
  rwa [seqlen_seqno hab (by omega)]

/-- There are no more nodes than slots. -/
theorem length_le {ivs : List Interval} (h : LossChain data1 data2 next head length size c ivs) :
    ivs.length ≤ size.toNat := by
  have hsub : (slots size c ivs).toFinset ⊆ Finset.Ico 0 size := by
    intro p hp
    obtain ⟨x, -, rfl⟩ := List.mem_map.mp (List.mem_toFinset.mp hp)
    exact Finset.mem_Ico.mpr ⟨slot_nonneg h.size.1 c x.1, slot_lt h.size.1 c x.1⟩
  have hcard := Finset.card_le_card hsub
  rw [List.toFinset_card_of_nodup h.nodup, Int.card_Ico, sub_zero] at hcard
  unfold slots at hcard
  rwa [List.length_map] at hcard

/-- The last number of a node changes. -/
theorem lengthen {pre post : List Interval} {x : Interval}
    (h : LossChain data1 data2 next head length size c (pre ++ x :: post)) {b : ℤ}
    (hb : x.1 < b) (hspan : ∀ y ∈ pre ++ x :: post, b - y.1 < size) :
    LossChain data1 (Function.update data2 (slot size c x.1) (seqno b)) next head
      (length + (b - x.2)) size c (pre ++ (x.1, b) :: post) := by
  have hslots : slots size c (pre ++ ([(x.1, b)] ++ post)) = slots size c (pre ++ x :: post) := by
    rw [slots_append, slots_append, slots_append]
    rfl
  obtain ⟨-, hothers, hbefore, hbehind⟩ := ordered_split_iff.mp h.ordered
  have hx : x ∈ pre ++ x :: post := List.mem_append_right pre List.mem_cons_self
  have hmem : ∀ y ∈ pre ++ (x.1, b) :: post,
      ∃ z ∈ pre ++ x :: post, z.1 = y.1 ∧ (y.2 = z.2 ∨ y.2 = b) := by
    intro y hy
    rcases List.mem_append.mp hy with hy | hy
    · exact ⟨y, List.mem_append_left _ hy, rfl, Or.inl rfl⟩
    · rcases List.mem_cons.mp hy with rfl | hy
      · exact ⟨x, hx, rfl, Or.inr rfl⟩
      · exact ⟨y, List.mem_append_right pre (List.mem_cons_of_mem x hy), rfl, Or.inl rfl⟩
  refine h.replace [(x.1, b)] ?_ ?_ ?_ ?_ ?_ ?_ (hslots ▸ h.next) (hslots ▸ h.head)
  · exact ordered_split_iff.mpr ⟨le_of_lt hb, hothers, hbefore, hbehind⟩
  · intro y hy z hz
    obtain ⟨y', hy', hyfirst, -⟩ := hmem y hy
    obtain ⟨z', hz', -, hzlast⟩ := hmem z hz
    have hold := h.span y' hy' z' hz'
    have hnew := hspan y' hy'
    omega
  · intro p hp _
    exact ⟨rfl, Function.update_of_ne hp _ _⟩
  · intro y hy
    rw [List.mem_singleton.mp hy]
    exact ⟨h.first x hx, (Function.update_self _ _ _).trans (if_neg (ne_of_lt hb)).symm⟩
  · intro hmid
    exact absurd (List.mem_singleton_self _) hmid
  · rw [total_cons, total_nil]
    dsimp only
    omega

/-- The first node goes. -/
theorem pop {post : List Interval} {x : Interval}
    (h : LossChain data1 data2 next head length size c (x :: post)) :
    LossChain (Function.update data1 head (-1))
      (if data2 head ≠ -1 then Function.update data2 head (-1) else data2) next (next head)
      (length - (x.2 - x.1 + 1)) size c post := by
  obtain ⟨-, hothers, -, -⟩ := (@ordered_split_iff [] post x).mp h.ordered
  have hhead : head = slot size c x.1 := h.head
  have h' : LossChain data1 data2 next head length size c ([] ++ x :: post) := h
  rw [hhead]
  refine h'.replace [] hothers
    (fun y hy z hz => h.span y (List.mem_cons_of_mem x hy) z (List.mem_cons_of_mem x hz))
    (fun p hp _ => ⟨Function.update_of_ne hp _ _, ?_⟩) (fun y hy => absurd hy List.not_mem_nil)
    (fun _ => ⟨Function.update_self _ _ _, ?_⟩) ?_ h.next.2 h.next.1
  · split
    · exact Function.update_of_ne hp _ _
    · rfl
  · by_cases hone : data2 (slot size c x.1) = -1
    · rw [if_neg fun hne => hne hone]
      exact hone
    · rw [if_pos hone, Function.update_self]
  · rw [total_nil, add_zero]

/-- The two ends of a node are less than the size of the arrays apart. -/
theorem near_ends {pre post : List Interval} {x : Interval}
    (h : LossChain data1 data2 next head length size c (pre ++ x :: post)) :
    x.1 ≤ x.2 ∧ x.2 - x.1 < size ∧ size < seqNoTH := by
  have hx : x ∈ pre ++ x :: post := List.mem_append_right pre List.mem_cons_self
  exact ⟨h.ordered.valid x hx, h.span x hx x hx, h.size.2⟩

/-- What the arrays hold at a node. -/
theorem contents {pre post : List Interval} {x : Interval}
    (h : LossChain data1 data2 next head length size c (pre ++ x :: post)) :
    data1 (slot size c x.1) = seqno x.1 ∧ data2 (slot size c x.1) = endOf x := by
  have hx : x ∈ pre ++ x :: post := List.mem_append_right pre List.mem_cons_self
  exact ⟨h.first x hx, h.last x hx⟩

/-- The nodes around one, and their slots. -/
theorem nodup_parts {pre post : List Interval} {x : Interval}
    (h : LossChain data1 data2 next head length size c (pre ++ x :: post)) :
    (slots size c pre).Nodup ∧ (slots size c post).Nodup ∧
      ∀ p ∈ slots size c pre, p ∉ slots size c post := by
  have hnodup := h.nodup
  rw [slots_append, slots_cons] at hnodup
  obtain ⟨hpre, hpost, hcross⟩ := List.nodup_append.mp hnodup
  exact ⟨hpre, (List.nodup_cons.mp hpost).2,
    fun p hp hmem => hcross p hp p (List.mem_cons_of_mem _ hmem) rfl⟩

/-- The arrays show where a node starts. -/
theorem starts_iff {ivs : List Interval} (h : LossChain data1 data2 next head length size c ivs)
    {q : ℤ} (hnear : ∀ x ∈ ivs, |q - x.1| < size) :
    seqno q = data1 (slot size c q) ↔ ∃ x ∈ ivs, x.1 = q := by
  constructor
  · intro heq
    by_contra hnone
    rw [← slot_mem_slots hnear (c := c)] at hnone
    rw [(h.unused _ hnone).1] at heq
    exact seqno_ne_neg_one q heq
  · rintro ⟨x, hx, rfl⟩
    exact (h.first x hx).symm

/-- Where the head is, and how far a packet is from it. -/
theorem offset {x : Interval} {ivs : List Interval}
    (h : LossChain data1 data2 next head length size c (x :: ivs)) {q : ℤ}
    (hnear : |q - x.1| < seqNoTH) :
    seqoff (data1 head) (seqno q) = q - x.1 ∧
      (x.1 ≤ q → (head + (q - x.1)).tmod size = slot size c q) := by
  have hhead : head = slot size c x.1 := h.head
  rw [hhead, h.first x List.mem_cons_self]
  refine ⟨seqoff_seqno (by rwa [abs_sub_comm]), fun hle => ?_⟩
  have hnonneg := slot_nonneg h.size.1 c x.1
  rw [tmod_slot_add c (by omega), add_sub_cancel]

end LossChain

namespace LossNodes

variable {data1 data2 next data1' data2' next' : ℤ → ℤ} {head length size c head' length' : ℤ}

/-- Arrays without nodes can be cut open anywhere. -/
theorem nil (hsize : 0 < size ∧ size < seqNoTH) (hunused : ∀ p, data1 p = -1 ∧ data2 p = -1)
    (next : ℤ → ℤ) : LossNodes data1 data2 next (-1) 0 size c [] :=
  ⟨.nil hsize hunused next, ascending_nil⟩

/-- The first node is at the start of the arrays. -/
theorem add_first (h : LossNodes data1 data2 next head length size c []) {a b : ℤ} (hab : a ≤ b)
    (hspan : b - a < size) (hnext : next' 0 = -1) :
    LossNodes (Function.update data1 0 (seqno a))
      (if seqno b ≠ seqno a then Function.update data2 0 (seqno b) else data2)
      next' 0 (length + seqlen (seqno a) (seqno b)) size (-a) [(a, b)] :=
  ⟨h.toLossChain.add_first hab hspan hnext, ascending_singleton hab⟩

/-- What is inside a node is as near to the others as the node. -/
theorem span_replace {pre post mid : List Interval} {x : Interval}
    (h : LossNodes data1 data2 next head length size c (pre ++ x :: post))
    (hinside : ∀ y ∈ mid, x.1 ≤ y.1 ∧ y.2 ≤ x.2) :
    ∀ y ∈ pre ++ (mid ++ post), ∀ z ∈ pre ++ (mid ++ post), z.2 - y.1 < size := by
  have hcover : ∀ y ∈ pre ++ (mid ++ post), ∃ z ∈ pre ++ x :: post, z.1 ≤ y.1 ∧ y.2 ≤ z.2 := by
    intro y hy
    rcases List.mem_append.mp hy with hy | hy
    · exact ⟨y, List.mem_append_left _ hy, le_rfl, le_rfl⟩
    · rcases List.mem_append.mp hy with hy | hy
      · exact ⟨x, List.mem_append_right pre List.mem_cons_self, hinside y hy⟩
      · exact ⟨y, List.mem_append_right pre (List.mem_cons_of_mem x hy), le_rfl, le_rfl⟩
  intro y hy z hz
  obtain ⟨y', hy', hyfirst, -⟩ := hcover y hy
  obtain ⟨z', hz', -, hzlast⟩ := hcover z hz
  have hlt := h.span y' hy' z' hz'
  omega

/-- A slot behind the first number of a node, and not behind the last, is unused. -/
theorem inside_notMem {pre post : List Interval} {x : Interval}
    (h : LossNodes data1 data2 next head length size c (pre ++ x :: post)) {q : ℤ} (hlt : x.1 < q)
    (hle : q ≤ x.2) :
    slot size c q ∉ slots size c (pre ++ x :: post) := by
  have hx : x ∈ pre ++ x :: post := List.mem_append_right pre List.mem_cons_self
  have hnear : ∀ y ∈ pre ++ x :: post, |q - y.1| < size := by
    intro y hy
    have hxy := h.span x hx y hy
    have hyx := h.span y hy x hx
    have hvalid := h.ascending.valid y hy
    rw [abs_lt]
    omega
  rw [slot_mem_slots hnear]
  rintro ⟨y, hy, hstart⟩
  obtain ⟨-, hothers, hbefore, hbehind⟩ := ascending_split_iff.mp h.ascending
  rcases List.mem_append.mp hy with hy | hy
  · have hlast := hbefore y hy
    have hvalid := hothers.valid y (List.mem_append_left post hy)
    omega
  · rcases List.mem_cons.mp hy with rfl | hy
    · omega
    · have hfirst := hbehind y hy
      omega

/-- A slot that is inside a node is at no node. -/
theorem inside_parts {pre post : List Interval} {x : Interval}
    (h : LossNodes data1 data2 next head length size c (pre ++ x :: post)) {q : ℤ} (hlt : x.1 < q)
    (hle : q ≤ x.2) :
    slot size c q ∉ slots size c pre ∧ slot size c q ≠ slot size c x.1 ∧
      slot size c q ∉ slots size c post := by
  have hnot := h.inside_notMem hlt hle
  rwa [slots_append, slots_cons, List.mem_append, List.mem_cons, not_or, not_or] at hnot

/-- The intervals stay in order when one of them is replaced by what is inside. -/
theorem ascending_replace {pre post : List Interval} {x : Interval}
    (h : LossNodes data1 data2 next head length size c (pre ++ x :: post)) {mid : List Interval}
    (hmid : Ascending mid) (hinside : ∀ y ∈ mid, x.1 ≤ y.1 ∧ y.2 ≤ x.2) :
    Ascending (pre ++ (mid ++ post)) := by
  obtain ⟨-, hothers, hbefore, hbehind⟩ := ascending_split_iff.mp h.ascending
  obtain ⟨hpre, hpost, hcross⟩ := ascending_append_iff.mp hothers
  refine ascending_append_iff.mpr ⟨hpre, ascending_append_iff.mpr ⟨hmid, hpost, ?_⟩, ?_⟩
  · intro y hy z hz
    have hlt := hbehind z hz
    have hin := hinside y hy
    omega
  · intro y hy z hz
    rcases List.mem_append.mp hz with hz | hz
    · have hlt := hbefore y hy
      have hin := hinside z hz
      omega
    · exact hcross y hy z hz

end LossNodes

end DesktopSync.Analysis
