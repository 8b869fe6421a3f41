import Mathlib.Data.Finset.Max
import DesktopSync.Analysis.LossNodes
import DesktopSync.Computation.DataRefinement
import DesktopSync.Model.SndLossList

/-!
# The sender's loss list is a set of packets

`SndNodes` says which intervals the arrays hold, and `SndHolds` which packets. An interval
that is inserted goes to its place first, where it may overlap the ones behind it; then it
absorbs these one by one.
-/

set_option autoImplicit false

namespace DesktopSync.Analysis

open DesktopSync.Model
open CSeqNo CircularArray IntervalList LinkedNodes

/-- The arrays of the list hold these intervals, in the order of their starts. -/
abbrev SndChain (l : SndLossList) (c : ℤ) (ivs : List Interval) : Prop :=
  LossChain l.data1 l.data2 l.next l.head l.length l.size c ivs

/-- They do not overlap, and what was inserted last is one of them. -/
structure SndNodes (l : SndLossList) (c : ℤ) (ivs : List Interval) : Prop extends
    LossNodes l.data1 l.data2 l.next l.head l.length l.size c ivs where
  lastInsertPos : l.lastInsertPos = -1 ∨ l.lastInsertPos ∈ slots l.size c ivs

variable {l : SndLossList} {c : ℤ}

/-! ## `coalesce` -/

/-- `absorb` where the second node starts inside the first, or just behind. -/
theorem absorb_eq {loc i : ℤ} {x y : Interval} (hx : x.1 < x.2) (hy : y.1 ≤ y.2)
    (hxy : x.1 < y.1) (hjoin : y.1 ≤ x.2 + 1) (hnear : x.2 - x.1 < seqNoTH)
    (hnear' : y.2 - x.1 < seqNoTH) (hloc : l.data2 loc = endOf x)
    (hfirst : l.data1 i = seqno y.1) (hlast : l.data2 i = endOf y) :
    l.absorb loc i = { l with
      length := l.length + (max x.2 y.2 - x.2 - (y.2 - y.1 + 1))
      data1 := Function.update l.data1 i (-1)
      data2 := Function.update (Function.update l.data2 loc (seqno (max x.2 y.2))) i (-1)
      next := Function.update l.next loc (l.next i) } := by
  have hth := two_mul_seqNoTH
  have hend : l.data2 loc = seqno x.2 := hloc.trans (if_neg (ne_of_lt hx))
  have hsame : y.2 ≤ x.2 → Function.update l.data2 loc (seqno (max x.2 y.2)) = l.data2 := by
    intro hle
    rw [max_eq_left hle, ← hend]
    exact Function.update_eq_self loc l.data2
  unfold SndLossList.absorb
  by_cases hone : y.1 = y.2
  · have hdata2 : l.data2 i = -1 := hlast.trans (if_pos hone)
    have hinj := seqno_inj (a := y.1) (b := x.2 + 1) (by
      rw [abs_lt]
      omega)
    rw [if_neg fun h => h hdata2, hfirst, hend, incseq_seqno]
    by_cases hnext : y.1 = x.2 + 1
    · rw [if_pos (hinj.mpr hnext), show max x.2 y.2 = y.1 by omega,
        show l.length + (y.1 - x.2 - (y.2 - y.1 + 1)) = l.length by omega]
    · rw [if_neg fun h => hnext (hinj.mp h), hsame (by omega),
        show l.length + (max x.2 y.2 - x.2 - (y.2 - y.1 + 1)) = l.length - 1 by omega]
  · have hdata2 : l.data2 i = seqno y.2 := hlast.trans (if_neg hone)
    have hcmp := seqcmp_pos (a := y.2) (b := x.2) (by
      rw [abs_lt]
      omega)
    have hcmp' := seqcmp_neg (a := x.2) (b := y.1) (by
      rw [abs_lt]
      omega)
    rw [if_pos (hdata2 ▸ seqno_ne_neg_one y.2), hdata2, hend, hfirst]
    by_cases hlonger : x.2 < y.2
    · rw [if_pos (hcmp.mpr hlonger), max_eq_right (le_of_lt hlonger)]
      by_cases hoverlap : y.1 ≤ x.2
      · rw [if_pos (not_lt.mp fun h => absurd (hcmp'.mp h) (not_lt.mpr hoverlap)),
          seqlen_seqno hoverlap (by omega),
          show l.length - (x.2 - y.1 + 1) = l.length + (y.2 - x.2 - (y.2 - y.1 + 1)) by omega]
      · rw [if_neg (not_le.mpr (hcmp'.mpr (not_le.mp hoverlap))),
          show l.length + (y.2 - x.2 - (y.2 - y.1 + 1)) = l.length by omega]
    · rw [if_neg fun h => hlonger (hcmp.mp h), hsame (not_lt.mp hlonger),
        max_eq_left (not_lt.mp hlonger), seqlen_seqno hy (by omega),
        show l.length - (y.2 - y.1 + 1) = l.length + (x.2 - x.2 - (y.2 - y.1 + 1)) by omega]

/-- A node absorbs the one behind it. -/
theorem absorb {pre post : List Interval} {x y : Interval}
    (h : SndChain l c (pre ++ x :: y :: post)) (hx : x.1 < x.2) (hjoin : y.1 ≤ x.2 + 1) :
    SndChain (l.absorb (slot l.size c x.1) (slot l.size c y.1)) c
      (pre ++ (x.1, max x.2 y.2) :: post) := by
  have hmemX : x ∈ pre ++ x :: y :: post := List.mem_append_right pre List.mem_cons_self
  have hmemY : y ∈ pre ++ x :: y :: post :=
    List.mem_append_right pre (List.mem_cons_of_mem x List.mem_cons_self)
  obtain ⟨-, -, -, hbehind⟩ := ordered_split_iff.mp h.ordered
  have hxy := hbehind y List.mem_cons_self
  have hy := h.ordered.valid y hmemY
  have hspanX := h.span x hmemX x hmemX
  have hspanY := h.span x hmemX y hmemY
  have hth := h.size.2
  rw [absorb_eq hx hy hxy hjoin (by omega) (by omega) (h.last x hmemX) (h.first y hmemY)
    (h.last y hmemY)]
  -- First the second node goes, then the first gets its end.
  have hsplit : pre ++ x :: y :: post = (pre ++ [x]) ++ y :: post := by
    rw [List.append_assoc]
    rfl
  have hgone : LossChain (Function.update l.data1 (slot l.size c y.1) (-1))
      (Function.update l.data2 (slot l.size c y.1) (-1))
      (Function.update l.next (slot l.size c x.1) (l.next (slot l.size c y.1))) l.head
      (l.length - (y.2 - y.1 + 1)) l.size c (pre ++ x :: post) := by
    have hrest : pre ++ x :: post = (pre ++ [x]) ++ ([] ++ post) := by
      rw [List.append_assoc]
      rfl
    have hslots : slots l.size c ((pre ++ [x]) ++ ([] ++ post)) =
        slots l.size c pre ++ slot l.size c x.1 :: slots l.size c post := by
      rw [← hrest, slots_append, slots_cons]
    have hnext := h.next
    have hhead := h.head
    have hnodup := h.nodup
    rw [hsplit] at h
    have hordered := (ordered_split_iff.mp h.ordered).2.1
    rw [slots_append, slots_cons, slots_cons] at hnext hnodup hhead
    obtain ⟨hnextPre, hnextX, hnextY, hnextPost⟩ := nextOf_append.mp hnext
    obtain ⟨-, hnodupX, hcross⟩ := List.nodup_append.mp hnodup
    have hnotPre : slot l.size c x.1 ∉ slots l.size c pre := fun hmem =>
      hcross _ hmem _ List.mem_cons_self rfl
    have hnotPost : slot l.size c x.1 ∉ slots l.size c post := fun hmem =>
      (List.nodup_cons.mp hnodupX).1 (List.mem_cons_of_mem _ hmem)
    rw [hrest]
    refine h.replace [] hordered (fun z hz w hw => ?_) (fun p hp _ => ?_)
      (fun z hz => absurd hz List.not_mem_nil) (fun _ => ⟨?_, ?_⟩) ?_ ?_ ?_
    · have hold : ∀ z ∈ (pre ++ [x]) ++ ([] ++ post), z ∈ (pre ++ [x]) ++ y :: post := fun z hz =>
        (List.mem_append.mp hz).elim (List.mem_append_left _)
          fun hz => List.mem_append_right _ (List.mem_cons_of_mem y hz)
      exact h.span z (hold z hz) w (hold w hw)
    · exact ⟨Function.update_of_ne hp _ _, Function.update_of_ne hp _ _⟩
    · exact Function.update_self _ _ _
    · exact Function.update_self _ _ _
    · rw [total_nil, add_zero]
    · rw [hslots]
      refine nextOf_append.mpr ⟨hnextPre.update hnotPre _, ?_, hnextPost.update hnotPost _⟩
      rw [Function.update_self]
      exact hnextY
    · rw [hslots, hhead, headD_append, headD_append]
      rfl
  have hlonger := hgone.lengthen (b := max x.2 y.2) (by omega) fun z hz => by
    have hold : z ∈ pre ++ x :: y :: post := by
      rcases List.mem_append.mp hz with hz | hz
      · exact List.mem_append_left _ hz
      · rcases List.mem_cons.mp hz with rfl | hz
        · exact hmemX
        · exact List.mem_append_right pre
            (List.mem_cons_of_mem x (List.mem_cons_of_mem y hz))
    have hzx := h.span z hold x hmemX
    have hzy := h.span z hold y hmemY
    omega
  have hne : slot l.size c y.1 ≠ slot l.size c x.1 := fun heq => by
    have hstart := (slot_inj (h.near hmemY hmemX)).mp heq
    omega
  rw [Function.update_comm hne] at hlonger
  rwa [show l.length + (max x.2 y.2 - x.2 - (y.2 - y.1 + 1)) =
    l.length - (y.2 - y.1 + 1) + (max x.2 y.2 - x.2) by omega]

/-- What `absorb` leaves as it is. -/
theorem absorb_kept (l : SndLossList) (loc i : ℤ) :
    (l.absorb loc i).size = l.size ∧ (l.absorb loc i).lastInsertPos = l.lastInsertPos := by
  unfold SndLossList.absorb
  split
  · split
    · exact ⟨rfl, rfl⟩
    · exact ⟨rfl, rfl⟩
  · split
    · exact ⟨rfl, rfl⟩
    · exact ⟨rfl, rfl⟩

/-- Where no node overlaps the one that was inserted last. -/
theorem SndNodes.of_chain {pre post : List Interval} {x : Interval}
    (h : SndChain l c (pre ++ x :: post)) (hbefore : Ascending (pre ++ [x]))
    (hbehind : Ascending post) (hdisjoint : ∀ y ∈ post, x.2 < y.1)
    (hlast : l.lastInsertPos = slot l.size c x.1) : SndNodes l c (pre ++ x :: post) := by
  obtain ⟨hx, hpre, hpreX, -⟩ := ascending_split_iff.mp hbefore
  rw [List.append_nil] at hpre
  have hothers : Ascending (pre ++ post) :=
    ascending_append_iff.mpr ⟨hpre, hbehind, fun y hy z hz => by
      have hlt := hpreX y hy
      have hlt' := hdisjoint z hz
      omega⟩
  refine ⟨⟨h, ascending_split_iff.mpr ⟨hx, hothers, hpreX, hdisjoint⟩⟩, Or.inr ?_⟩
  rw [hlast, slots_append, slots_cons]
  exact List.mem_append_right _ List.mem_cons_self

/-- In the end no node overlaps the one at `loc`. -/
theorem coalesce {pre : List Interval} (post : List Interval) {x : Interval} {n : ℕ}
    (h : SndChain l c (pre ++ x :: post)) (hbefore : Ascending (pre ++ [x]))
    (hbehind : Ascending post) (hn : post.length ≤ n)
    (hlast : l.lastInsertPos = slot l.size c x.1) :
    ∃ ivs, SndNodes (SndLossList.coalesce n l (slot l.size c x.1)) c ivs ∧
      members ivs = members (pre ++ x :: post) ∧
      (SndLossList.coalesce n l (slot l.size c x.1)).size = l.size := by
  induction post generalizing l x n with
  | nil =>
      have hnext : l.next (slot l.size c x.1) = -1 := by
        have hnext := h.next
        rw [slots_append, slots_cons] at hnext
        exact (nextOf_append.mp hnext).2.1
      have hsame : SndLossList.coalesce n l (slot l.size c x.1) = l := by
        cases n with
        | zero => rfl
        | succ n =>
            unfold SndLossList.coalesce
            exact if_neg fun hcond => hcond.1 hnext
      rw [hsame]
      exact ⟨_, .of_chain h hbefore hbehind (fun y hy => absurd hy List.not_mem_nil) hlast, rfl,
        rfl⟩
  | cons y post ih =>
      obtain ⟨n, rfl⟩ : ∃ m, n = m + 1 := ⟨n - 1, by
        rw [List.length_cons] at hn
        omega⟩
      obtain ⟨hy, hbehindY, hpost⟩ := ascending_cons_iff.mp hbehind
      have hmemX : x ∈ pre ++ x :: y :: post := List.mem_append_right pre List.mem_cons_self
      have hmemY : y ∈ pre ++ x :: y :: post :=
        List.mem_append_right pre (List.mem_cons_of_mem x List.mem_cons_self)
      obtain ⟨hx, -, -, hstarts⟩ := ordered_split_iff.mp h.ordered
      have hxy := hstarts y List.mem_cons_self
      have hnext : l.next (slot l.size c x.1) = slot l.size c y.1 := by
        have hnext := h.next
        rw [slots_append, slots_cons, slots_cons] at hnext
        exact (nextOf_append.mp hnext).2.1
      have hth := h.size.2
      have hspanX := h.span x hmemX x hmemX
      have hspanY := h.span x hmemX y hmemY
      unfold SndLossList.coalesce
      dsimp only
      rw [hnext, h.last x hmemX, h.first y hmemY]
      by_cases hone : x.1 = x.2
      · rw [if_neg fun hcond => hcond.2 (endOf_eq_iff.mpr hone)]
        refine ⟨_, .of_chain h hbefore hbehind (fun z hz => ?_) hlast, rfl, rfl⟩
        have hlt := hstarts z hz
        omega
      rw [if_pos ⟨slot_ne_neg_one h.size.1 c y.1, fun h => hone (endOf_eq_iff.mp h)⟩]
      rw [show endOf x = seqno x.2 from if_neg hone, incseq_seqno]
      have hcmp := seqcmp_pos (a := y.1) (b := x.2 + 1) (by
        rw [abs_lt]
        omega)
      by_cases hjoin : y.1 ≤ x.2 + 1
      · rw [if_pos (not_lt.mp fun hlt => absurd (hcmp.mp hlt) (not_lt.mpr hjoin))]
        obtain ⟨hsize, hkept⟩ := absorb_kept l (slot l.size c x.1) (slot l.size c y.1)
        have hlonger := absorb h (lt_of_le_of_ne hx hone) hjoin
        have hbeforeX : Ascending (pre ++ [(x.1, max x.2 y.2)]) := by
          obtain ⟨-, hpre, hpreX, -⟩ := ascending_split_iff.mp hbefore
          exact ascending_split_iff.mpr ⟨le_trans hx (le_max_left x.2 y.2), hpre, hpreX,
            fun z hz => absurd hz List.not_mem_nil⟩
        obtain ⟨ivs, hnodes, hmembers, hsize'⟩ := ih (n := n) hlonger hbeforeX hpost (by
          rw [List.length_cons] at hn
          omega) (by rw [hkept, hsize, hlast])
        rw [hsize] at hnodes hsize'
        refine ⟨ivs, hnodes, hmembers.trans ?_, hsize'⟩
        ext q
        rw [mem_members_append, mem_members_append, mem_members_cons, mem_members_cons,
          mem_members_cons]
        refine or_congr Iff.rfl ?_
        rw [← or_assoc]
        refine or_congr ?_ Iff.rfl
        dsimp only
        omega
      · rw [if_neg fun hle => hjoin (not_lt.mp fun hlt => absurd (hcmp.mpr hlt) (not_lt.mpr hle))]
        refine ⟨_, .of_chain h hbefore hbehind (fun z hz => ?_) hlast, rfl, rfl⟩
        rcases List.mem_cons.mp hz with rfl | hz
        · omega
        · have hlt := hbehindY z hz
          omega

/-! ## `insert` -/

/-- The search ends at the node that starts last before `q`. -/
theorem searchNext {ivs : List Interval} (h : SndChain l c ivs) {q : ℤ}
    (hnear : ∀ x ∈ ivs, |x.1 - q| < l.size) (post : List Interval) {pre : List Interval}
    {x : Interval} {n : ℕ} (hivs : ivs = pre ++ x :: post) (hx : x.1 < q)
    (hn : post.length ≤ n) :
    ∃ pre y post, ivs = pre ++ y :: post ∧ y.1 < q ∧ (∀ z ∈ post, q ≤ z.1) ∧
      l.searchNext (seqno q) n (slot l.size c x.1) = slot l.size c y.1 := by
  have hnext : l.next (slot l.size c x.1) = (slots l.size c post).headD (-1) := by
    have hnext := h.next
    rw [hivs, slots_append, slots_cons] at hnext
    exact (nextOf_append.mp hnext).2.1
  induction post generalizing pre x n with
  | nil =>
      refine ⟨pre, x, [], hivs, hx, fun z hz => absurd hz List.not_mem_nil, ?_⟩
      cases n with
      | zero => rfl
      | succ n =>
          unfold SndLossList.searchNext
          exact if_neg fun hcond => hcond.1 hnext
  | cons y post ih =>
      obtain ⟨n, rfl⟩ : ∃ m, n = m + 1 := ⟨n - 1, by
        rw [List.length_cons] at hn
        omega⟩
      have hy : y ∈ ivs :=
        hivs ▸ List.mem_append_right pre (List.mem_cons_of_mem x List.mem_cons_self)
      have hcmp := seqcmp_neg ((hnear y hy).trans h.size.2)
      rw [slots_cons, List.headD_cons] at hnext
      unfold SndLossList.searchNext
      rw [hnext, h.first y hy]
      have hivs' : ivs = (pre ++ [x]) ++ y :: post := by
        rw [hivs, List.append_assoc]
        rfl
      by_cases hlt : y.1 < q
      · rw [if_pos ⟨slot_ne_neg_one h.size.1 c y.1, hcmp.mpr hlt⟩]
        refine ih hivs' hlt (by
          rw [List.length_cons] at hn
          omega) ?_
        have hnext' := h.next
        rw [hivs', slots_append, slots_cons] at hnext'
        exact (nextOf_append.mp hnext').2.1
      · rw [if_neg fun hcond => hlt (hcmp.mp hcond.2)]
        refine ⟨pre, x, y :: post, hivs, hx, fun z hz => ?_, rfl⟩
        rcases List.mem_cons.mp hz with rfl | hz
        · exact not_lt.mp hlt
        · have hordered := h.ordered
          rw [hivs'] at hordered
          have hyz := (ordered_split_iff.mp hordered).2.2.2 z hz
          omega

/-- `grow` makes the node longer, if it is shorter. -/
theorem grow_eq {x : Interval} {b : ℤ} (hx : x.1 ≤ x.2) (hb : x.1 ≤ b) (hnear : x.2 - x.1 < seqNoTH)
    (hnear' : b - x.1 < seqNoTH) {loc : ℤ} (hlast : l.data2 loc = endOf x) :
    l.grow loc (seqno x.1) (seqno b) = if x.2 < b then some { l with
      length := l.length + (b - x.2)
      data2 := Function.update l.data2 loc (seqno b) } else none := by
  have hth := two_mul_seqNoTH
  unfold SndLossList.grow
  rw [hlast]
  by_cases hone : x.1 = x.2
  · have hinj := seqno_inj (a := b) (b := x.1) (by
      rw [abs_lt]
      omega)
    rw [if_pos (endOf_eq_iff.mpr hone)]
    by_cases hlt : x.2 < b
    · rw [if_pos hlt, if_pos fun heq => by
        have := hinj.mp heq
        omega, seqlen_seqno hb (by omega), show b - x.1 + 1 - 1 = b - x.2 by omega]
    · rw [if_neg hlt, if_neg fun hne => hne (hinj.mpr (by omega))]
  · have hend : endOf x = seqno x.2 := if_neg hone
    have hcmp := seqcmp_pos (a := b) (b := x.2) (by
      rw [abs_lt]
      omega)
    rw [if_neg fun heq => hone (endOf_eq_iff.mp heq), hend]
    by_cases hlt : x.2 < b
    · rw [if_pos hlt, if_pos (hcmp.mpr hlt), seqlen_seqno (le_of_lt hlt) (by omega),
        show b - x.2 + 1 - 1 = b - x.2 by omega]
    · rw [if_neg hlt, if_neg fun h => hlt (hcmp.mp h)]

/-- What `place` does: either the list has the packets, or they are put into the node at `loc`,
which may overlap those behind it. -/
def Placed (l : SndLossList) (c : ℤ) (ivs : List Interval) (a b : ℤ)
    (r : Option ℤ × SndLossList) : Prop :=
  r.2.size = l.size ∧
    ((r.1 = none ∧ SndNodes r.2 c ivs ∧ Finset.Icc a b ⊆ members ivs) ∨
      ∃ pre x post, r.1 = some (slot l.size c x.1) ∧ SndChain r.2 c (pre ++ x :: post) ∧
        Ascending (pre ++ [x]) ∧ Ascending post ∧ r.2.lastInsertPos = slot l.size c x.1 ∧
        members (pre ++ x :: post) = members ivs ∪ Finset.Icc a b)

/-- The interval goes in front of the first. -/
theorem placed_before {x : Interval} {ivs : List Interval} (h : SndNodes l c (x :: ivs)) {a b : ℤ}
    (hab : a ≤ b) (hlt : a < x.1) (hlen : seqlen (seqno a) (seqno b) = b - a + 1)
    (hspan : ∀ y ∈ (a, b) :: x :: ivs, ∀ z ∈ (a, b) :: x :: ivs, z.2 - y.1 < l.size) :
    Placed l c (x :: ivs) a b (some (slot l.size c a),
      { l.write (slot l.size c a) (seqno a) (seqno b) l.head with head := slot l.size c a }) := by
  obtain ⟨hvalid, hbehind, hascending⟩ := ascending_cons_iff.mp h.ascending
  have hordered : Ordered ([] ++ (a, b) :: x :: ivs) := by
    refine ordered_split_iff.mpr ⟨hab, h.ordered, fun y hy => absurd hy List.not_mem_nil, ?_⟩
    intro y hy
    rcases List.mem_cons.mp hy with rfl | hy
    · exact hlt
    · have hxy := hbehind y hy
      dsimp only
      omega
  have hfresh := LossChain.fresh_notMem (c := c) hordered hspan
  have hnext : NextOf (Function.update l.next (slot l.size c a) l.head)
      (slots l.size c ([] ++ (a, b) :: x :: ivs)) (-1) :=
    ⟨(Function.update_self _ _ _).trans h.head, h.next.update hfresh _⟩
  have h' : SndChain l c ([] ++ x :: ivs) := h.toLossChain
  have hadd := h'.add hordered hspan hnext rfl
  refine ⟨rfl, Or.inr ⟨[], (a, b), x :: ivs, rfl, ?_, ascending_singleton hab, h.ascending, rfl,
    ?_⟩⟩
  · unfold SndLossList.write
    dsimp only
    rw [hlen]
    exact hadd
  · rw [List.nil_append, members, Finset.union_comm]

/-- The interval goes behind the node `x`, which ends before. -/
theorem placed_behind {pre post : List Interval} {x : Interval}
    (h : SndNodes l c (pre ++ x :: post)) {a b : ℤ} (hab : a ≤ b) (hx : x.2 < a)
    (hpost : ∀ y ∈ post, a < y.1) (hlen : seqlen (seqno a) (seqno b) = b - a + 1)
    (hspan : ∀ y ∈ (a, b) :: (pre ++ x :: post), ∀ z ∈ (a, b) :: (pre ++ x :: post),
      z.2 - y.1 < l.size) :
    Placed l c (pre ++ x :: post) a b (some (slot l.size c a),
      { l.write (slot l.size c a) (seqno a) (seqno b) (l.next (slot l.size c x.1)) with
        next := Function.update (l.write (slot l.size c a) (seqno a) (seqno b)
          (l.next (slot l.size c x.1))).next (slot l.size c x.1) (slot l.size c a) }) := by
  have hassoc : ∀ ivs, pre ++ x :: ivs = (pre ++ [x]) ++ ivs := fun ivs => by
    rw [List.append_assoc]
    rfl
  obtain ⟨hvalid, hothers, hbefore, hbehind⟩ := ascending_split_iff.mp h.ascending
  obtain ⟨hpre, hpost', -⟩ := ascending_append_iff.mp hothers
  have hbeforeX : Ascending (pre ++ [x]) := ascending_split_iff.mpr
    ⟨hvalid, (List.append_nil pre).symm ▸ hpre, hbefore, fun y hy => absurd hy List.not_mem_nil⟩
  have hbeforeA : ∀ y ∈ pre ++ [x], y.2 < a := by
    intro y hy
    rcases List.mem_append.mp hy with hy | hy
    · have hlt := hbefore y hy
      omega
    · rw [List.mem_singleton.mp hy]
      exact hx
  have hordered : Ordered ((pre ++ [x]) ++ (a, b) :: post) := by
    refine ordered_split_iff.mpr ⟨hab, hassoc post ▸ h.ordered, fun y hy => ?_, hpost⟩
    have hlt := hbeforeA y hy
    have hvalidY := hbeforeX.valid y hy
    dsimp only
    omega
  have hspan' : ∀ y ∈ (pre ++ [x]) ++ (a, b) :: post, ∀ z ∈ (pre ++ [x]) ++ (a, b) :: post,
      z.2 - y.1 < l.size := by
    have hmem : ∀ y ∈ (pre ++ [x]) ++ (a, b) :: post, y ∈ (a, b) :: (pre ++ x :: post) := by
      intro y hy
      rw [hassoc post]
      rcases List.mem_append.mp hy with hy | hy
      · exact List.mem_cons_of_mem _ (List.mem_append_left post hy)
      · rcases List.mem_cons.mp hy with rfl | hy
        · exact List.mem_cons_self
        · exact List.mem_cons_of_mem _ (List.mem_append_right _ hy)
    exact fun y hy z hz => hspan y (hmem y hy) z (hmem z hz)
  have hfresh := LossChain.fresh_notMem (c := c) hordered hspan'
  rw [← hassoc post, slots_append, slots_cons] at hfresh
  have hnext := h.next
  have hslot := h.slot_notMem
  rw [slots_append, slots_cons] at hnext
  have hnext' := hnext.insert hslot hfresh
  have hslots : slots l.size c ((pre ++ [x]) ++ (a, b) :: post) =
      slots l.size c pre ++ slot l.size c x.1 :: slot l.size c a :: slots l.size c post := by
    rw [← hassoc, slots_append, slots_cons, slots_cons]
  have hhead : l.head = (slots l.size c ((pre ++ [x]) ++ (a, b) :: post)).headD (-1) := by
    rw [hslots, h.head, slots_append, slots_cons, headD_append, headD_append]
    rfl
  have h' : SndChain l c ((pre ++ [x]) ++ post) := hassoc post ▸ h.toLossChain
  have hadd := h'.add hordered hspan' (hslots ▸ hnext') hhead
  refine ⟨rfl, Or.inr ⟨pre ++ [x], (a, b), post, rfl, ?_, ?_, hpost', rfl, ?_⟩⟩
  · unfold SndLossList.write
    dsimp only
    rw [hlen]
    exact hadd
  · refine ascending_append_iff.mpr ⟨hbeforeX, ascending_singleton hab, fun y hy z hz => ?_⟩
    rw [List.mem_singleton.mp hz]
    exact hbeforeA y hy
  · ext q
    rw [mem_members_split, ← hassoc, Finset.mem_union, Finset.mem_Icc, or_comm]

/-- The node `x` gets the end of the interval, which starts in it. -/
theorem placed_longer {pre post : List Interval} {x : Interval}
    (h : SndNodes l c (pre ++ x :: post)) {a b : ℤ} (hxa : x.1 ≤ a) (hax : a ≤ x.2)
    (hspan : ∀ y ∈ pre ++ x :: post, b - y.1 < l.size) :
    Placed l c (pre ++ x :: post) a b
      (if x.2 < b then (some (slot l.size c x.1), { l with
          lastInsertPos := slot l.size c x.1
          length := l.length + (b - x.2)
          data2 := Function.update l.data2 (slot l.size c x.1) (seqno b) })
        else (none, { l with lastInsertPos := slot l.size c x.1 })) := by
  have hx : x ∈ pre ++ x :: post := List.mem_append_right pre List.mem_cons_self
  obtain ⟨hvalid, hothers, hbefore, hbehind⟩ := ascending_split_iff.mp h.ascending
  obtain ⟨hpre, hpost, -⟩ := ascending_append_iff.mp hothers
  split
  · next hlt =>
      refine ⟨rfl, Or.inr ⟨pre, (x.1, b), post, rfl, ?_, ?_, hpost, rfl, ?_⟩⟩
      · exact h.toLossChain.lengthen (by omega) hspan
      · exact ascending_split_iff.mpr ⟨by
            dsimp only
            omega, (List.append_nil pre).symm ▸ hpre, hbefore,
          fun y hy => absurd hy List.not_mem_nil⟩
      · ext q
        rw [Finset.mem_union, Finset.mem_Icc, mem_members_split, mem_members_split,
          or_right_comm]
        refine or_congr ?_ Iff.rfl
        dsimp only
        omega
  · next hge =>
      refine ⟨rfl, Or.inl ⟨rfl, ⟨h.toLossNodes, Or.inr ?_⟩, fun q hq => ?_⟩⟩
      · rw [slots_append, slots_cons]
        exact List.mem_append_right _ List.mem_cons_self
      · rw [Finset.mem_Icc] at hq
        exact mem_members_split.mpr (Or.inl (by omega))

/-- Where the search for a node starts: a node that starts before `q`. -/
theorem search_start {x : Interval} {ivs : List Interval} (h : SndNodes l c (x :: ivs)) {q : ℤ}
    (hx : x.1 < q) (hnear : ∀ y ∈ x :: ivs, |y.1 - q| < l.size) :
    ∃ pre y post, x :: ivs = pre ++ y :: post ∧ y.1 < q ∧
      (if l.lastInsertPos ≠ -1 ∧ seqcmp (l.data1 l.lastInsertPos) (seqno q) < 0
        then l.lastInsertPos else l.head) = slot l.size c y.1 := by
  by_cases hlast : l.lastInsertPos ≠ -1 ∧ seqcmp (l.data1 l.lastInsertPos) (seqno q) < 0
  · rw [if_pos hlast]
    obtain ⟨hne, hcmp⟩ := hlast
    obtain ⟨y, hy, heq⟩ := List.mem_map.mp (h.lastInsertPos.resolve_left hne)
    obtain ⟨pre, post, hsplit⟩ := List.append_of_mem hy
    rw [← heq, h.first y hy, seqcmp_neg ((hnear y hy).trans h.size.2)] at hcmp
    exact ⟨pre, y, post, hsplit, hcmp, heq.symm⟩
  · rw [if_neg hlast]
    exact ⟨[], x, ivs, rfl, hx, h.head⟩

/-- `place` where the interval starts with the node `x`. -/
theorem placed_same {pre post : List Interval} {x : Interval}
    (h : SndNodes l c (pre ++ x :: post)) {b : ℤ} (hb : x.1 ≤ b)
    (hspan : ∀ y ∈ pre ++ x :: post, b - y.1 < l.size) (r : Option ℤ × SndLossList)
    (hr : r = (none, { l with lastInsertPos := slot l.size c x.1 }) ∨
      x.1 = x.2 ∧ r = (some (slot l.size c x.1), { l with lastInsertPos := slot l.size c x.1 })) :
    Placed l c (pre ++ x :: post) x.1 b
      (if x.2 < b then (some (slot l.size c x.1), { l with
          lastInsertPos := slot l.size c x.1
          length := l.length + (b - x.2)
          data2 := Function.update l.data2 (slot l.size c x.1) (seqno b) })
        else r) := by
  have hx : x ∈ pre ++ x :: post := List.mem_append_right pre List.mem_cons_self
  have hvalid := h.ordered.valid x hx
  have hplaced := placed_longer h (le_refl x.1) hvalid hspan
  by_cases hlt : x.2 < b
  · rw [if_pos hlt] at hplaced ⊢
    exact hplaced
  rw [if_neg hlt] at hplaced ⊢
  rcases hr with rfl | ⟨hone, rfl⟩
  · exact hplaced
  · obtain ⟨-, hothers, hbefore, hbehind⟩ := ascending_split_iff.mp h.ascending
    obtain ⟨hpre, hpost, -⟩ := ascending_append_iff.mp hothers
    have hbx : b = x.1 := by omega
    refine ⟨rfl, Or.inr ⟨pre, x, post, rfl, h.toLossChain, ?_, hpost, rfl, ?_⟩⟩
    · exact ascending_split_iff.mpr ⟨hvalid, (List.append_nil pre).symm ▸ hpre, hbefore,
        fun y hy => absurd hy List.not_mem_nil⟩
    · rw [hbx, Finset.Icc_self]
      refine (Finset.union_eq_left.mpr ?_).symm
      exact Finset.singleton_subset_iff.mpr (mem_members_split.mpr (Or.inl ⟨le_rfl, hvalid⟩))

/-- `grow` at a node of the list. -/
theorem SndNodes.grow {ivs : List Interval} (h : SndNodes l c ivs) {x : Interval} (hx : x ∈ ivs)
    {b : ℤ} (hb : x.1 ≤ b) (hspan : b - x.1 < l.size) (p : ℤ) :
    ({ l with lastInsertPos := p } : SndLossList).grow (slot l.size c x.1) (seqno x.1)
      (seqno b) = if x.2 < b then some { l with
        lastInsertPos := p
        length := l.length + (b - x.2)
        data2 := Function.update l.data2 (slot l.size c x.1) (seqno b) } else none := by
  have hspanX := h.span x hx x hx
  have hth := h.size.2
  have hlast : ({ l with lastInsertPos := p } : SndLossList).data2 (slot l.size c x.1) = endOf x :=
    h.last x hx
  exact grow_eq (h.ordered.valid x hx) hb (by omega) (by omega) hlast

/-- `place` does what it is to do. -/
theorem place {x : Interval} {ivs : List Interval} (h : SndNodes l c (x :: ivs)) {a b : ℤ}
    (hab : a ≤ b)
    (hspan : ∀ y ∈ (a, b) :: x :: ivs, ∀ z ∈ (a, b) :: x :: ivs, z.2 - y.1 < l.size) :
    Placed l c (x :: ivs) a b (l.place (seqno a) (seqno b)) := by
  have hth := two_mul_seqNoTH
  have hsize := h.size
  have hnew : (a, b) ∈ (a, b) :: x :: ivs := List.mem_cons_self
  have hnear : ∀ y ∈ x :: ivs, |y.1 - a| < l.size := by
    intro y hy
    have hya := hspan y (List.mem_cons_of_mem _ hy) _ hnew
    have hay := hspan _ hnew y (List.mem_cons_of_mem _ hy)
    have hvalid := h.ordered.valid y hy
    dsimp only at hya hay
    rw [abs_lt]
    omega
  have hlonger : ∀ y ∈ x :: ivs, b - y.1 < l.size := fun y hy =>
    hspan y (List.mem_cons_of_mem _ hy) _ hnew
  have hlen : seqlen (seqno a) (seqno b) = b - a + 1 := by
    have hlt := hspan _ hnew _ hnew
    dsimp only at hlt
    exact seqlen_seqno hab (by omega)
  have hnearX := hnear x List.mem_cons_self
  have hhead : l.head = slot l.size c x.1 := h.head
  have hoffset : seqoff (l.data1 l.head) (seqno a) = a - x.1 :=
    (h.offset (by
      rw [abs_sub_comm]
      omega)).1
  have hloc : (l.head + (a - x.1) + l.size).tmod l.size = slot l.size c a := by
    rw [abs_lt] at hnearX
    rw [hhead, tmod_slot_add_size hsize.1 c (by omega), add_sub_cancel]
  unfold SndLossList.place
  dsimp only
  rw [hoffset, hloc]
  by_cases hbefore : a - x.1 < 0
  · rw [if_pos hbefore]
    exact placed_before h hab (by omega) hlen hspan
  rw [if_neg hbefore]
  by_cases hbehind : 0 < a - x.1
  · rw [if_pos hbehind]
    by_cases hat : ∃ y ∈ x :: ivs, y.1 = a
    · rw [if_pos ((h.starts_iff fun y hy => by
        rw [abs_sub_comm]
        exact hnear y hy).mpr hat)]
      obtain ⟨y, hy, rfl⟩ := hat
      have hlast := h.last y hy
      rw [h.grow hy hab (hlonger y hy), hlast]
      obtain ⟨pre, post, hsplit⟩ := List.append_of_mem hy
      rw [hsplit] at h hlonger ⊢
      have hplaced := placed_same h hab hlonger
        (if endOf y = -1 then (some (slot l.size c y.1), { l with
          lastInsertPos := slot l.size c y.1 }) else (none, { l with
          lastInsertPos := slot l.size c y.1 })) (by
          by_cases hone : y.1 = y.2
          · exact Or.inr ⟨hone, if_pos (endOf_eq_iff.mpr hone)⟩
          · exact Or.inl (if_neg fun heq => hone (endOf_eq_iff.mp heq)))
      by_cases hlt : y.2 < b
      · rw [if_pos hlt] at hplaced ⊢
        exact hplaced
      · rw [if_neg hlt] at hplaced ⊢
        exact hplaced
    · rw [if_neg fun heq => hat ((h.starts_iff fun y hy => by
        rw [abs_sub_comm]
        exact hnear y hy).mp heq)]
      obtain ⟨pre, y, post, hsplit, hy, hstart⟩ := search_start h (by omega) hnear
      rw [hstart]
      obtain ⟨pre, z, post, hsplit, hz, hpost, hfound⟩ :=
        searchNext h.toLossChain hnear post (n := l.size.toNat) hsplit hy (by
          have hle := h.toLossChain.length_le
          rw [hsplit, List.length_append, List.length_cons] at hle
          omega)
      have hmemZ : z ∈ x :: ivs := hsplit ▸ List.mem_append_right pre List.mem_cons_self
      have hlast := h.last z hmemZ
      have hvalid := h.ordered.valid z hmemZ
      have hza := hspan _ hnew z (List.mem_cons_of_mem _ hmemZ)
      have hzb := hlonger z hmemZ
      have hzz := h.span z hmemZ z hmemZ
      have hpost' : ∀ y ∈ post, a < y.1 := fun y hy => lt_of_le_of_ne (hpost y hy) fun heq =>
        hat ⟨y, hsplit ▸ List.mem_append_right pre (List.mem_cons_of_mem z hy), heq.symm⟩
      dsimp only at hza
      rw [hfound, hlast]
      have hcmp := seqcmp_neg (a := z.2) (b := a) (by
        rw [abs_lt]
        omega)
      have hcmp' := seqcmp_neg (a := z.2) (b := b) (by
        rw [abs_lt]
        omega)
      by_cases hbeforeA : z.2 < a
      · have hout : endOf z = -1 ∨ seqcmp (endOf z) (seqno a) < 0 := by
          by_cases hone : z.1 = z.2
          · exact Or.inl (endOf_eq_iff.mpr hone)
          · right
            rw [show endOf z = seqno z.2 from if_neg hone, hcmp]
            exact hbeforeA
        rw [if_pos hout]
        rw [hsplit] at h hspan ⊢
        exact placed_behind h hab hbeforeA hpost' hlen hspan
      · have hmore : z.1 ≠ z.2 := by omega
        have hend : endOf z = seqno z.2 := if_neg hmore
        rw [hend, if_neg (by
          rw [not_or, hcmp]
          exact ⟨seqno_ne_neg_one _, hbeforeA⟩)]
        rw [hsplit] at h hlonger ⊢
        have hplaced := placed_longer h (le_of_lt hz) (not_lt.mp hbeforeA) hlonger
        by_cases hlt : z.2 < b
        · rw [if_pos hlt] at hplaced
          rw [if_pos (hcmp'.mpr hlt), seqlen_seqno (le_of_lt hlt) (by omega),
            show b - z.2 + 1 - 1 = b - z.2 by omega]
          exact hplaced
        · rw [if_neg hlt] at hplaced
          rw [if_neg fun h => hlt (hcmp'.mp h)]
          exact hplaced
  · rw [if_neg hbehind]
    obtain rfl : a = x.1 := by omega
    have h' : SndNodes l c ([] ++ x :: ivs) := h
    have hgrow := h.grow List.mem_cons_self hab (hlonger x List.mem_cons_self) l.head
    have hplaced := placed_same h' hab hlonger _ (Or.inl rfl)
    rw [← hhead] at hplaced hgrow ⊢
    rw [hgrow]
    by_cases hlt : x.2 < b
    · have hvalid := h.ordered.valid x List.mem_cons_self
      have hne : seqno b ≠ seqno x.1 := fun heq => by
        have hxb := hlonger x List.mem_cons_self
        have hbx := (seqno_inj (by
          rw [abs_lt]
          omega)).mp heq
        omega
      rw [if_pos hlt] at hplaced ⊢
      rw [if_pos hne]
      exact hplaced
    · rw [if_neg hlt] at hplaced ⊢
      split
      · exact hplaced
      · exact hplaced

/-- `insert` puts the packets in, and returns how many of them are new. -/
theorem SndNodes.insert {ivs : List Interval} (h : SndNodes l c ivs) {a b : ℤ} (hab : a ≤ b)
    (hspan : ∀ y ∈ (a, b) :: ivs, ∀ z ∈ (a, b) :: ivs, z.2 - y.1 < l.size) :
    ∃ c' ivs', SndNodes (l.insert (seqno a) (seqno b)).2 c' ivs' ∧
      members ivs' = members ivs ∪ Finset.Icc a b ∧
      (l.insert (seqno a) (seqno b)).1 = (members ivs').card - (members ivs).card ∧
      (l.insert (seqno a) (seqno b)).2.size = l.size := by
  cases ivs with
  | nil =>
      have hab' := hspan (a, b) List.mem_cons_self (a, b) List.mem_cons_self
      have hfirst := h.toLossNodes.add_first hab hab' (Function.update_self 0 (-1) l.next)
      unfold SndLossList.insert
      rw [if_pos (show l.length = 0 from h.length)]
      refine ⟨-a, [(a, b)], ⟨hfirst, Or.inr ?_⟩, ?_, ?_, rfl⟩
      · rw [slots_cons, slots_nil, List.mem_singleton]
        exact hfirst.head
      · rw [members, members, members, Finset.union_empty, Finset.empty_union]
      · rw [← total_eq_card (ascending_singleton hab), members, Finset.card_empty, Nat.cast_zero,
          sub_zero]
        exact hfirst.length
  | cons x ivs =>
      have hplaced := place h hab hspan
      have hlength := h.length.trans (total_eq_card h.ascending)
      have hpos : l.length ≠ 0 := by
        have hmem : x.1 ∈ members (x :: ivs) :=
          mem_members_cons.mpr (Or.inl ⟨le_rfl, h.ordered.valid x List.mem_cons_self⟩)
        have hcard := Finset.card_pos.mpr ⟨_, hmem⟩
        omega
      unfold SndLossList.insert
      rw [if_neg hpos]
      obtain ⟨r, l', hr⟩ : ∃ r l', l.place (seqno a) (seqno b) = (r, l') := ⟨_, _, rfl⟩
      rw [hr] at hplaced ⊢
      obtain ⟨hsize, ⟨hnone, hnodes, hsub⟩ | ⟨pre, z, post, hsome, hchain, hbefore, hbehind, hlast,
        hmembers⟩⟩ := hplaced
      · subst hnone
        dsimp only at hnodes hsize ⊢
        refine ⟨c, x :: ivs, hnodes, (Finset.union_eq_left.mpr hsub).symm, ?_, hsize⟩
        rw [sub_self]
      · subst hsome
        dsimp only at hchain hsize hlast ⊢
        rw [← hsize] at hlast ⊢
        have hn : post.length ≤ l'.size.toNat := by
          have hle := hchain.length_le
          rw [List.length_append, List.length_cons] at hle
          omega
        obtain ⟨ivs', hnodes, hmembers', hsize'⟩ := coalesce post hchain hbefore hbehind hn hlast
        refine ⟨c, ivs', hnodes, hmembers'.trans hmembers, ?_, hsize'⟩
        rw [hlength, hnodes.length, total_eq_card hnodes.ascending]

/-! ## `remove` and `getLostSeq` -/

/-- The head loses its first number. -/
theorem SndNodes.shift {ivs : List Interval} {a b : ℤ} (h : SndNodes l c ((a, b) :: ivs))
    (hab : a < b) :
    LossChain (Function.update (l.shift l.head (seqno a)).2.data1 l.head (-1))
      (l.shift l.head (seqno a)).2.data2 (l.shift l.head (seqno a)).2.next
      (l.shift l.head (seqno a)).1 (l.length - 1) l.size c ((a + 1, b) :: ivs) := by
  have h' : LossNodes l.data1 l.data2 l.next l.head l.length l.size c ([] ++ (a, b) :: ivs) :=
    h.toLossNodes
  have hhead : l.head = slot l.size c a := h.head
  obtain ⟨-, hne, hpost⟩ := h'.inside_parts (q := a + 1) (lt_add_one a) hab
  obtain ⟨-, hfree⟩ := h'.unused _ (h'.inside_notMem (q := a + 1) (lt_add_one a) hab)
  obtain ⟨hdata1, hdata2⟩ := h'.contents
  obtain ⟨-, hspan, hsize⟩ := h'.near_ends
  have hnext := h.next
  rw [slots_cons] at hnext
  dsimp only at hdata1 hdata2 hspan hne hnext
  have hend : endOf (a, b) = seqno b := if_neg (by
    dsimp only
    omega)
  have hascending : Ascending [(a + 1, b)] := ascending_singleton hab
  have hinside : ∀ y ∈ [(a + 1, b)], a ≤ y.1 ∧ y.2 ≤ b := by
    intro y hy
    rw [List.mem_singleton.mp hy]
    exact ⟨by omega, le_rfl⟩
  have hordered := (h'.ascending_replace hascending hinside).ordered
  unfold SndLossList.shift
  dsimp only
  rw [hhead, tmod_slot_succ h.size.1, hdata2, hend, incseq_seqno]
  refine h'.toLossChain.replace [(a + 1, b)] hordered (h'.span_replace hinside) ?_ ?_ ?_ ?_
    ⟨(Function.update_self _ _ _).trans hnext.1, hnext.2.update hpost _⟩ rfl
  · intro p hp hmid
    rw [slots_cons, slots_nil, List.mem_singleton] at hmid
    rw [Function.update_of_ne hp, Function.update_of_ne hmid, Function.update_of_ne hp]
    refine ⟨rfl, ?_⟩
    split
    · exact Function.update_of_ne hmid _ _
    · rfl
  · intro y hy
    rw [List.mem_singleton.mp hy]
    rw [Function.update_of_ne hne, Function.update_self, Function.update_of_ne hne]
    refine ⟨rfl, ?_⟩
    have hcmp := seqcmp_pos (a := b) (b := a + 1) (by
      rw [abs_lt]
      omega)
    unfold endOf
    dsimp only
    split
    · next hpos =>
        rw [Function.update_self, if_neg]
        have hlt := hcmp.mp hpos
        omega
    · next hneg =>
        rw [hfree, if_pos]
        have hge := fun hlt => hneg (hcmp.mpr hlt)
        omega
  · intro _
    exact ⟨Function.update_self _ _ _, Function.update_self _ _ _⟩
  · rw [total_cons, total_nil]
    dsimp only
    omega

/-- A node is cut behind `q`. -/
theorem SndNodes.cut {pre post : List Interval} {a b q : ℤ}
    (h : SndNodes l c (pre ++ (a, b) :: post)) (haq : a ≤ q) (hqb : q < b) :
    LossNodes (l.cut (slot l.size c a) (slot l.size c q) (seqno q) (endOf (a, q))).2.data1
        (l.cut (slot l.size c a) (slot l.size c q) (seqno q) (endOf (a, q))).2.data2
        (l.cut (slot l.size c a) (slot l.size c q) (seqno q) (endOf (a, q))).2.next
        l.head l.length l.size c (pre ++ (a, q) :: (q + 1, b) :: post) ∧
      (l.cut (slot l.size c a) (slot l.size c q) (seqno q) (endOf (a, q))).1 =
        slot l.size c (q + 1) := by
  have haq' : a < q + 1 := by omega
  have hnot := h.inside_notMem (q := q + 1) haq' hqb
  obtain ⟨-, hne, -⟩ := h.inside_parts (q := q + 1) haq' hqb
  obtain ⟨hdata1, hdata2⟩ := h.contents
  obtain ⟨-, hspan, hsize⟩ := h.near_ends
  obtain ⟨-, hfree⟩ := h.unused _ hnot
  have hslot := h.slot_notMem
  have hnext := h.next
  have holdHead := h.head
  rw [slots_append, slots_cons] at hnot hnext holdHead
  have hnext' := hnext.insert hslot hnot
  dsimp only at hne hdata1 hdata2 hspan
  have hend : endOf (a, b) = seqno b := if_neg (by
    dsimp only
    omega)
  have hascending : Ascending [(a, q), (q + 1, b)] := by
    refine ascending_cons_iff.mpr ⟨haq, fun y hy => ?_, ascending_singleton hqb⟩
    rw [List.mem_singleton.mp hy]
    dsimp only
    omega
  have hinside : ∀ y ∈ [(a, q), (q + 1, b)], a ≤ y.1 ∧ y.2 ≤ b := by
    intro y hy
    rcases List.mem_cons.mp hy with rfl | hy
    · exact ⟨le_rfl, by dsimp only; omega⟩
    · rw [List.mem_singleton.mp hy]
      exact ⟨by dsimp only; omega, le_rfl⟩
  have hreplace := h.ascending_replace hascending hinside
  have hslots : slots l.size c (pre ++ ([(a, q), (q + 1, b)] ++ post)) =
      slots l.size c pre ++ slot l.size c a :: slot l.size c (q + 1) :: slots l.size c post := by
    rw [slots_append, slots_append]
    rfl
  unfold SndLossList.cut
  dsimp only
  rw [tmod_slot_succ h.size.1, hdata2, hend, Function.update_self, incseq_seqno]
  refine ⟨⟨h.toLossChain.replace [(a, q), (q + 1, b)] hreplace.ordered (h.span_replace hinside)
    ?_ ?_ ?_ ?_ (hslots ▸ hnext') ?_, hreplace⟩, rfl⟩
  · intro p hp hmid
    rw [slots_cons, slots_cons, slots_nil, List.mem_cons, List.mem_singleton, not_or] at hmid
    rw [Function.update_of_ne hmid.2, Function.update_of_ne hp]
    refine ⟨rfl, ?_⟩
    split
    · exact Function.update_of_ne hmid.2 _ _
    · rfl
  · intro y hy
    rcases List.mem_cons.mp hy with rfl | hy
    · dsimp only
      rw [Function.update_of_ne hne.symm, Function.update_self]
      exact ⟨hdata1, rfl⟩
    · rw [List.mem_singleton.mp hy]
      dsimp only
      rw [Function.update_self, Function.update_of_ne hne]
      refine ⟨rfl, ?_⟩
      have hcmp := seqcmp_pos (a := b) (b := q + 1) (by
        rw [abs_lt]
        omega)
      unfold endOf
      dsimp only
      split
      · next hpos =>
          rw [Function.update_self, if_neg]
          have hlt := hcmp.mp hpos
          omega
      · next hneg =>
          rw [hfree, if_pos]
          have hge := fun hlt => hneg (hcmp.mpr hlt)
          omega
  · intro hmid
    exact absurd List.mem_cons_self hmid
  · rw [total_cons, total_cons, total_nil]
    dsimp only
    omega
  · rw [hslots, holdHead, headD_append, headD_append]
    rfl

/-- What was inserted last is forgotten when its node goes. -/
theorem lastInsertPos_pop {p : ℤ} {ps qs : List ℤ} {loc : ℤ}
    (h : p = -1 ∨ p ∈ loc :: ps) (hsub : ∀ q ∈ ps, q ∈ qs) :
    (if p = loc then -1 else p) = -1 ∨ (if p = loc then -1 else p) ∈ qs := by
  by_cases heq : p = loc
  · exact Or.inl (if_pos heq)
  · rw [if_neg heq]
    exact h.imp id fun hmem => hsub p ((List.mem_cons.mp hmem).resolve_left heq)

/-- `pop` takes the first packet out. -/
theorem SndNodes.pop {x : Interval} {ivs : List Interval} (h : SndNodes l c (x :: ivs)) :
    ∃ ivs', SndNodes (l.pop (seqno x.1)) c ivs' ∧
      members ivs' = (members (x :: ivs)).erase x.1 ∧ (l.pop (seqno x.1)).size = l.size := by
  obtain ⟨a, b⟩ := x
  obtain ⟨hab, hbehind, hascending⟩ := ascending_cons_iff.mp h.ascending
  have hhead : l.head = slot l.size c a := h.head
  have hlastPos := h.lastInsertPos
  rw [slots_cons, ← show l.head = _ from hhead] at hlastPos
  have hlast : l.data2 l.head = endOf (a, b) := by
    rw [hhead]
    exact h.last (a, b) List.mem_cons_self
  have hsplit : Ascending ([] ++ (a, b) :: ivs) := h.ascending
  unfold SndLossList.pop
  by_cases hone : a = b
  · subst hone
    have hdata2 : l.data2 l.head = -1 := hlast.trans (if_pos rfl)
    have hchain := h.toLossChain.pop
    dsimp only at hchain
    rw [if_neg fun hne => hne hdata2, sub_self, zero_add] at hchain
    rw [if_pos hdata2]
    refine ⟨ivs, ⟨⟨hchain, hascending⟩, lastInsertPos_pop hlastPos fun q hq => hq⟩, ?_, rfl⟩
    refine members_erase [] hsplit ⟨le_rfl, le_rfl⟩ fun r => ?_
    exact iff_of_false (Finset.notMem_empty r) fun hr => hr.1 (le_antisymm hr.2.2 hr.2.1)
  · have hdata2 : l.data2 l.head ≠ -1 := by
      rw [hlast]
      exact fun heq => hone (endOf_eq_iff.mp heq)
    have hlt : a < b := lt_of_le_of_ne hab hone
    rw [if_neg hdata2]
    refine ⟨(a + 1, b) :: ivs, ⟨⟨h.shift hlt, ?_⟩, lastInsertPos_pop hlastPos fun q hq =>
      List.mem_cons_of_mem _ hq⟩, ?_, rfl⟩
    · exact ascending_cons_iff.mpr ⟨hlt, hbehind, hascending⟩
    · refine members_erase [(a + 1, b)] hsplit ⟨le_rfl, hab⟩ fun r => ?_
      simp only [mem_members, List.mem_singleton, exists_eq_left]
      omega

/-- All nodes in front of the new head go. -/
theorem dropUntil (front : List Interval) {rest : List Interval} {n : ℕ} {p : ℤ}
    (h : LossNodes l.data1 l.data2 l.next p l.length l.size c (front ++ rest))
    (hhead : l.head = (slots l.size c rest).headD (-1)) (hn : front.length < n)
    (hlast : l.lastInsertPos = -1 ∨ l.lastInsertPos ∈ slots l.size c (front ++ rest)) :
    SndNodes (SndLossList.dropUntil n l p) c rest ∧
      (SndLossList.dropUntil n l p).size = l.size := by
  induction front generalizing l n p with
  | nil =>
      have hp : p = l.head := h.head.trans hhead.symm
      have hsame : SndLossList.dropUntil n l p = l := by
        cases n with
        | zero => rfl
        | succ n =>
            unfold SndLossList.dropUntil
            exact if_pos hp
      rw [hsame]
      exact ⟨⟨hp ▸ h, hlast⟩, rfl⟩
  | cons x front ih =>
      obtain ⟨n, rfl⟩ : ∃ m, n = m + 1 := ⟨n - 1, by omega⟩
      rw [List.length_cons] at hn
      obtain ⟨hvalid, -, hascending⟩ := ascending_cons_iff.mp h.ascending
      have hp : p = slot l.size c x.1 := h.head
      have hne : p ≠ l.head := by
        rw [hhead]
        intro heq
        have hnodup := h.nodup
        rw [List.cons_append, slots_cons, ← hp, slots_append] at hnodup
        have hnot := (List.nodup_cons.mp hnodup).1
        cases rest with
        | nil => exact slot_ne_neg_one h.size.1 c x.1 (hp ▸ heq)
        | cons y rest =>
            rw [slots_cons, List.headD_cons] at heq
            refine hnot (List.mem_append_right _ ?_)
            rw [slots_cons, ← heq]
            exact List.mem_cons_self
      have hx : x ∈ x :: front ++ rest := List.mem_cons_self
      have hlen : (if l.data2 p ≠ -1 then l.length - seqlen (l.data1 p) (l.data2 p)
          else l.length - 1) = l.length - (x.2 - x.1 + 1) := by
        have hspan := h.span x hx x hx
        have hsize := h.size.2
        have hth := two_mul_seqNoTH
        rw [hp, h.last x hx, h.first x hx]
        by_cases hone : x.1 = x.2
        · rw [if_neg fun hne => hne (endOf_eq_iff.mpr hone)]
          omega
        · rw [if_pos fun heq => hone (endOf_eq_iff.mp heq),
            show endOf x = seqno x.2 from if_neg hone, seqlen_seqno hvalid (by omega)]
      have hpop := h.toLossChain.pop
      unfold SndLossList.dropUntil
      rw [if_neg hne, hlen]
      refine ih ⟨hpop, hascending⟩ hhead (by omega) ?_
      rw [List.cons_append, slots_cons, ← hp] at hlast
      exact lastInsertPos_pop hlast fun q hq => hq

/-- What is left when the nodes in front are dropped. -/
theorem members_behind {pre post : List Interval} {q : ℤ}
    (hpre : ∀ x ∈ pre, x.2 ≤ q) (hpost : ∀ x ∈ post, q < x.1) :
    members post = (members (pre ++ post)).filter (q < ·) := by
  ext r
  rw [Finset.mem_filter, mem_members_append]
  constructor
  · intro hr
    obtain ⟨x, hx, hfirst, -⟩ := mem_members.mp hr
    have hlt := hpost x hx
    exact ⟨Or.inr hr, by omega⟩
  · rintro ⟨hr | hr, hlt⟩
    · obtain ⟨x, hx, -, hlast⟩ := mem_members.mp hr
      have hle := hpre x hx
      omega
    · exact hr

/-- A cut behind `q` changes no member. -/
theorem members_cut {pre post : List Interval} {a b q : ℤ} (haq : a ≤ q) (hqb : q ≤ b) :
    members (pre ++ (a, q) :: (q + 1, b) :: post) = members (pre ++ (a, b) :: post) := by
  ext r
  rw [mem_members_append, mem_members_append, mem_members_cons, mem_members_cons,
    mem_members_cons]
  refine or_congr Iff.rfl ?_
  rw [← or_assoc]
  refine or_congr ?_ Iff.rfl
  dsimp only
  omega

/-- `remove` where the list is cut behind `q`, which is in the node `(a, b)` or behind it. -/
theorem SndNodes.drop {pre post : List Interval} {a b q : ℤ}
    (h : SndNodes l c (pre ++ (a, b) :: post)) (haq : a ≤ q) (hpost : ∀ y ∈ post, q < y.1)
    {r : ℤ × SndLossList}
    (hr : r = if q < b then l.cut (slot l.size c a) (slot l.size c q) (seqno q) (endOf (a, q))
      else (l.next (slot l.size c a), l)) :
    ∃ ivs', SndNodes (SndLossList.dropUntil (l.size.toNat + 1) { r.2 with head := r.1 } l.head)
        c ivs' ∧
      members ivs' = (members (pre ++ (a, b) :: post)).filter (q < ·) ∧
      (SndLossList.dropUntil (l.size.toNat + 1) { r.2 with head := r.1 } l.head).size = l.size := by
  have hlength := h.toLossChain.length_le
  rw [List.length_append, List.length_cons] at hlength
  obtain ⟨-, -, hbefore, -⟩ := ascending_split_iff.mp h.ascending
  have hpre : ∀ y ∈ pre, y.2 ≤ q := fun y hy => by
    have hlt := hbefore y hy
    dsimp only at hlt
    omega
  by_cases hlt : q < b
  · rw [if_pos hlt] at hr
    subst hr
    have hassoc : pre ++ (a, q) :: (q + 1, b) :: post =
        (pre ++ [(a, q)]) ++ (q + 1, b) :: post := by
      rw [List.append_assoc]
      rfl
    obtain ⟨hnodes, hhead⟩ := h.cut haq hlt
    have hmembers : members (pre ++ (a, q) :: (q + 1, b) :: post) = _ :=
      members_cut haq (le_of_lt hlt)
    rw [hassoc] at hnodes hmembers
    have hlast : l.lastInsertPos = -1 ∨
        l.lastInsertPos ∈ slots l.size c ((pre ++ [(a, q)]) ++ (q + 1, b) :: post) := by
      refine h.lastInsertPos.imp id fun hmem => ?_
      rw [← hassoc]
      rw [slots_append, slots_cons, List.mem_append, List.mem_cons] at hmem ⊢
      exact hmem.imp id fun hmem => hmem.imp id fun hmem => List.mem_cons_of_mem _ hmem
    obtain ⟨hdropped, hsize⟩ := dropUntil (l := { (l.cut (slot l.size c a) (slot l.size c q)
      (seqno q) (endOf (a, q))).2 with head := (l.cut (slot l.size c a) (slot l.size c q)
      (seqno q) (endOf (a, q))).1 }) (n := l.size.toNat + 1) (pre ++ [(a, q)]) hnodes hhead (by
        rw [List.length_append, List.length_singleton]
        omega) hlast
    refine ⟨_, hdropped, ?_, hsize⟩
    rw [← hmembers]
    refine members_behind (fun y hy => ?_) fun y hy => ?_
    · rcases List.mem_append.mp hy with hy | hy
      · exact hpre y hy
      · rw [List.mem_singleton.mp hy]
    · rcases List.mem_cons.mp hy with rfl | hy
      · exact lt_add_one q
      · exact hpost y hy
  · rw [if_neg hlt] at hr
    subst hr
    have hassoc : pre ++ (a, b) :: post = (pre ++ [(a, b)]) ++ post := by
      rw [List.append_assoc]
      rfl
    have hnext := h.next
    rw [slots_append, slots_cons] at hnext
    have hhead := (nextOf_append.mp hnext).2.1
    have hnodes := h.toLossNodes
    have hlast := h.lastInsertPos
    rw [hassoc] at hnodes hlast ⊢
    obtain ⟨hdropped, hsize⟩ := dropUntil (l := { l with head := l.next (slot l.size c a) })
      (n := l.size.toNat + 1) (pre ++ [(a, b)]) hnodes hhead (by
        rw [List.length_append, List.length_singleton]
        omega) hlast
    refine ⟨_, hdropped, members_behind (fun y hy => ?_) hpost, hsize⟩
    rcases List.mem_append.mp hy with hy | hy
    · exact hpre y hy
    · rw [List.mem_singleton.mp hy]
      exact not_lt.mp hlt

/-- `remove` takes out `q` and all packets before. -/
theorem SndNodes.remove {ivs : List Interval} (h : SndNodes l c ivs) {q : ℤ}
    (hstart : ∀ x ∈ ivs, |q - x.1| < l.size) (hstop : ∀ x ∈ ivs, |q - x.2| < l.size) :
    ∃ ivs', SndNodes (l.remove (seqno q)) c ivs' ∧
      members ivs' = (members ivs).filter (q < ·) ∧ (l.remove (seqno q)).size = l.size := by
  cases ivs with
  | nil =>
      unfold SndLossList.remove
      rw [if_pos (show l.length = 0 from h.length)]
      exact ⟨[], h, rfl, rfl⟩
  | cons x ivs =>
      have hsize := h.size
      have hhead : l.head = slot l.size c x.1 := h.head
      have hlength := h.length.trans (total_eq_card h.ascending)
      have hpos : l.length ≠ 0 := by
        have hmem : x.1 ∈ members (x :: ivs) :=
          mem_members_cons.mpr (Or.inl ⟨le_rfl, h.ordered.valid x List.mem_cons_self⟩)
        have hcard := Finset.card_pos.mpr ⟨_, hmem⟩
        omega
      have hnearX := hstart x List.mem_cons_self
      have hoffset : seqoff (l.data1 l.head) (seqno q) = q - x.1 :=
        (h.offset (hnearX.trans hsize.2)).1
      have hloc : (l.head + (q - x.1) + l.size).tmod l.size = slot l.size c q := by
        rw [abs_lt] at hnearX
        rw [hhead, tmod_slot_add_size hsize.1 c (by omega), add_sub_cancel]
      unfold SndLossList.remove
      rw [if_neg hpos]
      dsimp only
      rw [hoffset, hloc]
      by_cases hzero : q - x.1 = 0
      · obtain rfl : q = x.1 := by omega
        rw [if_pos hzero]
        obtain ⟨ivs', hnodes, hmembers, hsize'⟩ := h.pop
        refine ⟨ivs', hnodes, hmembers.trans ?_, hsize'⟩
        ext r
        rw [Finset.mem_erase, Finset.mem_filter, and_comm]
        refine and_congr_right fun hr => ?_
        obtain ⟨y, hy, hfirst, -⟩ := mem_members.mp hr
        obtain ⟨hvalid, hbehind, -⟩ := ascending_cons_iff.mp h.ascending
        rcases List.mem_cons.mp hy with rfl | hy
        · omega
        · have hlt := hbehind y hy
          omega
      rw [if_neg hzero]
      by_cases hbehind : 0 < q - x.1
      · rw [if_pos hbehind]
        by_cases hat : ∃ y ∈ x :: ivs, y.1 = q
        · rw [if_pos ((h.starts_iff hstart).mpr hat)]
          obtain ⟨⟨a, b⟩, hy, heq⟩ := hat
          dsimp only at heq
          subst heq
          have hlast : l.data2 (slot l.size c a) = endOf (a, b) := h.last _ hy
          have hvalid := h.ordered.valid _ hy
          obtain ⟨pre, post, hsplit⟩ := List.append_of_mem hy
          rw [hsplit] at h ⊢
          obtain ⟨-, -, -, hpost⟩ := ascending_split_iff.mp h.ascending
          refine h.drop le_rfl (fun y hy => lt_of_le_of_lt hvalid (hpost y hy)) ?_
          rw [hlast]
          by_cases hone : a = b
          · rw [if_pos (endOf_eq_iff.mpr hone), if_neg (by omega)]
          · rw [if_neg fun heq => hone (endOf_eq_iff.mp heq),
              if_pos (lt_of_le_of_ne hvalid hone), show endOf (a, a) = -1 from if_pos rfl]
        · rw [if_neg fun heq => hat ((h.starts_iff hstart).mp heq)]
          obtain ⟨pre, ⟨a, b⟩, post, hsplit, haq, hpost, hfound⟩ :=
            searchNext (n := l.size.toNat) h.toLossChain (fun y hy => by
              rw [abs_sub_comm]
              exact hstart y hy) ivs (List.nil_append (x :: ivs)).symm (show x.1 < q by omega) (by
              have hle := h.toLossChain.length_le
              rw [List.length_cons] at hle
              omega)
          have hy : (a, b) ∈ x :: ivs := hsplit ▸ List.mem_append_right pre List.mem_cons_self
          have hlast : l.data2 (slot l.size c a) = endOf (a, b) := h.last _ hy
          have hvalid := h.ordered.valid _ hy
          have hcmp := seqcmp_pos (a := b) (b := q) (by
            rw [abs_sub_comm]
            exact (hstop _ hy).trans hsize.2)
          have hpost' : ∀ y ∈ post, q < y.1 := fun y hy => lt_of_le_of_ne (hpost y hy) fun heq =>
            hat ⟨y, hsplit ▸ List.mem_append_right pre (List.mem_cons_of_mem _ hy), heq.symm⟩
          dsimp only at haq hvalid
          rw [hhead, hfound, ← hhead, hlast]
          rw [hsplit] at h ⊢
          refine h.drop (le_of_lt haq) hpost' ?_
          by_cases hone : a = b
          · rw [if_pos (endOf_eq_iff.mpr hone), if_neg (by omega)]
          · have hend : endOf (a, b) = seqno b := if_neg hone
            have hend' : endOf (a, q) = seqno q := if_neg (ne_of_lt haq)
            rw [if_neg fun heq => hone (endOf_eq_iff.mp heq), hend, hend']
            by_cases hlt : q < b
            · rw [if_pos (hcmp.mpr hlt), if_pos hlt]
            · rw [if_neg fun h => hlt (hcmp.mp h), if_neg hlt]
      · rw [if_neg hbehind]
        refine ⟨x :: ivs, h, (Finset.filter_true_of_mem fun r hr => ?_).symm, rfl⟩
        obtain ⟨y, hy, hfirst, -⟩ := mem_members.mp hr
        obtain ⟨hvalid, hbehindX, -⟩ := ascending_cons_iff.mp h.ascending
        rcases List.mem_cons.mp hy with rfl | hy
        · omega
        · have hlt := hbehindX y hy
          omega

/-! ## The set -/

/-- The list holds these packets. -/
def SndHolds (l : SndLossList) (S : Finset ℤ) : Prop :=
  ∃ c ivs, SndNodes l c ivs ∧ members ivs = S

namespace SndHolds

variable {S : Finset ℤ}

theorem new {size : ℤ} (hsize : 0 < size ∧ size < seqNoTH) (next : ℤ → ℤ) :
    SndHolds (.new size next) ∅ :=
  ⟨0, [], ⟨.nil hsize (fun _ => ⟨rfl, rfl⟩) next, Or.inl rfl⟩, rfl⟩

/-- `getLossLength` is how many packets are to be sent again. -/
theorem getLossLength (h : SndHolds l S) : l.getLossLength = S.card := by
  obtain ⟨c, ivs, h, rfl⟩ := h
  exact h.length.trans (total_eq_card h.ascending)

/-- `insert` adds the packets, and returns how many of them are new. -/
theorem insert (h : SndHolds l S) {a b : ℤ} (hab : a ≤ b)
    (hspan : ∀ r ∈ S ∪ Finset.Icc a b, ∀ r' ∈ S ∪ Finset.Icc a b, r' - r < l.size) :
    SndHolds (l.insert (seqno a) (seqno b)).2 (S ∪ Finset.Icc a b) ∧
      (l.insert (seqno a) (seqno b)).1 = (S ∪ Finset.Icc a b).card - S.card ∧
      (l.insert (seqno a) (seqno b)).2.size = l.size := by
  obtain ⟨c, ivs, h, rfl⟩ := h
  have hends : ∀ y ∈ (a, b) :: ivs,
      y.1 ∈ members ivs ∪ Finset.Icc a b ∧ y.2 ∈ members ivs ∪ Finset.Icc a b := by
    intro y hy
    rcases List.mem_cons.mp hy with rfl | hy
    · exact ⟨Finset.mem_union_right _ (Finset.left_mem_Icc.mpr hab),
        Finset.mem_union_right _ (Finset.right_mem_Icc.mpr hab)⟩
    · have hvalid := h.ascending.valid y hy
      exact ⟨Finset.mem_union_left _ (mem_members.mpr ⟨y, hy, le_rfl, hvalid⟩),
        Finset.mem_union_left _ (mem_members.mpr ⟨y, hy, hvalid, le_rfl⟩)⟩
  obtain ⟨c', ivs', h', hmembers, hcount, hsize⟩ := h.insert hab
    fun y hy z hz => hspan y.1 (hends y hy).1 z.2 (hends z hz).2
  exact ⟨⟨c', ivs', h', hmembers⟩, hmembers ▸ hcount, hsize⟩

/-- `remove` takes out the packet and all those before. -/
theorem remove (h : SndHolds l S) {q : ℤ} (hnear : ∀ r ∈ S, |q - r| < l.size) :
    SndHolds (l.remove (seqno q)) (S.filter (q < ·)) ∧ (l.remove (seqno q)).size = l.size := by
  obtain ⟨c, ivs, h, rfl⟩ := h
  obtain ⟨ivs', h', hmembers, hsize⟩ := h.remove
    (fun x hx => hnear x.1 (mem_members.mpr ⟨x, hx, le_rfl, h.ascending.valid x hx⟩))
    fun x hx => hnear x.2 (mem_members.mpr ⟨x, hx, h.ascending.valid x hx, le_rfl⟩)
  exact ⟨⟨c, ivs', h', hmembers⟩, hsize⟩

/-- `getLostSeq` has nothing to return when no packet is to be sent again. -/
theorem getLostSeq_empty (h : SndHolds l ∅) : l.getLostSeq = (-1, l) := by
  have hlength := h.getLossLength
  unfold SndLossList.getLostSeq
  exact if_pos hlength

/-- Else it returns the first, and takes it out. -/
theorem getLostSeq (h : SndHolds l S) {m : ℤ} (hm : m ∈ S) (hfirst : ∀ q ∈ S, m ≤ q) :
    l.getLostSeq.1 = seqno m ∧ SndHolds l.getLostSeq.2 (S.erase m) ∧
      l.getLostSeq.2.size = l.size := by
  have hlength := h.getLossLength
  have hcard := Finset.card_pos.mpr ⟨m, hm⟩
  have hpos : l.length ≠ 0 := by
    unfold SndLossList.getLossLength at hlength
    omega
  obtain ⟨c, ivs, h, rfl⟩ := h
  cases ivs with
  | nil => cases hm
  | cons x ivs =>
      obtain ⟨hvalid, hbehind, -⟩ := ascending_cons_iff.mp h.ascending
      have hle := hfirst x.1 (mem_members_cons.mpr (Or.inl ⟨le_rfl, hvalid⟩))
      obtain ⟨y, hy, hym, -⟩ := mem_members.mp hm
      have heq : m = x.1 := by
        rcases List.mem_cons.mp hy with rfl | hy
        · omega
        · have hlt := hbehind y hy
          omega
      subst heq
      have hdata1 : l.data1 l.head = seqno x.1 := by
        rw [h.head]
        exact h.first x List.mem_cons_self
      obtain ⟨ivs', hnodes, hmembers, hsize⟩ := h.pop
      unfold SndLossList.getLostSeq
      rw [if_neg hpos]
      dsimp only
      rw [hdata1]
      exact ⟨rfl, ⟨c, ivs', hnodes, hmembers⟩, hsize⟩

end SndHolds

/-! ## Calls -/

/-- What the sender does with its loss list. -/
inductive SndCall
  | insert (a b : ℤ)
  | remove (q : ℤ)
  | getLossLength
  | getLostSeq

/-- The calls of the list. -/
def sndListCall (l : SndLossList) : SndCall → ℤ × SndLossList
  | .insert a b => l.insert (seqno a) (seqno b)
  | .remove q => (0, l.remove (seqno q))
  | .getLossLength => (l.getLossLength, l)
  | .getLostSeq => l.getLostSeq

/-- The calls of a set. -/
noncomputable def sndSetCall (S : Finset ℤ) : SndCall → ℤ × Finset ℤ
  | .insert a b => ((S ∪ Finset.Icc a b).card - S.card, S ∪ Finset.Icc a b)
  | .remove q => (0, S.filter (q < ·))
  | .getLossLength => (S.card, S)
  | .getLostSeq => if h : S.Nonempty then (seqno (S.min' h), S.erase (S.min' h)) else (-1, S)

/-- What the sender keeps to: all packets of the list lie in one window. -/
def SndCall.Near (size : ℤ) (S : Finset ℤ) : SndCall → Prop
  | .insert a b => a ≤ b ∧ ∀ r ∈ S ∪ Finset.Icc a b, ∀ r' ∈ S ∪ Finset.Icc a b, r' - r < size
  | .remove q => ∀ r ∈ S, |q - r| < size
  | .getLossLength => True
  | .getLostSeq => True

/-- One call. -/
theorem SndHolds.call {S : Finset ℤ} (h : SndHolds l S) {k : SndCall} (hk : k.Near l.size S) :
    (sndListCall l k).1 = (sndSetCall S k).1 ∧
      SndHolds (sndListCall l k).2 (sndSetCall S k).2 ∧ (sndListCall l k).2.size = l.size := by
  cases k with
  | insert a b =>
      obtain ⟨h', hcount, hsize⟩ := h.insert hk.1 hk.2
      exact ⟨hcount, h', hsize⟩
  | remove q =>
      obtain ⟨h', hsize⟩ := h.remove hk
      exact ⟨rfl, h', hsize⟩
  | getLossLength => exact ⟨h.getLossLength, h, rfl⟩
  | getLostSeq =>
      unfold sndListCall sndSetCall
      dsimp only
      by_cases hne : S.Nonempty
      · rw [dif_pos hne]
        exact h.getLostSeq (S.min'_mem hne) fun q hq => S.min'_le q hq
      · rw [dif_neg hne]
        obtain rfl := Finset.not_nonempty_iff_eq_empty.mp hne
        rw [h.getLostSeq_empty]
        exact ⟨rfl, h, rfl⟩

/-- No calls tell the list from the set. -/
theorem sndLossList_transcript {size : ℤ} (hsize : 0 < size ∧ size < seqNoTH) (next : ℤ → ℤ)
    {ks : List SndCall}
    (hks : DataRefinement.Permitted sndSetCall (fun S k => k.Near size S) ∅ ks) :
    DataRefinement.transcript sndListCall (.new size next) ks =
      DataRefinement.transcript sndSetCall ∅ ks := by
  refine (DataRefinement.transcript_eq (R := fun l S => SndHolds l S ∧ l.size = size)
    (fun l S k hl hk => ?_) ⟨.new hsize next, rfl⟩ hks).1
  obtain ⟨hanswer, h', hsize'⟩ := hl.1.call (hl.2.symm ▸ hk)
  exact ⟨hanswer, h', hsize'.trans hl.2⟩

/-- Two reports that overlap, and one packet that is sent again. -/
theorem sndLossList_transcript_overlap :
    DataRefinement.transcript sndListCall (.new 16384 fun _ => 0)
        [.insert 5 7, .insert 3 6, .getLossLength, .getLostSeq, .remove 4] =
      DataRefinement.transcript sndSetCall ∅
        [.insert 5 7, .insert 3 6, .getLossLength, .getLostSeq, .remove 4] := by
  have hfirst : (∅ ∪ Finset.Icc 5 7 : Finset ℤ) = Finset.Icc 5 7 := Finset.empty_union _
  have hboth : ∀ r ∈ (Finset.Icc 5 7 ∪ Finset.Icc 3 6 : Finset ℤ), 3 ≤ r ∧ r ≤ 7 := by decide
  refine sndLossList_transcript (by decide) _
    ⟨⟨by omega, fun r hr r' hr' => ?_⟩, ⟨by omega, fun r hr r' hr' => ?_⟩, trivial, trivial,
      fun r hr => ?_, trivial⟩
  · rw [hfirst, Finset.mem_Icc] at hr hr'
    omega
  · dsimp only [sndSetCall] at hr hr'
    rw [hfirst] at hr hr'
    have hr := hboth r hr
    have hr' := hboth r' hr'
    omega
  · have hmem : r ∈ (Finset.Icc 5 7 ∪ Finset.Icc 3 6 : Finset ℤ) := by
      dsimp only [sndSetCall] at hr
      split at hr
      · exact hfirst ▸ (Finset.mem_erase.mp hr).2
      · exact hfirst ▸ hr
    have hr := hboth r hmem
    rw [abs_lt]
    omega

end DesktopSync.Analysis
