import Mathlib.Data.Finset.Max
import DesktopSync.Analysis.LossNodes
import DesktopSync.Computation.DataRefinement
import DesktopSync.Model.RcvLossList

/-!
# The receiver's loss list is a set of packets

`RcvNodes` says which intervals the arrays hold, and `RcvHolds` which packets. The operations
on the arrays are those on the set, as long as the packets lie less than the size of the arrays
apart.
-/

set_option autoImplicit false

namespace DesktopSync.Analysis

open DesktopSync.Model
open CSeqNo CircularArray IntervalList LinkedNodes

/-- The arrays of the list hold these intervals, and link them both ways. -/
structure RcvNodes (l : RcvLossList) (c : ℤ) (ivs : List Interval) : Prop extends
    LossNodes l.data1 l.data2 l.next l.head l.length l.size c ivs where
  prior : PriorOf l.prior (-1) (slots l.size c ivs)
  tail : ivs ≠ [] → l.tail = (slots l.size c ivs).getLastD (-1)

namespace RcvNodes

variable {l : RcvLossList} {c : ℤ}

theorem new {size : ℤ} (hsize : 0 < size ∧ size < seqNoTH) (next prior : ℤ → ℤ) (c : ℤ) :
    RcvNodes (.new size next prior) c [] where
  toLossNodes := .nil hsize (fun _ => ⟨rfl, rfl⟩) next
  prior := trivial
  tail h := absurd rfl h

/-- Where a node is replaced. -/
theorem replace {l' : RcvLossList} {pre post : List Interval} {x : Interval}
    (h : RcvNodes l c (pre ++ x :: post)) (mid : List Interval) (hsize : l'.size = l.size)
    (hascending : Ascending (pre ++ (mid ++ post)))
    (hspan : ∀ y ∈ pre ++ (mid ++ post), ∀ z ∈ pre ++ (mid ++ post), z.2 - y.1 < l.size)
    (hsame : ∀ p, p ≠ slot l.size c x.1 → p ∉ slots l.size c mid →
      l'.data1 p = l.data1 p ∧ l'.data2 p = l.data2 p)
    (hmid : ∀ y ∈ mid, l'.data1 (slot l.size c y.1) = seqno y.1 ∧
      l'.data2 (slot l.size c y.1) = endOf y)
    (hgone : slot l.size c x.1 ∉ slots l.size c mid →
      l'.data1 (slot l.size c x.1) = -1 ∧ l'.data2 (slot l.size c x.1) = -1)
    (hlength : l'.length = l.length - (x.2 - x.1 + 1) + total mid)
    (hnext : NextOf l'.next (slots l.size c (pre ++ (mid ++ post))) (-1))
    (hprior : PriorOf l'.prior (-1) (slots l.size c (pre ++ (mid ++ post))))
    (hhead : l'.head = (slots l.size c (pre ++ (mid ++ post))).headD (-1))
    (htail : pre ++ (mid ++ post) ≠ [] →
      l'.tail = (slots l.size c (pre ++ (mid ++ post))).getLastD (-1)) :
    RcvNodes l' c (pre ++ (mid ++ post)) where
  toLossNodes := ⟨hsize ▸ h.toLossChain.replace mid hascending.ordered hspan hsame hmid hgone
    hlength hnext hhead, hascending⟩
  prior := hsize ▸ hprior
  tail := hsize ▸ htail

/-- The tail is the last node. -/
theorem tail_eq_iff {pre post : List Interval} {x : Interval}
    (h : RcvNodes l c (pre ++ x :: post)) : l.tail = slot l.size c x.1 ↔ post = [] := by
  rw [h.tail (List.append_ne_nil_of_right_ne_nil pre (List.cons_ne_nil x post)), slots_append,
    slots_cons, getLastD_append, List.getLastD_cons]
  cases post with
  | nil => exact iff_of_true rfl rfl
  | cons y post =>
      refine iff_of_false (fun heq => ?_) (List.cons_ne_nil y post)
      have hnot := h.slot_notMem.2
      rw [slots_cons] at heq hnot
      rw [List.getLastD_cons] at heq
      exact hnot (heq ▸ List.getLastD_mem_cons)

/-- What the arrays link around a node. -/
theorem links {pre post : List Interval} {x : Interval} (h : RcvNodes l c (pre ++ x :: post)) :
    (NextOf l.next (slots l.size c pre) (slot l.size c x.1) ∧
      l.next (slot l.size c x.1) = (slots l.size c post).headD (-1) ∧
        NextOf l.next (slots l.size c post) (-1)) ∧
    PriorOf l.prior (-1) (slots l.size c pre) ∧
      l.prior (slot l.size c x.1) = (slots l.size c pre).getLastD (-1) ∧
        PriorOf l.prior (slot l.size c x.1) (slots l.size c post) := by
  have hnext := h.next
  have hprior := h.prior
  rw [slots_append, slots_cons, nextOf_append] at hnext
  rw [slots_append, slots_cons, priorOf_append] at hprior
  exact ⟨hnext, hprior⟩

/-- What `unlink` does to the numbers. -/
theorem unlink_numbers (l : RcvLossList) (loc : ℤ) :
    (l.unlink loc).data1 = Function.update l.data1 loc (-1) ∧ (l.unlink loc).data2 = l.data2 ∧
      (l.unlink loc).length = l.length - 1 ∧ (l.unlink loc).size = l.size := by
  unfold RcvLossList.unlink
  split
  · exact ⟨rfl, rfl, rfl, rfl⟩
  · exact ⟨rfl, rfl, rfl, rfl⟩

/-- What `unlink` does to the links. -/
theorem unlink_links {pre post : List Interval} {a : ℤ}
    (h : RcvNodes l c (pre ++ (a, a) :: post)) :
    NextOf (l.unlink (slot l.size c a)).next (slots l.size c (pre ++ post)) (-1) ∧
      PriorOf (l.unlink (slot l.size c a)).prior (-1) (slots l.size c (pre ++ post)) ∧
      (l.unlink (slot l.size c a)).head = (slots l.size c (pre ++ post)).headD (-1) ∧
      (pre ++ post ≠ [] →
        (l.unlink (slot l.size c a)).tail = (slots l.size c (pre ++ post)).getLastD (-1)) := by
  obtain ⟨hpre, hpost⟩ := h.slot_notMem
  obtain ⟨⟨hnextPre, hnextA, hnextPost⟩, hpriorPre, hpriorA, hpriorPost⟩ := h.links
  have hnodup := h.nodup
  rw [slots_append, slots_cons] at hnodup
  have hnodupPre := (List.nodup_append.mp hnodup).1
  have hnodupPost := (List.nodup_cons.mp (List.nodup_append.mp hnodup).2.1).2
  have hcross := (List.nodup_append.mp hnodup).2.2
  have htail := h.tail (List.append_ne_nil_of_right_ne_nil pre (List.cons_ne_nil _ post))
  rw [slots_append, slots_cons, getLastD_append, List.getLastD_cons] at htail
  unfold RcvLossList.unlink
  by_cases hhead : l.head = slot l.size c a
  · obtain rfl := h.head_eq_iff.mp hhead
    rw [if_pos hhead, hhead, hnextA]
    dsimp only
    cases post with
    | nil => exact ⟨trivial, trivial, rfl, fun hne => absurd rfl hne⟩
    | cons y post =>
        have hslot := headD_ne h.size.1 c (List.cons_ne_nil y post)
        rw [if_pos hslot]
        rw [slots_cons] at hnextPost hpriorPost hnodupPost htail
        refine ⟨hnextPost, hpriorPost.relink (List.nodup_cons.mp hnodupPost).1 (-1), rfl,
          fun _ => ?_⟩
        rw [List.nil_append, slots_cons, List.getLastD_cons]
        rwa [List.getLastD_cons] at htail
  · have hne : slots l.size c pre ≠ [] := by
      intro hnil
      exact hhead (h.head_eq_iff.mpr (List.map_eq_nil_iff.mp hnil))
    obtain ⟨p, hp⟩ : ∃ p, (slots l.size c pre).getLastD (-1) = p := ⟨_, rfl⟩
    have hlast : p ∈ slots l.size c pre := hp ▸ getLastD_mem hne (-1)
    have hpa : slot l.size c a ≠ p := fun heq => hpre (heq ▸ hlast)
    have hpPost : p ∉ slots l.size c post := fun hmem =>
      hcross p hlast p (List.mem_cons_of_mem _ hmem) rfl
    have hnext := hnextPre.relink hnodupPre (-1) ((slots l.size c post).headD (-1)) hne
    rw [hp] at hnext
    have hheadPre : l.head = (slots l.size c pre ++ slots l.size c post).headD (-1) := by
      rw [h.head, slots_append, headD_append, headD_append]
      cases pre with
      | nil => exact absurd rfl hne
      | cons x pre => rfl
    rw [if_neg hhead, hpriorA, hnextA, hp, slots_append, nextOf_append, priorOf_append]
    dsimp only
    rw [Function.update_of_ne hpa, hnextA]
    refine ⟨⟨hnext, hnextPost.update hpPost _⟩, ?_, hheadPre, fun _ => ?_⟩
    · cases post with
      | nil =>
          rw [if_neg (fun hneg => hneg rfl)]
          exact ⟨hpriorPre, trivial⟩
      | cons y post =>
          rw [if_pos (headD_ne h.size.1 c (List.cons_ne_nil y post)), hp]
          rw [slots_cons] at hpriorPost hnodupPost hcross
          have hy : slot l.size c y.1 ∉ slots l.size c pre := fun hmem =>
            hcross _ hmem _ (List.mem_cons_of_mem _ List.mem_cons_self) rfl
          exact ⟨hpriorPre.update hy p,
            hpriorPost.relink (List.nodup_cons.mp hnodupPost).1 p⟩
    · rw [getLastD_append, hp]
      cases post with
      | nil => exact if_neg fun hneg => hneg rfl
      | cons y post =>
          rw [if_pos (headD_ne h.size.1 c (List.cons_ne_nil y post)), htail, slots_cons,
            List.getLastD_cons, List.getLastD_cons]

/-- A node that is for one packet goes. -/
theorem unlink {pre post : List Interval} {a : ℤ} (h : RcvNodes l c (pre ++ (a, a) :: post)) :
    RcvNodes (l.unlink (slot l.size c a)) c (pre ++ post) := by
  obtain ⟨-, hothers, -, -⟩ := ascending_split_iff.mp h.ascending
  obtain ⟨hdata1, hdata2, hlength, hsize⟩ := unlink_numbers l (slot l.size c a)
  obtain ⟨hnext, hprior, hhead, htail⟩ := h.unlink_links
  refine h.replace [] hsize hothers
    (h.span_replace fun y (hy : y ∈ []) => absurd hy List.not_mem_nil) (fun p hp _ => ?_)
    (fun y hy => by cases hy) (fun _ => ⟨?_, ?_⟩) ?_ hnext hprior hhead htail
  · rw [hdata1, hdata2]
    exact ⟨Function.update_of_ne hp _ _, rfl⟩
  · rw [hdata1]
    exact Function.update_self _ _ _
  · rw [hdata2, h.last (a, a) (List.mem_append_right pre List.mem_cons_self)]
    exact if_pos rfl
  · rw [hlength, total_nil]
    omega

/-- What `shift` does to the links. -/
theorem shift_links {pre post : List Interval} {a b : ℤ} (hab : a < b)
    (h : RcvNodes l c (pre ++ (a, b) :: post)) :
    NextOf (l.shift (slot l.size c a)).next (slots l.size c (pre ++ (a + 1, b) :: post)) (-1) ∧
      PriorOf (l.shift (slot l.size c a)).prior (-1)
        (slots l.size c (pre ++ (a + 1, b) :: post)) ∧
      (l.shift (slot l.size c a)).head =
        (slots l.size c (pre ++ (a + 1, b) :: post)).headD (-1) ∧
      (l.shift (slot l.size c a)).tail =
        (slots l.size c (pre ++ (a + 1, b) :: post)).getLastD (-1) := by
  obtain ⟨hpre, hne, hpost⟩ := h.inside_parts (q := a + 1) (lt_add_one a) hab
  obtain ⟨hnodupPre, hnodupPost, hcross⟩ := h.nodup_parts
  obtain ⟨⟨-, hnextA, -⟩, -, hpriorA, -⟩ := h.links
  have hheadIff : l.head = slot l.size c a ↔ slots l.size c pre = [] :=
    h.head_eq_iff.trans List.map_eq_nil_iff.symm
  have htailIff : l.tail = slot l.size c a ↔ slots l.size c post = [] :=
    h.tail_eq_iff.trans List.map_eq_nil_iff.symm
  have holdHead := h.head
  have holdTail := h.tail (List.append_ne_nil_of_right_ne_nil pre (List.cons_ne_nil _ post))
  have hnext := h.next
  have hprior := h.prior
  rw [slots_append, slots_cons] at hnext hprior holdHead holdTail
  have hnext' := hnext.replace (-1) hnodupPre hpre hpost hcross
  have hprior' := hprior.replace (-1) hnodupPost hpre hpost hcross
  have hat := (nextOf_append.mp hnext').2.1
  unfold RcvLossList.shift
  dsimp only
  rw [tmod_slot_succ h.size.1, Function.update_self, hpriorA, slots_append, slots_cons]
  simp only [hheadIff, htailIff]
  refine ⟨hnext', ?_, ?_, ?_⟩
  · rw [hat, ← hpriorA]
    exact hprior'
  · rw [headD_append, List.headD_cons]
    rw [headD_append, List.headD_cons] at holdHead
    split
    · next hnil => rw [hnil, List.headD_nil]
    · next hcons =>
        rw [holdHead]
        cases hslots : slots l.size c pre with
        | nil => exact absurd hslots hcons
        | cons p ps => rfl
  · rw [getLastD_append, List.getLastD_cons]
    rw [getLastD_append, List.getLastD_cons] at holdTail
    split
    · next hnil => rw [hnil, List.getLastD_nil]
    · next hcons =>
        rw [holdTail]
        cases hslots : slots l.size c post with
        | nil => exact absurd hslots hcons
        | cons p ps => rw [List.getLastD_cons, List.getLastD_cons]

/-- A node loses its first number. -/
theorem shift {pre post : List Interval} {a b : ℤ} (hab : a < b)
    (h : RcvNodes l c (pre ++ (a, b) :: post)) :
    RcvNodes (l.shift (slot l.size c a)) c (pre ++ (a + 1, b) :: post) := by
  obtain ⟨hpre, hne, hpost⟩ := h.inside_parts (q := a + 1) (lt_add_one a) hab
  obtain ⟨hdata1, hdata2⟩ := h.contents
  obtain ⟨-, hspan, hsize⟩ := h.near_ends
  obtain ⟨-, hfree⟩ := h.unused _ (h.inside_notMem (q := a + 1) (lt_add_one a) hab)
  obtain ⟨hnext, hprior, hhead, htail⟩ := h.shift_links hab
  have hascending : Ascending [(a + 1, b)] := ascending_singleton hab
  have hinside : ∀ y ∈ [(a + 1, b)], a ≤ y.1 ∧ y.2 ≤ b := by
    intro y hy
    rw [List.mem_singleton.mp hy]
    exact ⟨by omega, le_rfl⟩
  dsimp only at hdata1 hdata2 hspan
  have hend : endOf (a, b) = seqno b := if_neg (by dsimp only; omega)
  refine h.replace [(a + 1, b)] rfl (h.ascending_replace hascending hinside)
    (h.span_replace hinside) ?_ ?_ ?_ ?_
    hnext hprior hhead fun _ => htail
  · intro p hp hmid
    rw [slots_cons, slots_nil, List.mem_singleton] at hmid
    unfold RcvLossList.shift
    dsimp only
    rw [tmod_slot_succ h.size.1, Function.update_of_ne hp, Function.update_of_ne hmid,
      Function.update_of_ne hp]
    refine ⟨rfl, ?_⟩
    split
    · exact Function.update_of_ne hmid _ _
    · rfl
  · intro y hy
    rw [List.mem_singleton.mp hy]
    unfold RcvLossList.shift
    dsimp only
    rw [tmod_slot_succ h.size.1, Function.update_of_ne hne, Function.update_self,
      Function.update_of_ne hne, Function.update_of_ne hne.symm, hdata1, hdata2, hend,
      incseq_seqno]
    refine ⟨rfl, ?_⟩
    have hcmp := seqcmp_pos (a := b) (b := a + 1) (by
      rw [abs_lt]
      omega)
    unfold endOf
    dsimp only
    split
    · next hpos =>
        rw [Function.update_self, if_neg]
        have hlt := hcmp.mp hpos
        omega
    · next hneg =>
        rw [hfree, if_pos]
        have hge := fun hlt => hneg (hcmp.mpr hlt)
        omega
  · intro _
    unfold RcvLossList.shift
    dsimp only
    exact ⟨Function.update_self _ _ _, Function.update_self _ _ _⟩
  · unfold RcvLossList.shift
    dsimp only
    rw [total_cons, total_nil]
    omega

/-- What `cutEnd` leaves of a node. -/
theorem cutEnd_seqno {a q : ℤ} (hlt : a < q) (hnear : q - a < seqNoTH) :
    RcvLossList.cutEnd (seqno a) (seqno q) = endOf (a, q - 1) := by
  have hinj := seqno_inj (a := q) (b := a + 1) (by
    rw [abs_lt]
    omega)
  unfold RcvLossList.cutEnd endOf
  rw [incseq_seqno, decseq_seqno]
  dsimp only
  by_cases heq : q = a + 1
  · rw [if_pos (hinj.mpr heq), if_pos (by omega)]
  · rw [if_neg fun hseq => heq (hinj.mp hseq), if_neg (by omega)]

/-- A node loses its last number. -/
theorem cut {pre post : List Interval} {a b : ℤ} (hab : a < b)
    (h : RcvNodes l c (pre ++ (a, b) :: post)) :
    RcvNodes { l with
      data2 := Function.update l.data2 (slot l.size c a) (RcvLossList.cutEnd (seqno a) (seqno b))
      length := l.length - 1 } c (pre ++ (a, b - 1) :: post) := by
  obtain ⟨hdata1, -⟩ := h.contents
  obtain ⟨-, hspan, hsize⟩ := h.near_ends
  have hascending : Ascending [(a, b - 1)] := ascending_singleton (by
    dsimp only
    omega)
  have hinside : ∀ y ∈ [(a, b - 1)], a ≤ y.1 ∧ y.2 ≤ b := by
    intro y hy
    rw [List.mem_singleton.mp hy]
    exact ⟨le_rfl, by omega⟩
  have hslots : slots l.size c (pre ++ ([(a, b - 1)] ++ post)) =
      slots l.size c (pre ++ (a, b) :: post) := by
    rw [slots_append, slots_append, slots_append]
    rfl
  dsimp only at hspan
  refine h.replace [(a, b - 1)] rfl (h.ascending_replace hascending hinside)
    (h.span_replace hinside) ?_ ?_ ?_ ?_
    (hslots ▸ h.next) (hslots ▸ h.prior) (hslots ▸ h.head) fun _ => hslots ▸ h.tail ?_
  · intro p hp _
    exact ⟨rfl, Function.update_of_ne hp _ _⟩
  · intro y hy
    rw [List.mem_singleton.mp hy]
    exact ⟨hdata1, (Function.update_self _ _ _).trans (cutEnd_seqno hab (by omega))⟩
  · intro hmid
    exact absurd (List.mem_singleton_self _) hmid
  · rw [total_cons, total_nil]
    dsimp only
    omega
  · exact List.append_ne_nil_of_right_ne_nil pre (List.cons_ne_nil _ post)

/-- What `split` does to the links. -/
theorem split_links {pre post : List Interval} {a b q : ℤ} (haq : a < q) (hqb : q < b)
    (h : RcvNodes l c (pre ++ (a, b) :: post)) :
    NextOf (l.split (slot l.size c a) (slot l.size c q) (seqno q)).next
        (slots l.size c (pre ++ (a, q - 1) :: (q + 1, b) :: post)) (-1) ∧
      PriorOf (l.split (slot l.size c a) (slot l.size c q) (seqno q)).prior (-1)
        (slots l.size c (pre ++ (a, q - 1) :: (q + 1, b) :: post)) ∧
      (l.split (slot l.size c a) (slot l.size c q) (seqno q)).head =
        (slots l.size c (pre ++ (a, q - 1) :: (q + 1, b) :: post)).headD (-1) ∧
      (l.split (slot l.size c a) (slot l.size c q) (seqno q)).tail =
        (slots l.size c (pre ++ (a, q - 1) :: (q + 1, b) :: post)).getLastD (-1) := by
  have hnot := h.inside_notMem (q := q + 1) (by
    dsimp only
    omega) hqb
  have hnodup := h.nodup
  have hslot := h.slot_notMem
  have htailIff : l.tail = slot l.size c a ↔ slots l.size c post = [] :=
    h.tail_eq_iff.trans List.map_eq_nil_iff.symm
  have holdHead := h.head
  have holdTail := h.tail (List.append_ne_nil_of_right_ne_nil pre (List.cons_ne_nil _ post))
  have hnext := h.next
  have hprior := h.prior
  rw [slots_append, slots_cons] at hnot hnext hprior hnodup holdHead holdTail
  have hnext' := hnext.insert hslot hnot
  have hprior' := hprior.insert (-1) hnodup hnot
  have hat := (nextOf_append.mp hnext').2.2.1
  unfold RcvLossList.split
  dsimp only
  rw [tmod_slot_succ h.size.1, slots_append, slots_cons, slots_cons]
  simp only [htailIff]
  refine ⟨hnext', ?_, ?_, ?_⟩
  · rw [hat]
    exact hprior'
  · rw [holdHead, headD_append, headD_append]
    rfl
  · rw [getLastD_append, List.getLastD_cons, List.getLastD_cons]
    rw [getLastD_append, List.getLastD_cons] at holdTail
    split
    · next hnil => rw [hnil, List.getLastD_nil]
    · next hcons =>
        rw [holdTail]
        cases hslots : slots l.size c post with
        | nil => exact absurd hslots hcons
        | cons p ps => rw [List.getLastD_cons, List.getLastD_cons]

/-- A node loses a number that is inside. -/
theorem split {pre post : List Interval} {a b q : ℤ} (haq : a < q) (hqb : q < b)
    (h : RcvNodes l c (pre ++ (a, b) :: post)) :
    RcvNodes (l.split (slot l.size c a) (slot l.size c q) (seqno q)) c
      (pre ++ (a, q - 1) :: (q + 1, b) :: post) := by
  have haq' : a < q + 1 := by omega
  obtain ⟨-, hne, -⟩ := h.inside_parts (q := q + 1) haq' hqb
  obtain ⟨hdata1, hdata2⟩ := h.contents
  obtain ⟨-, hspan, hsize⟩ := h.near_ends
  obtain ⟨-, hfree⟩ := h.unused _ (h.inside_notMem (q := q + 1) haq' hqb)
  obtain ⟨hnext, hprior, hhead, htail⟩ := h.split_links haq hqb
  dsimp only at hne hdata1 hdata2 hspan
  have hend : endOf (a, b) = seqno b := if_neg (by dsimp only; omega)
  have hascending : Ascending [(a, q - 1), (q + 1, b)] := by
    refine ascending_cons_iff.mpr ⟨by dsimp only; omega, fun y hy => ?_, ascending_singleton hqb⟩
    rw [List.mem_singleton.mp hy]
    dsimp only
    omega
  have hinside : ∀ y ∈ [(a, q - 1), (q + 1, b)], a ≤ y.1 ∧ y.2 ≤ b := by
    intro y hy
    rcases List.mem_cons.mp hy with rfl | hy
    · exact ⟨le_rfl, by dsimp only; omega⟩
    · rw [List.mem_singleton.mp hy]
      exact ⟨by dsimp only; omega, le_rfl⟩
  refine h.replace [(a, q - 1), (q + 1, b)] rfl (h.ascending_replace hascending hinside)
    (h.span_replace hinside) ?_ ?_ ?_ ?_ hnext hprior hhead fun _ => htail
  · intro p hp hmid
    rw [slots_cons, slots_cons, slots_nil, List.mem_cons, List.mem_singleton, not_or] at hmid
    unfold RcvLossList.split
    dsimp only
    rw [tmod_slot_succ h.size.1, Function.update_of_ne hmid.2, Function.update_of_ne hp]
    refine ⟨rfl, ?_⟩
    split
    · exact Function.update_of_ne hmid.2 _ _
    · rfl
  · unfold RcvLossList.split
    dsimp only
    rw [tmod_slot_succ h.size.1, hdata2, hend, Function.update_self, incseq_seqno]
    intro y hy
    rcases List.mem_cons.mp hy with rfl | hy
    · dsimp only
      rw [Function.update_of_ne hne.symm, Function.update_self, hdata1]
      exact ⟨rfl, cutEnd_seqno haq (by omega)⟩
    · rw [List.mem_singleton.mp hy]
      dsimp only
      rw [Function.update_self, Function.update_of_ne hne]
      refine ⟨rfl, ?_⟩
      have hcmp := seqcmp_pos (a := b) (b := q + 1) (by
        rw [abs_lt]
        omega)
      unfold endOf
      dsimp only
      split
      · next hpos =>
          rw [Function.update_self, if_neg]
          have hlt := hcmp.mp hpos
          omega
      · next hneg =>
          rw [hfree, if_pos]
          have hge := fun hlt => hneg (hcmp.mpr hlt)
          omega
  · intro hmid
    exact absurd List.mem_cons_self hmid
  · unfold RcvLossList.split
    dsimp only
    rw [total_cons, total_cons, total_nil]
    dsimp only
    omega

/-- Back from the slot of `j`, the first node that is met is the one that starts last. -/
theorem searchBack {pre post : List Interval} {x : Interval}
    (h : RcvNodes l c (pre ++ x :: post)) (n : ℕ) {j : ℤ} (hle : x.1 ≤ j) (hn : j - x.1 ≤ n)
    (hpost : ∀ y ∈ post, j < y.1) (hnear : ∀ y ∈ pre ++ x :: post, j - y.1 < l.size) :
    l.searchBack n (slot l.size c j) = slot l.size c x.1 := by
  have hx : x ∈ pre ++ x :: post := List.mem_append_right pre List.mem_cons_self
  obtain ⟨hdata1, -⟩ := h.contents
  induction n generalizing j with
  | zero =>
      obtain rfl : j = x.1 := by
        push_cast at hn
        omega
      rfl
  | succ n ih =>
      unfold RcvLossList.searchBack
      by_cases hat : j = x.1
      · subst hat
        rw [if_neg (by
          rw [hdata1]
          exact seqno_ne_neg_one _)]
      · have hnot : slot l.size c j ∉ slots l.size c (pre ++ x :: post) := by
          rw [slot_mem_slots fun y hy => ?_]
          · rintro ⟨y, hy, hstart⟩
            obtain ⟨hvalid, hothers, hbefore, -⟩ := ascending_split_iff.mp h.ascending
            rcases List.mem_append.mp hy with hy | hy
            · have hlt := hbefore y hy
              have hvalid' := hothers.valid y (List.mem_append_left post hy)
              omega
            · rcases List.mem_cons.mp hy with rfl | hy
              · exact hat hstart.symm
              · have hlt := hpost y hy
                omega
          · have hlt := hnear y hy
            have hyx := h.near hy hx
            rw [abs_lt] at hyx ⊢
            omega
        rw [if_pos (h.unused _ hnot).1, tmod_slot_pred h.size.1]
        refine ih (by omega) (by
          push_cast at hn
          omega) (fun y hy => ?_) fun y hy => ?_
        · have hlt := hpost y hy
          omega
        · have hlt := hnear y hy
          omega

/-- A packet that starts a node is taken out. -/
theorem remove_start {pre post : List Interval} {x : Interval}
    (h : RcvNodes l c (pre ++ x :: post)) :
    ∃ ivs, RcvNodes (if endOf x = -1 then l.unlink (slot l.size c x.1)
        else l.shift (slot l.size c x.1)) c ivs ∧
      members ivs = (members (pre ++ x :: post)).erase x.1 := by
  obtain ⟨a, b⟩ := x
  obtain ⟨hvalid, -, -⟩ := h.near_ends
  dsimp only at hvalid
  split
  · next hone =>
      obtain rfl : a = b := endOf_eq_iff.mp hone
      refine ⟨_, h.unlink, members_erase [] h.ascending ⟨le_rfl, le_rfl⟩ fun r => ?_⟩
      exact iff_of_false (Finset.notMem_empty r) fun hr => hr.1 (le_antisymm hr.2.2 hr.2.1)
  · next hmore =>
      have hab : a < b := lt_of_le_of_ne hvalid fun heq => hmore (endOf_eq_iff.mpr heq)
      refine ⟨_, h.shift hab, members_erase [(a + 1, b)] h.ascending ⟨le_rfl, hvalid⟩
        fun r => ?_⟩
      simp only [mem_members, List.mem_singleton, exists_eq_left]
      omega

/-- A packet behind the start of a node is taken out, if the node has it. -/
theorem remove_inside {pre post : List Interval} {x : Interval}
    (h : RcvNodes l c (pre ++ x :: post)) {q : ℤ} (hlt : x.1 < q) (hle : q ≤ x.2) :
    ∃ ivs, RcvNodes (if seqno q = seqno x.2 then { l with
          data2 := Function.update l.data2 (slot l.size c x.1)
            (RcvLossList.cutEnd (seqno x.1) (seqno q))
          length := l.length - 1 }
        else l.split (slot l.size c x.1) (slot l.size c q) (seqno q)) c ivs ∧
      members ivs = (members (pre ++ x :: post)).erase q := by
  obtain ⟨a, b⟩ := x
  obtain ⟨hvalid, hspan, hsize⟩ := h.near_ends
  dsimp only at hvalid hspan hlt hle
  have hinj := seqno_inj (a := q) (b := b) (by
    rw [abs_lt]
    omega)
  split
  · next heq =>
      obtain rfl := hinj.mp heq
      refine ⟨_, h.cut hlt, members_erase [(a, q - 1)] h.ascending ⟨hvalid, le_rfl⟩
        fun r => ?_⟩
      simp only [mem_members, List.mem_singleton, exists_eq_left]
      omega
  · next hne =>
      have hqb : q < b := lt_of_le_of_ne hle fun heq => hne (hinj.mpr heq)
      refine ⟨_, h.split hlt hqb, members_erase [(a, q - 1), (q + 1, b)] h.ascending
        ⟨le_of_lt hlt, hle⟩ fun r => ?_⟩
      simp only [mem_members, List.mem_cons, List.not_mem_nil, or_false, exists_eq_or_imp,
        exists_eq_left]
      omega

/-- `remove` tells whether the packet is in a node, and takes it out. -/
theorem remove {ivs : List Interval} (h : RcvNodes l c ivs) {q : ℤ}
    (hstart : ∀ x ∈ ivs, |q - x.1| < l.size) (hstop : ∀ x ∈ ivs, |q - x.2| < l.size) :
    (l.remove (seqno q)).1 = decide (q ∈ members ivs) ∧
      ∃ ivs', RcvNodes (l.remove (seqno q)).2 c ivs' ∧ members ivs' = (members ivs).erase q := by
  have hsize := h.size
  have hnone : q ∉ members ivs → (false, l).1 = decide (q ∈ members ivs) ∧
      ∃ ivs', RcvNodes (false, l).2 c ivs' ∧ members ivs' = (members ivs).erase q := fun hq =>
    ⟨(decide_eq_false hq).symm, ivs, h, (Finset.erase_eq_of_notMem hq).symm⟩
  cases ivs with
  | nil =>
      unfold RcvLossList.remove
      rw [if_pos (show l.length = 0 from h.length)]
      exact hnone (Finset.notMem_empty q)
  | cons y ivs =>
      have hfirst := hstart y List.mem_cons_self
      obtain ⟨hvalid, hbehind, hascending⟩ := ascending_cons_iff.mp h.ascending
      obtain ⟨hoffset, hloc⟩ := h.offset (q := q) (hfirst.trans hsize.2)
      have hpos : 0 < total (y :: ivs) := by
        rw [total_cons, total_eq_card hascending]
        omega
      unfold RcvLossList.remove
      rw [if_neg (by
        rw [h.length]
        omega)]
      dsimp only
      rw [hoffset]
      by_cases hbefore : q - y.1 < 0
      · rw [if_pos hbefore]
        refine hnone fun hmem => ?_
        obtain ⟨z, hz, hfirst, -⟩ := mem_members.mp hmem
        rcases List.mem_cons.mp hz with rfl | hz
        · omega
        · have hlt := hbehind z hz
          omega
      rw [if_neg hbefore, hloc (by omega)]
      by_cases hat : ∃ x ∈ y :: ivs, x.1 = q
      · rw [if_pos ((h.starts_iff hstart).mpr hat)]
        obtain ⟨x, hx, rfl⟩ := hat
        obtain ⟨pre, post, hsplit⟩ := List.append_of_mem hx
        rw [hsplit] at h ⊢
        have hmem : x.1 ∈ members (pre ++ x :: post) :=
          mem_members_split.mpr (Or.inl ⟨le_rfl, h.near_ends.1⟩)
        have hremove := h.remove_start
        rw [h.contents.2]
        split
        · next hone =>
            rw [if_pos hone] at hremove
            exact ⟨(decide_eq_true hmem).symm, hremove⟩
        · next hmore =>
            rw [if_neg hmore] at hremove
            exact ⟨(decide_eq_true hmem).symm, hremove⟩
      · rw [if_neg fun heq => hat ((h.starts_iff hstart).mp heq)]
        have hne : ∀ x ∈ y :: ivs, x.1 ≠ q := fun x hx heq => hat ⟨x, hx, heq⟩
        have hylt : y.1 < q := lt_of_le_of_ne (by omega) (hne y List.mem_cons_self)
        obtain ⟨pre, x, post, hsplit, hxlt, hpost⟩ :=
          exists_last_before h.ascending ⟨y, List.mem_cons_self, hylt⟩ hne
        have hx : x ∈ y :: ivs := hsplit ▸ List.mem_append_right pre List.mem_cons_self
        have hqx := hstart x hx
        have hxq := hstop x hx
        rw [hsplit] at h hstart hnone ⊢
        rw [abs_lt] at hqx
        have hback := h.searchBack l.size.toNat (j := q - 1) (by omega) (by omega)
          (fun z hz => by
            have hlt := hpost z hz
            omega)
          fun z hz => by
            have hlt := hstart z hz
            rw [abs_lt] at hlt
            omega
        have hcmp := seqcmp_pos (hxq.trans hsize.2)
        rw [tmod_slot_pred hsize.1, hback, h.contents.1, h.contents.2]
        by_cases hle : q ≤ x.2
        · have hmore : x.1 ≠ x.2 := by omega
          have hend : endOf x = seqno x.2 := if_neg hmore
          have hmem : q ∈ members (pre ++ x :: post) :=
            mem_members_split.mpr (Or.inl ⟨le_of_lt hxlt, hle⟩)
          have hremove := h.remove_inside hxlt hle
          rw [hend, if_neg (by
            rw [not_or, hcmp]
            exact ⟨seqno_ne_neg_one _, not_lt.mpr hle⟩)]
          split
          · next heq =>
              rw [if_pos heq] at hremove
              exact ⟨(decide_eq_true hmem).symm, hremove⟩
          · next hneq =>
              rw [if_neg hneq] at hremove
              exact ⟨(decide_eq_true hmem).symm, hremove⟩
        · have hout : endOf x = -1 ∨ 0 < seqcmp (seqno q) (endOf x) := by
            by_cases hone : x.1 = x.2
            · exact Or.inl (endOf_eq_iff.mpr hone)
            · right
              rw [show endOf x = seqno x.2 from if_neg hone, hcmp]
              omega
          rw [if_pos hout]
          refine hnone fun hmem => ?_
          obtain ⟨hvalidX, -, hbeforeX, -⟩ := ascending_split_iff.mp h.ascending
          rcases mem_members_split.mp hmem with hin | hmem
          · omega
          · obtain ⟨z, hz, hzfirst, hzlast⟩ := mem_members.mp hmem
            rcases List.mem_append.mp hz with hz | hz
            · have hlt := hbeforeX z hz
              omega
            · have hlt := hpost z hz
              omega

/-- `insert` where the list is empty. -/
theorem insert_first (h : RcvNodes l c []) {a b : ℤ} (hab : a ≤ b) (hspan : b - a < l.size) :
    RcvNodes (l.insert (seqno a) (seqno b)) (-a) [(a, b)] := by
  have hnodes := h.toLossNodes.add_first hab hspan (Function.update_self 0 (-1) l.next)
  unfold RcvLossList.insert
  rw [if_pos (show l.length = 0 from h.length)]
  exact ⟨hnodes, ⟨hnodes.head ▸ Function.update_self 0 (-1) l.prior, trivial⟩,
    fun _ => hnodes.head⟩

/-- Another node comes behind the last. -/
theorem append {pre : List Interval} {x : Interval} (h : RcvNodes l c (pre ++ [x])) {a b : ℤ}
    (hab : a ≤ b) (hbehind : ∀ y ∈ pre ++ [x], y.2 < a)
    (hspan : ∀ y ∈ pre ++ [x], b - y.1 < l.size) :
    RcvNodes { l with
      data1 := Function.update l.data1 (slot l.size c a) (seqno a)
      data2 := if seqno b ≠ seqno a then Function.update l.data2 (slot l.size c a) (seqno b)
        else l.data2
      next := Function.update (Function.update l.next l.tail (slot l.size c a)) (slot l.size c a)
        (-1)
      prior := Function.update l.prior (slot l.size c a) l.tail
      tail := slot l.size c a
      length := l.length + (b - a + 1) } c (pre ++ [x] ++ [(a, b)]) := by
  have hne : pre ++ [x] ≠ [] := List.append_ne_nil_of_right_ne_nil pre (List.cons_ne_nil x [])
  have hx : x ∈ pre ++ [x] := List.mem_append_right pre (List.mem_singleton_self x)
  have hascending : Ascending (pre ++ [x] ++ [(a, b)]) := by
    refine ascending_append_iff.mpr ⟨h.ascending, ascending_singleton hab, fun y hy z hz => ?_⟩
    rw [List.mem_singleton.mp hz]
    exact hbehind y hy
  have hspan' : ∀ y ∈ pre ++ [x] ++ [(a, b)], ∀ z ∈ pre ++ [x] ++ [(a, b)],
      z.2 - y.1 < l.size := by
    have hlast : ∀ z ∈ pre ++ [x] ++ [(a, b)], z.2 ≤ b := by
      intro z hz
      rcases List.mem_append.mp hz with hz | hz
      · have hlt := hbehind z hz
        omega
      · rw [List.mem_singleton.mp hz]
    intro y hy z hz
    have hle := hlast z hz
    rcases List.mem_append.mp hy with hy | hy
    · have hlt := hspan y hy
      omega
    · rw [List.mem_singleton.mp hy]
      have hlt := hspan x hx
      have hltX := hbehind x hx
      have hvalid := h.ascending.valid x hx
      dsimp only
      omega
  have hnotMem : slot l.size c a ∉ slots l.size c (pre ++ [x]) := by
    rw [slot_mem_slots fun y hy => ?_]
    · rintro ⟨y, hy, hstart⟩
      have hlt := hbehind y hy
      have hvalid := h.ascending.valid y hy
      omega
    · have hlt := hbehind y hy
      have hnear := hspan y hy
      have hvalid := h.ascending.valid y hy
      rw [abs_lt]
      omega
  have htail := h.tail hne
  have hslots : slots l.size c (pre ++ [x]) ≠ [] := fun hnil => hne (List.map_eq_nil_iff.mp hnil)
  have hnext : NextOf (Function.update (Function.update l.next l.tail (slot l.size c a))
      (slot l.size c a) (-1)) (slots l.size c (pre ++ [x] ++ [(a, b)])) (-1) := by
    rw [slots_append, htail]
    exact nextOf_append.mpr ⟨(h.next.relink h.nodup (-1) _ hslots).update hnotMem _,
      Function.update_self _ _ _, trivial⟩
  have hhead : l.head = (slots l.size c (pre ++ [x] ++ [(a, b)])).headD (-1) := by
    rw [slots_append, headD_append, h.head]
    cases heq : slots l.size c (pre ++ [x]) with
    | nil => exact absurd heq hslots
    | cons p ps => rfl
  have hold : LossChain l.data1 l.data2 l.next l.head l.length l.size c (pre ++ [x] ++ []) := by
    rw [List.append_nil]
    exact h.toLossChain
  refine ⟨⟨hold.add hascending.ordered hspan' hnext hhead, hascending⟩, ?_, fun _ => ?_⟩
  · dsimp only
    rw [slots_append, htail]
    exact priorOf_append.mpr ⟨h.prior.update hnotMem _, Function.update_self _ _ _, trivial⟩
  · rw [slots_append, getLastD_append]
    rfl

/-- The last node gets longer. -/
theorem lengthen {pre : List Interval} {x : Interval} (h : RcvNodes l c (pre ++ [x])) {b : ℤ}
    (hx : x.1 < x.2) (hb : x.2 ≤ b) (hspan : ∀ y ∈ pre ++ [x], b - y.1 < l.size) :
    RcvNodes { l with
      data2 := Function.update l.data2 (slot l.size c x.1) (seqno b)
      length := l.length + (b - x.2) } c (pre ++ [(x.1, b)]) := by
  obtain ⟨-, hothers, hbefore, -⟩ := ascending_split_iff.mp h.ascending
  rw [List.append_nil] at hothers
  have hslots : slots l.size c (pre ++ [(x.1, b)]) = slots l.size c (pre ++ [x]) := by
    rw [slots_append, slots_append]
    rfl
  have hlonger : ∀ z ∈ pre ++ ([(x.1, b)] ++ []), ∃ z' ∈ pre ++ [x], z'.1 = z.1 ∧ z.2 ≤ b := by
    intro z hz
    rcases List.mem_append.mp hz with hz | hz
    · have hlt := hbefore z hz
      exact ⟨z, List.mem_append_left _ hz, rfl, by omega⟩
    · rw [List.mem_singleton.mp hz]
      exact ⟨x, List.mem_append_right pre (List.mem_singleton_self x), rfl, le_rfl⟩
  refine h.replace [(x.1, b)] rfl ?_ ?_ ?_ ?_ ?_ ?_ (hslots ▸ h.next) (hslots ▸ h.prior)
    (hslots ▸ h.head) fun _ => hslots ▸ h.tail ?_
  · refine ascending_append_iff.mpr ⟨hothers, ascending_singleton ?_, fun y hy z hz => ?_⟩
    · dsimp only
      omega
    · rw [List.mem_singleton.mp hz]
      exact hbefore y hy
  · intro y hy z hz
    obtain ⟨y', hy', heq, -⟩ := hlonger y hy
    obtain ⟨z', -, -, hle⟩ := hlonger z hz
    have hlt := hspan y' hy'
    omega
  · intro p hp _
    exact ⟨rfl, Function.update_of_ne hp _ _⟩
  · intro y hy
    rw [List.mem_singleton.mp hy]
    refine ⟨h.contents.1, (Function.update_self _ _ _).trans ?_⟩
    exact (if_neg (by
      dsimp only
      omega)).symm
  · intro hmid
    exact absurd (List.mem_singleton_self _) hmid
  · rw [total_cons, total_nil]
    dsimp only
    omega
  · exact List.append_ne_nil_of_right_ne_nil pre (List.cons_ne_nil x [])

/-- `insert` where the list is not empty: what comes in lies behind what is there. -/
theorem insert_behind {pre : List Interval} {x : Interval} (h : RcvNodes l c (pre ++ [x]))
    {a b : ℤ} (hab : a ≤ b) (hbehind : ∀ y ∈ pre ++ [x], y.2 < a)
    (hspan : ∀ y ∈ pre ++ [x], b - y.1 < l.size) :
    ∃ ivs, RcvNodes (l.insert (seqno a) (seqno b)) c ivs ∧
      members ivs = members (pre ++ [x]) ∪ Finset.Icc a b := by
  obtain ⟨hsize, hth⟩ := h.size
  have hth' := two_mul_seqNoTH
  have hx : x ∈ pre ++ [x] := List.mem_append_right pre (List.mem_singleton_self x)
  have hltX := hbehind x hx
  have hspanX := hspan x hx
  have hvalidX := h.ascending.valid x hx
  have htail : l.tail = slot l.size c x.1 := h.tail_eq_iff.mpr rfl
  have hlength : l.length ≠ 0 := by
    rw [h.length, total_eq_card h.ascending]
    intro hzero
    have hmem : x.1 ∈ members (pre ++ [x]) := mem_members.mpr ⟨x, hx, le_rfl, hvalidX⟩
    rw [Nat.cast_eq_zero, Finset.card_eq_zero] at hzero
    rw [hzero] at hmem
    cases hmem
  have hlen : seqlen (seqno a) (seqno b) = b - a + 1 := seqlen_seqno hab (by omega)
  have hloc : (l.head + seqoff (l.data1 l.head) (seqno a)).tmod l.size = slot l.size c a := by
    obtain ⟨y, ivs, hsplit⟩ : ∃ y ivs, pre ++ [x] = y :: ivs :=
      List.exists_cons_of_ne_nil (List.append_ne_nil_of_right_ne_nil pre (List.cons_ne_nil x []))
    have hy : y ∈ pre ++ [x] := hsplit ▸ List.mem_cons_self
    have hlt := hbehind y hy
    have hnear := hspan y hy
    have hvalid := h.ascending.valid y hy
    rw [hsplit] at h
    obtain ⟨hoffset, hloc⟩ := h.offset (q := a) (by
      rw [abs_lt]
      omega)
    rw [hoffset]
    exact hloc (by omega)
  have hinj := seqno_inj (a := x.2 + 1) (b := a) (by
    rw [abs_lt]
    omega)
  unfold RcvLossList.insert
  rw [if_neg hlength]
  dsimp only
  rw [hloc, hlen, htail, h.contents.2]
  split
  · next hjoin =>
      have hmore : x.1 < x.2 :=
        lt_of_le_of_ne hvalidX fun heq => hjoin.1 (endOf_eq_iff.mpr heq)
      have hend : endOf x = seqno x.2 := if_neg (ne_of_lt hmore)
      have hnext : x.2 + 1 = a := by
        rw [hend, incseq_seqno] at hjoin
        exact hinj.mp hjoin.2
      have hlonger := h.lengthen hmore (b := b) (by omega) hspan
      rw [show b - x.2 = b - a + 1 by omega] at hlonger
      refine ⟨pre ++ [(x.1, b)], htail ▸ hlonger, ?_⟩
      ext q
      rw [Finset.mem_union, Finset.mem_Icc, mem_members_split, mem_members_split, or_right_comm]
      refine or_congr ?_ Iff.rfl
      dsimp only
      omega
  · refine ⟨_, htail ▸ h.append hab hbehind hspan, ?_⟩
    ext q
    rw [mem_members_append, mem_members_cons, Finset.mem_union, Finset.mem_Icc]
    exact or_congr Iff.rfl (or_iff_left (Finset.notMem_empty q))

end RcvNodes

/-! ## The set -/

/-- The list holds these packets. -/
def RcvHolds (l : RcvLossList) (S : Finset ℤ) : Prop :=
  ∃ c ivs, RcvNodes l c ivs ∧ members ivs = S

namespace RcvHolds

variable {l : RcvLossList} {S : Finset ℤ}

theorem new {size : ℤ} (hsize : 0 < size ∧ size < seqNoTH) (next prior : ℤ → ℤ) :
    RcvHolds (.new size next prior) ∅ :=
  ⟨0, [], RcvNodes.new hsize next prior 0, rfl⟩

/-- `getLossLength` is how many packets are missing. -/
theorem getLossLength (h : RcvHolds l S) : l.getLossLength = S.card := by
  obtain ⟨c, ivs, h, rfl⟩ := h
  exact h.length.trans (total_eq_card h.ascending)

/-- The list is empty when nothing is missing. -/
theorem length_eq_zero_iff (h : RcvHolds l S) : l.length = 0 ↔ S = ∅ := by
  have hlength := h.getLossLength
  unfold RcvLossList.getLossLength at hlength
  rw [hlength, Nat.cast_eq_zero, Finset.card_eq_zero]

/-- `getFirstLostSeq` is the packet that is missing first. -/
theorem getFirstLostSeq (h : RcvHolds l S) {m : ℤ} (hm : m ∈ S) (hfirst : ∀ q ∈ S, m ≤ q) :
    l.getFirstLostSeq = seqno m := by
  have hlength := h.length_eq_zero_iff
  obtain ⟨c, ivs, h, rfl⟩ := h
  unfold RcvLossList.getFirstLostSeq
  rw [if_neg fun hzero => by
    rw [hlength.mp hzero] at hm
    cases hm]
  cases ivs with
  | nil => cases hm
  | cons x ivs =>
      obtain ⟨hx, hbehind, -⟩ := ascending_cons_iff.mp h.ascending
      have hmem : x.1 ∈ members (x :: ivs) := mem_members.mpr ⟨x, List.mem_cons_self, le_rfl, hx⟩
      have hle := hfirst _ hmem
      obtain ⟨y, hy, hym, -⟩ := mem_members.mp hm
      have heq : x.1 = m := by
        rcases List.mem_cons.mp hy with rfl | hy
        · omega
        · have hlt := hbehind y hy
          omega
      rw [h.head, slots_cons, List.headD_cons, h.first x List.mem_cons_self, heq]

/-- The size of the arrays stays as it is. -/
theorem kept_size (l : RcvLossList) (a b q : ℤ) :
    (l.insert a b).size = l.size ∧ (l.remove q).2.size = l.size := by
  constructor
  · unfold RcvLossList.insert
    split
    · rfl
    · dsimp only
      split
      · rfl
      · rfl
  · unfold RcvLossList.remove RcvLossList.unlink RcvLossList.shift RcvLossList.split
    dsimp only
    repeat' split
    all_goals rfl

/-- `remove` tells whether the packet was missing, and takes it out. -/
theorem remove (h : RcvHolds l S) {q : ℤ} (hnear : ∀ r ∈ S, |q - r| < l.size) :
    (l.remove (seqno q)).1 = decide (q ∈ S) ∧ RcvHolds (l.remove (seqno q)).2 (S.erase q) := by
  obtain ⟨c, ivs, h, rfl⟩ := h
  obtain ⟨htold, ivs', h', hmembers⟩ := h.remove
    (fun x hx => hnear x.1 (mem_members.mpr ⟨x, hx, le_rfl, h.ascending.valid x hx⟩))
    fun x hx => hnear x.2 (mem_members.mpr ⟨x, hx, h.ascending.valid x hx, le_rfl⟩)
  exact ⟨htold, c, ivs', h', hmembers⟩

/-- `insert` adds the packets of a gap, which lies behind those that are missing. -/
theorem insert (h : RcvHolds l S) {a b : ℤ} (hab : a ≤ b) (hbehind : ∀ r ∈ S, r < a)
    (hspan : ∀ r ∈ insert a S, b - r < l.size) :
    RcvHolds (l.insert (seqno a) (seqno b)) (S ∪ Finset.Icc a b) := by
  obtain ⟨c, ivs, h, rfl⟩ := h
  rcases List.eq_nil_or_concat ivs with rfl | ⟨pre, x, rfl⟩
  · refine ⟨-a, _, h.insert_first hab (hspan a (Finset.mem_insert_self a _)), ?_⟩
    rw [members, members, members, Finset.union_empty, Finset.empty_union]
  · rw [List.concat_eq_append] at h hbehind hspan ⊢
    obtain ⟨ivs, h', hmembers⟩ := h.insert_behind hab
      (fun y hy => hbehind y.2 (mem_members.mpr ⟨y, hy, h.ascending.valid y hy, le_rfl⟩))
      fun y hy => hspan y.1 (Finset.mem_insert_of_mem
        (mem_members.mpr ⟨y, hy, le_rfl, h.ascending.valid y hy⟩))
    exact ⟨c, ivs, h', hmembers⟩

end RcvHolds

/-! ## Calls -/

/-- What the receiver does with its loss list. -/
inductive RcvCall
  | insert (a b : ℤ)
  | remove (q : ℤ)
  | getLossLength
  | getFirstLostSeq

/-- What a call answers. -/
inductive RcvAnswer
  | none
  | found (b : Bool)
  | number (n : ℤ)

/-- The calls of the list. -/
def rcvListCall (l : RcvLossList) : RcvCall → RcvAnswer × RcvLossList
  | .insert a b => (.none, l.insert (seqno a) (seqno b))
  | .remove q => (.found (l.remove (seqno q)).1, (l.remove (seqno q)).2)
  | .getLossLength => (.number l.getLossLength, l)
  | .getFirstLostSeq => (.number l.getFirstLostSeq, l)

/-- The calls of a set. -/
noncomputable def rcvSetCall (S : Finset ℤ) : RcvCall → RcvAnswer × Finset ℤ
  | .insert a b => (.none, S ∪ Finset.Icc a b)
  | .remove q => (.found (decide (q ∈ S)), S.erase q)
  | .getLossLength => (.number S.card, S)
  | .getFirstLostSeq => (.number (if h : S.Nonempty then seqno (S.min' h) else -1), S)

/-- What the receiver keeps to: a gap comes in behind the others, and a packet is near those that
are missing. -/
def RcvCall.Near (size : ℤ) (S : Finset ℤ) : RcvCall → Prop
  | .insert a b => a ≤ b ∧ (∀ r ∈ S, r < a) ∧ ∀ r ∈ Insert.insert a S, b - r < size
  | .remove q => ∀ r ∈ S, |q - r| < size
  | .getLossLength => True
  | .getFirstLostSeq => True

/-- One call. -/
theorem RcvHolds.call {l : RcvLossList} {S : Finset ℤ} (h : RcvHolds l S) {k : RcvCall}
    (hk : k.Near l.size S) : (rcvListCall l k).1 = (rcvSetCall S k).1 ∧
      RcvHolds (rcvListCall l k).2 (rcvSetCall S k).2 ∧ (rcvListCall l k).2.size = l.size := by
  cases k with
  | insert a b =>
      exact ⟨rfl, h.insert hk.1 hk.2.1 hk.2.2, (RcvHolds.kept_size l _ _ 0).1⟩
  | remove q =>
      obtain ⟨hfound, h'⟩ := h.remove hk
      exact ⟨congrArg RcvAnswer.found hfound, h', (RcvHolds.kept_size l 0 0 _).2⟩
  | getLossLength => exact ⟨congrArg RcvAnswer.number h.getLossLength, h, rfl⟩
  | getFirstLostSeq =>
      refine ⟨congrArg RcvAnswer.number ?_, h, rfl⟩
      by_cases hne : S.Nonempty
      · rw [dif_pos hne]
        exact h.getFirstLostSeq (S.min'_mem hne) fun q hq => S.min'_le q hq
      · rw [dif_neg hne]
        have hempty := h.length_eq_zero_iff.mpr (Finset.not_nonempty_iff_eq_empty.mp hne)
        exact if_pos hempty

/-- No calls tell the list from the set. -/
theorem rcvLossList_transcript {size : ℤ} (hsize : 0 < size ∧ size < seqNoTH)
    (next prior : ℤ → ℤ) {ks : List RcvCall}
    (hks : DataRefinement.Permitted rcvSetCall (fun S k => k.Near size S) ∅ ks) :
    DataRefinement.transcript rcvListCall (.new size next prior) ks =
      DataRefinement.transcript rcvSetCall ∅ ks := by
  refine (DataRefinement.transcript_eq (R := fun l S => RcvHolds l S ∧ l.size = size)
    (fun l S k hl hk => ?_) ⟨.new hsize next prior, rfl⟩ hks).1
  obtain ⟨hanswer, h', hsize'⟩ := hl.1.call (hl.2.symm ▸ hk)
  exact ⟨hanswer, h', hsize'.trans hl.2⟩

/-- A gap across the last number, and one packet of it that comes after all. -/
theorem rcvLossList_transcript_wrap :
    DataRefinement.transcript rcvListCall (.new 25600 (fun _ => 0) fun _ => 0)
        [.insert (maxSeqNo - 2) (maxSeqNo + 2), .remove maxSeqNo, .getLossLength,
          .getFirstLostSeq] =
      DataRefinement.transcript rcvSetCall ∅
        [.insert (maxSeqNo - 2) (maxSeqNo + 2), .remove maxSeqNo, .getLossLength,
          .getFirstLostSeq] := by
  refine rcvLossList_transcript (by decide) _ _
    ⟨⟨by omega, fun r hr => absurd hr (Finset.notMem_empty r), fun r hr => ?_⟩, fun r hr => ?_,
      trivial, trivial, trivial⟩
  · rw [Finset.mem_insert] at hr
    rcases hr with rfl | hr
    · omega
    · exact absurd hr (Finset.notMem_empty r)
  · obtain ⟨hge, hle⟩ := Finset.mem_Icc.mp ((Finset.mem_union.mp hr).resolve_left
      (Finset.notMem_empty r))
    rw [abs_lt]
    omega

end DesktopSync.Analysis
