import Mathlib

/-!
# Sets of integers as lists of intervals

A finite set of integers as the list of the intervals it is made of, in ascending order.
Two intervals may be adjacent. Such lists are cut at an interval, and what changes there
changes the set in the same place.
-/

set_option autoImplicit false

namespace IntervalList

/-- The integers from the first component to the second. -/
abbrev Interval := ℤ × ℤ

/-- No interval is empty, and each lies behind the ones before. -/
structure Ascending (ivs : List Interval) : Prop where
  valid : ∀ x ∈ ivs, x.1 ≤ x.2
  order : ivs.Pairwise fun x y => x.2 < y.1

/-- The integers in the intervals. -/
noncomputable def members : List Interval → Finset ℤ
  | [] => ∅
  | x :: ivs => Finset.Icc x.1 x.2 ∪ members ivs

@[simp] theorem mem_members {ivs : List Interval} {q : ℤ} :
    q ∈ members ivs ↔ ∃ x ∈ ivs, x.1 ≤ q ∧ q ≤ x.2 := by
  induction ivs with
  | nil => simp [members]
  | cons x ivs ih => simp [members, ih]

/-- How many integers the intervals have. -/
def total (ivs : List Interval) : ℤ := (ivs.map fun x => x.2 - x.1 + 1).sum

@[simp] theorem total_nil : total [] = 0 := rfl

@[simp] theorem total_cons (x : Interval) (ivs : List Interval) :
    total (x :: ivs) = x.2 - x.1 + 1 + total ivs := by
  simp [total]

@[simp] theorem total_append (ivs ivs' : List Interval) :
    total (ivs ++ ivs') = total ivs + total ivs' := by
  simp [total]

theorem ascending_nil : Ascending [] := ⟨by simp, .nil⟩

theorem ascending_cons_iff {x : Interval} {ivs : List Interval} :
    Ascending (x :: ivs) ↔ x.1 ≤ x.2 ∧ (∀ y ∈ ivs, x.2 < y.1) ∧ Ascending ivs := by
  constructor
  · intro h
    obtain ⟨hbehind, horder⟩ := List.pairwise_cons.mp h.order
    exact ⟨h.valid x List.mem_cons_self, hbehind,
      fun y hy => h.valid y (List.mem_cons_of_mem x hy), horder⟩
  · rintro ⟨hx, hbehind, h⟩
    refine ⟨fun y hy => ?_, List.pairwise_cons.mpr ⟨hbehind, h.order⟩⟩
    rcases List.mem_cons.mp hy with rfl | hy
    · exact hx
    · exact h.valid y hy

theorem ascending_singleton {x : Interval} (hx : x.1 ≤ x.2) : Ascending [x] :=
  ascending_cons_iff.mpr ⟨hx, by simp, ascending_nil⟩

theorem ascending_append_iff {ivs ivs' : List Interval} :
    Ascending (ivs ++ ivs') ↔
      Ascending ivs ∧ Ascending ivs' ∧ ∀ x ∈ ivs, ∀ y ∈ ivs', x.2 < y.1 := by
  constructor
  · intro h
    obtain ⟨horder, horder', hcross⟩ := List.pairwise_append.mp h.order
    exact ⟨⟨fun x hx => h.valid x (List.mem_append_left ivs' hx), horder⟩,
      ⟨fun x hx => h.valid x (List.mem_append_right ivs hx), horder'⟩, hcross⟩
  · rintro ⟨h, h', hcross⟩
    refine ⟨fun x hx => ?_, List.pairwise_append.mpr ⟨h.order, h'.order, hcross⟩⟩
    rcases List.mem_append.mp hx with hx | hx
    · exact h.valid x hx
    · exact h'.valid x hx

/-- Around one of its intervals: what lies before, and what lies behind. -/
theorem ascending_split_iff {pre post : List Interval} {x : Interval} :
    Ascending (pre ++ x :: post) ↔ x.1 ≤ x.2 ∧ Ascending (pre ++ post) ∧
      (∀ y ∈ pre, y.2 < x.1) ∧ ∀ y ∈ post, x.2 < y.1 := by
  rw [ascending_append_iff, ascending_append_iff, ascending_cons_iff]
  constructor
  · rintro ⟨hpre, ⟨hx, hbehind, hpost⟩, hcross⟩
    exact ⟨hx, ⟨hpre, hpost, fun y hy z hz => hcross y hy z (List.mem_cons_of_mem x hz)⟩,
      fun y hy => hcross y hy x List.mem_cons_self, hbehind⟩
  · rintro ⟨hx, ⟨hpre, hpost, hcross⟩, hbefore, hbehind⟩
    refine ⟨hpre, ⟨hx, hbehind, hpost⟩, fun y hy z hz => ?_⟩
    rcases List.mem_cons.mp hz with rfl | hz
    · exact hbefore y hy
    · exact hcross y hy z hz

theorem mem_members_append {ivs ivs' : List Interval} {q : ℤ} :
    q ∈ members (ivs ++ ivs') ↔ q ∈ members ivs ∨ q ∈ members ivs' := by
  simp only [mem_members, List.mem_append, or_and_right, exists_or]

theorem mem_members_cons {x : Interval} {ivs : List Interval} {q : ℤ} :
    q ∈ members (x :: ivs) ↔ (x.1 ≤ q ∧ q ≤ x.2) ∨ q ∈ members ivs := by
  rw [members, Finset.mem_union, Finset.mem_Icc]

/-- What a split at one of the intervals says about the members. -/
theorem mem_members_split {pre post : List Interval} {x : Interval} {q : ℤ} :
    q ∈ members (pre ++ x :: post) ↔ (x.1 ≤ q ∧ q ≤ x.2) ∨ q ∈ members (pre ++ post) := by
  rw [← List.singleton_append, mem_members_append, mem_members_append, mem_members_append,
    or_left_comm]
  refine or_congr ?_ Iff.rfl
  rw [mem_members]
  exact ⟨fun ⟨y, hy, hq⟩ => List.mem_singleton.mp hy ▸ hq,
    fun hq => ⟨x, List.mem_singleton_self x, hq⟩⟩

/-- What one interval has, no other has. -/
theorem notMem_others {pre post : List Interval} {x : Interval} (h : Ascending (pre ++ x :: post))
    {q : ℤ} (hq : x.1 ≤ q ∧ q ≤ x.2) : q ∉ members (pre ++ post) := by
  obtain ⟨-, -, hbefore, hbehind⟩ := ascending_split_iff.mp h
  rw [mem_members]
  rintro ⟨y, hy, hfirst, hlast⟩
  rcases List.mem_append.mp hy with hy | hy
  · have hlt := hbefore y hy
    omega
  · have hlt := hbehind y hy
    omega

/-- An integer is taken out of the interval that has it. -/
theorem members_erase {pre post : List Interval} {x : Interval} (mid : List Interval)
    (h : Ascending (pre ++ x :: post)) {q : ℤ} (hq : x.1 ≤ q ∧ q ≤ x.2)
    (hmid : ∀ r, r ∈ members mid ↔ r ≠ q ∧ x.1 ≤ r ∧ r ≤ x.2) :
    members (pre ++ (mid ++ post)) = (members (pre ++ x :: post)).erase q := by
  have hothers := notMem_others h hq
  ext r
  rw [Finset.mem_erase, mem_members_split, mem_members_append, mem_members_append, hmid,
    mem_members_append]
  rw [mem_members_append] at hothers
  constructor
  · rintro (hr | hr | hr)
    · exact ⟨fun heq => hothers (Or.inl (heq ▸ hr)), Or.inr (Or.inl hr)⟩
    · exact ⟨hr.1, Or.inl hr.2⟩
    · exact ⟨fun heq => hothers (Or.inr (heq ▸ hr)), Or.inr (Or.inr hr)⟩
  · rintro ⟨hne, hr | hr | hr⟩
    · exact Or.inr (Or.inl ⟨hne, hr⟩)
    · exact Or.inl hr
    · exact Or.inr (Or.inr hr)

/-- There are as many integers as the intervals have. -/
theorem total_eq_card {ivs : List Interval} (h : Ascending ivs) :
    total ivs = (members ivs).card := by
  induction ivs with
  | nil => rfl
  | cons x ivs ih =>
      obtain ⟨hx, hbehind, h⟩ := ascending_cons_iff.mp h
      have hdisjoint : Disjoint (Finset.Icc x.1 x.2) (members ivs) := by
        rw [Finset.disjoint_left]
        intro q hq hmem
        obtain ⟨y, hy, hle, -⟩ := mem_members.mp hmem
        have hlt := hbehind y hy
        have hq' := (Finset.mem_Icc.mp hq).2
        omega
      rw [total_cons, members, Finset.card_union_of_disjoint hdisjoint, Int.card_Icc, ih h]
      push_cast
      omega

/-- No interval is empty, and each starts behind the starts of those before. -/
structure Ordered (ivs : List Interval) : Prop where
  valid : ∀ x ∈ ivs, x.1 ≤ x.2
  starts : ivs.Pairwise fun x y => x.1 < y.1

theorem Ascending.ordered {ivs : List Interval} (h : Ascending ivs) : Ordered ivs :=
  ⟨h.valid, h.order.imp_of_mem fun hx _ hlt => (h.valid _ hx).trans_lt hlt⟩

/-- Around one of its intervals: what starts before, and what starts behind. -/
theorem ordered_split_iff {pre post : List Interval} {x : Interval} :
    Ordered (pre ++ x :: post) ↔ x.1 ≤ x.2 ∧ Ordered (pre ++ post) ∧
      (∀ y ∈ pre, y.1 < x.1) ∧ ∀ y ∈ post, x.1 < y.1 := by
  constructor
  · rintro ⟨hvalid, hstarts⟩
    obtain ⟨hpre, hpost, hcross⟩ := List.pairwise_append.mp hstarts
    obtain ⟨hbehind, hpost⟩ := List.pairwise_cons.mp hpost
    refine ⟨hvalid x (List.mem_append_right pre List.mem_cons_self), ⟨fun y hy => hvalid y ?_, ?_⟩,
      fun y hy => hcross y hy x List.mem_cons_self, hbehind⟩
    · exact (List.mem_append.mp hy).elim (List.mem_append_left _)
        fun hy => List.mem_append_right pre (List.mem_cons_of_mem x hy)
    · exact List.pairwise_append.mpr
        ⟨hpre, hpost, fun y hy z hz => hcross y hy z (List.mem_cons_of_mem x hz)⟩
  · rintro ⟨hx, ⟨hvalid, hstarts⟩, hbefore, hbehind⟩
    obtain ⟨hpre, hpost, hcross⟩ := List.pairwise_append.mp hstarts
    refine ⟨fun y hy => ?_, List.pairwise_append.mpr
      ⟨hpre, List.pairwise_cons.mpr ⟨hbehind, hpost⟩, fun y hy z hz => ?_⟩⟩
    · rcases List.mem_append.mp hy with hy | hy
      · exact hvalid y (List.mem_append_left post hy)
      · rcases List.mem_cons.mp hy with rfl | hy
        · exact hx
        · exact hvalid y (List.mem_append_right pre hy)
    · rcases List.mem_cons.mp hz with rfl | hz
      · exact hbefore y hy
      · exact hcross y hy z hz

/-- Two intervals with the same start are the same. -/
theorem Ordered.eq_of_start {ivs : List Interval} (h : Ordered ivs) {x y : Interval}
    (hx : x ∈ ivs) (hy : y ∈ ivs) (hstart : x.1 = y.1) : x = y := by
  induction ivs with
  | nil => cases hx
  | cons z ivs ih =>
      obtain ⟨hz, h, -, hbehind⟩ := (@ordered_split_iff [] ivs z).mp h
      rcases List.mem_cons.mp hx with rfl | hx'
      · rcases List.mem_cons.mp hy with rfl | hy'
        · rfl
        · have hlt := hbehind y hy'
          omega
      · rcases List.mem_cons.mp hy with rfl | hy'
        · have hlt := hbehind x hx'
          omega
        · exact ih h hx' hy'

/-- The interval that starts last among those that start before `q`. -/
theorem exists_last_before {ivs : List Interval} (h : Ascending ivs) {q : ℤ}
    (hfirst : ∃ x ∈ ivs, x.1 < q) (hstart : ∀ x ∈ ivs, x.1 ≠ q) :
    ∃ pre x post, ivs = pre ++ x :: post ∧ x.1 < q ∧ ∀ y ∈ post, q < y.1 := by
  induction ivs with
  | nil =>
      obtain ⟨x, hx, -⟩ := hfirst
      cases hx
  | cons z ivs ih =>
      obtain ⟨hz, hbehind, h⟩ := ascending_cons_iff.mp h
      by_cases hmore : ∃ x ∈ ivs, x.1 < q
      · obtain ⟨pre, x, post, rfl, hx⟩ :=
          ih h hmore fun x hx => hstart x (List.mem_cons_of_mem z hx)
        exact ⟨z :: pre, x, post, rfl, hx⟩
      · refine ⟨[], z, ivs, rfl, ?_, fun y hy => ?_⟩
        · obtain ⟨x, hx, hlt⟩ := hfirst
          rcases List.mem_cons.mp hx with rfl | hx
          · exact hlt
          · exact absurd ⟨x, hx, hlt⟩ hmore
        · have hne := hstart y (List.mem_cons_of_mem z hy)
          have hge : ¬y.1 < q := fun hlt => hmore ⟨y, hy, hlt⟩
          omega

end IntervalList
