import Mathlib.Data.List.Basic
import Mathlib.Logic.Function.Basic

/-!
# Lists linked by arrays

The nodes of a list, and two arrays that hold for each node the one behind it and the one
before it. `NextOf next nodes n`: the list goes on with `n` behind its last node.
`PriorOf prior p nodes`: it comes from `p`. Both are cut where the list is cut, and do not
see what is written elsewhere.
-/

set_option autoImplicit false

universe u

namespace LinkedNodes

variable {α : Type u}

/-- Behind each node `next` holds the node that follows, and `n` behind the last. -/
def NextOf (next : α → α) : List α → α → Prop
  | [], _ => True
  | a :: nodes, n => next a = nodes.headD n ∧ NextOf next nodes n

/-- Before each node `prior` holds the node that precedes, and `p` before the first. -/
def PriorOf (prior : α → α) : α → List α → Prop
  | _, [] => True
  | p, a :: nodes => prior a = p ∧ PriorOf prior a nodes

/-- The first node of two lists, and what comes behind them. -/
theorem headD_append (as bs : List α) (n : α) : (as ++ bs).headD n = as.headD (bs.headD n) := by
  cases as with
  | nil => rfl
  | cons a as => rfl

/-- The last node of two lists, and what comes before them. -/
theorem getLastD_append (as bs : List α) (p : α) :
    (as ++ bs).getLastD p = bs.getLastD (as.getLastD p) := by
  induction as generalizing p with
  | nil => rfl
  | cons a as ih =>
      rw [List.cons_append, List.getLastD_cons, ih, List.getLastD_cons]

/-- A list that is not empty has its last node. -/
theorem getLastD_mem {as : List α} (hne : as ≠ []) (p : α) : as.getLastD p ∈ as := by
  cases as with
  | nil => exact absurd rfl hne
  | cons a as =>
      rw [List.getLastD_cons]
      exact List.getLastD_mem_cons

/-- A list can be cut anywhere: the first part goes on with the head of the second. -/
theorem nextOf_append {next : α → α} {as bs : List α} {n : α} :
    NextOf next (as ++ bs) n ↔ NextOf next as (bs.headD n) ∧ NextOf next bs n := by
  induction as with
  | nil => simp [NextOf]
  | cons a as ih => simp only [List.cons_append, NextOf, ih, headD_append, and_assoc]

/-- A list can be cut anywhere: the second part comes from the last node of the first. -/
theorem priorOf_append {prior : α → α} {p : α} {as bs : List α} :
    PriorOf prior p (as ++ bs) ↔
      PriorOf prior p as ∧ PriorOf prior (as.getLastD p) bs := by
  induction as generalizing p with
  | nil => simp [PriorOf]
  | cons a as ih => simp only [List.cons_append, PriorOf, ih, List.getLastD_cons, and_assoc]

/-- Only what stands at the nodes counts. -/
theorem NextOf.congr {next next' : α → α} {nodes : List α} {n : α} (h : NextOf next nodes n)
    (hsame : ∀ a ∈ nodes, next' a = next a) : NextOf next' nodes n := by
  induction nodes with
  | nil => trivial
  | cons a nodes ih =>
      exact ⟨(hsame a List.mem_cons_self).trans h.1,
        ih h.2 fun b hb => hsame b (List.mem_cons_of_mem a hb)⟩

/-- Only what stands at the nodes counts. -/
theorem PriorOf.congr {prior prior' : α → α} {p : α} {nodes : List α}
    (h : PriorOf prior p nodes) (hsame : ∀ a ∈ nodes, prior' a = prior a) :
    PriorOf prior' p nodes := by
  induction nodes generalizing p with
  | nil => trivial
  | cons a nodes ih =>
      exact ⟨(hsame a List.mem_cons_self).trans h.1,
        ih h.2 fun b hb => hsame b (List.mem_cons_of_mem a hb)⟩

variable [DecidableEq α]

/-- What is written elsewhere does not matter. -/
theorem NextOf.update {next : α → α} {nodes : List α} {n : α} (h : NextOf next nodes n)
    {a : α} (ha : a ∉ nodes) (b : α) : NextOf (Function.update next a b) nodes n :=
  h.congr fun x hx => Function.update_of_ne (by
    rintro rfl
    exact ha hx) b next

/-- What is written elsewhere does not matter. -/
theorem PriorOf.update {prior : α → α} {p : α} {nodes : List α} (h : PriorOf prior p nodes)
    {a : α} (ha : a ∉ nodes) (b : α) : PriorOf (Function.update prior a b) p nodes :=
  h.congr fun x hx => Function.update_of_ne (by
    rintro rfl
    exact ha hx) b prior

/-- Another node comes behind the last. -/
theorem NextOf.relink {next : α → α} {nodes : List α} {n : α} (h : NextOf next nodes n)
    (hnodup : nodes.Nodup) (p n' : α) (hne : nodes ≠ []) :
    NextOf (Function.update next (nodes.getLastD p) n') nodes n' := by
  obtain ⟨as, a, rfl⟩ := (List.eq_nil_or_concat nodes).resolve_left hne
  rw [List.concat_eq_append] at h hnodup ⊢
  have ha : a ∉ as := fun hmem =>
    (List.nodup_append.mp hnodup).2.2 a hmem a (List.mem_singleton_self a) rfl
  rw [getLastD_append]
  refine nextOf_append.mpr ⟨(nextOf_append.mp h).1.update ha n', ?_, trivial⟩
  exact Function.update_self a n' next

/-- Another node comes before the first. -/
theorem PriorOf.relink {prior : α → α} {a p : α} {nodes : List α}
    (h : PriorOf prior p (a :: nodes)) (ha : a ∉ nodes) (p' : α) :
    PriorOf (Function.update prior a p') p' (a :: nodes) :=
  ⟨Function.update_self a p' prior, h.2.update ha p'⟩

/-- The node `i` takes the place of `a`. -/
theorem NextOf.replace {next : α → α} {as bs : List α} {a i n : α} (p : α)
    (h : NextOf next (as ++ a :: bs) n) (hnodup : as.Nodup) (has : i ∉ as) (hbs : i ∉ bs)
    (hcross : ∀ b ∈ as, b ∉ bs) :
    NextOf (if as = [] then Function.update next i (next a)
      else Function.update (Function.update next i (next a)) (as.getLastD p) i)
      (as ++ i :: bs) n := by
  obtain ⟨hnextAs, hnextA, hnextBs⟩ := nextOf_append.mp h
  split
  · next hnil =>
      subst hnil
      exact ⟨(Function.update_self i _ next).trans hnextA, hnextBs.update hbs _⟩
  · next hne =>
      have hlast := getLastD_mem hne p
      have hi : i ≠ as.getLastD p := fun heq => has (heq ▸ hlast)
      refine nextOf_append.mpr ⟨(hnextAs.update has _).relink hnodup p i hne, ?_,
        (hnextBs.update hbs _).update (hcross _ hlast) i⟩
      rw [Function.update_of_ne hi, Function.update_self]
      exact hnextA

/-- The node `i` takes the place of `a`, seen backwards. -/
theorem PriorOf.replace {prior : α → α} {as bs : List α} {a i p : α} (n : α)
    (h : PriorOf prior p (as ++ a :: bs)) (hnodup : bs.Nodup) (has : i ∉ as) (hbs : i ∉ bs)
    (hcross : ∀ b ∈ as, b ∉ bs) :
    PriorOf (if bs = [] then Function.update prior i (prior a)
      else Function.update (Function.update prior i (prior a)) (bs.headD n) i)
      p (as ++ i :: bs) := by
  obtain ⟨hpriorAs, hpriorA, hpriorBs⟩ := priorOf_append.mp h
  cases bs with
  | nil =>
      rw [if_pos rfl]
      exact priorOf_append.mpr ⟨hpriorAs.update has _,
        (Function.update_self i _ prior).trans hpriorA, trivial⟩
  | cons b bs =>
      rw [if_neg (List.cons_ne_nil b bs), List.headD_cons]
      have hb : b ∉ as := fun hmem => hcross b hmem List.mem_cons_self
      have hi : i ≠ b := fun heq => hbs (heq ▸ List.mem_cons_self)
      refine priorOf_append.mpr ⟨(hpriorAs.update has _).update hb i, ?_,
        (hpriorBs.update hbs _).relink (List.nodup_cons.mp hnodup).1 i⟩
      rw [Function.update_of_ne hi, Function.update_self]
      exact hpriorA

/-- The node `i` comes behind `a`. -/
theorem NextOf.insert {next : α → α} {as bs : List α} {a i n : α}
    (h : NextOf next (as ++ a :: bs) n) (ha : a ∉ as ∧ a ∉ bs) (hi : i ∉ as ++ a :: bs) :
    NextOf (Function.update (Function.update next i (next a)) a i) (as ++ a :: i :: bs) n := by
  obtain ⟨hnextAs, hnextA, hnextBs⟩ := nextOf_append.mp h
  rw [List.mem_append, List.mem_cons, not_or, not_or] at hi
  refine nextOf_append.mpr ⟨(hnextAs.update hi.1 _).update ha.1 i,
    Function.update_self a i (Function.update next i (next a)), ?_,
    (hnextBs.update hi.2.2 _).update ha.2 i⟩
  rw [Function.update_of_ne hi.2.1, Function.update_self]
  exact hnextA

/-- The node `i` comes behind `a`, seen backwards. -/
theorem PriorOf.insert {prior : α → α} {as bs : List α} {a i p : α} (n : α)
    (h : PriorOf prior p (as ++ a :: bs)) (hnodup : (as ++ a :: bs).Nodup)
    (hi : i ∉ as ++ a :: bs) :
    PriorOf (if bs = [] then Function.update prior i a
      else Function.update (Function.update prior i a) (bs.headD n) i) p (as ++ a :: i :: bs) := by
  obtain ⟨hpriorAs, hpriorA, hpriorBs⟩ := priorOf_append.mp h
  obtain ⟨-, hnodupBs, hcross⟩ := List.nodup_append.mp hnodup
  rw [List.mem_append, List.mem_cons, not_or, not_or] at hi
  have hia : a ≠ i := fun heq => hi.2.1 heq.symm
  cases bs with
  | nil =>
      rw [if_pos rfl]
      exact priorOf_append.mpr ⟨hpriorAs.update hi.1 a,
        (Function.update_of_ne hia _ prior).trans hpriorA, Function.update_self i a prior, trivial⟩
  | cons b bs =>
      rw [if_neg (List.cons_ne_nil b bs), List.headD_cons]
      obtain ⟨haBs, hnodupBs⟩ := List.nodup_cons.mp hnodupBs
      have hb : b ∉ as := fun hmem =>
        hcross b hmem b (List.mem_cons_of_mem a List.mem_cons_self) rfl
      have hib : i ≠ b := fun heq => hi.2.2 (heq ▸ List.mem_cons_self)
      have hab : a ≠ b := fun heq => haBs (heq ▸ List.mem_cons_self)
      refine priorOf_append.mpr ⟨(hpriorAs.update hi.1 a).update hb i, ?_, ?_,
        (hpriorBs.update hi.2.2 a).relink (List.nodup_cons.mp hnodupBs).1 i⟩
      · rw [Function.update_of_ne hab, Function.update_of_ne hia]
        exact hpriorA
      · rw [Function.update_of_ne hib, Function.update_self]

end LinkedNodes
