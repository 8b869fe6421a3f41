import DesktopSync.Computation.Exchange

/-!
# A value that two sides copy to each other

Each side holds a version of a value, or none, and new versions get larger numbers. A side is
read, and what was read is stored at the other side later, first read first stored, over
whatever is there. So an older version can replace a newer one.

As long as no side is read while a copy of the other is under way, this happens only to a
version that was made where it is replaced and was never stored at the other side.
-/

set_option autoImplicit false

namespace Replica

open Exchange

/-- A change for one side leaves the other. -/
@[simp] theorem update_other {α : Type} (f : Side → α) (p : Side) (a : α) :
    Function.update f p a p.other = f p.other := Function.update_of_ne p.other_ne a f

/-- A change for the other side leaves this one. -/
@[simp] theorem update_other_self {α : Type} (f : Side → α) (p : Side) (a : α) :
    Function.update f p.other a p = f p := Function.update_of_ne p.other_ne.symm a f

/-- The value on both sides. -/
@[ext]
structure Cell where
  version : Side → ℕ
  present : Side → Prop
  /-- The version was made here, and the other side has not stored it. -/
  own : Side → Bool
  /-- The versions that were read here and are not stored at the other side yet. -/
  flight : Side → List ℕ

namespace Cell

variable (c : Cell) (p : Side)

/-- A new version is made. -/
def edit (v : ℕ) : Cell :=
  { c with
    version := Function.update c.version p v
    present := Function.update c.present p True
    own := Function.update c.own p true }

/-- The file is removed on one side. -/
def remove : Cell := { c with present := Function.update c.present p False }

/-- The side is read. -/
def read : Cell := { c with flight := Function.update c.flight p (c.flight p ++ [c.version p]) }

/-- The side stores `v`, and `rest` stays under way to it. -/
def store (v : ℕ) (rest : List ℕ) : Cell where
  version := Function.update c.version p v
  present := Function.update c.present p True
  own := Function.update (Function.update c.own p.other
    (c.own p.other && c.version p.other != v)) p false
  flight := Function.update c.flight p.other rest

end Cell

/-- What is not a side's own is no newer than what the other side holds, or what is under way. -/
structure Settled (c : Cell) : Prop where
  /-- Copies are under way in one direction at most. -/
  single : ∀ p, c.flight p = [] ∨ c.flight p.other = []
  ordered : ∀ p, (c.flight p).Pairwise (· ≤ ·)
  bounded : ∀ p, ∀ v ∈ c.flight p, v ≤ c.version p
  sent : ∀ p, c.own p = false → ∀ v ∈ c.flight p, c.version p ≤ v
  coming : ∀ p, c.own p = false → c.present p → ∀ v ∈ c.flight p.other, c.version p ≤ v
  carried : ∀ p, c.own p = false → c.present p → c.present p.other →
    c.version p ≤ c.version p.other

namespace Settled

variable {c : Cell} {p : Side}

/-- Both sides hold one version and nothing is under way. -/
theorem of_agrees (hflight : ∀ p, c.flight p = []) (hversion : c.version .left = c.version .right) :
    Settled c where
  single p := .inl (hflight p)
  ordered p := by simp [hflight p]
  bounded p := by simp [hflight p]
  sent p := by simp [hflight p]
  coming p := by simp [hflight p.other]
  carried p _ _ _ := by
    cases p
    · exact hversion.le
    · exact hversion.ge

/-- Each side holds its own version and nothing is under way. -/
theorem of_own (hflight : ∀ p, c.flight p = []) (hown : ∀ p, c.own p = true) : Settled c where
  single p := .inl (hflight p)
  ordered p := by simp [hflight p]
  bounded p := by simp [hflight p]
  sent p := by simp [hown p]
  coming p := by simp [hown p]
  carried p := by simp [hown p]

/-- What is edited last is newer than whatever is there or under way. -/
theorem edit (h : Settled c) {v : ℕ} (hflight : ∀ w ∈ c.flight p, w ≤ v)
    (hother : c.present p.other → c.version p.other ≤ v) : Settled (c.edit p v) where
  single := h.single
  ordered := h.ordered
  bounded q := by
    rcases p.eq_or_eq_other q with rfl | rfl
    · simpa [Cell.edit] using hflight
    · simpa [Cell.edit] using h.bounded p.other
  sent q hown := by
    rcases p.eq_or_eq_other q with rfl | rfl
    · simp [Cell.edit] at hown
    · simp only [Cell.edit, update_other] at hown ⊢
      exact h.sent p.other hown
  coming q hown := by
    rcases p.eq_or_eq_other q with rfl | rfl
    · simp [Cell.edit] at hown
    · simp only [Cell.edit, update_other] at hown ⊢
      exact h.coming p.other hown
  carried q hown hq hq' := by
    rcases p.eq_or_eq_other q with rfl | rfl
    · simp [Cell.edit] at hown
    · simp only [Cell.edit, update_other, Side.other_other,
        Function.update_self] at hq ⊢
      exact hother hq

/-- The file is removed on one side. -/
theorem remove (h : Settled c) : Settled (c.remove p) where
  single := h.single
  ordered := h.ordered
  bounded := h.bounded
  sent := h.sent
  coming q hown hq := by
    rcases p.eq_or_eq_other q with rfl | rfl
    · simp [Cell.remove] at hq
    · simp only [Cell.remove, update_other] at hq
      exact h.coming p.other hown hq
  carried q hown hq hq' := by
    rcases p.eq_or_eq_other q with rfl | rfl
    · simp [Cell.remove] at hq
    · simp [Cell.remove] at hq'

/-- A side is read while no copy of the other is under way. -/
theorem read (h : Settled c) (hp : c.present p) (hquiet : c.flight p.other = []) :
    Settled (c.read p) where
  single q := by
    rcases p.eq_or_eq_other q with rfl | rfl
    · right
      simpa [Cell.read] using hquiet
    · left
      simpa [Cell.read] using hquiet
  ordered q := by
    rcases p.eq_or_eq_other q with rfl | rfl
    · simp only [Cell.read, Function.update_self, List.pairwise_append, List.pairwise_singleton,
        List.mem_singleton, true_and]
      refine ⟨h.ordered q, ?_⟩
      rintro v hv _ rfl
      exact h.bounded q v hv
    · simpa [Cell.read] using h.ordered p.other
  bounded q := by
    rcases p.eq_or_eq_other q with rfl | rfl
    · intro v hv
      simp only [Cell.read, Function.update_self, List.mem_append, List.mem_singleton] at hv
      rcases hv with hv | rfl
      · exact h.bounded q v hv
      · exact le_rfl
    · simpa [Cell.read] using h.bounded p.other
  sent q hown := by
    rcases p.eq_or_eq_other q with rfl | rfl
    · intro v hv
      simp only [Cell.read, Function.update_self, List.mem_append, List.mem_singleton] at hv
      rcases hv with hv | rfl
      · exact h.sent q hown v hv
      · exact le_rfl
    · simpa [Cell.read] using h.sent p.other hown
  coming q hown hq := by
    rcases p.eq_or_eq_other q with rfl | rfl
    · simp [Cell.read, hquiet]
    · intro v hv
      simp only [Cell.read, Side.other_other, Function.update_self, List.mem_append,
        List.mem_singleton] at hv
      rcases hv with hv | rfl
      · have hcoming := h.coming p.other hown hq
        rw [Side.other_other] at hcoming
        exact hcoming v hv
      · have hcarried := h.carried p.other hown hq
        rw [Side.other_other] at hcarried
        exact hcarried hp
  carried := h.carried

/-- A side stores the first copy that is under way to it. -/
theorem store (h : Settled c) {v : ℕ} {rest : List ℕ} (hflight : c.flight p.other = v :: rest) :
    Settled (c.store p v rest) := by
  have hnone : c.flight p = [] := by
    have hsingle := h.single p
    rw [hflight] at hsingle
    exact hsingle.resolve_right (List.cons_ne_nil v rest)
  have hordered := h.ordered p.other
  have hbounded := h.bounded p.other
  rw [hflight] at hordered hbounded
  obtain ⟨hfirst, hrest⟩ := List.pairwise_cons.mp hordered
  -- what is no longer the sender's own is what is stored now, or older
  have hsender : (c.own p.other && c.version p.other != v) = false →
      c.version p.other ≤ v := by
    intro hown
    rcases Bool.and_eq_false_iff.mp hown with hown | hsame
    · exact h.sent p.other hown v (hflight ▸ List.mem_cons_self)
    · exact (bne_eq_false_iff_eq.mp hsame).le
  constructor
  case single =>
    intro q
    rcases p.eq_or_eq_other q with rfl | rfl
    · simp [Cell.store, hnone]
    · simp [Cell.store, hnone]
  case ordered =>
    intro q
    rcases p.eq_or_eq_other q with rfl | rfl
    · simp [Cell.store, hnone]
    · simpa [Cell.store] using hrest
  case bounded =>
    intro q
    rcases p.eq_or_eq_other q with rfl | rfl
    · simp [Cell.store, hnone]
    · simpa [Cell.store] using fun w hw => hbounded w (List.mem_cons_of_mem v hw)
  case sent =>
    intro q hown
    rcases p.eq_or_eq_other q with rfl | rfl
    · simp [Cell.store, hnone]
    · simp only [Cell.store, update_other, Function.update_self] at hown ⊢
      exact fun w hw => (hsender hown).trans (hfirst w hw)
  case coming =>
    intro q hown hq
    rcases p.eq_or_eq_other q with rfl | rfl
    · simpa [Cell.store] using hfirst
    · simp [Cell.store, hnone]
  case carried =>
    intro q hown hq hq'
    rcases p.eq_or_eq_other q with rfl | rfl
    · simpa [Cell.store] using hbounded v List.mem_cons_self
    · simp only [Cell.store, update_other, Function.update_self, Side.other_other] at hown ⊢
      exact hsender hown

end Settled

end Replica
