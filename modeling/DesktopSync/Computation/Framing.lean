import Mathlib.Data.List.Basic
import Mathlib.Data.List.Infix

/-!
# Framed streams

A framing says what the front of a symbol stream is: a whole frame, possibly
carrying an item; the symbols after which reading ends; or nothing yet, because the
stream stops inside a frame. The verdict on a whole frame depends on that frame
alone, so it stays the same however the stream goes on; the structure carries this
as its fields.

`Grammar.parse` reads a stream frame by frame. Since verdicts are stable, a stream
cut at any point yields a prefix of the items of the uncut stream
(`items_prefix`), and a reading that came to its end is the same on every
continuation (`parse_append_of_some`).
-/

set_option autoImplicit false

universe u v w

namespace Framing

variable {α : Type u} {β : Type v} {ω : Type w}

/-- What the front of a stream is. -/
inductive Verdict (β : Type v) (ω : Type w) where
  /-- The stream stops inside the frame. -/
  | short
  /-- Reading ends with `outcome` after `n` symbols. -/
  | halt (outcome : ω) (n : ℕ)
  /-- A frame of `n` symbols, carrying at most one item. -/
  | frame (item : Option β) (n : ℕ)

/-- A framing whose verdicts do not depend on what follows the frame. -/
structure Grammar (α : Type u) (β : Type v) (ω : Type w) where
  front : List α → Verdict β ω
  frame_pos : ∀ {s item n}, front s = .frame item n → 0 < n
  frame_le : ∀ {s item n}, front s = .frame item n → n ≤ s.length
  halt_le : ∀ {s outcome n}, front s = .halt outcome n → n ≤ s.length
  frame_append : ∀ {s item n} (t : List α), front s = .frame item n → front (s ++ t) = .frame item n
  halt_append : ∀ {s outcome n} (t : List α), front s = .halt outcome n →
    front (s ++ t) = .halt outcome n

/-- What reading a stream to its end yields: the items with the position of the frame
that carries each, the outcome if the stream did not stop inside a frame, and the
symbols not read. -/
structure Parse (α : Type u) (β : Type v) (ω : Type w) where
  items : List (ℕ × β)
  outcome : Option ω
  rest : List α

namespace Grammar

variable (g : Grammar α β ω)

variable {g} in
/-- Taking a frame off a stream leaves a shorter one. -/
theorem length_drop_lt {s : List α} {item : Option β} {n : ℕ} (h : g.front s = .frame item n) :
    (s.drop n).length < s.length := by
  have hpos := g.frame_pos h
  have hle := g.frame_le h
  rw [List.length_drop]
  omega

/-- Read a stream whose first symbol is at position `pos`, frame by frame. -/
def parse (pos : ℕ) (s : List α) : Parse α β ω :=
  match _ : g.front s with
  | .short => ⟨[], none, s⟩
  | .halt outcome n => ⟨[], some outcome, s.drop n⟩
  | .frame item n =>
      let tail := parse (pos + n) (s.drop n)
      ⟨item.toList.map (pos, ·) ++ tail.items, tail.outcome, tail.rest⟩
termination_by s.length
decreasing_by exact length_drop_lt ‹_›

variable {g}

theorem parse_short {pos : ℕ} {s : List α} (h : g.front s = .short) :
    g.parse pos s = ⟨[], none, s⟩ := by
  rw [parse]
  split <;> simp_all

theorem parse_halt {pos n : ℕ} {s : List α} {outcome : ω} (h : g.front s = .halt outcome n) :
    g.parse pos s = ⟨[], some outcome, s.drop n⟩ := by
  rw [parse]
  split <;> simp_all

theorem parse_frame {pos n : ℕ} {s : List α} {item : Option β} (h : g.front s = .frame item n) :
    g.parse pos s =
      ⟨item.toList.map (pos, ·) ++ (g.parse (pos + n) (s.drop n)).items,
        (g.parse (pos + n) (s.drop n)).outcome, (g.parse (pos + n) (s.drop n)).rest⟩ := by
  rw [parse]
  split <;> simp_all

/-- Reading takes symbols from the front: induct over the frames of a stream. -/
theorem parse_induction {motive : ℕ → List α → Prop}
    (short : ∀ pos s, g.front s = .short → motive pos s)
    (halt : ∀ pos s outcome n, g.front s = .halt outcome n → motive pos s)
    (frame : ∀ pos s item n, g.front s = .frame item n → motive (pos + n) (s.drop n) →
      motive pos s) (pos : ℕ) (s : List α) : motive pos s := by
  induction hlen : s.length using Nat.strong_induction_on generalizing pos s with
  | _ len ih =>
      cases h : g.front s with
      | short => exact short pos s h
      | halt outcome n => exact halt pos s outcome n h
      | frame item n =>
          exact frame pos s item n h
            (ih _ (hlen ▸ length_drop_lt h) (pos + n) (s.drop n) rfl)

/-- A reading that came to its end is the same on every continuation of the stream. -/
theorem parse_append_of_some (pos : ℕ) (s t : List α) (outcome : ω)
    (h : (g.parse pos s).outcome = some outcome) :
    g.parse pos (s ++ t) =
      ⟨(g.parse pos s).items, some outcome, (g.parse pos s).rest ++ t⟩ := by
  induction pos, s using g.parse_induction with
  | short pos s hs =>
      rw [parse_short hs] at h
      cases h
  | halt pos s o n hs =>
      rw [parse_halt hs] at h ⊢
      cases h
      rw [parse_halt (g.halt_append t hs), List.drop_append_of_le_length (g.halt_le hs)]
  | frame pos s item n hs ih =>
      rw [parse_frame hs] at h ⊢
      rw [parse_frame (g.frame_append t hs), List.drop_append_of_le_length (g.frame_le hs), ih h]

/-- A stream that stopped inside a frame and goes on is read on from that frame. -/
theorem parse_append_of_none (pos : ℕ) (s t : List α)
    (h : (g.parse pos s).outcome = none) :
    ∃ next, (g.parse pos (s ++ t)).items =
      (g.parse pos s).items ++ (g.parse next ((g.parse pos s).rest ++ t)).items := by
  induction pos, s using g.parse_induction with
  | short pos s hs => exact ⟨pos, by rw [parse_short hs]; rfl⟩
  | halt pos s o n hs =>
      rw [parse_halt hs] at h
      cases h
  | frame pos s item n hs ih =>
      rw [parse_frame hs] at h
      obtain ⟨next, hnext⟩ := ih h
      refine ⟨next, ?_⟩
      rw [parse_frame hs, parse_frame (g.frame_append t hs),
        List.drop_append_of_le_length (g.frame_le hs)]
      simp only [hnext, List.append_assoc]

/-- A stream cut at any point yields a prefix of the items of the uncut one. -/
theorem items_prefix (pos : ℕ) (s t : List α) :
    (g.parse pos s).items <+: (g.parse pos (s ++ t)).items := by
  cases h : (g.parse pos s).outcome with
  | some outcome =>
      rw [parse_append_of_some pos s t outcome h]
  | none =>
      obtain ⟨next, hnext⟩ := parse_append_of_none pos s t h
      rw [hnext]
      exact List.prefix_append _ _

/-- Every item is carried by a whole frame of the stream, at its recorded position. -/
theorem items_frame (pos : ℕ) (s : List α) (x : ℕ × β) (hx : x ∈ (g.parse pos s).items) :
    ∃ before after n, s = before ++ after ∧ x.1 = pos + before.length ∧
      g.front after = .frame (some x.2) n := by
  induction pos, s using g.parse_induction with
  | short pos s hs =>
      rw [parse_short hs] at hx
      cases hx
  | halt pos s o n hs =>
      rw [parse_halt hs] at hx
      cases hx
  | frame pos s item n hs ih =>
      rw [parse_frame hs] at hx
      rcases List.mem_append.mp hx with hx | hx
      · cases item with
        | none => cases hx
        | some b =>
            have hxb : x = (pos, b) := by simpa using hx
            exact ⟨[], s, n, rfl, by simp [hxb], by rw [hs, hxb]⟩
      · obtain ⟨before, after, m, happ, hpos, hfront⟩ := ih hx
        refine ⟨s.take n ++ before, after, m, ?_, ?_, hfront⟩
        · rw [List.append_assoc, ← happ, List.take_append_drop]
        · rw [hpos, List.length_append, List.length_take, Nat.min_eq_left (g.frame_le hs)]
          omega

/-- No item is recorded before the position reading began at. -/
theorem le_of_mem_items (pos : ℕ) (s : List α) (x : ℕ × β) (hx : x ∈ (g.parse pos s).items) :
    pos ≤ x.1 := by
  obtain ⟨before, after, n, -, hpos, -⟩ := items_frame pos s x hx
  omega

/-- The frames that carry the items follow one another: their positions increase. -/
theorem items_sorted (pos : ℕ) (s : List α) :
    (g.parse pos s).items.Pairwise (fun x y => x.1 < y.1) := by
  induction pos, s using g.parse_induction with
  | short pos s hs => rw [parse_short hs]; exact List.Pairwise.nil
  | halt pos s o n hs => rw [parse_halt hs]; exact List.Pairwise.nil
  | frame pos s item n hs ih =>
      rw [parse_frame hs]
      cases item with
      | none => exact ih
      | some b =>
          refine List.Pairwise.cons ?_ ih
          intro y hy
          have := le_of_mem_items _ _ y hy
          have := g.frame_pos hs
          simp only
          omega

end Grammar

end Framing
