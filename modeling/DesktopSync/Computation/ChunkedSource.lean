import Mathlib.Data.List.Basic

/-!
# A reliable stream read in pieces

The reader's view of a reliable ordered stream: the symbols still to come, cut into
the non-empty pieces the transport will hand over. A read of at most `n` symbols
returns the next piece, or its first `n` symbols, and returns nothing only when the
stream has ended. Every way a transport may cut its answers is some list of pieces.
-/

set_option autoImplicit false

universe u

namespace ChunkedSource

variable {α : Type u}

/-- The symbols still to come, in the pieces in which they will arrive. -/
structure Source (α : Type u) where
  pieces : List (List α)
  pieces_ne_nil : ∀ p ∈ pieces, p ≠ []

/-- The symbols still to come. -/
def Source.toList (s : Source α) : List α := s.pieces.flatten

/-- A source that hands over `symbols` in one piece. -/
def Source.whole (symbols : List α) : Source α :=
  if h : symbols = [] then ⟨[], by simp⟩ else ⟨[symbols], by simpa using h⟩

@[simp] theorem Source.toList_whole (symbols : List α) : (whole symbols).toList = symbols := by
  unfold whole
  split
  · next h => simp [toList, h]
  · simp [toList]

/-- One read of at most `n` symbols. -/
def Source.read (s : Source α) (n : ℕ) : List α × Source α :=
  match s with
  | ⟨[], h⟩ => ([], ⟨[], h⟩)
  | ⟨p :: ps, h⟩ =>
      if hlt : n < p.length then
        (p.take n, ⟨p.drop n :: ps, by
          intro q hq
          rcases List.mem_cons.mp hq with rfl | hq
          · simpa [List.drop_eq_nil_iff] using hlt
          · exact h q (List.mem_cons_of_mem _ hq)⟩)
      else (p, ⟨ps, fun q hq => h q (List.mem_cons_of_mem _ hq)⟩)

/-- A read takes its symbols from the front. -/
theorem Source.read_append (s : Source α) (n : ℕ) :
    (s.read n).1 ++ (s.read n).2.toList = s.toList := by
  rcases s with ⟨_ | ⟨p, ps⟩, h⟩
  · rfl
  · unfold read toList
    simp only
    split
    · simp only [List.flatten_cons, ← List.append_assoc, List.take_append_drop]
    · simp only [List.flatten_cons]

/-- A read returns no more than it was asked for. -/
theorem Source.length_read_le (s : Source α) (n : ℕ) : (s.read n).1.length ≤ n := by
  rcases s with ⟨_ | ⟨p, ps⟩, h⟩
  · exact Nat.zero_le n
  · unfold read
    simp only
    split
    · simp only [List.length_take]
      omega
    · simp only
      omega

/-- A read that asks for something returns nothing only at the end of the stream. -/
theorem Source.read_eq_nil_iff (s : Source α) (n : ℕ) (hn : 0 < n) :
    (s.read n).1 = [] ↔ s.toList = [] := by
  rcases s with ⟨_ | ⟨p, ps⟩, h⟩
  · exact iff_of_true rfl rfl
  · have hp : p ≠ [] := h p List.mem_cons_self
    refine iff_of_false ?_ (by simp [toList, hp])
    unfold read
    simp only
    split
    · simp only [List.take_eq_nil_iff, hp, or_false]
      omega
    · exact hp

end ChunkedSource
