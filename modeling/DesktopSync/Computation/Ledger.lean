import Mathlib.Data.List.Basic
import Mathlib.Data.List.Count

/-!
# Ledgers of acquired resources

A program's trace of acquisitions and releases. `settle` replays it over what is held and
fails on a release of something that is not held; a trace is clean if it replays from
nothing to nothing, that is, if everything acquired is released exactly once, and after it
was acquired. `settle_count` is the conservation law of a ledger, and a leak is found by it.
-/

set_option autoImplicit false

universe u

namespace Ledger

/-- One entry of a trace. -/
inductive Entry (ρ : Type u) where
  | acquire (r : ρ)
  | release (r : ρ)
  deriving DecidableEq

variable {ρ : Type u} [DecidableEq ρ]

/-- What is held after a trace; `none` if it releases something that is not held. -/
def settle : List (Entry ρ) → List ρ → Option (List ρ)
  | [], held => some held
  | .acquire r :: trace, held => settle trace (r :: held)
  | .release r :: trace, held => if r ∈ held then settle trace (held.erase r) else none

/-- Everything acquired is released exactly once, after it was acquired. -/
def Clean (trace : List (Entry ρ)) : Prop := settle trace [] = some []

instance decidableClean (trace : List (Entry ρ)) : Decidable (Clean trace) :=
  inferInstanceAs (Decidable (_ = _))

theorem Clean.nil : Clean ([] : List (Entry ρ)) := rfl

/-- What was held or acquired is released or still held. -/
theorem settle_count {trace : List (Entry ρ)} {held held' : List ρ}
    (h : settle trace held = some held') (r : ρ) :
    held.count r + trace.count (.acquire r) = held'.count r + trace.count (.release r) := by
  induction trace generalizing held with
  | nil =>
      cases h
      rfl
  | cons e trace ih =>
      cases e with
      | acquire s =>
          have hrest := ih h
          by_cases hs : s = r
          · subst hs
            simp only [List.count_cons_self] at hrest
            rw [List.count_cons_self, List.count_cons_of_ne (by simp)]
            omega
          · rw [List.count_cons_of_ne hs] at hrest
            rw [List.count_cons_of_ne (by simpa using hs), List.count_cons_of_ne (by simp)]
            exact hrest
      | release s =>
          simp only [settle] at h
          split at h
          · next hmem =>
              have hrest := ih h
              by_cases hs : s = r
              · subst hs
                have hpos := List.count_pos_iff.mpr hmem
                rw [List.count_erase_self] at hrest
                rw [List.count_cons_self, List.count_cons_of_ne (by simp)]
                omega
              · rw [List.count_erase_of_ne (Ne.symm hs)] at hrest
                rw [List.count_cons_of_ne (by simp), List.count_cons_of_ne (by simpa using hs)]
                exact hrest
          · cases h

/-- A clean trace releases each resource as often as it acquires it. -/
theorem Clean.count_eq {trace : List (Entry ρ)} (h : Clean trace) (r : ρ) :
    trace.count (.acquire r) = trace.count (.release r) := by
  have hcount := settle_count h r
  rwa [List.count_nil, Nat.zero_add, Nat.zero_add] at hcount

/-- A trace that acquires a resource and never releases it leaks. -/
theorem not_clean_of_leak {trace : List (Entry ρ)} {r : ρ} (hacquire : .acquire r ∈ trace)
    (hrelease : .release r ∉ trace) : ¬Clean trace := by
  intro h
  have hcount := h.count_eq r
  rw [List.count_eq_zero_of_not_mem hrelease] at hcount
  exact absurd hacquire (List.count_eq_zero.mp hcount)

end Ledger
