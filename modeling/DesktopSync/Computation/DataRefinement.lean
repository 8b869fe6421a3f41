import Mathlib.Data.List.Basic

/-!
# Data refinement

An object has a state and answers calls. One object refines another when, from related
states, both answer each call alike and stay related: then no sequence of calls tells them
apart. The calls may be restricted to those that the other object permits in its state.
-/

set_option autoImplicit false

universe u v w x

namespace DataRefinement

variable {σ : Type u} {τ : Type v} {κ : Type w} {ρ : Type x}

/-- The answers to a sequence of calls. -/
def transcript (call : σ → κ → ρ × σ) : σ → List κ → List ρ
  | _, [] => []
  | s, k :: ks => (call s k).1 :: transcript call (call s k).2 ks

/-- The state behind a sequence of calls. -/
def after (call : σ → κ → ρ × σ) : σ → List κ → σ
  | s, [] => s
  | s, k :: ks => after call (call s k).2 ks

/-- Every call is permitted in the state it meets. -/
def Permitted (call : τ → κ → ρ × τ) (allowed : τ → κ → Prop) : τ → List κ → Prop
  | _, [] => True
  | t, k :: ks => allowed t k ∧ Permitted call allowed (call t k).2 ks

/-- Where every call is permitted, all sequences of calls are. -/
theorem Permitted.of_forall {call : τ → κ → ρ × τ} {allowed : τ → κ → Prop}
    (h : ∀ t k, allowed t k) (t : τ) (ks : List κ) : Permitted call allowed t ks := by
  induction ks generalizing t with
  | nil => trivial
  | cons k ks ih => exact ⟨h t k, ih _⟩

/-- Objects that answer each call alike and stay related have the same transcripts. -/
theorem transcript_eq {call : σ → κ → ρ × σ} {call' : τ → κ → ρ × τ} {allowed : τ → κ → Prop}
    {R : σ → τ → Prop}
    (hcall : ∀ s t k, R s t → allowed t k →
      (call s k).1 = (call' t k).1 ∧ R (call s k).2 (call' t k).2)
    {s : σ} {t : τ} (h : R s t) {ks : List κ} (hks : Permitted call' allowed t ks) :
    transcript call s ks = transcript call' t ks ∧ R (after call s ks) (after call' t ks) := by
  induction ks generalizing s t with
  | nil => exact ⟨rfl, h⟩
  | cons k ks ih =>
      obtain ⟨hanswer, hstate⟩ := hcall s t k h hks.1
      obtain ⟨htranscript, hafter⟩ := ih hstate hks.2
      refine ⟨?_, hafter⟩
      unfold transcript
      rw [hanswer, htranscript]

end DataRefinement
