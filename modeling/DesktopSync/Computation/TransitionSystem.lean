import Mathlib.Data.Nat.Notation
import Mathlib.Logic.Relation

/-!
# Transition systems

A system is a set of initial states and a guarded step function: `step s e` is the
state after event `e`, or `none` where `e` cannot happen. `ReachableBy allowed` are
the states of the runs whose every event is allowed in the state it happens in, and
`ReachableBy.invariant` is the one induction over runs that invariants are proved by.
`exec` plays a script, each of whose events may depend on the state it meets, and
`Reachable.exec` says it stays among the reachable states. `exists_of_measure` is the
induction that shows that a goal can be reached.
-/

set_option autoImplicit false

universe u v

namespace TransitionSystem

/-- Initial states and a guarded step function. -/
structure System (σ : Type u) (ε : Type v) where
  init : σ → Prop
  step : σ → ε → Option σ

namespace System

variable {σ : Type u} {ε : Type v} (sys : System σ ε)

/-- The states of the runs whose every event is allowed where it happens. -/
inductive ReachableBy (allowed : σ → ε → Prop) : σ → Prop
  | init {s : σ} : sys.init s → ReachableBy allowed s
  | step {s s' : σ} {e : ε} : ReachableBy allowed s → allowed s e → sys.step s e = some s' →
      ReachableBy allowed s'

/-- The states of all runs. -/
def Reachable : σ → Prop := sys.ReachableBy fun _ _ => True

/-- Play `script` from `s`; `none` if one of its events cannot happen. -/
def exec (s : σ) (script : List (σ → ε)) : Option σ :=
  script.foldlM (fun s e => sys.step s (e s)) s

variable {sys}

/-- What holds initially and is preserved by every allowed step holds in every state
of a run of allowed steps. -/
theorem ReachableBy.invariant {allowed : σ → ε → Prop} {inv : σ → Prop}
    (hinit : ∀ s, sys.init s → inv s)
    (hstep : ∀ s e s', inv s → allowed s e → sys.step s e = some s' → inv s')
    {s : σ} (h : sys.ReachableBy allowed s) : inv s := by
  induction h with
  | init hs => exact hinit _ hs
  | step _ hallowed hs ih => exact hstep _ _ _ ih hallowed hs

/-- The induction rule for runs with no restriction on their steps. -/
theorem Reachable.invariant {inv : σ → Prop} (hinit : ∀ s, sys.init s → inv s)
    (hstep : ∀ s e s', inv s → sys.step s e = some s' → inv s')
    {s : σ} (h : sys.Reachable s) : inv s :=
  ReachableBy.invariant hinit (fun s e s' hi _ hs => hstep s e s' hi hs) h

/-- A script that can be played leads to a reachable state. -/
theorem Reachable.exec {s s' : σ} {script : List (σ → ε)} (h : sys.Reachable s)
    (hexec : sys.exec s script = some s') : sys.Reachable s' := by
  induction script generalizing s with
  | nil =>
      cases hexec
      exact h
  | cons e script ih =>
      simp only [System.exec, List.foldlM_cons, Option.bind_eq_bind,
        Option.bind_eq_some_iff] at hexec
      obtain ⟨mid, hmid, htail⟩ := hexec
      exact ih (ReachableBy.step h trivial hmid) htail

variable (sys)

/-- The runs of allowed steps as a system of their own. -/
def restrict (allowed : σ → ε → Prop) [∀ s e, Decidable (allowed s e)] : System σ ε where
  init := sys.init
  step s e := if allowed s e then sys.step s e else none

variable {sys}

/-- A script whose every event is allowed leads to a state of an allowed run. -/
theorem ReachableBy.exec {allowed : σ → ε → Prop} [∀ s e, Decidable (allowed s e)] {s s' : σ}
    {script : List (σ → ε)} (h : sys.ReachableBy allowed s)
    (hexec : (sys.restrict allowed).exec s script = some s') : sys.ReachableBy allowed s' := by
  induction script generalizing s with
  | nil =>
      cases hexec
      exact h
  | cons e script ih =>
      simp only [System.exec, List.foldlM_cons, Option.bind_eq_bind,
        Option.bind_eq_some_iff] at hexec
      obtain ⟨mid, hmid, htail⟩ := hexec
      obtain ⟨hallowed, hstep⟩ := Option.ite_none_right_eq_some.mp hmid
      exact ih (.step h hallowed hstep) htail

end System

/-- A goal can be reached if, wherever it is not, some steps make a measure less. -/
theorem exists_of_measure {σ : Type u} {r : σ → σ → Prop} {inv goal : σ → Prop} (μ : σ → ℕ)
    (h : ∀ s, inv s → goal s ∨ ∃ s', Relation.ReflTransGen r s s' ∧ inv s' ∧ μ s' < μ s)
    {s : σ} (hs : inv s) : ∃ s', Relation.ReflTransGen r s s' ∧ inv s' ∧ goal s' := by
  induction hn : μ s using Nat.strongRecOn generalizing s with
  | ind n ih =>
      rcases h s hs with hgoal | ⟨s', hsteps, hs', hless⟩
      · exact ⟨s, .refl, hs, hgoal⟩
      · obtain ⟨s'', hsteps', hs'', hgoal⟩ := ih _ (hn ▸ hless) hs' rfl
        exact ⟨s'', hsteps.trans hsteps', hs'', hgoal⟩

end TransitionSystem
