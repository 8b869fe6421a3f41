import Mathlib.Logic.Function.Basic
import Mathlib.Data.List.Basic

/-!
# One partial map laid over another

Entries that are written one after the other replace what is under their keys and leave
the rest. Where all of them come from one map `f`, the result is a part of `f` laid over
the map that was there, and `f` itself laid over it once every entry of `f` was among
them. Two such passes, there and back, make two maps equal, and after that no further
entry changes them.
-/

set_option autoImplicit false

universe u v

namespace Overlay

variable {α : Type u} {β : Type v}

/-- `f` where it has an entry, `g` elsewhere. -/
def overlay (f g : α → Option β) : α → Option β := fun x => (f x).or (g x)

/-- The entries of `f` satisfy `P`. -/
def Entries (P : α → β → Prop) (f : α → Option β) : Prop := ∀ x y, f x = some y → P x y

theorem entries_overlay {P : α → β → Prop} {f g : α → Option β} (hf : Entries P f)
    (hg : Entries P g) : Entries P (overlay f g) := by
  intro x y h
  unfold overlay at h
  cases hx : f x with
  | none =>
      rw [hx, Option.none_or] at h
      exact hg x y h
  | some z =>
      rw [hx, Option.some_or] at h
      exact hf x y (hx.trans h)

/-- What comes back from a map that was laid over `g` is that map, over anything `f` had. -/
theorem overlay_back (f g : α → Option β) : overlay (overlay f g) f = overlay f g := by
  funext x
  unfold overlay
  cases f x with
  | none => rw [Option.none_or, Option.or_none]
  | some y => rw [Option.some_or, Option.some_or]

variable [DecidableEq α]

/-- The entries are written one after the other. -/
def putAll (g : α → Option β) (entries : List (α × β)) : α → Option β :=
  entries.foldl (fun g e => Function.update g e.1 (some e.2)) g

theorem putAll_cons (g : α → Option β) (e : α × β) (entries : List (α × β)) :
    putAll g (e :: entries) = putAll (Function.update g e.1 (some e.2)) entries := rfl

/-- A key that is not written keeps its entry. -/
theorem putAll_of_notMem (g : α → Option β) {entries : List (α × β)} {x : α}
    (hx : x ∉ entries.map Prod.fst) : putAll g entries x = g x := by
  induction entries generalizing g with
  | nil => rfl
  | cons e entries ih =>
      rw [List.map_cons, List.mem_cons, not_or] at hx
      rw [putAll_cons, ih _ hx.2, Function.update_of_ne hx.1]

/-- A key that is written has the entry of the map that the entries come from. -/
theorem putAll_of_mem {f : α → Option β} (g : α → Option β) {entries : List (α × β)}
    (hentries : ∀ e ∈ entries, f e.1 = some e.2) {x : α} (hx : x ∈ entries.map Prod.fst) :
    putAll g entries x = f x := by
  induction entries generalizing g with
  | nil => cases hx
  | cons e entries ih =>
      have htail := fun e' he' => hentries e' (List.mem_cons_of_mem _ he')
      by_cases hrest : x ∈ entries.map Prod.fst
      · rw [putAll_cons]
        exact ih _ htail hrest
      · have hhead : x = e.1 := by
          rw [List.map_cons, List.mem_cons] at hx
          exact hx.resolve_right hrest
        rw [putAll_cons, putAll_of_notMem _ hrest, hhead, Function.update_self,
          hentries e List.mem_cons_self]

/-- Under a key that is written once stands what was written. -/
theorem putAll_of_nodup (g : α → Option β) {entries : List (α × β)}
    (hnodup : (entries.map Prod.fst).Nodup) {e : α × β} (he : e ∈ entries) :
    putAll g entries e.1 = some e.2 := by
  induction entries generalizing g with
  | nil => cases he
  | cons e' entries ih =>
      rw [List.map_cons, List.nodup_cons] at hnodup
      rw [putAll_cons]
      rcases List.mem_cons.mp he with rfl | he
      · rw [putAll_of_notMem _ hnodup.1, Function.update_self]
      · exact ih _ hnodup.2 he

/-- Renaming the keys by an injective function commutes with writing. -/
theorem putAll_comp {γ : Type v} {κ : Type u} [DecidableEq κ] {f : α → κ}
    (hf : Function.Injective f) (g : κ → Option γ) (entries : List (α × γ)) :
    putAll g (entries.map fun e => (f e.1, e.2)) ∘ f = putAll (g ∘ f) entries := by
  induction entries generalizing g with
  | nil => rfl
  | cons e entries ih =>
      rw [List.map_cons, putAll_cons, putAll_cons, ih, Function.update_comp_eq_of_injective _ hf]

/-- Any entries of a map, written over the map itself, leave it as it is. -/
theorem putAll_settled {f : α → Option β} {entries : List (α × β)}
    (hentries : ∀ e ∈ entries, f e.1 = some e.2) : putAll f entries = f := by
  funext x
  by_cases hx : x ∈ entries.map Prod.fst
  · exact putAll_of_mem f hentries hx
  · exact putAll_of_notMem f hx

/-- All entries of a map, written over another, lay the one over the other. -/
theorem putAll_whole {f : α → Option β} (g : α → Option β) {entries : List (α × β)}
    (hentries : ∀ e ∈ entries, f e.1 = some e.2)
    (hall : ∀ x y, f x = some y → (x, y) ∈ entries) : putAll g entries = overlay f g := by
  funext x
  unfold overlay
  cases hx : f x with
  | none =>
      have hnot : x ∉ entries.map Prod.fst := by
        intro hmem
        obtain ⟨e, he, rfl⟩ := List.mem_map.mp hmem
        rw [hentries e he] at hx
        cases hx
      rw [putAll_of_notMem g hnot, Option.none_or]
  | some y =>
      rw [putAll_of_mem g hentries (List.mem_map_of_mem (hall x y hx)), hx, Option.some_or]

end Overlay
