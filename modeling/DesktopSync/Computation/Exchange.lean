import Mathlib.Data.Set.Insert
import Mathlib.Logic.Function.Basic
import Mathlib.Logic.Relation

/-!
# Two stores that copy their entries to each other

Each of two parties lists the keys of its store once and sends a copy of each entry, read
when its turn comes; copies travel in order and overwrite what they find. Nothing ties the
two directions together. `settled` says what is left when everything has arrived: the
stores agree under every key, but for the keys both parties sent before anything had
arrived under them, and under those the two entries have changed places.
-/

set_option autoImplicit false

universe u v

namespace Exchange

/-- The two parties. -/
inductive Side where
  | left
  | right
  deriving DecidableEq

def Side.other : Side → Side
  | .left => .right
  | .right => .left

@[simp] theorem Side.other_other (p : Side) : p.other.other = p := by cases p <;> rfl

theorem Side.other_ne (p : Side) : p.other ≠ p := by cases p <;> decide

theorem Side.eq_or_eq_other (p q : Side) : q = p ∨ q = p.other := by
  cases p <;> cases q <;> decide

instance Side.decidableForall {P : Side → Prop} [∀ p, Decidable (P p)] : Decidable (∀ p, P p) :=
  decidable_of_iff (P .left ∧ P .right)
    ⟨fun h p => match p with
      | .left => h.1
      | .right => h.2, fun h => ⟨h _, h _⟩⟩

/-- One party between two steps. -/
structure Party (κ : Type u) (ν : Type v) where
  store : κ → Option ν
  /-- The keys still to be sent; `none` before the party has listed its store. -/
  todo : Option (List κ)
  /-- Copies sent and not yet arrived, oldest first. -/
  flight : List (κ × ν)
  /-- Keys something has arrived under. -/
  arrived : Set κ
  /-- Keys sent before anything had arrived under them. -/
  early : Set κ

variable {κ : Type u} {ν : Type v}

namespace Party

/-- The store is listed. -/
def list (me : Party κ ν) (keys : List κ) : Party κ ν := { me with todo := some keys }

/-- A copy of the entry under `key` is sent. -/
def send (me : Party κ ν) (key : κ) (value : ν) (rest : List κ) : Party κ ν :=
  { me with
    todo := some rest
    flight := me.flight ++ [(key, value)]
    early := {k | k ∈ me.early ∨ k = key ∧ k ∉ me.arrived} }

/-- The oldest copy in flight reaches the other side. -/
def land (me : Party κ ν) (rest : List (κ × ν)) : Party κ ν := { me with flight := rest }

/-- A copy arrives and overwrites what it finds. -/
def arrive [DecidableEq κ] (me : Party κ ν) (key : κ) (value : ν) : Party κ ν :=
  { me with
    store := Function.update me.store key (some value)
    arrived := insert key me.arrived }

/-- The party has sent `value` under `key`. -/
def Sent (me you : Party κ ν) (key : κ) (value : ν) : Prop :=
  (key, value) ∈ me.flight ∨ key ∈ you.arrived ∧ you.store key = some value

end Party

/-! ## What one party can rely on -/

/-- How far `me`, which began with `initial`, has come with `you`. -/
structure Orderly (initial : κ → Option ν) (me you : Party κ ν) : Prop where
  /-- Nothing is sent before the store is listed. -/
  fresh : me.todo = none → me.flight = [] ∧ you.arrived = ∅
  nodup : (me.todo.getD [] ++ me.flight.map Prod.fst).Nodup
  /-- No key is sent twice. -/
  once : ∀ k ∈ me.todo.getD [] ++ me.flight.map Prod.fst, k ∉ you.arrived
  kept : ∀ k, k ∉ me.arrived → me.store k = initial k
  held : ∀ k, k ∈ me.arrived → (me.store k).isSome = true
  /-- A key that was not listed had no entry. -/
  absent : ∀ keys, me.todo = some keys → ∀ k, k ∉ keys → k ∉ me.flight.map Prod.fst →
    k ∉ you.arrived → initial k = none
  /-- An early copy is of the first entry, a later one of what had arrived. -/
  copies : ∀ k v, me.Sent you k v →
    k ∈ me.early ∧ initial k = some v ∨ k ∉ me.early ∧ k ∈ me.arrived ∧ me.store k = some v
  early : ∀ k ∈ me.early, k ∈ me.flight.map Prod.fst ∨ k ∈ you.arrived

namespace Orderly

variable {initial : κ → Option ν} {me you : Party κ ν}

/-- Only the store of the other side and what arrived there matter. -/
theorem congr {you' : Party κ ν} (h : Orderly initial me you) (hstore : you'.store = you.store)
    (harrived : you'.arrived = you.arrived) : Orderly initial me you' where
  fresh := by rw [harrived]; exact h.fresh
  nodup := h.nodup
  once := by rw [harrived]; exact h.once
  kept := h.kept
  held := h.held
  absent := by rw [harrived]; exact h.absent
  copies k v hsent := h.copies k v (by rwa [Party.Sent, hstore, harrived] at hsent)
  early := by rw [harrived]; exact h.early

theorem list (h : Orderly initial me you) {keys : List κ} (hfresh : me.todo = none)
    (hnodup : keys.Nodup) (hkeys : ∀ k, k ∈ keys ↔ (me.store k).isSome = true) :
    Orderly initial (me.list keys) you := by
  obtain ⟨hflight, harrived⟩ := h.fresh hfresh
  refine ⟨fun htodo => ?_, ?_, ?_, h.kept, h.held, ?_, h.copies, h.early⟩
  · cases htodo
  · simp only [Party.list, hflight, Option.getD_some, List.map_nil, List.append_nil]
    exact hnodup
  · intro k _
    rw [harrived]
    exact Set.notMem_empty k
  · rintro _ ⟨⟩ k hk - -
    have hnone : me.store k = none := by
      rw [hkeys, Bool.not_eq_true, Option.isSome_eq_false_iff, Option.isNone_iff_eq_none] at hk
      exact hk
    by_cases hin : k ∈ me.arrived
    · have hsome := h.held k hin
      rw [hnone] at hsome
      cases hsome
    · rw [← h.kept k hin, hnone]

theorem send (h : Orderly initial me you) {key : κ} {value : ν} {rest : List κ}
    (htodo : me.todo = some (key :: rest)) (hstore : me.store key = some value) :
    Orderly initial (me.send key value rest) you := by
  have hnodup := h.nodup
  have honce := h.once
  rw [htodo, Option.getD_some] at hnodup honce
  have hkey : key ∉ me.flight.map Prod.fst ∧ key ∉ you.arrived :=
    ⟨fun hin => (List.nodup_append.mp hnodup).2.2 key List.mem_cons_self key hin rfl,
      honce key List.mem_cons_self⟩
  have hlate : key ∉ me.early := fun hin => (h.early key hin).elim hkey.1 hkey.2
  have hperm : (rest ++ (me.flight ++ [(key, value)]).map Prod.fst).Perm
      (key :: rest ++ me.flight.map Prod.fst) := by
    rw [List.map_append, ← List.append_assoc]
    exact (List.perm_append_comm).trans (by rfl)
  refine ⟨fun htodo' => ?_, ?_, ?_, h.kept, h.held, ?_, ?_, ?_⟩
  · cases htodo'
  · exact hperm.nodup_iff.mpr hnodup
  · intro k hk
    exact honce k (hperm.mem_iff.mp hk)
  · rintro _ ⟨⟩ k hk hflight harrived
    simp only [Party.send, List.map_append, List.map_cons, List.map_nil, List.mem_append,
      List.mem_singleton, not_or] at hflight
    apply h.absent _ htodo k _ hflight.1 harrived
    rw [List.mem_cons, not_or]
    exact ⟨hflight.2, hk⟩
  · intro k v hsent
    have hcases : me.Sent you k v ∧ k ≠ key ∨ k = key ∧ v = value := by
      rcases hsent with hin | ⟨harrived, hv⟩
      · simp only [Party.send, List.mem_append, List.mem_singleton, Prod.mk.injEq] at hin
        rcases hin with hin | hin
        · refine .inl ⟨.inl hin, ?_⟩
          rintro rfl
          exact hkey.1 (List.mem_map_of_mem hin)
        · exact .inr hin
      · refine .inl ⟨.inr ⟨harrived, hv⟩, ?_⟩
        rintro rfl
        exact hkey.2 harrived
    rcases hcases with ⟨hsent, hne⟩ | ⟨rfl, rfl⟩
    · simp only [Party.send, Set.mem_ofPred_eq, hne, false_and, or_false]
      exact h.copies k v hsent
    · by_cases hin : k ∈ me.arrived
      · refine .inr ⟨?_, hin, hstore⟩
        rintro (hearly | ⟨-, hout⟩)
        · exact hlate hearly
        · exact hout hin
      · exact .inl ⟨.inr ⟨rfl, hin⟩, by rw [← h.kept k hin, hstore]⟩
  · rintro k (hearly | ⟨rfl, -⟩)
    · refine (h.early k hearly).imp_left fun hin => ?_
      simp only [Party.send, List.map_append, List.mem_append]
      exact .inl hin
    · refine .inl ?_
      simp only [Party.send, List.map_append, List.mem_append]
      exact .inr (List.mem_singleton_self _)

variable [DecidableEq κ]

/-- A copy arrives here. -/
theorem arrive (h : Orderly initial me you) {key : κ} {value : ν} (hnew : key ∉ me.arrived) :
    Orderly initial (me.arrive key value) you where
  fresh := h.fresh
  nodup := h.nodup
  once := h.once
  kept k hk := by
    have hk' : k ≠ key ∧ k ∉ me.arrived := by
      rw [← not_or]
      exact hk
    simp only [Party.arrive, Function.update_of_ne hk'.1]
    exact h.kept k hk'.2
  held k hk := by
    by_cases hkey : k = key
    · simp only [Party.arrive, hkey, Function.update_self, Option.isSome_some]
    · simp only [Party.arrive, Function.update_of_ne hkey]
      exact h.held k (hk.resolve_left hkey)
  absent := h.absent
  copies k v hsent := by
    rcases h.copies k v hsent with hearly | ⟨hlate, hin, hv⟩
    · exact .inl hearly
    · have hkey : k ≠ key := by
        rintro rfl
        exact hnew hin
      refine .inr ⟨hlate, Set.mem_insert_of_mem _ hin, ?_⟩
      simp only [Party.arrive, Function.update_of_ne hkey]
      exact hv
  early := h.early

/-- A copy arrives at the other side. -/
theorem land (h : Orderly initial me you) {key : κ} {value : ν} {rest : List (κ × ν)}
    (hflight : me.flight = (key, value) :: rest) :
    Orderly initial (me.land rest) (you.arrive key value) := by
  have hnodup := h.nodup
  have honce := h.once
  rw [hflight, List.map_cons] at hnodup honce
  have hperm : (me.todo.getD [] ++ key :: rest.map Prod.fst).Perm
      (key :: (me.todo.getD [] ++ rest.map Prod.fst)) := List.perm_middle
  rw [hperm.nodup_iff, List.nodup_cons] at hnodup
  refine ⟨fun htodo => ?_, hnodup.2, fun k hk => ?_, h.kept, h.held, ?_, fun k v hsent => ?_,
    fun k hk => ?_⟩
  · rw [(h.fresh htodo).1] at hflight
    cases hflight
  · rintro (rfl | hin)
    · exact hnodup.1 hk
    · exact honce k (hperm.mem_iff.mpr (List.mem_cons_of_mem _ hk)) hin
  · intro keys htodo k hk hrest harrived
    have hout : k ≠ key ∧ k ∉ you.arrived := by
      rw [← not_or]
      exact harrived
    apply h.absent keys htodo k hk _ hout.2
    rw [hflight, List.map_cons, List.mem_cons, not_or]
    exact ⟨hout.1, hrest⟩
  · apply h.copies
    rcases hsent with hin | ⟨hin, hv⟩
    · exact .inl (by rw [hflight]; exact List.mem_cons_of_mem _ hin)
    · by_cases hkey : k = key
      · simp only [Party.arrive, hkey, Function.update_self, Option.some.injEq] at hv
        exact .inl (by rw [hflight, hkey, hv]; exact List.mem_cons_self)
      · simp only [Party.arrive, Function.update_of_ne hkey] at hv
        exact .inr ⟨hin.resolve_left hkey, hv⟩
  · rcases h.early k hk with hin | hin
    · rw [hflight, List.map_cons, List.mem_cons] at hin
      rcases hin with rfl | hin
      · exact .inr (Set.mem_insert _ _)
      · exact .inl hin
    · exact .inr (Set.mem_insert_of_mem _ hin)

end Orderly

/-! ## Runs -/

/-- Both parties. -/
abbrev World (κ : Type u) (ν : Type v) := Side → Party κ ν

/-- One party makes a move. -/
inductive Step [DecidableEq κ] : World κ ν → World κ ν → Prop
  | list {s : World κ ν} (p : Side) (keys : List κ) : (s p).todo = none → keys.Nodup →
      (∀ k, k ∈ keys ↔ ((s p).store k).isSome = true) →
      Step s (Function.update s p ((s p).list keys))
  | send {s : World κ ν} (p : Side) (key : κ) (value : ν) (rest : List κ) :
      (s p).todo = some (key :: rest) → (s p).store key = some value →
      Step s (Function.update s p ((s p).send key value rest))
  | arrive {s : World κ ν} (p : Side) (key : κ) (value : ν) (rest : List (κ × ν)) :
      (s p).flight = (key, value) :: rest →
      Step s (Function.update (Function.update s p ((s p).land rest)) p.other
        ((s p.other).arrive key value))

/-- Nothing has happened yet. -/
def start (initial : Side → κ → Option ν) : World κ ν := fun p => ⟨initial p, none, [], ∅, ∅⟩

/-- Both parties have sent everything, and all of it has arrived. -/
def Finished (s : World κ ν) : Prop := ∀ p, (s p).todo = some [] ∧ (s p).flight = []

/-- Both parties sent the key before anything had arrived under it. -/
def Crossed (s : World κ ν) (key : κ) : Prop := ∀ p, key ∈ (s p).early

/-- Both parties are orderly. -/
def Inv (initial : Side → κ → Option ν) (s : World κ ν) : Prop :=
  ∀ p, Orderly (initial p) (s p) (s p.other)

theorem inv_start (initial : Side → κ → Option ν) : Inv initial (start initial) := by
  intro p
  refine ⟨fun _ => ⟨rfl, rfl⟩, .nil, fun k hk => ?_, fun _ _ => rfl, fun k hk => ?_,
    fun keys htodo => ?_, fun k v hsent => ?_, fun k hk => ?_⟩
  · cases hk
  · cases hk
  · cases htodo
  · rcases hsent with hin | ⟨hin, -⟩
    · cases hin
    · cases hin
  · cases hk

section Step

variable {initial : Side → κ → Option ν} {s : World κ ν}

/-- One party moves alone, and neither its store nor what arrived there changes. -/
theorem Inv.update (h : Inv initial s) (p : Side) {me : Party κ ν}
    (hme : Orderly (initial p) me (s p.other)) (hstore : me.store = (s p).store)
    (harrived : me.arrived = (s p).arrived) : Inv initial (Function.update s p me) := by
  intro q
  rcases p.eq_or_eq_other q with rfl | rfl
  · rw [Function.update_self, Function.update_of_ne q.other_ne]
    exact hme
  · rw [Function.update_of_ne p.other_ne, Side.other_other, Function.update_self]
    have hother := h p.other
    rw [Side.other_other] at hother
    exact hother.congr hstore harrived

variable [DecidableEq κ]

theorem inv_step {s' : World κ ν} (h : Inv initial s) (hstep : Step s s') : Inv initial s' := by
  cases hstep with
  | list p keys hfresh hnodup hkeys => exact h.update p ((h p).list hfresh hnodup hkeys) rfl rfl
  | send p key value rest htodo hstore => exact h.update p ((h p).send htodo hstore) rfl rfl
  | arrive p key value rest hflight =>
      have hnew : key ∉ (s p.other).arrived := by
        apply (h p).once key
        rw [hflight]
        exact List.mem_append_right _ List.mem_cons_self
      have hother := h p.other
      rw [Side.other_other] at hother
      intro q
      rcases p.eq_or_eq_other q with rfl | rfl
      · rw [Function.update_self, Function.update_of_ne q.other_ne.symm, Function.update_self]
        exact (h q).land hflight
      · rw [Function.update_self, Side.other_other, Function.update_of_ne p.other_ne.symm,
          Function.update_self]
        exact (hother.arrive hnew).congr rfl rfl

theorem inv_of_steps (hsteps : Relation.ReflTransGen Step (start initial) s) : Inv initial s := by
  induction hsteps with
  | refl => exact inv_start initial
  | tail _ hstep ih => exact inv_step ih hstep

end Step

/-! ## What is left at the end -/

section Settled

variable {initial : Side → κ → Option ν} {s : World κ ν}

/-- At the end a key the party sent holds its copy at the other side. -/
theorem Inv.copy (h : Inv initial s) (p : Side) (key : κ) (hin : key ∈ (s p.other).arrived) :
    key ∈ (s p).early ∧ (s p.other).store key = initial p key ∨
      key ∉ (s p).early ∧ (s p.other).store key = (s p).store key := by
  have hother := h p.other
  rw [Side.other_other] at hother
  obtain ⟨v, hv⟩ := Option.isSome_iff_exists.mp (hother.held key hin)
  rcases (h p).copies key v (.inr ⟨hin, hv⟩) with ⟨hearly, hfirst⟩ | ⟨hlate, -, hstore⟩
  · exact .inl ⟨hearly, by rw [hv, hfirst]⟩
  · exact .inr ⟨hlate, by rw [hv, hstore]⟩

/-- At the end a key that the party did not send had no entry there. -/
theorem Inv.unsent (h : Inv initial s) (hfinished : Finished s) (p : Side) (key : κ)
    (hout : key ∉ (s p.other).arrived) :
    initial p key = none ∧ (s p.other).store key = initial p.other key := by
  have hother := h p.other
  rw [Side.other_other] at hother
  obtain ⟨htodo, hflight⟩ := hfinished p
  refine ⟨(h p).absent [] htodo key (List.not_mem_nil) ?_ hout, hother.kept key hout⟩
  rw [hflight]
  exact List.not_mem_nil

/-- A key that one party did not send early is settled. -/
theorem Inv.agree (h : Inv initial s) (hfinished : Finished s) (p : Side) {key : κ}
    (hlate : key ∉ (s p).early) : (s p.other).store key = (s p).store key := by
  by_cases hin : key ∈ (s p.other).arrived
  · rcases h.copy p key hin with ⟨hearly, -⟩ | ⟨-, hsame⟩
    · exact absurd hearly hlate
    · exact hsame
  · obtain ⟨hnone, hkept⟩ := h.unsent hfinished p key hin
    have hother := h.copy p.other key
    have hunsent := h.unsent hfinished p.other key
    rw [Side.other_other] at hother hunsent
    by_cases hin' : key ∈ (s p).arrived
    · rcases hother hin' with ⟨-, hfirst⟩ | ⟨-, hsame⟩
      · rw [hfirst, hkept]
      · exact hsame.symm
    · obtain ⟨hnone', hkept'⟩ := hunsent hin'
      rw [hkept, hkept', hnone, hnone']

/-- Under a crossed key the two first entries have changed places. -/
theorem Inv.swapped (h : Inv initial s) (hfinished : Finished s) (p : Side) {key : κ}
    (hearly : key ∈ (s p).early) : (s p.other).store key = initial p key := by
  have hin : key ∈ (s p.other).arrived := by
    rcases (h p).early key hearly with hin | hin
    · rw [(hfinished p).2] at hin
      cases hin
    · exact hin
  rcases h.copy p key hin with ⟨-, hfirst⟩ | ⟨hlate, -⟩
  · exact hfirst
  · exact absurd hearly hlate

/-- When everything has arrived the stores agree under every key that did not cross, and
have exchanged their first entries under every key that did. -/
theorem settled [DecidableEq κ] (hsteps : Relation.ReflTransGen Step (start initial) s)
    (hfinished : Finished s) (key : κ) :
    (¬Crossed s key → (s .left).store key = (s .right).store key) ∧
      (Crossed s key → ∀ p, (s p.other).store key = initial p key) := by
  have hinv := inv_of_steps hsteps
  constructor
  · intro hnot
    obtain ⟨p, hlate⟩ := not_forall.mp hnot
    have hagree := hinv.agree hfinished p hlate
    cases p with
    | left => exact hagree.symm
    | right => exact hagree
  · intro hcrossed p
    exact hinv.swapped hfinished p (hcrossed p)

end Settled

end Exchange
