import DesktopSync.Analysis.Watermark
import DesktopSync.Model.Trigger

/-!
# No trigger is lost

The event is cleared only between a wait that has returned and the upload that follows, so
whatever fired before is covered by that upload, and whatever fires later sets the event
again. Each wait that returns uses up a fire of its own.

The three steps of waking up are together the one of the main loop, and what is known of
the main loop holds here.
-/

set_option autoImplicit false

namespace DesktopSync.Analysis

open DesktopSync.Model
open TransitionSystem

/-! ## What the other steps leave alone -/

theorem triggered_scan (cfg : IniState) (s : LoopState) (order : List FileName) (listed : Bool)
    (pad : UInt16) : (s.scan cfg order listed pad).triggered = s.triggered := by
  unfold LoopState.scan
  simp only
  split
  · rfl
  · split
    · rfl
    · rfl

theorem triggered_header (md5 : Digest) (s : LoopState) (sized hashed : Bool) (pad : UInt16)
    (name : FileName) (files : List FileName) (total : UInt64) :
    (s.header md5 sized hashed pad name files total).triggered = s.triggered := by
  unfold LoopState.header
  simp only
  split
  · rfl
  · rfl
  · rfl

theorem triggered_readBlock (s : LoopState) (name : FileName) (size : UInt64)
    (payload : List UInt8) (files : List FileName) (total : UInt64) :
    (s.readBlock name size payload files total).triggered = s.triggered := by
  unfold LoopState.readBlock
  simp only
  split
  · rfl
  · split
    · split
      · rfl
      · rfl
    · rfl

/-- Only a fire and a wake-up touch the event. -/
theorem triggered_loopStep {loop : LoopConfig} {s s' : LoopState} {e : LoopEvent}
    (hfire : e ≠ .trigger) (hwake : e ≠ .wake) (h : loopStep loop s e = some s') :
    s'.triggered = s.triggered := by
  unfold loopStep at h
  split at h
  · obtain ⟨f, -, rfl⟩ := Option.map_eq_some_iff.mp h
    rfl
  · obtain ⟨-, h⟩ := Option.ite_none_left_eq_some.mp h
    rw [← Option.some.inj h]
  · obtain ⟨-, h⟩ := Option.ite_none_right_eq_some.mp h
    rw [← Option.some.inj h]
  · exact absurd rfl hfire
  · exact absurd rfl hwake
  · split at h
    · rw [← Option.some.inj h]
    · rw [← Option.some.inj h]
  · obtain ⟨-, h⟩ := Option.ite_none_right_eq_some.mp h
    rw [← Option.some.inj h]
    exact triggered_scan _ _ _ _ _
  · rw [← Option.some.inj h]
    exact triggered_header _ _ _ _ _ _ _ _
  · split at h
    · rw [← Option.some.inj h]
    · rw [← Option.some.inj h]
      rfl
  · rw [← Option.some.inj h]
    exact triggered_readBlock _ _ _ _ _ _
  · rw [← Option.some.inj h]
    rfl
  · rw [← Option.some.inj h]
    rfl
  · rw [← Option.some.inj h]
  · rw [← Option.some.inj h]
  · rw [← Option.some.inj h]
  · cases h

/-- In the wait only the world around the loop moves, and it does not know where the loop
is. -/
theorem loopStep_waiting {loop : LoopConfig} {s s' : LoopState} {e : LoopEvent}
    (hphase : s.phase = .waiting) (hwake : e ≠ .wake) (h : loopStep loop s e = some s') :
    s'.phase = .waiting ∧ loopStep loop { s with phase := .connecting } e =
      some { s' with phase := .connecting } := by
  cases e with
  | edit name data lastWriteTime =>
      obtain ⟨f, hf, rfl⟩ := Option.map_eq_some_iff.mp h
      refine ⟨hphase, ?_⟩
      simp only [loopStep, hf, Option.map_some]
      rfl
  | remove name =>
      obtain ⟨hholds, h⟩ := Option.ite_none_left_eq_some.mp h
      rw [← Option.some.inj h]
      exact ⟨hphase, rfl⟩
  | tick ticks =>
      obtain ⟨hrange, h⟩ := Option.ite_none_right_eq_some.mp h
      rw [← Option.some.inj h]
      refine ⟨hphase, ?_⟩
      simp only [loopStep, if_pos hrange]
  | trigger =>
      rw [← Option.some.inj h]
      exact ⟨hphase, rfl⟩
  | wake => exact absurd rfl hwake
  | _ => simp [loopStep, hphase] at h

/-! ## The invariant -/

/-- The uploads that are still to come: one of the wait that has returned, and one of the
event where it was set since. -/
def toCome : TriggerStage → Bool → ℕ
  | .woken, _ => 1
  | .cleared, triggered => 1 + triggered.toNat
  | .idle, triggered => triggered.toNat
  | .left, triggered => triggered.toNat

/-- A fire adds one at most. -/
theorem toCome_true_le (stage : TriggerStage) (triggered : Bool) :
    toCome stage true ≤ toCome stage triggered + 1 := by
  cases stage with
  | woken => exact Nat.le_succ 1
  | cleared => exact Nat.add_le_add_left (Nat.le_add_left 1 _) 1
  | idle => exact Nat.le_add_left 1 _
  | left => exact Nat.le_add_left 1 _

/-- A fire that no upload has followed left the event set, or an upload is about to be
called; and there are fires for all uploads, those to come included. -/
structure TriggerInv (s : TriggerState) : Prop where
  waiting : s.stage ≠ .idle → s.loop.phase = .waiting
  woken : s.stage = .woken → s.loop.triggered = true
  pending : s.pending = true → s.loop.triggered = true ∨ s.stage = .woken ∨ s.stage = .cleared
  count : s.uploads + toCome s.stage s.loop.triggered ≤ s.fires

theorem triggerInv_created {s : TriggerState} (h : s.Created) : TriggerInv s where
  waiting hstage := absurd h.idle hstage
  woken hstage := by
    rw [h.idle] at hstage
    cases hstage
  pending hpending := by
    rw [h.pending] at hpending
    cases hpending
  count := by
    rw [h.idle, h.clear, h.fires, h.uploads]
    exact le_rfl

/-- A step of the loop that is neither a fire nor a wake-up. -/
theorem triggerInv_loop {loop : LoopConfig} {s : TriggerState} {e : LoopEvent} {next : LoopState}
    (hinv : TriggerInv s) (hfire : e ≠ .trigger) (hwake : e ≠ .wake)
    (h : loopStep loop s.loop e = some next) : TriggerInv { s with loop := next } := by
  have hset := triggered_loopStep hfire hwake h
  refine ⟨?_, ?_, ?_, ?_⟩
  · intro hstage
    exact (loopStep_waiting (hinv.waiting hstage) hwake h).1
  · intro hstage
    exact hset.trans (hinv.woken hstage)
  · intro hpending
    rw [hset]
    exact hinv.pending hpending
  · rw [hset]
    exact hinv.count

/-- A step of the loop is not a wake-up, and its fires are counted elsewhere. -/
theorem triggerStep_loop {loop : LoopConfig} {s s' : TriggerState} {e : LoopEvent}
    (h : triggerStep loop s (.loop e) = some s') :
    e ≠ .trigger ∧ e ≠ .wake ∧ ∃ next, loopStep loop s.loop e = some next ∧
      s' = { s with loop := next } := by
  unfold triggerStep at h
  split at h
  · next heq => cases heq
  · next heq => cases heq
  · next heq => cases heq
  · next heq => cases heq
  · next heq => cases heq
  · cases h
  · cases h
  · next hfire hwake heq =>
      obtain rfl := TriggerEvent.loop.inj heq
      obtain ⟨next, hnext, rfl⟩ := Option.map_eq_some_iff.mp h
      exact ⟨fun he => hfire (by rw [he]), fun he => hwake (by rw [he]), next, hnext, rfl⟩

theorem triggerInv_step {loop : LoopConfig} {s s' : TriggerState} {e : TriggerEvent}
    (hinv : TriggerInv s) (h : triggerStep loop s e = some s') : TriggerInv s' := by
  have hcount := hinv.count
  cases e with
  | fire =>
      obtain rfl := Option.some.inj h
      refine ⟨hinv.waiting, fun _ => rfl, fun _ => .inl rfl, ?_⟩
      have hfire := toCome_true_le s.stage s.loop.triggered
      simp only
      omega
  | waitReturns =>
      obtain ⟨⟨hidle, hphase, hset⟩, h⟩ := Option.ite_none_right_eq_some.mp h
      obtain rfl := Option.some.inj h
      rw [hidle, hset] at hcount
      exact ⟨fun _ => hphase, fun _ => hset, fun _ => .inl hset, hcount⟩
  | waitFails =>
      obtain ⟨⟨hidle, hphase⟩, h⟩ := Option.ite_none_right_eq_some.mp h
      obtain rfl := Option.some.inj h
      rw [hidle] at hcount
      refine ⟨fun _ => hphase, fun hstage => (by cases hstage), fun hpending => ?_, hcount⟩
      rcases hinv.pending hpending with hset | hstage | hstage
      · exact .inl hset
      · rw [hidle] at hstage
        cases hstage
      · rw [hidle] at hstage
        cases hstage
  | reset =>
      obtain ⟨hwoken, h⟩ := Option.ite_none_right_eq_some.mp h
      obtain rfl := Option.some.inj h
      rw [hwoken] at hcount
      have hphase := hinv.waiting (by rw [hwoken]; decide)
      exact ⟨fun _ => hphase, fun hstage => (by cases hstage), fun _ => .inr (.inr rfl), hcount⟩
  | call =>
      obtain ⟨hcleared, h⟩ := Option.ite_none_right_eq_some.mp h
      obtain rfl := Option.some.inj h
      rw [hcleared] at hcount
      refine ⟨fun hstage => absurd rfl hstage, fun hstage => (by cases hstage),
        fun hpending => (by cases hpending), ?_⟩
      simp only [toCome] at hcount ⊢
      omega
  | loop e =>
      obtain ⟨hfire, hwake, next, hnext, rfl⟩ := triggerStep_loop h
      exact triggerInv_loop hinv hfire hwake hnext

theorem triggerInv_of_reachable {loop : LoopConfig} {starts : LoopState → Prop}
    {s : TriggerState} (h : (triggerLoop loop starts).Reachable s) : TriggerInv s := by
  have hinit : ∀ s, (triggerLoop loop starts).init s → TriggerInv s :=
    fun s hs => triggerInv_created hs.1
  exact h.invariant hinit fun s e s' hinv hstep => triggerInv_step hinv hstep

/-- In every state of every run, a fire that no upload has followed has the event set or an
upload about to be called, and there were no more uploads than fires. -/
theorem no_trigger_lost {loop : LoopConfig} {starts : LoopState → Prop} {s : TriggerState}
    (h : (triggerLoop loop starts).Reachable s) :
    (s.pending = true → s.loop.triggered = true ∨ s.stage = .woken ∨ s.stage = .cleared) ∧
      s.uploads ≤ s.fires := by
  have hinv := triggerInv_of_reachable h
  exact ⟨hinv.pending, le_trans (Nat.le_add_right _ _) hinv.count⟩

/-- The event has been created, and the loop of an empty desktop starts. -/
def createdTrigger : TriggerState := ⟨idleLoop, .idle, 0, 0, false⟩

theorem createdTrigger_created : createdTrigger.Created := ⟨rfl, rfl, rfl, rfl, rfl, rfl⟩

/-- A second fire lands between the return of the wait and `ResetEvent`, a third between
`ResetEvent` and the upload. -/
def coalescedScript : List (TriggerState → TriggerEvent) :=
  [.fire, .waitReturns, .fire, .reset, .fire, .call].map fun e _ => e

/-- One upload has been called for the three, and the event is set for another. -/
theorem no_trigger_lost_coalesced :
    ∃ s, (triggerLoop sampleLoop LoopState.Starts).exec createdTrigger coalescedScript = some s ∧
      (s.uploads, s.fires, s.loop.triggered) = (1, 3, true) ∧
      (s.pending = true → s.loop.triggered = true ∨ s.stage = .woken ∨ s.stage = .cleared) ∧
        s.uploads ≤ s.fires := by
  have hcreated : (triggerLoop sampleLoop LoopState.Starts).Reachable createdTrigger :=
    .init ⟨createdTrigger_created, idleLoop_starts⟩
  obtain ⟨s, hs, hcounts⟩ : ∃ s, (triggerLoop sampleLoop LoopState.Starts).exec createdTrigger
      coalescedScript = some s ∧ (s.uploads, s.fires, s.loop.triggered) = (1, 3, true) :=
    ⟨_, rfl, rfl⟩
  exact ⟨s, hs, hcounts, no_trigger_lost (hcreated.exec hs)⟩

/-! ## The main loop behind it -/

/-- The state of the main loop: its wake-up happens when the event is cleared. -/
def mainState (s : TriggerState) : LoopState :=
  if s.stage = .cleared then { s.loop with phase := .connecting } else s.loop

theorem mainState_of_ne {s : TriggerState} (h : s.stage ≠ .cleared) : mainState s = s.loop :=
  if_neg h

theorem mainState_of_cleared {s : TriggerState} (h : s.stage = .cleared) :
    mainState s = { s.loop with phase := .connecting } :=
  if_pos h

/-- A step is one of the main loop, or the main loop does not see it. -/
theorem mainState_step {loop : LoopConfig} {s s' : TriggerState} {e : TriggerEvent}
    (hinv : TriggerInv s) (h : triggerStep loop s e = some s') :
    mainState s' = mainState s ∨ ∃ e, loopStep loop (mainState s) e = some (mainState s') := by
  cases e with
  | fire =>
      obtain rfl := Option.some.inj h
      refine .inr ⟨.trigger, ?_⟩
      by_cases hcleared : s.stage = .cleared
      · rw [mainState_of_cleared hcleared, mainState_of_cleared (by exact hcleared)]
        rfl
      · rw [mainState_of_ne hcleared, mainState_of_ne (by exact hcleared)]
        rfl
  | waitReturns =>
      obtain ⟨⟨hidle, -, -⟩, h⟩ := Option.ite_none_right_eq_some.mp h
      obtain rfl := Option.some.inj h
      have hstage : s.stage ≠ .cleared := by
        rw [hidle]
        decide
      exact .inl (mainState_of_ne hstage).symm
  | waitFails =>
      obtain ⟨⟨hidle, -⟩, h⟩ := Option.ite_none_right_eq_some.mp h
      obtain rfl := Option.some.inj h
      have hstage : s.stage ≠ .cleared := by
        rw [hidle]
        decide
      exact .inl (mainState_of_ne hstage).symm
  | reset =>
      obtain ⟨hwoken, h⟩ := Option.ite_none_right_eq_some.mp h
      obtain rfl := Option.some.inj h
      have hstage : s.stage ≠ .cleared := by
        rw [hwoken]
        decide
      have hphase := hinv.waiting (by rw [hwoken]; decide)
      refine .inr ⟨.wake, ?_⟩
      rw [mainState_of_ne hstage, mainState_of_cleared rfl]
      simp only [loopStep, hphase, hinv.woken hwoken, if_true]
  | call =>
      obtain ⟨hcleared, h⟩ := Option.ite_none_right_eq_some.mp h
      obtain rfl := Option.some.inj h
      exact .inl (mainState_of_cleared hcleared).symm
  | loop e =>
      obtain ⟨-, hwake, next, hnext, rfl⟩ := triggerStep_loop h
      refine .inr ⟨e, ?_⟩
      by_cases hcleared : s.stage = .cleared
      · have hphase := hinv.waiting (by rw [hcleared]; decide)
        rw [mainState_of_cleared hcleared, mainState_of_cleared (by exact hcleared)]
        exact (loopStep_waiting hphase hwake hnext).2
      · rw [mainState_of_ne hcleared, mainState_of_ne (by exact hcleared)]
        exact hnext

/-- Every run is a run of the main loop. -/
theorem mainLoop_of_trigger {loop : LoopConfig} {s : TriggerState}
    (h : (triggerLoop loop LoopState.Starts).Reachable s) :
    (mainLoop loop).Reachable (mainState s) := by
  have hinit : ∀ s, (triggerLoop loop LoopState.Starts).init s →
      TriggerInv s ∧ (mainLoop loop).Reachable (mainState s) := by
    intro s hs
    have hstage : s.stage ≠ .cleared := by
      rw [hs.1.idle]
      decide
    refine ⟨triggerInv_created hs.1, .init ?_⟩
    rw [mainState_of_ne hstage]
    exact hs.2
  refine (h.invariant hinit fun s e s' hs hstep => ⟨triggerInv_step hs.1 hstep, ?_⟩).2
  rcases mainState_step hs.1 hstep with hsame | ⟨e', hmain⟩
  · rw [hsame]
    exact hs.2
  · exact .step hs.2 trivial hmain

end DesktopSync.Analysis
