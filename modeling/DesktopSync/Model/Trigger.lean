import DesktopSync.Model.MainLoop

/-!
# The trigger event

`TriggerFire` runs in the tray thread, for a click on the desktop or for the menu, and may
come between any two steps of `wmain`. So waking up is three steps here: the wait on the
manual-reset event returns, `ResetEvent` clears it, `SyncUploadOnce` is called. All other
steps are those of the main loop.

`fires`, `uploads` and `pending` are ghosts.
-/

set_option autoImplicit false

namespace DesktopSync.Model

open TransitionSystem

/-- Where `wmain` is in its loop. -/
inductive TriggerStage where
  /-- In the wait or in the upload and what follows it, as `LoopState.phase` says. -/
  | idle
  /-- The wait has returned. -/
  | woken
  /-- `ResetEvent` has returned. -/
  | cleared
  /-- The wait has failed and the loop was left. -/
  | left
  deriving DecidableEq

structure TriggerState where
  loop : LoopState
  stage : TriggerStage
  /-- How often `TriggerFire` was called. -/
  fires : ℕ
  /-- How often `SyncUploadOnce` was called. -/
  uploads : ℕ
  /-- `TriggerFire` was called, and `SyncUploadOnce` not since. -/
  pending : Bool

inductive TriggerEvent where
  | fire
  | waitReturns
  | waitFails
  | reset
  | call
  /-- Anything else that happens to the loop. -/
  | loop (e : LoopEvent)

/-- SOURCE: desktopsync_main.cpp:14-18, 53-61 -/
def triggerStep (loop : LoopConfig) (s : TriggerState) : TriggerEvent → Option TriggerState
  | .fire =>
      some { s with
        loop := { s.loop with triggered := true }
        fires := s.fires + 1
        pending := true }
  | .waitReturns =>
      if s.stage = .idle ∧ s.loop.phase = .waiting ∧ s.loop.triggered = true then
        some { s with stage := .woken }
      else none
  | .waitFails =>
      if s.stage = .idle ∧ s.loop.phase = .waiting then some { s with stage := .left } else none
  | .reset =>
      if s.stage = .woken then
        some { s with stage := .cleared, loop := { s.loop with triggered := false } }
      else none
  | .call =>
      if s.stage = .cleared then
        some { s with
          stage := .idle
          loop := { s.loop with phase := .connecting }
          uploads := s.uploads + 1
          pending := false }
      else none
  | .loop .trigger => none
  | .loop .wake => none
  | .loop e => (loopStep loop s.loop e).map fun next => { s with loop := next }

/-- `CreateEventW` has returned, and nobody has the event yet.
SOURCE: desktopsync_main.cpp:47-48 -/
structure TriggerState.Created (s : TriggerState) : Prop where
  waiting : s.loop.phase = .waiting
  clear : s.loop.triggered = false
  idle : s.stage = .idle
  fires : s.fires = 0
  uploads : s.uploads = 0
  pending : s.pending = false

/-- The runs of `wmain` whose loop starts in one of the states `starts`. -/
def triggerLoop (loop : LoopConfig) (starts : LoopState → Prop) :
    System TriggerState TriggerEvent where
  init s := s.Created ∧ starts s.loop
  step := triggerStep loop

end DesktopSync.Model
