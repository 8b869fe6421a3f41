import Mathlib.Data.List.Basic
import DesktopSync.Computation.TransitionSystem

/-!
# The tray

`trayhook_dll.cpp`: the controlling thread calls `StartTrayHook`, `UpdateTray` and
`StopTrayHook`, and each UI thread that was created runs a window and its message loop.
Their steps interleave in any way; only the critical section `g_cs` makes one wait for
another. What stands in the tray, and the mouse hook, are left out.

`faults` is a ghost.
-/

set_option autoImplicit false

namespace DesktopSync.Model

open TransitionSystem

/-- The state of `g_cs`. Its owner is a UI thread, or the controlling thread (`none`). -/
inductive CriticalSection where
  | uninitialised
  | free
  | held (owner : Option ℕ)
  | deleted
  deriving DecidableEq

/-- It was initialised and not deleted since. -/
def CriticalSection.live : CriticalSection → Bool
  | .uninitialised | .deleted => false
  | .free | .held _ => true

/-! ## A UI thread -/

/-- What waits in the queue of a window: `WM_UPDATE_STATE`, `WM_TRAYICON` with
`WM_RBUTTONUP`, `WM_CLOSE`. -/
inductive TrayMessage where
  | updateState
  | trayIcon
  | close
  deriving DecidableEq

/-- The two places of `WndProc` that use the section. -/
inductive TrayHandler where
  | applyTray
  | menu
  deriving DecidableEq

inductive UiPhase where
  /-- Before `CreateWindowExW` has returned. -/
  | starting
  /-- In `GetMessageW`, or in the message loop of an open menu. -/
  | waiting
  /-- Before `EnterCriticalSection`. -/
  | entering (handler : TrayHandler)
  /-- Before `LeaveCriticalSection`. -/
  | inside (handler : TrayHandler)
  /-- Out of the message loop. -/
  | leaving
  | ended
  deriving DecidableEq

structure UiThread where
  phase : UiPhase := .starting
  /-- Its window exists. -/
  window : Bool := false
  queue : List TrayMessage := []
  /-- `PostQuitMessage` was called. -/
  quit : Bool := false
  /-- How many calls of `TrackPopupMenu` have not returned. -/
  menus : ℕ := 0
  deriving DecidableEq

namespace UiThread

/-- The thread runs its message loop, or is about to. -/
def running (t : UiThread) : Bool := t.phase != .leaving && t.phase != .ended

/-- `PostMessageW` to its window; without one it fails. -/
def post (m : TrayMessage) (t : UiThread) : UiThread :=
  if t.window then { t with queue := t.queue ++ [m] } else t

/-- The next message goes to `WndProc`. `WM_CLOSE` destroys the window, and its other
messages with it, and `WM_DESTROY` posts the quit.
SOURCE: trayhook_dll.cpp:128-168 -/
def dispatch (t : UiThread) : Option UiThread :=
  match t.phase, t.queue with
  | .waiting, .updateState :: queue => some { t with phase := .entering .applyTray, queue := queue }
  | .waiting, .trayIcon :: queue => some { t with phase := .entering .menu, queue := queue }
  | .waiting, .close :: _ => some { t with window := false, queue := [], quit := true }
  | _, _ => none

/-- Behind `LeaveCriticalSection`: `ApplyTray` returns to the loop, the other place opens a
menu. -/
def left (t : UiThread) : TrayHandler → UiThread
  | .applyTray => { t with phase := .waiting }
  | .menu => { t with phase := .waiting, menus := t.menus + 1 }

/-- `TrackPopupMenu` returns; the choice `Exit` posts `WM_CLOSE`.
SOURCE: trayhook_dll.cpp:145-156 -/
def choose (exit : Bool) (t : UiThread) : Option UiThread :=
  if t.phase = .waiting ∧ 0 < t.menus then
    let t := { t with menus := t.menus - 1 }
    some (if exit then t.post .close else t)
  else none

/-- `GetMessageW` finds nothing but the quit, and the loop ends.
SOURCE: trayhook_dll.cpp:194-199 -/
def leave (t : UiThread) : Option UiThread :=
  if t.phase = .waiting ∧ t.menus = 0 ∧ t.queue = [] ∧ t.quit = true then
    some { t with phase := .leaving }
  else none

end UiThread

/-! ## Both sides -/

/-- Where the controlling thread is. -/
inductive TrayCall where
  | outside
  | startEnter
  | startLeave
  | startRun
  | startCreate
  | startReturn
  | updateEnter
  | updateLeave
  | updatePost
  | stopPost
  | stopWait
  | stopDelete
  deriving DecidableEq

inductive TrayFault where
  /-- The section was entered while it was not there. -/
  | entered
  /-- It was initialised while it was there. -/
  | initialised
  /-- `StartTrayHook` returned true, and no UI thread ran its message loop. -/
  | returned
  deriving DecidableEq

structure TrayHook where
  /-- `g_running` -/
  running : Bool
  /-- `g_hwnd`: the window of that UI thread. -/
  hwnd : Option ℕ
  /-- `g_thread`: the handle of that UI thread. -/
  thread : Option ℕ
  /-- `g_cs` -/
  cs : CriticalSection
  call : TrayCall
  threads : List UiThread
  faults : List TrayFault
  deriving DecidableEq

inductive TrayEvent where
  | startTrayHook
  | updateTray
  | stopTrayHook
  /-- The call goes on, where it depends on nothing else. -/
  | proceed
  | createThread (created : Bool)
  | waitEnds
  | waitTimesOut
  /-- From here on: UI thread `i` goes on. -/
  | createWindow (i : ℕ) (created : Bool)
  | dispatch (i : ℕ)
  | enter (i : ℕ)
  | leave (i : ℕ)
  | choose (i : ℕ) (exit : Bool)
  | endLoop (i : ℕ)
  | terminate (i : ℕ)
  /-- The right button is released over its icon. -/
  | click (i : ℕ)

namespace TrayHook

/-- `EnterCriticalSection`, which waits while another thread holds the section. -/
def enterSection (s : TrayHook) (owner : Option ℕ) : Option TrayHook :=
  match s.cs with
  | .free => some { s with cs := .held owner }
  | .held _ => none
  | .uninitialised => some { s with faults := .entered :: s.faults }
  | .deleted => some { s with faults := .entered :: s.faults }

/-- `LeaveCriticalSection`. Called by a thread that does not hold the section it is
undefined, and changes nothing here. -/
def leaveSection (s : TrayHook) (owner : Option ℕ) : TrayHook :=
  if s.cs = .held owner then { s with cs := .free } else s

/-- UI thread `i` goes on by `f`. -/
def uiStep (s : TrayHook) (i : ℕ) (f : UiThread → Option UiThread) : Option TrayHook :=
  (s.threads[i]?.bind f).map fun t => { s with threads := s.threads.set i t }

/-- `if (g_hwnd) PostMessageW(g_hwnd, m, 0, 0)` -/
def post (s : TrayHook) (m : TrayMessage) : TrayHook :=
  (s.hwnd.bind fun i => s.uiStep i fun t => some (t.post m)).getD s

/-- Some UI thread runs its message loop, or is about to. -/
def served (s : TrayHook) : Bool := s.threads.any UiThread.running

/-- `StartTrayHook` returns. -/
def returns (s : TrayHook) (value : Bool) : TrayHook :=
  { s with
    call := .outside
    faults := if value && !s.served then .returned :: s.faults else s.faults }

/-- SOURCE: trayhook_dll.cpp:208-209 -/
def startTrayHook (s : TrayHook) : TrayHook :=
  if s.running then s.returns true
  else
    { s with
      cs := .free
      call := .startEnter
      faults := if s.cs.live then .initialised :: s.faults else s.faults }

/-- The controlling thread goes on in its call.
SOURCE: trayhook_dll.cpp:210-247 -/
def proceed (s : TrayHook) : Option TrayHook :=
  match s.call with
  | .startEnter => (s.enterSection none).map fun s => { s with call := .startLeave }
  | .startLeave => some { s.leaveSection none with call := .startRun }
  | .startRun => some { s with running := true, call := .startCreate }
  | .startReturn => some (s.returns s.thread.isSome)
  | .updateEnter => (s.enterSection none).map fun s => { s with call := .updateLeave }
  | .updateLeave => some { s.leaveSection none with call := .updatePost }
  | .updatePost => some { s.post .updateState with call := .outside }
  | .stopPost =>
      some { s.post .close with call := if s.thread.isSome then .stopWait else .stopDelete }
  | .stopDelete => some { s with cs := .deleted, call := .outside }
  | .outside | .startCreate | .stopWait => none

/-- The thread behind `g_thread`. -/
def waitedFor (s : TrayHook) : Option UiThread := s.thread.bind fun i => s.threads[i]?

end TrayHook

/-- SOURCE: trayhook_dll.cpp:44-48, 128-247 -/
def trayStep (s : TrayHook) : TrayEvent → Option TrayHook
  | .startTrayHook => if s.call = .outside then some s.startTrayHook else none
  | .updateTray =>
      if s.call = .outside then some (if s.running then { s with call := .updateEnter } else s)
      else none
  | .stopTrayHook =>
      if s.call = .outside then
        some (if s.running then { s with running := false, call := .stopPost } else s)
      else none
  | .proceed => s.proceed
  | .createThread created =>
      if s.call = .startCreate then
        some (if created then
            { s with
              threads := s.threads ++ [{}]
              thread := some s.threads.length
              call := .startReturn }
          else { s with thread := none, call := .startReturn })
      else none
  | .waitEnds =>
      if s.call = .stopWait ∧ s.waitedFor.all fun t => t.phase == .ended then
        some { s with thread := none, call := .stopDelete }
      else none
  | .waitTimesOut =>
      if s.call = .stopWait then some { s with thread := none, call := .stopDelete } else none
  | .createWindow i created =>
      (s.uiStep i fun t =>
        if t.phase = .starting then some { t with phase := .waiting, window := created }
        else none).map fun s => { s with hwnd := if created then some i else none }
  | .dispatch i => s.uiStep i UiThread.dispatch
  | .enter i =>
      (s.enterSection (some i)).bind fun s => s.uiStep i fun t =>
        match t.phase with
        | .entering handler => some { t with phase := .inside handler }
        | _ => none
  | .leave i =>
      (s.leaveSection (some i)).uiStep i fun t =>
        match t.phase with
        | .inside handler => some (t.left handler)
        | _ => none
  | .choose i exit => s.uiStep i (UiThread.choose exit)
  | .endLoop i => s.uiStep i UiThread.leave
  | .terminate i =>
      s.uiStep i fun t => if t.phase = .leaving then some { t with phase := .ended } else none
  | .click i => s.uiStep i fun t => if t.window then some (t.post .trayIcon) else none

/-- The runs of the tray from the load of the library. -/
def trayHook : System TrayHook TrayEvent where
  init s := s = ⟨false, none, none, .uninitialised, .outside, [], []⟩
  step := trayStep

end DesktopSync.Model
