import DesktopSync.Model.Tray

/-!
# The life cycle of the tray

Nothing looks at what `WaitForSingleObject` returns, and nothing takes `g_running` back
when the UI thread was not created or has ended by itself. So the section is deleted under
a thread that is still to use it, and `StartTrayHook` returns true with no thread there.
Where none of this happens the life cycle is safe: a thread that may still come to the
section is the one behind `g_thread`, and the section is there while `g_thread` is.
-/

set_option autoImplicit false

namespace DesktopSync.Analysis

open DesktopSync.Model
open TransitionSystem

/-! ## A UI thread that is done with the section -/

/-- The thread never comes to the section again: it has its window behind it, or never got
one, or the next message destroys it. -/
def done (t : UiThread) : Bool :=
  match t.phase with
  | .starting => false
  | .entering _ => false
  | _ => !t.window || t.queue.head? == some .close

/-- It has started, is not before the section, and has no window that still gets another message.
-/
theorem done_iff (t : UiThread) : done t = true ↔ t.phase ≠ .starting ∧
    (∀ handler, t.phase ≠ .entering handler) ∧
      (t.window = true → t.queue.head? = some .close) := by
  have hwindow : (!t.window || t.queue.head? == some .close) = true ↔
      (t.window = true → t.queue.head? = some .close) := by
    rw [Bool.or_eq_true, Bool.not_eq_true', beq_iff_eq, ← Bool.not_eq_true, imp_iff_not_or]
  unfold done
  cases t.phase with
  | starting => simp
  | entering handler => simp
  | _ => simpa using hwindow

/-- Messages are in the queue of a window only, the window comes with the start, and only
without it is there a quit and an end of the loop. -/
structure Sane (t : UiThread) : Prop where
  queue : t.window = false → t.queue = []
  quit : t.quit = true → t.window = false
  starting : t.phase = .starting → t.window = false ∧ t.quit = false
  out : t.running = false → t.window = false

/-- The thread goes on from `t` to `t'`: it stays sane, and done if it was. -/
structure UiAdvances (t t' : UiThread) : Prop where
  sane : Sane t'
  done : done t = true → done t' = true

/-- One step after another. -/
theorem UiAdvances.trans {t t' t'' : UiThread} (h : UiAdvances t t') (h' : UiAdvances t' t'') :
    UiAdvances t t'' :=
  ⟨h'.sane, fun hdone => h'.done (h.done hdone)⟩

/-- A thread that has not left its loop. -/
theorem running_of_phase {t : UiThread} (hleaving : t.phase ≠ .leaving)
    (hended : t.phase ≠ .ended) : t.running = true := by
  unfold UiThread.running
  rw [Bool.and_eq_true, bne_iff_ne, bne_iff_ne]
  exact ⟨hleaving, hended⟩

/-- A thread that was just created. -/
theorem sane_new : Sane {} :=
  ⟨fun _ => rfl, fun _ => rfl, fun _ => ⟨rfl, rfl⟩, fun _ => rfl⟩

/-- What `post` leaves as it is. -/
theorem post_frame (m : TrayMessage) (t : UiThread) :
    (t.post m).phase = t.phase ∧ (t.post m).window = t.window ∧ (t.post m).quit = t.quit ∧
      (t.post m).running = t.running := by
  unfold UiThread.post
  split
  · exact ⟨rfl, rfl, rfl, rfl⟩
  · exact ⟨rfl, rfl, rfl, rfl⟩

/-- A message goes behind the others. -/
theorem advances_post (m : TrayMessage) {t : UiThread} (h : Sane t) : UiAdvances t (t.post m) := by
  obtain ⟨hphase, hwindow, hquit, hrunning⟩ := post_frame m t
  refine ⟨⟨?_, ?_, ?_, ?_⟩, ?_⟩
  · rw [hwindow]
    intro hnone
    unfold UiThread.post
    rw [hnone, if_neg Bool.false_ne_true]
    exact h.queue hnone
  · rw [hquit, hwindow]
    exact h.quit
  · rw [hphase, hwindow, hquit]
    exact h.starting
  · rw [hrunning, hwindow]
    exact h.out
  · rw [done_iff, done_iff, hphase, hwindow]
    rintro ⟨hstarting, hentering, hhead⟩
    refine ⟨hstarting, hentering, fun hopen => ?_⟩
    unfold UiThread.post
    rw [if_pos hopen]
    simp only [List.head?_append, hhead hopen, Option.some_or]

/-- Away from the section, with the same window and messages. -/
theorem advances_of_same {t t' : UiThread} (h : Sane t) (hwindow : t'.window = t.window)
    (hqueue : t'.queue = t.queue) (hquit : t'.quit = t.quit) (hstarting : t'.phase ≠ .starting)
    (hentering : ∀ handler, t'.phase ≠ .entering handler)
    (hover : t'.running = false → t.window = false) : UiAdvances t t' := by
  refine ⟨⟨?_, ?_, fun hstart => absurd hstart hstarting, ?_⟩, ?_⟩
  · rw [hwindow, hqueue]
    exact h.queue
  · rw [hquit, hwindow]
    exact h.quit
  · rw [hwindow]
    exact hover
  · rw [done_iff, done_iff, hwindow, hqueue]
    exact fun hdone => ⟨hstarting, hentering, hdone.2.2⟩

/-- Any message but `WM_CLOSE` keeps the thread from being done. -/
theorem advances_handle {t : UiThread} (h : Sane t) {m : TrayMessage} {queue : List TrayMessage}
    (hqueue : t.queue = m :: queue) (hm : m ≠ .close) (handler : TrayHandler) :
    UiAdvances t { t with phase := .entering handler, queue := queue } := by
  have hopen : t.window = true := by
    rw [← Bool.not_eq_false]
    intro hnone
    rw [h.queue hnone] at hqueue
    cases hqueue
  refine ⟨⟨fun hnone => ?_, h.quit, fun hstarting => (by cases hstarting),
    fun hover => (by cases hover)⟩, fun hdone => ?_⟩
  · exact absurd (hopen.symm.trans hnone) (by decide)
  · have hhead := ((done_iff t).mp hdone).2.2 hopen
    rw [hqueue, List.head?_cons, Option.some.injEq] at hhead
    exact absurd hhead hm

/-- `WndProc` takes a message. That of `WM_CLOSE` is its last. -/
theorem advances_dispatch {t t' : UiThread} (h : Sane t) (hstep : t.dispatch = some t') :
    UiAdvances t t' ∧ t'.running = true := by
  unfold UiThread.dispatch at hstep
  split at hstep
  · next queue hphase hqueue =>
      obtain rfl := Option.some.inj hstep
      exact ⟨advances_handle h hqueue (by decide) .applyTray, rfl⟩
  · next queue hphase hqueue =>
      obtain rfl := Option.some.inj hstep
      exact ⟨advances_handle h hqueue (by decide) .menu, rfl⟩
  · next queue hphase hqueue =>
      obtain rfl := Option.some.inj hstep
      refine ⟨⟨⟨fun _ => rfl, fun _ => rfl, fun hstarting => ?_, fun _ => rfl⟩, fun _ => ?_⟩, ?_⟩
      · rw [hphase] at hstarting
        cases hstarting
      · rw [done_iff, hphase]
        exact ⟨by decide, fun handler hentering => (by cases hentering),
          fun hwindow => (by cases hwindow)⟩
      · refine running_of_phase ?_ ?_
        all_goals
          rw [hphase]
          decide
  · cases hstep

/-- In the loop again. -/
theorem advances_waiting {t t' : UiThread} (h : Sane t) (hwindow : t'.window = t.window)
    (hqueue : t'.queue = t.queue) (hquit : t'.quit = t.quit) (hphase : t'.phase = .waiting) :
    UiAdvances t t' ∧ t'.running = true := by
  have hrunning : t'.running = true := by
    refine running_of_phase ?_ ?_
    all_goals
      rw [hphase]
      decide
  refine ⟨advances_of_same h hwindow hqueue hquit ?_ ?_ fun hover => ?_, hrunning⟩
  · rw [hphase]
    decide
  · intro handler hentering
    rw [hphase] at hentering
    cases hentering
  · exact absurd (hrunning.symm.trans hover) (by decide)

/-- The thread has left the section. -/
theorem advances_left {t : UiThread} (h : Sane t) (handler : TrayHandler) :
    UiAdvances t (t.left handler) ∧ (t.left handler).running = true := by
  cases handler with
  | applyTray => exact advances_waiting h rfl rfl rfl rfl
  | menu => exact advances_waiting h rfl rfl rfl rfl

/-- A menu is closed. -/
theorem advances_choose {t t' : UiThread} {exit : Bool} (h : Sane t)
    (hstep : t.choose exit = some t') : UiAdvances t t' ∧ t'.running = true := by
  obtain ⟨⟨hphase, -⟩, hstep⟩ := Option.ite_none_right_eq_some.mp hstep
  obtain rfl := Option.some.inj hstep
  have hclosed : UiAdvances t { t with menus := t.menus - 1 } ∧
      ({ t with menus := t.menus - 1 } : UiThread).running = true :=
    advances_waiting h rfl rfl rfl hphase
  obtain ⟨hsame, hrunning⟩ := hclosed
  cases exit with
  | false => exact ⟨hsame, hrunning⟩
  | true =>
      refine ⟨hsame.trans (advances_post .close hsame.sane), ?_⟩
      exact (post_frame .close _).2.2.2.trans hrunning

/-- `CreateWindowExW` returns. -/
theorem advances_createWindow {t : UiThread} (h : Sane t) (hphase : t.phase = .starting)
    (created : Bool) : UiAdvances t { t with phase := .waiting, window := created } := by
  obtain ⟨hwindow, hquit⟩ := h.starting hphase
  refine ⟨⟨fun _ => h.queue hwindow, fun hquits => ?_, fun hstarting => (by cases hstarting),
    fun hover => (by cases hover)⟩, fun hdone => ?_⟩
  · exact absurd (hquits.symm.trans hquit) (by decide)
  · exact absurd hphase ((done_iff t).mp hdone).1

/-- The loop ends. -/
theorem advances_leave {t t' : UiThread} (h : Sane t) (hstep : t.leave = some t') :
    UiAdvances t t' := by
  obtain ⟨⟨-, -, -, hquit⟩, hstep⟩ := Option.ite_none_right_eq_some.mp hstep
  obtain rfl := Option.some.inj hstep
  exact advances_of_same h rfl rfl rfl (fun hstarting => (by cases hstarting))
    (fun handler hentering => (by cases hentering)) fun _ => h.quit hquit

/-- The thread ends. -/
theorem advances_terminate {t : UiThread} (h : Sane t) (hphase : t.phase = .leaving) :
    UiAdvances t { t with phase := .ended } := by
  refine advances_of_same h rfl rfl rfl (fun hstarting => (by cases hstarting))
    (fun handler hentering => (by cases hentering)) fun _ => h.out ?_
  unfold UiThread.running
  rw [hphase]
  rfl

/-- A thread out of its loop is done. -/
theorem Sane.done_of_out {t : UiThread} (h : Sane t) (hover : t.running = false) :
    done t = true := by
  have hwindow := h.out hover
  unfold UiThread.running at hover
  rw [done_iff]
  refine ⟨fun hstarting => ?_, fun handler hentering => ?_, fun hopen => ?_⟩
  · rw [hstarting] at hover
    cases hover
  · rw [hentering] at hover
    cases hover
  · exact absurd (hopen.symm.trans hwindow) (by decide)

/-! ## What holds in a run -/

/-- What the controlling thread has made sure of where it is. -/
def CallInv (s : TrayHook) : Prop :=
  match s.call with
  | .outside => s.running = false → s.thread = none
  | .startEnter | .startLeave | .startRun => s.running = false ∧ s.thread = none
  | .startCreate => s.running = true ∧ s.thread = none
  | .startReturn => s.running = true ∧ (s.thread.isSome = true → s.served = true)
  | .updateEnter | .updateLeave | .updatePost => s.running = true
  | .stopPost | .stopWait => s.running = false
  | .stopDelete => s.running = false ∧ s.thread = none

/-- The section is there while the tray runs or is called, and only the thread behind
`g_thread` may still come to it. -/
structure TrayInv (s : TrayHook) : Prop where
  faults : s.faults = []
  live : s.cs.live = true ↔ s.running = true ∨ s.call ≠ .outside
  call : CallInv s
  sane : ∀ t ∈ s.threads, Sane t
  users : ∀ i t, s.threads[i]? = some t → done t = false → s.thread = some i

/-- While there is a thread behind `g_thread` the section is there. -/
theorem TrayInv.live_of_thread {s : TrayHook} (h : TrayInv s) {i : ℕ}
    (hthread : s.thread = some i) : s.cs.live = true := by
  rw [h.live]
  by_contra hnot
  rw [not_or, Bool.not_eq_true, not_not] at hnot
  have hcall := h.call
  unfold CallInv at hcall
  rw [hnot.2] at hcall
  have hnone := hcall hnot.1
  rw [hthread] at hnone
  cases hnone

/-- What the UI threads do matters only where `StartTrayHook` is to return. -/
theorem callInv_congr {s s' : TrayHook} (hcall : s'.call = s.call)
    (hrunning : s'.running = s.running) (hthread : s'.thread = s.thread)
    (hserved : s.call = .startReturn → s.thread.isSome = true → s'.served = true)
    (h : CallInv s) : CallInv s' := by
  unfold CallInv at h ⊢
  rw [hcall, hrunning, hthread]
  split
  all_goals next heq =>
    rw [heq] at h
    first
      | exact h
      | exact ⟨h.1, hserved heq⟩

/-! ## The steps of the UI threads -/

/-- A step of thread `i` is a step of its own state. -/
theorem uiStep_eq_some {s s' : TrayHook} {i : ℕ} {f : UiThread → Option UiThread} :
    s.uiStep i f = some s' ↔ ∃ t t', s.threads[i]? = some t ∧ f t = some t' ∧
      { s with threads := s.threads.set i t' } = s' := by
  unfold TrayHook.uiStep
  rw [Option.map_eq_some_iff]
  constructor
  · rintro ⟨t', ht', heq⟩
    obtain ⟨t, ht, hf⟩ := Option.bind_eq_some_iff.mp ht'
    exact ⟨t, t', ht, hf, heq⟩
  · rintro ⟨t, t', ht, hf, heq⟩
    exact ⟨t', Option.bind_eq_some_iff.mpr ⟨t, ht, hf⟩, heq⟩

/-- The other threads serve without thread `i` as they did with it. -/
theorem served_set {s : TrayHook} {i : ℕ} {t : UiThread} (t' : UiThread)
    (ht : s.threads[i]? = some t) (hrunning : t.running = true → t'.running = true)
    (h : s.served = true) :
    ({ s with threads := s.threads.set i t' } : TrayHook).served = true := by
  obtain ⟨x, hx, hxrunning⟩ := List.any_eq_true.mp h
  obtain ⟨j, hj⟩ := List.mem_iff_getElem?.mp hx
  refine List.any_eq_true.mpr ?_
  by_cases hij : i = j
  · subst hij
    obtain rfl := Option.some.inj (ht.symm.trans hj)
    refine ⟨t', List.mem_iff_getElem?.mpr ⟨i, ?_⟩, hrunning hxrunning⟩
    rw [List.getElem?_set_self (List.getElem?_eq_some_iff.mp ht).1]
  · refine ⟨x, List.mem_iff_getElem?.mpr ⟨j, ?_⟩, hxrunning⟩
    rw [List.getElem?_set_ne hij, hj]

/-- The step of one thread, where the call does not wait to return. -/
theorem TrayInv.set {s : TrayHook} (h : TrayInv s) {i : ℕ} {t t' : UiThread}
    (ht : s.threads[i]? = some t) (hadvances : UiAdvances t t')
    (hserved : s.call = .startReturn → s.thread.isSome = true →
      ({ s with threads := s.threads.set i t' } : TrayHook).served = true) :
    TrayInv { s with threads := s.threads.set i t' } := by
  refine ⟨h.faults, h.live, callInv_congr (s := s) rfl rfl rfl hserved h.call, fun x hx => ?_, ?_⟩
  · rcases List.mem_or_eq_of_mem_set hx with hold | rfl
    · exact h.sane x hold
    · exact hadvances.sane
  · intro j x hx hdone
    by_cases hij : i = j
    · subst hij
      rw [List.getElem?_set_self (List.getElem?_eq_some_iff.mp ht).1] at hx
      obtain rfl := Option.some.inj hx
      refine h.users i t ht ?_
      rw [← Bool.not_eq_true]
      intro hwas
      exact absurd ((hadvances.done hwas).symm.trans hdone) (by decide)
    · rw [List.getElem?_set_ne hij] at hx
      exact h.users j x hx hdone

/-- The step of a thread that does not leave its loop. -/
theorem TrayInv.uiStep {s s' : TrayHook} (h : TrayInv s) {i : ℕ}
    {f : UiThread → Option UiThread}
    (hf : ∀ t t', Sane t → f t = some t' →
      UiAdvances t t' ∧ (t.running = true → t'.running = true))
    (hstep : s.uiStep i f = some s') : TrayInv s' := by
  obtain ⟨t, t', ht, htt', rfl⟩ := uiStep_eq_some.mp hstep
  obtain ⟨hadvances, hrunning⟩ := hf t t' (h.sane t (List.mem_of_getElem? ht)) htt'
  refine h.set ht hadvances fun hcall hthread => ?_
  have hinv := h.call
  unfold CallInv at hinv
  rw [hcall] at hinv
  exact served_set t' ht hrunning (hinv.2 hthread)

/-- The step of a thread that is in its loop afterwards. -/
theorem TrayInv.uiStep_running {s s' : TrayHook} (h : TrayInv s) {i : ℕ}
    {f : UiThread → Option UiThread}
    (hf : ∀ t t', Sane t → f t = some t' → UiAdvances t t' ∧ t'.running = true)
    (hstep : s.uiStep i f = some s') : TrayInv s' := by
  refine h.uiStep (fun t t' hsane htt' => ?_) hstep
  obtain ⟨hadvances, hrunning⟩ := hf t t' hsane htt'
  exact ⟨hadvances, fun _ => hrunning⟩

/-- A message for the window. -/
theorem TrayInv.post {s : TrayHook} (h : TrayInv s) (m : TrayMessage) : TrayInv (s.post m) := by
  unfold TrayHook.post
  cases hstep : s.hwnd.bind fun i => s.uiStep i fun t => some (t.post m) with
  | none => exact h
  | some s' =>
      obtain ⟨i, -, hi⟩ := Option.bind_eq_some_iff.mp hstep
      refine h.uiStep (fun t t' hsane htt' => ?_) hi
      obtain rfl := Option.some.inj htt'
      exact ⟨advances_post m hsane, fun hrunning => (post_frame m t).2.2.2.trans hrunning⟩

/-! ## The section -/

/-- Who holds the section does not matter, nor which window is the last. -/
theorem TrayInv.of_section {s : TrayHook} (h : TrayInv s) (hwnd : Option ℕ)
    {cs : CriticalSection} (hlive : cs.live = s.cs.live) :
    TrayInv { s with cs := cs, hwnd := hwnd } := by
  refine ⟨h.faults, ?_, callInv_congr (s := s) rfl rfl rfl (fun hcall hthread => ?_) h.call,
    h.sane, h.users⟩
  · rw [hlive]
    exact h.live
  · have hinv := h.call
    unfold CallInv at hinv
    rw [hcall] at hinv
    exact hinv.2 hthread

/-- Who enters the section that is there makes no fault. -/
theorem enterSection_live {s s' : TrayHook} {owner : Option ℕ} (hlive : s.cs.live = true)
    (hstep : s.enterSection owner = some s') : { s with cs := .held owner } = s' := by
  unfold TrayHook.enterSection at hstep
  split at hstep
  · exact Option.some.inj hstep
  · cases hstep
  · next hcs =>
      rw [hcs] at hlive
      cases hlive
  · next hcs =>
      rw [hcs] at hlive
      cases hlive

/-- Entering the section leaves the threads as they are. -/
theorem enterSection_threads {s s' : TrayHook} {owner : Option ℕ}
    (hstep : s.enterSection owner = some s') : s'.threads = s.threads := by
  unfold TrayHook.enterSection at hstep
  split at hstep
  · obtain rfl := Option.some.inj hstep
    rfl
  · cases hstep
  · obtain rfl := Option.some.inj hstep
    rfl
  · obtain rfl := Option.some.inj hstep
    rfl

/-- Entered where it is there, it is held; and it stays there. -/
theorem TrayInv.enterSection {s s' : TrayHook} (h : TrayInv s) {owner : Option ℕ}
    (hlive : s.cs.live = true) (hstep : s.enterSection owner = some s') :
    TrayInv s' ∧ s'.call = s.call := by
  obtain rfl := enterSection_live hlive hstep
  exact ⟨h.of_section s.hwnd hlive.symm, rfl⟩

/-- Leaving the section leaves it there. -/
theorem TrayInv.leaveSection {s : TrayHook} (h : TrayInv s) (owner : Option ℕ) :
    TrayInv (s.leaveSection owner) ∧ (s.leaveSection owner).call = s.call := by
  unfold TrayHook.leaveSection
  split
  · next hheld =>
      refine ⟨h.of_section s.hwnd ?_, rfl⟩
      rw [hheld]
      rfl
  · exact ⟨h, rfl⟩

/-! ## The steps of the controlling thread -/

/-- The call goes on to another place, for which the state is as it has to be. -/
theorem TrayInv.goTo {s : TrayHook} (h : TrayInv s) {call : TrayCall}
    (hlive : s.running = true ∨ call ≠ .outside ↔ s.running = true ∨ s.call ≠ .outside)
    (hcall : CallInv { s with call := call }) : TrayInv { s with call := call } :=
  ⟨h.faults, h.live.trans hlive.symm, hcall, h.sane, h.users⟩

/-- From one place inside of a call to the next. -/
theorem TrayInv.goOn {s : TrayHook} (h : TrayInv s) {call : TrayCall} (hwas : s.call ≠ .outside)
    (hnext : call ≠ .outside) (hcall : CallInv { s with call := call }) :
    TrayInv { s with call := call } :=
  h.goTo ⟨fun _ => .inr hwas, fun _ => .inr hnext⟩ hcall

/-- The controlling thread enters the section. -/
theorem TrayInv.enterCall {s s' : TrayHook} (h : TrayInv s) {call : TrayCall}
    (hstep : (s.enterSection none).map (fun s => { s with call := call }) = some s')
    (hwas : s.call ≠ .outside) (hnext : call ≠ .outside)
    (hcall : ∀ cs, CallInv { s with cs := cs, call := call }) : TrayInv s' := by
  obtain ⟨mid, hmid, rfl⟩ := Option.map_eq_some_iff.mp hstep
  have hlive := h.live.mpr (.inr hwas)
  obtain ⟨hinv, hsame⟩ := h.enterSection hlive hmid
  refine hinv.goOn (hsame ▸ hwas) hnext ?_
  obtain rfl := enterSection_live hlive hmid
  exact hcall _

/-- The controlling thread leaves the section. -/
theorem TrayInv.leaveCall {s : TrayHook} (h : TrayInv s) {call : TrayCall}
    (hwas : s.call ≠ .outside) (hnext : call ≠ .outside)
    (hcall : ∀ cs, CallInv { s with cs := cs, call := call }) :
    TrayInv { s.leaveSection none with call := call } := by
  obtain ⟨hinv, hsame⟩ := h.leaveSection none
  refine hinv.goOn (hsame ▸ hwas) hnext ?_
  unfold TrayHook.leaveSection
  split
  · exact hcall .free
  · exact hcall s.cs

/-- `StartTrayHook` returns what it may. -/
theorem TrayInv.returns {s : TrayHook} (h : TrayInv s) {value : Bool}
    (hrunning : s.running = true) (hserved : value = true → s.served = true) :
    TrayInv (s.returns value) := by
  have hfault : (value && !s.served) = false := by
    cases value with
    | false => rfl
    | true => rw [hserved rfl, Bool.not_true, Bool.and_false]
  unfold TrayHook.returns
  rw [hfault, if_neg Bool.false_ne_true]
  refine h.goTo ⟨fun _ => .inl hrunning, fun _ => .inl hrunning⟩ ?_
  exact fun hnot => absurd (hrunning.symm.trans hnot) (by decide)

/-- A message leaves the controlling thread's own state as it is. -/
theorem post_control (s : TrayHook) (m : TrayMessage) :
    (s.post m).call = s.call ∧ (s.post m).running = s.running ∧ (s.post m).thread = s.thread := by
  unfold TrayHook.post
  cases hstep : s.hwnd.bind fun i => s.uiStep i fun t => some (t.post m) with
  | none => exact ⟨rfl, rfl, rfl⟩
  | some s' =>
      obtain ⟨i, -, hi⟩ := Option.bind_eq_some_iff.mp hstep
      obtain ⟨t, t', -, -, rfl⟩ := uiStep_eq_some.mp hi
      exact ⟨rfl, rfl, rfl⟩

/-- The flag is set before there is a thread. -/
theorem TrayInv.startRun {s : TrayHook} (h : TrayInv s) (hcall : s.call ≠ .outside)
    (hthread : s.thread = none) :
    TrayInv { s with running := true, call := .startCreate } := by
  exact ⟨h.faults, ⟨fun _ => .inl rfl, fun _ => h.live.mpr (.inr hcall)⟩, ⟨rfl, hthread⟩,
    h.sane, h.users⟩

/-- The section goes when no thread is left that may come to it. -/
theorem TrayInv.stopDelete {s : TrayHook} (h : TrayInv s) (hrunning : s.running = false)
    (hthread : s.thread = none) :
    TrayInv { s with cs := .deleted, call := .outside } := by
  refine ⟨h.faults, ⟨fun hlive => (by cases hlive), ?_⟩, fun _ => hthread, h.sane, h.users⟩
  rintro (hruns | hinside)
  · exact absurd (hruns.symm.trans hrunning) (by decide)
  · exact absurd rfl hinside

/-- The controlling thread goes on in its call. -/
theorem TrayInv.proceed {s s' : TrayHook} (h : TrayInv s) (hstep : s.proceed = some s') :
    TrayInv s' := by
  have hinv := h.call
  have hinside : ∀ {call : TrayCall}, s.call = call → call ≠ .outside → s.call ≠ .outside :=
    fun hcall hne hout => hne (hcall.symm.trans hout)
  unfold CallInv at hinv
  unfold TrayHook.proceed at hstep
  cases hcall : s.call with
  | startEnter =>
      rw [hcall] at hinv hstep
      exact h.enterCall hstep (hinside hcall (by decide)) (by decide) fun _ => hinv
  | startLeave =>
      rw [hcall] at hinv hstep
      obtain rfl := Option.some.inj hstep
      exact h.leaveCall (hinside hcall (by decide)) (by decide) fun _ => hinv
  | startRun =>
      rw [hcall] at hinv hstep
      obtain rfl := Option.some.inj hstep
      exact h.startRun (hinside hcall (by decide)) hinv.2
  | startReturn =>
      rw [hcall] at hinv hstep
      obtain rfl := Option.some.inj hstep
      exact h.returns hinv.1 hinv.2
  | updateEnter =>
      rw [hcall] at hinv hstep
      exact h.enterCall hstep (hinside hcall (by decide)) (by decide) fun _ => hinv
  | updateLeave =>
      rw [hcall] at hinv hstep
      obtain rfl := Option.some.inj hstep
      exact h.leaveCall (hinside hcall (by decide)) (by decide) fun _ => hinv
  | updatePost =>
      rw [hcall] at hinv hstep
      obtain rfl := Option.some.inj hstep
      have hruns : (s.post .updateState).running = true :=
        (post_control s .updateState).2.1.trans hinv
      refine (h.post .updateState).goTo ⟨fun _ => .inl hruns, fun _ => .inl hruns⟩ ?_
      exact fun hnot => absurd (hruns.symm.trans hnot) (by decide)
  | stopPost =>
      rw [hcall] at hinv hstep
      obtain rfl := Option.some.inj hstep
      obtain ⟨hsame, hrunning, hthread⟩ := post_control s .close
      have hout : (s.post .close).call ≠ .outside := hsame ▸ hinside hcall (by decide)
      split
      · exact (h.post .close).goOn hout (by decide) (hrunning.trans hinv)
      · next hnone =>
          refine (h.post .close).goOn hout (by decide) ⟨hrunning.trans hinv, ?_⟩
          exact hthread.trans (Option.not_isSome_iff_eq_none.mp hnone)
  | stopDelete =>
      rw [hcall] at hinv hstep
      obtain rfl := Option.some.inj hstep
      exact h.stopDelete hinv.1 hinv.2
  | outside | startCreate | stopWait =>
      rw [hcall] at hstep
      cases hstep

/-- `StartTrayHook` is called. -/
theorem TrayInv.startTrayHook {s : TrayHook} (h : TrayInv s) (hout : s.call = .outside)
    (hserved : s.running = true → s.served = true) : TrayInv s.startTrayHook := by
  have hinv := h.call
  unfold CallInv at hinv
  rw [hout] at hinv
  unfold TrayHook.startTrayHook
  split
  · next hrunning => exact h.returns hrunning fun _ => hserved hrunning
  · next hrunning =>
      have hdead : ¬s.cs.live = true := by
        rw [h.live, hout]
        exact not_or.mpr ⟨hrunning, not_not.mpr rfl⟩
      rw [if_neg hdead]
      have hstopped : s.running = false := Bool.not_eq_true _ ▸ hrunning
      exact ⟨h.faults, ⟨fun _ => .inr fun hcall => (by cases hcall), fun _ => rfl⟩,
        ⟨hstopped, hinv hstopped⟩, h.sane, h.users⟩

/-- `CreateThread` makes a thread, which will serve. -/
theorem TrayInv.createThread {s : TrayHook} (h : TrayInv s) (hcall : s.call = .startCreate) :
    TrayInv { s with
      threads := s.threads ++ [{}]
      thread := some s.threads.length
      call := .startReturn } := by
  have hinv := h.call
  unfold CallInv at hinv
  rw [hcall] at hinv
  have hlive : s.cs.live = true := h.live.mpr (.inl hinv.1)
  refine ⟨h.faults, ⟨fun _ => .inl hinv.1, fun _ => hlive⟩, ⟨hinv.1, fun _ => ?_⟩,
    fun t ht => ?_, fun i t ht hdone => ?_⟩
  · refine List.any_eq_true.mpr ⟨{}, List.mem_append_right s.threads ?_, rfl⟩
    exact List.mem_singleton.mpr rfl
  · rcases List.mem_append.mp ht with hold | hnew
    · exact h.sane t hold
    · rw [List.mem_singleton.mp hnew]
      exact sane_new
  · rcases Nat.lt_or_ge i s.threads.length with hlt | hge
    · -- No thread of an earlier start may still come to the section.
      rw [List.getElem?_append_left hlt] at ht
      have hthread := h.users i t ht hdone
      rw [hinv.2] at hthread
      cases hthread
    · have hlt : i < (s.threads ++ [({} : UiThread)]).length := (List.getElem?_eq_some_iff.mp ht).1
      rw [List.length_append, List.length_singleton] at hlt
      exact congrArg some (by omega)

/-- `CreateThread` makes none. -/
theorem TrayInv.createThread_failed {s : TrayHook} (h : TrayInv s)
    (hcall : s.call = .startCreate) :
    TrayInv { s with thread := none, call := .startReturn } := by
  have hinv := h.call
  unfold CallInv at hinv
  rw [hcall] at hinv
  have hlive : s.cs.live = true := h.live.mpr (.inl hinv.1)
  refine ⟨h.faults, ⟨fun _ => .inl hinv.1, fun _ => hlive⟩,
    ⟨hinv.1, fun hsome => (by cases hsome)⟩, h.sane, fun i t ht hdone => ?_⟩
  exact hinv.2.symm.trans (h.users i t ht hdone)

/-- A thread that has ended is done. -/
theorem TrayInv.done_of_ended {s : TrayHook} (h : TrayInv s)
    (hended : (s.waitedFor.all fun t => t.phase == .ended) = true) :
    s.waitedFor.all done = true := by
  cases hwaited : s.waitedFor with
  | none => rfl
  | some t =>
      rw [hwaited, Option.all_some, beq_iff_eq] at hended
      obtain ⟨i, -, ht⟩ := Option.bind_eq_some_iff.mp hwaited
      refine (h.sane t (List.mem_of_getElem? ht)).done_of_out ?_
      unfold UiThread.running
      rw [hended]
      rfl

/-- The wait is over, and the thread behind the handle is done. -/
theorem TrayInv.waited {s : TrayHook} (h : TrayInv s) (hcall : s.call = .stopWait)
    (hdone : s.waitedFor.all done = true) :
    TrayInv { s with thread := none, call := .stopDelete } := by
  have hinv := h.call
  unfold CallInv at hinv
  rw [hcall] at hinv
  refine ⟨h.faults, ⟨fun _ => .inr fun hnext => (by cases hnext), fun _ => ?_⟩, ⟨hinv, rfl⟩,
    h.sane, fun i t ht hnot => ?_⟩
  · refine h.live.mpr (.inr ?_)
    rw [hcall]
    decide
  · have hwaited : s.waitedFor = some t := by
      unfold TrayHook.waitedFor
      rw [h.users i t ht hnot, Option.bind_some, ht]
    rw [hwaited, Option.all_some, hnot] at hdone
    cases hdone

/-! ## The thread of the last start -/

/-- The thread behind `g_thread` is in its loop. -/
def alive (s : TrayHook) : Bool := s.waitedFor.any UiThread.running

/-- So is a thread of an earlier start. -/
def elder (s : TrayHook) : Bool :=
  (s.thread.elim s.threads s.threads.eraseIdx).any UiThread.running

/-- What an event makes of the thread behind `g_thread`: `CreateThread` decides whether there is
one, it leaves its loop after an Exit, and the wait of `StopTrayHook` lets go of it. -/
def aliveAfter (s : TrayHook) : TrayEvent → Bool
  | .createThread created => created
  | .endLoop i => alive s && s.thread != some i
  | .waitEnds => false
  | .waitTimesOut => false
  | _ => alive s

/-- Only `g_thread` and the threads count. -/
theorem alive_congr {s s' : TrayHook} (hthread : s'.thread = s.thread)
    (hthreads : s'.threads = s.threads) : alive s' = alive s := by
  unfold alive TrayHook.waitedFor
  rw [hthread, hthreads]

/-- A step of a thread that does not leave its loop. -/
theorem alive_uiStep {s s' : TrayHook} {i : ℕ} {f : UiThread → Option UiThread}
    (hf : ∀ t t', f t = some t' → t'.running = t.running) (hstep : s.uiStep i f = some s') :
    alive s' = alive s := by
  obtain ⟨t, t', ht, htt', rfl⟩ := uiStep_eq_some.mp hstep
  unfold alive TrayHook.waitedFor
  cases s.thread with
  | none => rfl
  | some j =>
      by_cases hij : i = j
      · subst hij
        simp only [Option.bind_some, List.getElem?_set_self (List.getElem?_eq_some_iff.mp ht).1, ht,
          Option.any_some, hf t t' htt']
      · simp only [Option.bind_some, List.getElem?_set_ne hij]

/-- A message ends no loop. -/
theorem alive_post (s : TrayHook) (m : TrayMessage) : alive (s.post m) = alive s := by
  unfold TrayHook.post
  cases hstep : s.hwnd.bind fun i => s.uiStep i fun t => some (t.post m) with
  | none => rfl
  | some s' =>
      obtain ⟨i, -, hi⟩ := Option.bind_eq_some_iff.mp hstep
      refine alive_uiStep (fun t t' htt' => ?_) hi
      rw [← Option.some.inj htt']
      exact (post_frame m t).2.2.2

/-- Entering the section changes nothing about it. -/
theorem alive_enterSection {s s' : TrayHook} {owner : Option ℕ}
    (hstep : s.enterSection owner = some s') : alive s' = alive s := by
  unfold TrayHook.enterSection at hstep
  split at hstep
  · rw [← Option.some.inj hstep]
    rfl
  · cases hstep
  · rw [← Option.some.inj hstep]
    rfl
  · rw [← Option.some.inj hstep]
    rfl

/-- Leaving the section changes nothing about it. -/
theorem alive_leaveSection (s : TrayHook) (owner : Option ℕ) :
    alive (s.leaveSection owner) = alive s := by
  unfold TrayHook.leaveSection
  split
  · rfl
  · rfl

/-- Nor does the call going on. -/
theorem alive_proceed {s s' : TrayHook} (hstep : s.proceed = some s') : alive s' = alive s := by
  unfold TrayHook.proceed at hstep
  cases hcall : s.call with
  | startEnter | updateEnter =>
      rw [hcall] at hstep
      obtain ⟨mid, hmid, rfl⟩ := Option.map_eq_some_iff.mp hstep
      exact (alive_congr (s := mid) rfl rfl).trans (alive_enterSection hmid)
  | startLeave | updateLeave =>
      rw [hcall] at hstep
      rw [← Option.some.inj hstep]
      exact alive_leaveSection s none
  | startRun | startReturn | stopDelete =>
      rw [hcall] at hstep
      rw [← Option.some.inj hstep]
      rfl
  | updatePost =>
      rw [hcall] at hstep
      rw [← Option.some.inj hstep]
      exact alive_post s .updateState
  | stopPost =>
      rw [hcall] at hstep
      rw [← Option.some.inj hstep]
      exact alive_post s .close
  | outside | startCreate | stopWait =>
      rw [hcall] at hstep
      cases hstep

/-- Some UI thread serves: that of the last start, or one of an earlier start. -/
theorem served_eq (s : TrayHook) : s.served = (alive s || elder s) := by
  unfold TrayHook.served alive elder TrayHook.waitedFor
  cases s.thread with
  | none => rfl
  | some i =>
      rw [Bool.eq_iff_iff, Bool.or_eq_true, Option.bind_some, Option.elim_some, List.any_eq_true,
        List.any_eq_true, Option.any_eq_true]
      constructor
      · rintro ⟨t, ht, hrunning⟩
        obtain ⟨j, hj⟩ := List.mem_iff_getElem?.mp ht
        by_cases hij : j = i
        · exact .inl ⟨t, hij ▸ hj, hrunning⟩
        · exact .inr ⟨t, List.mem_eraseIdx_iff_getElem?.mpr ⟨j, hij, hj⟩, hrunning⟩
      · rintro (⟨t, ht, hrunning⟩ | ⟨t, ht, hrunning⟩)
        · exact ⟨t, List.mem_of_getElem? ht, hrunning⟩
        · exact ⟨t, List.mem_of_mem_eraseIdx ht, hrunning⟩

/-- The thread of the last start leaves its loop. -/
theorem alive_endLoop {s s' : TrayHook} {i : ℕ} (hstep : s.uiStep i UiThread.leave = some s') :
    alive s' = (alive s && s.thread != some i) := by
  obtain ⟨t, t', ht, htt', rfl⟩ := uiStep_eq_some.mp hstep
  obtain ⟨-, htt'⟩ := Option.ite_none_right_eq_some.mp htt'
  obtain rfl := Option.some.inj htt'
  unfold alive TrayHook.waitedFor
  cases s.thread with
  | none => rfl
  | some j =>
      by_cases hij : i = j
      · subst hij
        simp only [Option.bind_some, List.getElem?_set_self (List.getElem?_eq_some_iff.mp ht).1,
          Option.any_some, bne_self_eq_false, Bool.and_false]
        rfl
      · have hne : (some j != some i) = true := by
          rw [bne_iff_ne]
          exact fun hsame => hij (Option.some.inj hsame).symm
        simp only [Option.bind_some, List.getElem?_set_ne hij, hne, Bool.and_true]

/-- What each event makes of it. -/
theorem alive_step {s s' : TrayHook} {e : TrayEvent} (hstep : trayStep s e = some s') :
    alive s' = aliveAfter s e := by
  cases e with
  | startTrayHook =>
      obtain ⟨-, hstep⟩ := Option.ite_none_right_eq_some.mp hstep
      rw [← Option.some.inj hstep]
      unfold TrayHook.startTrayHook
      split
      · rfl
      · rfl
  | updateTray | stopTrayHook =>
      obtain ⟨-, hstep⟩ := Option.ite_none_right_eq_some.mp hstep
      rw [← Option.some.inj hstep]
      split
      · rfl
      · rfl
  | proceed => exact alive_proceed hstep
  | createThread created =>
      obtain ⟨-, hstep⟩ := Option.ite_none_right_eq_some.mp hstep
      rw [← Option.some.inj hstep]
      cases created with
      | true =>
          unfold alive TrayHook.waitedFor
          simp only [if_true, Option.bind_some, List.getElem?_concat_length, Option.any_some]
          rfl
      | false => rfl
  | waitEnds =>
      obtain ⟨-, hstep⟩ := Option.ite_none_right_eq_some.mp hstep
      rw [← Option.some.inj hstep]
      rfl
  | waitTimesOut =>
      obtain ⟨-, hstep⟩ := Option.ite_none_right_eq_some.mp hstep
      rw [← Option.some.inj hstep]
      rfl
  | createWindow i created =>
      obtain ⟨mid, hmid, rfl⟩ := Option.map_eq_some_iff.mp hstep
      refine (alive_congr (s := mid) rfl rfl).trans (alive_uiStep (fun t t' htt' => ?_) hmid)
      obtain ⟨hphase, htt'⟩ := Option.ite_none_right_eq_some.mp htt'
      rw [← Option.some.inj htt']
      unfold UiThread.running
      rw [hphase]
      rfl
  | dispatch i =>
      refine alive_uiStep (fun t t' htt' => ?_) hstep
      unfold UiThread.dispatch at htt'
      unfold UiThread.running
      split at htt'
      · next hphase _ =>
          rw [← Option.some.inj htt', hphase]
          rfl
      · next hphase _ =>
          rw [← Option.some.inj htt', hphase]
          rfl
      · rw [← Option.some.inj htt']
      · cases htt'
  | enter i =>
      obtain ⟨mid, hmid, hui⟩ := Option.bind_eq_some_iff.mp hstep
      refine (alive_uiStep (fun t t' htt' => ?_) hui).trans (alive_enterSection hmid)
      unfold UiThread.running
      split at htt'
      · next hphase =>
          rw [← Option.some.inj htt', hphase]
          rfl
      · cases htt'
  | leave i =>
      refine (alive_uiStep (fun t t' htt' => ?_) hstep).trans (alive_leaveSection s (some i))
      unfold UiThread.running
      split at htt'
      · next handler hphase =>
          rw [← Option.some.inj htt', hphase]
          cases handler with
          | applyTray => rfl
          | menu => rfl
      · cases htt'
  | choose i exit =>
      refine alive_uiStep (fun t t' htt' => ?_) hstep
      obtain ⟨⟨hphase, -⟩, htt'⟩ := Option.ite_none_right_eq_some.mp htt'
      rw [← Option.some.inj htt']
      split
      · exact (post_frame .close _).2.2.2
      · rfl
  | endLoop i => exact alive_endLoop hstep
  | terminate i =>
      refine alive_uiStep (fun t t' htt' => ?_) hstep
      obtain ⟨hphase, htt'⟩ := Option.ite_none_right_eq_some.mp htt'
      rw [← Option.some.inj htt']
      unfold UiThread.running
      rw [hphase]
      rfl
  | click i =>
      refine alive_uiStep (fun t t' htt' => ?_) hstep
      obtain ⟨-, htt'⟩ := Option.ite_none_right_eq_some.mp htt'
      rw [← Option.some.inj htt']
      exact (post_frame .trayIcon t).2.2.2

/-! ## Every run of allowed steps -/

/-- `StartTrayHook` is not called where the flag is set and `CreateThread` has failed, or an Exit
has come, since the last `StopTrayHook`, unless a thread of an earlier start serves. No UI
thread leaves its loop while the call that created it has not returned, unless another one
serves. And the wait does not time out over a thread that may still come to the section. -/
def trayAllowed (s : TrayHook) : TrayEvent → Bool
  | .startTrayHook => !s.running || alive s || elder s
  | .endLoop i =>
      s.call != .startReturn || s.thread.isNone || (s.threads.eraseIdx i).any UiThread.running
  | .waitTimesOut => s.waitedFor.all done
  | _ => true

/-- Another thread serves when thread `i` has left. -/
theorem served_of_others {s : TrayHook} {i : ℕ} (t' : UiThread)
    (h : (s.threads.eraseIdx i).any UiThread.running = true) :
    ({ s with threads := s.threads.set i t' } : TrayHook).served = true := by
  obtain ⟨x, hx, hrunning⟩ := List.any_eq_true.mp h
  obtain ⟨j, hne, hj⟩ := List.mem_eraseIdx_iff_getElem?.mp hx
  refine List.any_eq_true.mpr ⟨x, List.mem_iff_getElem?.mpr ⟨j, ?_⟩, hrunning⟩
  rw [List.getElem?_set_ne hne.symm, hj]

/-- A thread leaves its loop while `StartTrayHook` does not depend on it. -/
theorem TrayInv.endLoop {s s' : TrayHook} (h : TrayInv s) {i : ℕ}
    (hallowed : trayAllowed s (.endLoop i) = true)
    (hstep : s.uiStep i UiThread.leave = some s') : TrayInv s' := by
  obtain ⟨t, t', ht, htt', rfl⟩ := uiStep_eq_some.mp hstep
  refine h.set ht (advances_leave (h.sane t (List.mem_of_getElem? ht)) htt') fun hcall hthread => ?_
  unfold trayAllowed at hallowed
  simp only [hcall, bne_self_eq_false, Bool.false_or, Bool.or_eq_true] at hallowed
  rcases hallowed with hnone | hothers
  · rw [Option.isNone_iff_eq_none.mp hnone] at hthread
    cases hthread
  · exact served_of_others t' hothers

/-- Only the thread behind `g_thread` comes to the section. -/
theorem TrayInv.enter {s s' : TrayHook} (h : TrayInv s) {i : ℕ}
    (hstep : trayStep s (.enter i) = some s') : TrayInv s' := by
  obtain ⟨mid, hmid, hui⟩ := Option.bind_eq_some_iff.mp hstep
  have hlive : s.cs.live = true := by
    obtain ⟨t, t', ht, htt', -⟩ := uiStep_eq_some.mp hui
    rw [enterSection_threads hmid] at ht
    refine h.live_of_thread (h.users i t ht ?_)
    rw [← Bool.not_eq_true, done_iff]
    rintro ⟨-, hnot, -⟩
    split at htt'
    · next handler hphase => exact hnot handler hphase
    · cases htt'
  refine (h.enterSection hlive hmid).1.uiStep_running (fun t t' hsane htt' => ?_) hui
  split at htt'
  · next handler hphase =>
      obtain rfl := Option.some.inj htt'
      exact ⟨advances_of_same hsane rfl rfl rfl (fun hstarting => (by cases hstarting))
        (fun other hentering => (by cases hentering)) fun hover => (by cases hover), rfl⟩
  · cases htt'

/-- When the library is loaded. -/
theorem trayInv_init (s : TrayHook) (h : trayHook.init s) : TrayInv s := by
  obtain rfl : s = _ := h
  refine ⟨rfl, ⟨fun hlive => (by cases hlive), ?_⟩, fun _ => rfl, fun t ht => (by cases ht),
    fun i t ht _ => (by cases ht)⟩
  rintro (hrunning | hinside)
  · cases hrunning
  · exact absurd rfl hinside

/-- What an allowed step preserves. -/
theorem trayInv_step (s : TrayHook) (e : TrayEvent) (s' : TrayHook) (h : TrayInv s)
    (hallowed : trayAllowed s e = true) (hstep : trayHook.step s e = some s') : TrayInv s' := by
  cases e with
  | startTrayHook =>
      obtain ⟨hout, hstep⟩ := Option.ite_none_right_eq_some.mp hstep
      obtain rfl := Option.some.inj hstep
      refine h.startTrayHook hout fun hrunning => ?_
      unfold trayAllowed at hallowed
      rwa [hrunning, Bool.not_true, Bool.false_or, ← served_eq] at hallowed
  | updateTray =>
      obtain ⟨hout, hstep⟩ := Option.ite_none_right_eq_some.mp hstep
      obtain rfl := Option.some.inj hstep
      split
      · next hrunning => exact h.goTo ⟨fun _ => .inl hrunning, fun _ => .inl hrunning⟩ hrunning
      · exact h
  | stopTrayHook =>
      obtain ⟨hout, hstep⟩ := Option.ite_none_right_eq_some.mp hstep
      obtain rfl := Option.some.inj hstep
      split
      · next hrunning =>
          have hlive : s.cs.live = true := h.live.mpr (.inl hrunning)
          exact ⟨h.faults, ⟨fun _ => .inr fun hcall => (by cases hcall), fun _ => hlive⟩, rfl,
            h.sane, h.users⟩
      · exact h
  | proceed => exact h.proceed hstep
  | createThread created =>
      obtain ⟨hcall, hstep⟩ := Option.ite_none_right_eq_some.mp hstep
      obtain rfl := Option.some.inj hstep
      cases created with
      | true => exact h.createThread hcall
      | false => exact h.createThread_failed hcall
  | waitEnds =>
      obtain ⟨⟨hcall, hended⟩, hstep⟩ := Option.ite_none_right_eq_some.mp hstep
      obtain rfl := Option.some.inj hstep
      exact h.waited hcall (h.done_of_ended hended)
  | waitTimesOut =>
      obtain ⟨hcall, hstep⟩ := Option.ite_none_right_eq_some.mp hstep
      obtain rfl := Option.some.inj hstep
      exact h.waited hcall hallowed
  | createWindow i created =>
      obtain ⟨mid, hmid, rfl⟩ := Option.map_eq_some_iff.mp hstep
      refine TrayInv.of_section (h.uiStep_running (fun t t' hsane htt' => ?_) hmid) _ rfl
      obtain ⟨hphase, htt'⟩ := Option.ite_none_right_eq_some.mp htt'
      obtain rfl := Option.some.inj htt'
      exact ⟨advances_createWindow hsane hphase created, rfl⟩
  | dispatch i => exact h.uiStep_running (fun t t' => advances_dispatch) hstep
  | enter i => exact h.enter hstep
  | leave i =>
      refine (h.leaveSection (some i)).1.uiStep_running (fun t t' hsane htt' => ?_) hstep
      split at htt'
      · next handler hphase =>
          obtain rfl := Option.some.inj htt'
          exact advances_left hsane handler
      · cases htt'
  | choose i exit => exact h.uiStep_running (fun t t' => advances_choose) hstep
  | endLoop i => exact h.endLoop hallowed hstep
  | terminate i =>
      refine h.uiStep (fun t t' hsane htt' => ?_) hstep
      obtain ⟨hphase, htt'⟩ := Option.ite_none_right_eq_some.mp htt'
      obtain rfl := Option.some.inj htt'
      refine ⟨advances_terminate hsane hphase, fun hrunning => ?_⟩
      unfold UiThread.running at hrunning
      rw [hphase] at hrunning
      cases hrunning
  | click i =>
      refine h.uiStep (fun t t' hsane htt' => ?_) hstep
      obtain ⟨-, htt'⟩ := Option.ite_none_right_eq_some.mp htt'
      obtain rfl := Option.some.inj htt'
      exact ⟨advances_post .trayIcon hsane,
        fun hrunning => (post_frame .trayIcon t).2.2.2.trans hrunning⟩

/-- In every run of allowed steps the life cycle of the tray is safe: the section is entered
only while it is there and initialised only while it is not there, and `StartTrayHook`
returns true only with a UI thread in its loop or about to be. -/
theorem tray_safe {s : TrayHook}
    (h : trayHook.ReachableBy (fun s e => trayAllowed s e = true) s) : s.faults = [] :=
  (System.ReachableBy.invariant trayInv_init trayInv_step h).faults

/-- The library has been loaded. -/
def loaded : TrayHook := ⟨false, none, none, .uninitialised, .outside, [], []⟩

/-- The tray is started, shows a state, is closed by `StopTrayHook` and is started again. -/
def restartScript : List (TrayHook → TrayEvent) :=
  [.startTrayHook, .proceed, .proceed, .proceed, .createThread true, .createWindow 0 true,
    .proceed, .updateTray, .proceed, .proceed, .proceed, .dispatch 0, .enter 0, .leave 0,
    .stopTrayHook, .proceed, .dispatch 0, .endLoop 0, .terminate 0, .waitEnds, .proceed,
    .startTrayHook, .proceed, .proceed, .proceed, .createThread true, .proceed].map fun e _ => e

/-- The flag is set, and the second UI thread is about to run. -/
theorem tray_safe_restarted :
    ∃ s, (trayHook.restrict fun s e => trayAllowed s e = true).exec loaded restartScript = some s ∧
      (s.running, s.thread, s.cs, s.served) = (true, some 1, .free, true) ∧ s.faults = [] := by
  obtain ⟨s, hs, hends⟩ : ∃ s, (trayHook.restrict fun s e => trayAllowed s e = true).exec loaded
      restartScript = some s ∧
        (s.running, s.thread, s.cs, s.served) = (true, some 1, .free, true) :=
    ⟨_, rfl, rfl⟩
  exact ⟨s, hs, hends, tray_safe (System.ReachableBy.exec (.init rfl) hs)⟩

/-- `CreateThread` fails, `StartTrayHook` returns false, and is called again. -/
def failedStartScript : List (TrayHook → TrayEvent) :=
  [.startTrayHook, .proceed, .proceed, .proceed, .createThread false, .proceed,
    .startTrayHook].map fun e _ => e

/-- The second call returns true, and there is no UI thread. -/
theorem not_tray_safe : ¬∀ s, trayHook.Reachable s → s.faults = [] := by
  intro hsafe
  obtain ⟨s, hs, hends⟩ : ∃ s, trayHook.exec loaded failedStartScript = some s ∧
      (s.threads, s.faults) = ([], [.returned]) := ⟨_, rfl, rfl⟩
  have hloaded : trayHook.Reachable loaded := .init rfl
  have hnone := hsafe s (hloaded.exec hs)
  rw [(Prod.mk.inj hends).2] at hnone
  cases hnone

/-! ## What comes of the other steps -/

/-- Some run goes on from the state to a fault. -/
def Doomed (s : TrayHook) : Prop :=
  ∃ script s', trayHook.exec s script = some s' ∧ s'.faults ≠ []

/-- A step to a state that can be followed to a fault. -/
theorem Doomed.of_step {s s' : TrayHook} (e : TrayEvent) (hstep : trayStep s e = some s')
    (h : Doomed s') : Doomed s := by
  obtain ⟨script, s'', hexec, hfaults⟩ := h
  refine ⟨(fun _ => e) :: script, s'', ?_, hfaults⟩
  have hcons : trayHook.exec s ((fun _ => e) :: script) =
      (trayStep s e).bind fun s => trayHook.exec s script := rfl
  rw [hcons, hstep, Option.bind_some, hexec]

/-- A fault is there. -/
theorem doomed_of_faults {s : TrayHook} (h : s.faults ≠ []) : Doomed s := ⟨[], s, rfl, h⟩

/-- In its loop or inside of the section, the thread has a message but `WM_CLOSE`, or waits
for one. -/
theorem open_of_not_done {t : UiThread} (hdone : done t = false)
    (hphase : t.phase = .waiting ∨ ∃ handler, t.phase = .inside handler) :
    t.window = true ∧ t.queue.head? ≠ some .close := by
  rw [← Bool.not_eq_true, done_iff] at hdone
  have haway : t.phase ≠ .starting ∧ ∀ handler, t.phase ≠ .entering handler := by
    rcases hphase with hphase | ⟨handler, hphase⟩
    all_goals
      rw [hphase]
      exact ⟨fun hstarting => (by cases hstarting), fun _ hentering => (by cases hentering)⟩
  have hnot : ¬(t.window = true → t.queue.head? = some .close) :=
    fun hhead => hdone ⟨haway.1, haway.2, hhead⟩
  exact Classical.not_imp.mp hnot

section Deleted

variable {s : TrayHook} (hcs : s.cs = .deleted) {i : ℕ} {t : UiThread}
  (ht : s.threads[i]? = some t)

include ht

/-- One more step of the thread, after which it is `t'`. -/
theorem doomed_set {s' : TrayHook} {t' : UiThread} (e : TrayEvent)
    (hstep : trayStep s e = some s') (hcs' : s'.cs = .deleted)
    (hthreads : s'.threads = s.threads.set i t')
    (h : ∀ s : TrayHook, s.cs = .deleted → s.threads[i]? = some t' → Doomed s) : Doomed s := by
  refine (h s' hcs' ?_).of_step e hstep
  rw [hthreads]
  exact List.getElem?_set_self (List.getElem?_eq_some_iff.mp ht).1

include hcs

/-- A thread before the section enters it when it is gone. -/
theorem doomed_of_entering {handler : TrayHandler} (hphase : t.phase = .entering handler) :
    Doomed s := by
  have henter : s.enterSection (some i) = some { s with faults := .entered :: s.faults } := by
    unfold TrayHook.enterSection
    rw [hcs]
  have hstep : trayStep s (.enter i) = some { s with
      faults := .entered :: s.faults
      threads := s.threads.set i { t with phase := .inside handler } } := by
    refine Option.bind_eq_some_iff.mpr ⟨_, henter, ?_⟩
    refine uiStep_eq_some.mpr ⟨t, _, ht, ?_, rfl⟩
    rw [hphase]
  exact (doomed_of_faults (List.cons_ne_nil _ _)).of_step _ hstep

/-- A message but `WM_CLOSE` brings a thread to the section when it is gone. -/
theorem doomed_of_message {m : TrayMessage} {queue : List TrayMessage}
    (hphase : t.phase = .waiting) (hqueue : t.queue = m :: queue) (hm : m ≠ .close) :
    Doomed s := by
  have hdispatch : ∃ handler,
      t.dispatch = some { t with phase := .entering handler, queue := queue } := by
    unfold UiThread.dispatch
    rw [hphase, hqueue]
    cases m with
    | updateState => exact ⟨.applyTray, rfl⟩
    | trayIcon => exact ⟨.menu, rfl⟩
    | close => exact absurd rfl hm
  obtain ⟨handler, hdispatch⟩ := hdispatch
  have hstep := uiStep_eq_some.mpr ⟨t, _, ht, hdispatch, rfl⟩
  exact doomed_set ht (.dispatch i) hstep hcs rfl fun s hcs ht => doomed_of_entering hcs ht rfl

/-- With no message there the user clicks. -/
theorem doomed_of_waiting (hphase : t.phase = .waiting) (hwindow : t.window = true)
    (hhead : t.queue.head? ≠ some .close) : Doomed s := by
  cases hqueue : t.queue with
  | nil =>
      have hclick : (if t.window then some (t.post .trayIcon) else none) =
          some { t with queue := [.trayIcon] } := by
        unfold UiThread.post
        rw [if_pos hwindow, if_pos hwindow, hqueue]
        rfl
      have hstep : trayStep s (.click i) = _ := uiStep_eq_some.mpr ⟨t, _, ht, hclick, rfl⟩
      refine doomed_set ht (.click i) hstep hcs rfl fun s hcs ht => ?_
      exact doomed_of_message hcs ht hphase rfl (by decide)
  | cons m queue =>
      refine doomed_of_message hcs ht hphase hqueue ?_
      rintro rfl
      rw [hqueue] at hhead
      exact hhead rfl

/-- A thread that may still come to the section does so. -/
theorem doomed_of_user (hsane : Sane t) (hdone : done t = false) : Doomed s := by
  cases hphase : t.phase with
  | starting =>
      have hqueue : t.queue = [] := hsane.queue (hsane.starting hphase).1
      have hmid : s.uiStep i (fun t =>
          if t.phase = .starting then some { t with phase := .waiting, window := true }
          else none) = some { s with
            threads := s.threads.set i { t with phase := .waiting, window := true } } :=
        uiStep_eq_some.mpr ⟨t, _, ht, if_pos hphase, rfl⟩
      have hstep : trayStep s (.createWindow i true) = _ :=
        Option.map_eq_some_iff.mpr ⟨_, hmid, rfl⟩
      refine doomed_set ht (.createWindow i true) hstep hcs rfl fun s hcs ht => ?_
      refine doomed_of_waiting hcs ht rfl rfl ?_
      rw [hqueue]
      intro hclose
      cases hclose
  | entering handler => exact doomed_of_entering hcs ht hphase
  | waiting =>
      obtain ⟨hwindow, hhead⟩ := open_of_not_done hdone (.inl hphase)
      exact doomed_of_waiting hcs ht hphase hwindow hhead
  | inside handler =>
      obtain ⟨hwindow, hhead⟩ := open_of_not_done hdone (.inr ⟨handler, hphase⟩)
      have hsame : s.leaveSection (some i) = s := by
        unfold TrayHook.leaveSection
        rw [hcs, if_neg]
        intro hheld
        cases hheld
      have hstep : trayStep s (.leave i) =
          some { s with threads := s.threads.set i (t.left handler) } := by
        change (s.leaveSection (some i)).uiStep i _ = _
        rw [hsame]
        refine uiStep_eq_some.mpr ⟨t, _, ht, ?_, rfl⟩
        rw [hphase]
      refine doomed_set ht (.leave i) hstep hcs rfl fun s hcs ht => ?_
      cases handler with
      | applyTray => exact doomed_of_waiting hcs ht rfl hwindow hhead
      | menu => exact doomed_of_waiting hcs ht rfl hwindow hhead
  | leaving | ended =>
      have hover : t.running = false := by
        unfold UiThread.running
        rw [hphase]
        rfl
      exact absurd ((hsane.done_of_out hover).symm.trans hdone) (by decide)

end Deleted

/-- A timeout over a thread that is not done: the section is deleted under it. -/
theorem doomed_of_timeout {s s' : TrayHook} (h : TrayInv s)
    (hnot : s.waitedFor.all done = false) (hstep : trayStep s .waitTimesOut = some s') :
    Doomed s' := by
  obtain ⟨hcall, hstep⟩ := Option.ite_none_right_eq_some.mp hstep
  obtain rfl := Option.some.inj hstep
  cases hwaited : s.waitedFor with
  | none =>
      rw [hwaited] at hnot
      cases hnot
  | some t =>
      rw [hwaited, Option.all_some] at hnot
      obtain ⟨i, -, ht⟩ := Option.bind_eq_some_iff.mp hwaited
      refine Doomed.of_step .proceed rfl ?_
      exact doomed_of_user rfl ht (h.sane t (List.mem_of_getElem? ht)) hnot

/-- No thread is left that serves when the call returns true. -/
theorem doomed_of_endLoop {s s' : TrayHook} {i : ℕ} (hcall : s.call = .startReturn)
    (hthread : s.thread.isSome = true)
    (hothers : (s.threads.eraseIdx i).any UiThread.running = false)
    (hstep : trayStep s (.endLoop i) = some s') : Doomed s' := by
  obtain ⟨t, t', ht, htt', rfl⟩ := uiStep_eq_some.mp hstep
  obtain ⟨-, htt'⟩ := Option.ite_none_right_eq_some.mp htt'
  obtain rfl := Option.some.inj htt'
  have hnone : (s.threads.set i { t with phase := .leaving }).any UiThread.running = false := by
    rw [← Bool.not_eq_true] at hothers ⊢
    intro hany
    obtain ⟨x, hx, hrunning⟩ := List.any_eq_true.mp hany
    obtain ⟨j, hj⟩ := List.mem_iff_getElem?.mp hx
    by_cases hij : i = j
    · subst hij
      rw [List.getElem?_set_self (List.getElem?_eq_some_iff.mp ht).1] at hj
      obtain rfl := Option.some.inj hj
      cases hrunning
    · rw [List.getElem?_set_ne hij] at hj
      refine hothers (List.any_eq_true.mpr ⟨x, ?_, hrunning⟩)
      exact List.mem_eraseIdx_iff_getElem?.mpr ⟨j, Ne.symm hij, hj⟩
  have hproceed : trayStep { s with threads := s.threads.set i { t with phase := .leaving } }
      .proceed = some (TrayHook.returns
        { s with threads := s.threads.set i { t with phase := .leaving } } s.thread.isSome) := by
    change TrayHook.proceed _ = _
    unfold TrayHook.proceed
    rw [hcall]
  refine (doomed_of_faults ?_).of_step .proceed hproceed
  unfold TrayHook.returns TrayHook.served
  rw [hthread, hnone]
  exact List.cons_ne_nil _ _

/-- Each step that is not allowed can be followed to a fault. -/
theorem doomed_of_not_allowed {s s' : TrayHook} {e : TrayEvent}
    (h : trayHook.ReachableBy (fun s e => trayAllowed s e = true) s)
    (hnot : trayAllowed s e = false) (hstep : trayHook.step s e = some s') : Doomed s' := by
  have hinv := System.ReachableBy.invariant trayInv_init trayInv_step h
  unfold trayAllowed at hnot
  split at hnot
  · obtain ⟨-, hstep⟩ := Option.ite_none_right_eq_some.mp hstep
    obtain rfl := Option.some.inj hstep
    rw [Bool.or_assoc, ← served_eq, Bool.or_eq_false_iff, Bool.not_eq_false'] at hnot
    refine doomed_of_faults ?_
    unfold TrayHook.startTrayHook TrayHook.returns
    rw [if_pos hnot.1, hnot.2]
    exact List.cons_ne_nil _ _
  · next i =>
      simp only [Bool.or_eq_false_iff, bne_eq_false_iff_eq] at hnot
      obtain ⟨⟨hcall, hthread⟩, hothers⟩ := hnot
      refine doomed_of_endLoop hcall ?_ hothers hstep
      rw [← Option.not_isNone, hthread, Bool.not_false]
  · exact doomed_of_timeout hinv hnot hstep
  · cases hnot

end DesktopSync.Analysis
