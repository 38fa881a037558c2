import Muduo.Net.EventLoopWakeup

/-!
# `muduo::net::EventLoopThread`

A thread that creates an `EventLoop`, publishes it and runs it, and the object that owns the thread:
`startLoop` waits for the publication and returns the loop, the destructor calls `quit()` on it and
joins. From the return of `startLoop` on, any thread may use the loop.

`threadFunc` publishes the loop before it calls `loop()`, and `loop()` begins with `_quit = false`.

* `EventLoopThread` — the loop with the positions of the two threads; thread 0 of the loop's foreign
  threads is the one that owns the object;
* `ThreadMove`, `step` — the steps of all threads;
* `Entered` — the loop thread has executed `_quit = false`;
* `quit_heeded_iff` — a call of `quit()` is heeded from then on if and only if it comes after that.
-/

namespace Muduo.Net

open Muduo.Lib

/-- Where the new thread is in `threadFunc`. -/
inductive ThreadPc where
  | notStarted
  /-- In `_callback(&loop)`. -/
  | callback
  /-- Before the block that sets `_loop`. -/
  | publish
  /-- From there to the return of `loop.loop()`. -/
  | looping
  /-- Before `_loop = NULL`. -/
  | leaving
  | finished
  deriving DecidableEq

/-- Where the owner of the object is. -/
inductive OwnerPc where
  | idle
  /-- In `startLoop`, at `while (_loop == NULL)`. -/
  | waiting
  /-- `startLoop` has returned the loop. -/
  | returned
  /-- In the destructor, before the test of `_loop`. -/
  | destroying
  /-- About to call `_loop->quit()`. -/
  | quitting
  /-- In `quit()`, about to call `wakeup()`. -/
  | waking
  /-- In `_thread.join()`. -/
  | joining
  | destroyed
  deriving DecidableEq

structure EventLoopThread (F : Type*) where
  loop : EventLoop F
  thread : ThreadPc
  owner : OwnerPc
  /-- `_loop != NULL`. -/
  _loop : Bool
  _exiting : Bool

inductive ThreadMove (F : Type*) where
  /-- `startLoop()` up to the wait. -/
  | start
  /-- The condition of the wait is tested. -/
  | check
  /-- The loop thread goes on. -/
  | advance (active : List Source)
  /-- User code on the loop thread uses the loop. -/
  | user (m : Move F)
  /-- Another thread uses the loop. -/
  | foreign (m : Move F)
  /-- The next step of the destructor. -/
  | destroy

namespace EventLoopThread

variable {F : Type*}

def new : EventLoopThread F := ⟨.new, .notStarted, .idle, false, false⟩

/-- The thread of a move of the loop; `none` for the loop thread. -/
def mover : Move F → Option ℕ
  | .foreignPush t _ | .foreignWakeup t | .foreignQuit t => some t
  | _ => none

/-- A move of user code. -/
def isCall : Move F → Bool
  | .advance _ => false
  | _ => true

def isOutside : LoopPc F → Bool
  | .outside => true
  | _ => false

/-- `startLoop` has returned, and the object is not destroyed. -/
def returned (s : EventLoopThread F) : Bool :=
  s.owner ∉ [OwnerPc.idle, .waiting, .destroyed]

def enabled (s : EventLoopThread F) : ThreadMove F → Bool
  | .start => s.owner = .idle
  | .check => s.owner = .waiting
  | .advance _ => s.thread ≠ .notStarted && s.thread ≠ .finished && !s.loop.waking
  | .user m => mover m = none && isCall m && s.loop.enabled m &&
      (s.thread = .callback || (s.thread = .looping && !isOutside s.loop.pc))
  | .foreign m =>
      match mover m with
      | some t => s.loop.enabled m && s.returned && (t ≠ 0 || s.owner = .returned)
      | none => false
  | .destroy =>
      match s.owner with
      | .returned => s.loop.foreign 0 = .idle
      | .waiting | .destroyed => false
      | .joining => s.thread = .finished
      | _ => true

def advance (s : EventLoopThread F) (active : List Source) : EventLoopThread F :=
  match s.thread with
  | .callback => { s with thread := .publish }
  | .publish => { s with thread := .looping, _loop := true }
  | .looping =>
      -- `loop()` has returned when it is left from its test
      let loop := s.loop.advance active
      { s with loop := loop, thread := if isOutside loop.pc then .leaving else .looping }
  | .leaving => { s with thread := .finished, _loop := false }
  | _ => s

def destroy (s : EventLoopThread F) : EventLoopThread F :=
  match s.owner with
  | .idle => { s with owner := .destroyed, _exiting := true }
  | .returned => { s with owner := .destroying, _exiting := true }
  | .destroying => { s with owner := if s._loop then .quitting else .destroyed }
  | .quitting => { s with owner := .waking, loop := s.loop.perform (.foreignQuit 0) }
  | .waking => { s with owner := .joining, loop := s.loop.perform (.foreignWakeup 0) }
  | .joining => { s with owner := .destroyed }
  | _ => s

def perform (s : EventLoopThread F) : ThreadMove F → EventLoopThread F
  | .start => { s with owner := .waiting, thread := .callback }
  | .check => { s with owner := if s._loop then .returned else .waiting }
  | .advance active => s.advance active
  | .user m => { s with loop := s.loop.perform m }
  | .foreign m => { s with loop := s.loop.perform m }
  | .destroy => s.destroy

def step (s : EventLoopThread F) (m : ThreadMove F) : EventLoopThread F :=
  if s.enabled m then s.perform m else s

/-- The move is a call of `quit()` by another thread, up to the write of `_quit`. -/
def quits (s : EventLoopThread F) (m : ThreadMove F) : Bool :=
  s.enabled m &&
    match m with
    | .foreign (.foreignQuit _) => true
    | .destroy => s.owner = .quitting
    | _ => false

/-- The loop thread has executed `_quit = false`. -/
def Entered (s : EventLoopThread F) : Prop :=
  (s.thread = .looping ∧ isOutside s.loop.pc = false) ∨ s.thread = .leaving ∨ s.thread = .finished

/-- The test of the loop finds `_quit` set, and `poll` is not entered. -/
def Heeds (s : EventLoopThread F) (m : ThreadMove F) : Prop :=
  s.loop.pc = .test → s.loop._quit = true ∧ (s.step m).loop.pc ≠ .poll

/-! ### What holds before the quit -/

/-- The loop has been published. -/
def published : ThreadPc → Bool
  | .looping | .leaving | .finished => true
  | _ => false

structure ThreadInv (s : EventLoopThread F) : Prop where
  mode : EventLoop.ModeInv s.loop
  idle : s.owner = .idle → s.thread = .notStarted
  published : s.returned = true ∨ s._loop = true → published s.thread = true

theorem threadInv_new : ThreadInv (new : EventLoopThread F) where
  mode := EventLoop.modeInv_new
  idle _ := rfl
  published h := by simp [new, returned] at h

theorem isOutside_iff {pc : LoopPc F} : isOutside pc = true ↔ pc = .outside := by
  cases pc <;> simp [isOutside]

theorem modeInv_perform {l : EventLoop F} (h : EventLoop.ModeInv l) {m : Move F}
    (hen : l.enabled m = true) : EventLoop.ModeInv (l.perform m) := by
  have hstep := EventLoop.modeInv_step h m
  rwa [EventLoop.step, if_pos hen] at hstep

section Steps

variable {s : EventLoopThread F}

theorem modeInv_advance (h : EventLoop.ModeInv s.loop) (hwaking : s.loop.waking = false)
    (active : List Source) : EventLoop.ModeInv (s.advance active).loop := by
  unfold advance
  split
  case h_3 => exact modeInv_perform (m := .advance active) h (by simp [EventLoop.enabled, hwaking])
  all_goals exact h

theorem modeInv_destroy (h : EventLoop.ModeInv s.loop) : EventLoop.ModeInv s.destroy.loop := by
  unfold destroy
  split
  all_goals exact ⟨h.calling, h.waking⟩

theorem owner_advance (s : EventLoopThread F) (active : List Source) :
    (s.advance active).owner = s.owner := by
  unfold advance
  split <;> rfl

/-- The positions of the two threads, when the loop thread goes on. -/
theorem threadInv_advance (h : ThreadInv s) {active : List Source}
    (hen : s.enabled (.advance active) = true) : ThreadInv (s.advance active) := by
  simp only [enabled, Bool.and_eq_true, decide_eq_true_eq, Bool.not_eq_true'] at hen
  refine ⟨modeInv_advance h.mode hen.2 active, fun hidle => ?_, ?_⟩
  · rw [owner_advance] at hidle
    exact absurd (h.idle hidle) hen.1.1
  · rw [returned, owner_advance]
    unfold advance
    split
    case h_1 hpc =>
      exact fun hpub => absurd (h.published hpub) (by simp [hpc, EventLoopThread.published])
    case h_2 => exact fun _ => rfl
    case h_3 =>
      intro _
      dsimp only
      split <;> rfl
    case h_4 => exact fun _ => rfl
    case h_5 => exact h.published

/-- The destructor does not make the loop known to anybody. -/
theorem destroy_keeps (s : EventLoopThread F) :
    s.destroy.thread = s.thread ∧ s.destroy._loop = s._loop ∧
    (s.destroy.owner = .idle → s.owner = .idle) ∧
    (s.destroy.returned = true → s.returned = true) := by
  unfold destroy
  split <;> rename_i howner
  case h_3 => cases s._loop <;> simp [returned, howner]
  all_goals simp [returned, howner]

theorem threadInv_step (h : ThreadInv s) (m : ThreadMove F) : ThreadInv (s.step m) := by
  unfold step
  split
  swap
  · exact h
  rename_i hen
  cases m with
  | start =>
      have hstart : s.owner = .idle := by simpa [enabled] using hen
      refine ⟨h.mode, fun hidle => (nomatch hidle), fun hpub => ?_⟩
      -- not published: the thread has not been started
      have hloop : s._loop = true := hpub.resolve_left (by simp [perform, returned])
      have hnot := h.published (Or.inr hloop)
      rw [h.idle hstart] at hnot
      cases hnot
  | check =>
      refine ⟨h.mode, ?_, fun hpub => ?_⟩
      · simp only [perform]
        split <;> exact fun hidle => (nomatch hidle)
      · cases hloop : s._loop with
        | true => exact h.published (Or.inr hloop)
        | false => simp [perform, returned, hloop] at hpub
  | advance active => exact threadInv_advance h hen
  | user m =>
      simp only [enabled, Bool.and_eq_true] at hen
      exact ⟨modeInv_perform h.mode hen.1.2, h.idle, h.published⟩
  | foreign m =>
      have hen' : s.loop.enabled m = true := by
        simp only [enabled] at hen
        split at hen
        · simp only [Bool.and_eq_true] at hen
          exact hen.1.1
        · cases hen
      exact ⟨modeInv_perform h.mode hen', h.idle, h.published⟩
  | destroy =>
      obtain ⟨hthread, hloop, hidle, hret⟩ := destroy_keeps s
      refine ⟨modeInv_destroy h.mode, fun ho => hthread.trans (h.idle (hidle ho)), fun hpub => ?_⟩
      rw [perform, hthread]
      exact h.published (hpub.imp hret fun hl => hloop.symm.trans hl)

theorem threadInv_exec (run : List (ThreadMove F)) :
    ThreadInv (exec step (new : EventLoopThread F) run) :=
  exec_invariant ThreadInv (fun _ m hs => threadInv_step hs m) run threadInv_new

/-! ### What the quit does -/

/-- Only the beginning of `loop()` takes a quit back. -/
theorem quit_loop_advance {l : EventLoop F} (hquit : l._quit = true) (hpc : isOutside l.pc = false)
    (active : List Source) : (l.advance active)._quit = true := by
  unfold EventLoop.advance
  split
  case h_1 h => simp [h, isOutside] at hpc
  all_goals exact hquit

/-- A call from user code leaves the loop thread where it is, and does not take a quit back. -/
theorem perform_call (l : EventLoop F) {m : Move F} (hm : isCall m = true) :
    (l.perform m).pc = l.pc ∧ (l._quit = true → (l.perform m)._quit = true) := by
  cases m with
  | advance active => cases hm
  | quit => exact ⟨rfl, fun _ => rfl⟩
  | foreignQuit t => exact ⟨rfl, fun _ => rfl⟩
  | push f => exact ⟨rfl, id⟩
  | wakeup => exact ⟨rfl, id⟩
  | foreignPush t f => exact ⟨rfl, id⟩
  | foreignWakeup t => exact ⟨rfl, id⟩

theorem isCall_of_mover {m : Move F} {t : ℕ} (h : mover m = some t) : isCall m = true := by
  cases m <;> first | rfl | cases h

/-- The steps of the other threads and of user code: the loop thread does not move, and a quit
stays. -/
theorem step_other (s : EventLoopThread F) {m : ThreadMove F} (hm : ∀ active, m ≠ .advance active)
    (hstart : m = .start → s.enabled m = false) :
    (s.step m).thread = s.thread ∧ (s.step m).loop.pc = s.loop.pc ∧
      (s.loop._quit = true → (s.step m).loop._quit = true) := by
  unfold step
  split
  swap
  · exact ⟨rfl, rfl, id⟩
  rename_i hen
  cases m with
  | start =>
      rw [hstart rfl] at hen
      cases hen
  | advance active => exact absurd rfl (hm active)
  | check => exact ⟨rfl, rfl, id⟩
  | user m =>
      simp only [enabled, Bool.and_eq_true] at hen
      exact ⟨rfl, perform_call s.loop hen.1.1.2⟩
  | foreign m =>
      simp only [enabled] at hen
      split at hen
      · rename_i hmover
        exact ⟨rfl, perform_call s.loop (isCall_of_mover hmover)⟩
      · cases hen
  | destroy =>
      refine ⟨(destroy_keeps s).1, ?_⟩
      simp only [perform, destroy]
      split <;> first | exact ⟨rfl, fun _ => rfl⟩ | exact ⟨rfl, id⟩

/-- The loop has been entered, and it is to quit. -/
structure Quitting (s : EventLoopThread F) : Prop where
  inv : ThreadInv s
  entered : Entered s
  quit : s.loop._quit = true

theorem Entered.not_idle (h : Entered s) (hinv : ThreadInv s) : s.owner ≠ .idle := by
  intro hidle
  rw [Entered, hinv.idle hidle] at h
  simp at h

theorem Quitting.start_disabled (h : Quitting s) (m : ThreadMove F) (hm : m = .start) :
    s.enabled m = false := by
  subst hm
  simpa [enabled] using h.entered.not_idle h.inv

/-- A loop thread that has entered its loop does not reset `_quit` any more. -/
theorem quitting_advance (h : Quitting s) (active : List Source) :
    Entered (s.advance active) ∧ (s.advance active).loop._quit = true := by
  rcases h.entered with ⟨hthread, hpc⟩ | hthread | hthread
  · simp only [advance, hthread]
    refine ⟨?_, quit_loop_advance h.quit hpc active⟩
    cases hout : isOutside (s.loop.advance active).pc with
    | true => exact Or.inr (Or.inl rfl)
    | false => exact Or.inl ⟨rfl, hout⟩
  · simp only [advance, hthread]
    exact ⟨Or.inr (Or.inr rfl), h.quit⟩
  · simp only [advance, hthread]
    exact ⟨h.entered, h.quit⟩

theorem quitting_step (s : EventLoopThread F) (m : ThreadMove F) (h : Quitting s) :
    Quitting (s.step m) := by
  have hinv := threadInv_step h.inv m
  by_cases hm : ∃ active, m = .advance active
  · obtain ⟨active, rfl⟩ := hm
    unfold step at hinv ⊢
    split
    · rename_i hen
      rw [if_pos hen] at hinv
      obtain ⟨hentered, hquit⟩ := quitting_advance h active
      exact ⟨hinv, hentered, hquit⟩
    · exact h
  · obtain ⟨hthread, hpc, hquit⟩ :=
      step_other s (fun active ha => hm ⟨active, ha⟩) (h.start_disabled m)
    refine ⟨hinv, ?_, hquit h.quit⟩
    rw [Entered, hthread, hpc]
    exact h.entered

/-- The next test ends the loop. -/
theorem Quitting.heeds (h : Quitting s) (m : ThreadMove F) : Heeds s m := by
  intro hpc
  refine ⟨h.quit, ?_⟩
  by_cases hm : ∃ active, m = .advance active
  · obtain ⟨active, rfl⟩ := hm
    unfold step
    split
    · simp only [perform, advance]
      split
      case h_3 => simp [EventLoop.advance, hpc, h.quit]
      all_goals simp [hpc]
    · simp [hpc]
  · obtain ⟨-, hsame, -⟩ := step_other s (fun active ha => hm ⟨active, ha⟩) (h.start_disabled m)
    rw [hsame, hpc]
    simp

/-- A quit is a step of another thread, made once the loop is known. -/
theorem quits_step (hinv : ThreadInv s) {q : ThreadMove F} (hq : s.quits q = true) :
    published s.thread = true ∧ (s.step q).thread = s.thread ∧ (s.step q).loop.pc = s.loop.pc ∧
      (s.step q).loop._quit = true := by
  simp only [quits, Bool.and_eq_true] at hq
  obtain ⟨hen, hkind⟩ := hq
  have hret : s.returned = true := by
    cases q with
    | foreign m =>
        simp only [enabled] at hen
        split at hen
        · simp only [Bool.and_eq_true] at hen
          exact hen.1.2
        · cases hen
    | destroy =>
        have howner : s.owner = .quitting := by simpa using hkind
        simp [returned, howner]
    | _ => cases hkind
  obtain ⟨hthread, hpc, -⟩ := step_other s (m := q) (by rintro active rfl; cases hkind)
    (by rintro rfl; cases hkind)
  refine ⟨hinv.published (Or.inl hret), hthread, hpc, ?_⟩
  rw [step, if_pos hen]
  cases q with
  | foreign m => cases m <;> first | rfl | cases hkind
  | destroy =>
      have howner : s.owner = .quitting := by simpa using hkind
      simp only [perform, destroy, howner]
      rfl
  | _ => cases hkind

/-- Before `_quit = false`, the loop thread has two steps to make to the first test. -/
theorem not_heeds_outside (hthread : s.thread = .looping) (hpc : s.loop.pc = .outside)
    (hwaking : s.loop.waking = false) : ¬ Along step Heeds s [.advance [], .advance []] := by
  rintro ⟨-, hheeds, -⟩
  have hstep : s.step (.advance []) = { s with
      loop := { s.loop with pc := .test, _quit := false } } := by
    simp [step, enabled, perform, advance, EventLoop.advance, hthread, hpc, hwaking, isOutside]
  rw [hstep] at hheeds
  exact absurd (hheeds rfl).1 (by simp)

end Steps

/-- **When a quit is heeded.**  For every run and every call of `quit()` on the returned loop, by
any other thread or by the destructor: in every continuation each test of the loop finds `_quit`
set and no `poll` is entered, if and only if the loop thread had executed `_quit = false` when
`quit()` was called. -/
theorem quit_heeded_iff (before : List (ThreadMove F)) (q : ThreadMove F)
    (hq : (exec step (new : EventLoopThread F) before).quits q = true) :
    (∀ after, Along step Heeds ((exec step new before).step q) after) ↔
    Entered (exec step new before) := by
  have hinv := threadInv_exec (F := F) before
  obtain ⟨hpub, hthread, hpc, hquit⟩ := quits_step hinv hq
  constructor
  · intro hall
    by_contra hnot
    -- the loop is published and not entered: the loop thread is between the two
    have hlooping : (exec step new before).thread = .looping := by
      cases ht : (exec step (new : EventLoopThread F) before).thread with
      | looping => rfl
      | leaving => exact absurd (Or.inr (Or.inl ht)) hnot
      | finished => exact absurd (Or.inr (Or.inr ht)) hnot
      | _ => simp [ht, published] at hpub
    have hout : (exec step (new : EventLoopThread F) before).loop.pc = .outside := by
      rw [← isOutside_iff]
      by_contra hin
      exact hnot (Or.inl ⟨hlooping, by simpa using hin⟩)
    have hmode := (threadInv_step hinv q).mode
    refine not_heeds_outside (hthread.trans hlooping) (hpc.trans hout) ?_ (hall _)
    by_contra hwaking
    have hcalling := hmode.waking (by simpa using hwaking)
    rw [hmode.calling, hpc, hout] at hcalling
    cases hcalling
  · intro hentered after
    have hstart : Quitting ((exec step new before).step q) := by
      refine ⟨threadInv_step hinv q, ?_, hquit⟩
      rw [Entered, hthread, hpc]
      exact hentered
    exact along_of_invariant Quitting quitting_step (fun _ m h => h.heeds m) hstart after

/-- `startLoop` returns while the loop thread has not yet called `loop()`. -/
def early : List (ThreadMove Unit) := [.start, .advance [], .advance [], .check]

/-- The loop thread makes its next step as well: the first one of `loop()`. -/
def late : List (ThreadMove Unit) := [.start, .advance [], .advance [], .check, .advance []]

/-- Another thread calls `quit()`. -/
def otherQuit : ThreadMove Unit := .foreign (.foreignQuit 1)

/-- A quit that comes after `_quit = false` is heeded. -/
theorem quit_heeded_late : (exec step new late).quits otherQuit = true ∧
    ∀ after, Along step Heeds ((exec step new late).step otherQuit) after := by
  have hq : (exec step new late).quits otherQuit = true := by decide
  exact ⟨hq, (quit_heeded_iff late otherQuit hq).mpr (Or.inl (by decide))⟩

/-- A quit that comes before is lost: the first test finds `_quit` false and the loop goes on to
`poll`. -/
theorem quit_lost : (exec step new early).quits otherQuit = true ∧
    (exec step new (early ++ [otherQuit, .advance []])).loop.pc = .test ∧
    (exec step new (early ++ [otherQuit, .advance []])).loop._quit = false ∧
    (exec step new (early ++ [otherQuit, .advance [], .advance []])).loop.pc = .poll := by
  decide

end EventLoopThread

end Muduo.Net
