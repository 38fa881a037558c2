import Muduo.Lib.Monitor
import Muduo.Lib.Runs

/-!
# `muduo::ThreadPool`

The workers `ω` of a started pool and any number of other threads `τ`, interleaved at every access
to the mutex, to `_running`, to the queue and to the two conditions.  Whoever is in user code may
call `run`: another thread, and also a worker in a task or in its init callback.  The other
threads may call `stop`.

* `PoolPhase` — where a thread is; `PoolLabel`, `step` — one step of one thread;
* `Inner`, `Release`, `PoolTrans`, `trans_step` — what a step can do;
* `Guarded` — mutual exclusion, and what is true of a thread in its phase; `run_assert` — the
  assertion of `run` never fails.
-/

namespace Muduo.Base

open Muduo.Lib

/-- The stages of `run` and of `take`. -/
inductive Stage where
  /-- Before the constructor of the lock guard has the mutex. -/
  | entering
  /-- At the condition of the `while`. -/
  | testing
  /-- In `wait()`, not yet notified. -/
  | waiting
  /-- In `wait()`, notified, without the mutex. -/
  | woken
  /-- Behind the `while`. -/
  | ready
  /-- Before `notify()`. -/
  | notifying
  /-- Before the destructor of the lock guard. -/
  | leaving
  deriving DecidableEq

inductive StopStage where
  | entering
  /-- Before `_running = false`. -/
  | clearing
  /-- Before `_not_empty.notifyAll()`. -/
  | notifying
  | leaving
  /-- In the loop over `_threads`. -/
  | joining
  deriving DecidableEq

inductive PoolPhase (α : Type*) where
  /-- In user code; of a worker, in a task or in the init callback. -/
  | user
  /-- A worker at `while (_running)`. -/
  | test
  /-- A worker that has left `runInThread`. -/
  | exited
  | run (task : α) (stage : Stage)
  | take (stage : Stage)
  /-- At the end of a `take` that has found no task. -/
  | missed
  | stop (stage : StopStage)
  deriving DecidableEq

structure ThreadPool (α ω τ : Type*) where
  _queue_capacity : ℕ
  _queue : List α
  _running : Bool
  _mutex : Option (ω ⊕ τ)
  phase : ω ⊕ τ → PoolPhase α
  /-- A call of `stop` has made its notification. -/
  stopped : Bool
  /-- The assertion of `run` has failed. -/
  failed : Bool

inductive PoolLabel (α ω τ : Type*) where
  | run (t : ω ⊕ τ) (task : α)
  | stop (t : τ)
  /-- A task or the init callback of a worker returns. -/
  | finish (w : ω)
  /-- A thread gets the mutex. -/
  | lock (t : ω ⊕ τ)
  /-- A thread goes on. -/
  | advance (t : ω ⊕ τ)
  /-- A thread notifies; `u` is the waiter that the notification reaches. -/
  | notify (t u : ω ⊕ τ)
  | spurious (t : ω ⊕ τ)

namespace PoolPhase

variable {α : Type*}

def holds : PoolPhase α → Bool
  | .run _ .testing | .run _ .ready | .run _ .notifying | .run _ .leaving => true
  | .take .testing | .take .ready | .take .notifying | .take .leaving => true
  | .missed => true
  | .stop .clearing | .stop .notifying | .stop .leaving => true
  | _ => false

/-- Waiting on `_not_full`. -/
def waitsPlace : PoolPhase α → Bool
  | .run _ .waiting => true
  | _ => false

/-- Waiting on `_not_empty`. -/
def waitsTask : PoolPhase α → Bool
  | .take .waiting => true
  | _ => false

/-- In `take`, before the queue has been looked at for the last time. -/
def inTake : PoolPhase α → Bool
  | .take .entering | .take .testing | .take .waiting | .take .woken | .take .ready => true
  | _ => false

/-- About to notify `_not_full`. -/
def notifiesPlace : PoolPhase α → Bool
  | .take .notifying => true
  | _ => false

/-- In `runInThread`, outside user code. -/
def works : PoolPhase α → Bool
  | .test | .exited | .take _ | .missed => true
  | _ => false

def gone : PoolPhase α → Bool
  | .exited => true
  | _ => false

/-- Where a thread is when the mutex that it asks for has been given to it. -/
def locked : PoolPhase α → Option (PoolPhase α)
  | .run task .entering | .run task .woken => some (.run task .testing)
  | .take .entering | .take .woken => some (.take .testing)
  | .stop .entering => some (.stop .clearing)
  | _ => none

/-- Woken up, by a notification or without reason. -/
def wakeUp : PoolPhase α → PoolPhase α
  | .run task .waiting => .run task .woken
  | .take .waiting => .take .woken
  | p => p

/-- Woken up if it waits for a task. -/
def wakeWorker : PoolPhase α → PoolPhase α
  | .take .waiting => .take .woken
  | p => p

theorem holds_wakeUp (p : PoolPhase α) : p.wakeUp.holds = p.holds := by
  unfold wakeUp
  split <;> rfl

theorem holds_wakeWorker (p : PoolPhase α) : p.wakeWorker.holds = p.holds := by
  unfold wakeWorker
  split <;> rfl

theorem not_holds_of_waitsTask {p : PoolPhase α} (h : p.waitsTask = true) : p.holds = false := by
  unfold waitsTask at h
  split at h
  · rfl
  · cases h

theorem not_holds_of_waitsPlace {p : PoolPhase α} (h : p.waitsPlace = true) : p.holds = false := by
  unfold waitsPlace at h
  split at h
  · rfl
  · cases h

end PoolPhase

namespace ThreadPool

variable {α ω τ : Type*}

/-- A pool of which `start` has returned. -/
def started (capacity : ℕ) : ThreadPool α ω τ where
  _queue_capacity := capacity
  _queue := []
  _running := true
  _mutex := none
  phase := fun _ => .user
  stopped := false
  failed := false

def isFull (s : ThreadPool α ω τ) : Bool :=
  0 < s._queue_capacity && s._queue_capacity ≤ s._queue.length

section Step

variable [DecidableEq ω] [DecidableEq τ]

def setPhase (s : ThreadPool α ω τ) (t : ω ⊕ τ) (p : PoolPhase α) : ThreadPool α ω τ :=
  { s with phase := Function.update s.phase t p }

/-- The pop of `take`; a task that has been taken is followed by a notification only if there is a
bound. -/
def pop (s : ThreadPool α ω τ) (t : ω ⊕ τ) (rest : List α) : ThreadPool α ω τ :=
  { s.setPhase t (if 0 < s._queue_capacity then .take .notifying else .take .leaving) with
    _queue := rest }

def push (s : ThreadPool α ω τ) (t : ω ⊕ τ) (task : α) : ThreadPool α ω τ :=
  { s.setPhase t (.run task .notifying) with
    _queue := s._queue ++ [task], failed := s.failed || s.isFull }

/-- `_not_empty.notifyAll()` in `stop`. -/
def notifyAll (s : ThreadPool α ω τ) (t : ω ⊕ τ) : ThreadPool α ω τ :=
  { s with
    phase := Function.update (PoolPhase.wakeWorker ∘ s.phase) t (.stop .leaving)
    stopped := true }

variable [Fintype ω]

/-- The next step of a thread that does not wait for the mutex or for a notification. -/
def advance (s : ThreadPool α ω τ) (t : ω ⊕ τ) : ThreadPool α ω τ :=
  match s.phase t with
  | .test => s.setPhase t (if s._running then .take .entering else .exited)
  | .run task .testing =>
      if s.isFull then { s.setPhase t (.run task .waiting) with _mutex := none }
      else s.setPhase t (.run task .ready)
  | .run task .ready => s.push t task
  | .run _ .leaving => { s.setPhase t .user with _mutex := none }
  | .take .testing =>
      if s._queue.isEmpty && s._running then { s.setPhase t (.take .waiting) with _mutex := none }
      else s.setPhase t (.take .ready)
  | .take .ready =>
      match s._queue with
      | _ :: rest => s.pop t rest
      | [] => s.setPhase t .missed
  | .take .leaving => { s.setPhase t .user with _mutex := none }
  | .missed => { s.setPhase t .test with _mutex := none }
  | .stop .clearing => { s.setPhase t (.stop .notifying) with _running := false }
  | .stop .notifying => s.notifyAll t
  | .stop .leaving => { s.setPhase t (.stop .joining) with _mutex := none }
  | .stop .joining => if ∀ w, (s.phase (.inl w)).gone = true then s.setPhase t .user else s
  | _ => s

variable [Fintype τ]

/-- `notify()`: it reaches a waiter if there is one. -/
def deliver (s : ThreadPool α ω τ) (waits : PoolPhase α → Bool) (t u : ω ⊕ τ) (next : PoolPhase α) :
    ThreadPool α ω τ :=
  if waits (s.phase u) then (s.setPhase u (s.phase u).wakeUp).setPhase t next
  else if ∃ v, waits (s.phase v) = true then s
  else s.setPhase t next

/-- `_not_empty.notify()` in `run`, `_not_full.notify()` in `take`. -/
def notify (s : ThreadPool α ω τ) (t u : ω ⊕ τ) : ThreadPool α ω τ :=
  match s.phase t with
  | .run task .notifying => s.deliver PoolPhase.waitsTask t u (.run task .leaving)
  | .take .notifying => s.deliver PoolPhase.waitsPlace t u (.take .leaving)
  | _ => s

def step (s : ThreadPool α ω τ) : PoolLabel α ω τ → ThreadPool α ω τ
  | .run t task =>
      match s.phase t with
      -- without workers the caller does the task
      | .user => if Fintype.card ω = 0 then s else s.setPhase t (.run task .entering)
      | _ => s
  | .stop t =>
      match s.phase (.inr t) with
      | .user => s.setPhase (.inr t) (.stop .entering)
      | _ => s
  | .finish w =>
      match s.phase (.inl w) with
      | .user => s.setPhase (.inl w) .test
      | _ => s
  | .lock t =>
      match (s.phase t).locked, s._mutex with
      | some p, none => { s.setPhase t p with _mutex := some t }
      | _, _ => s
  | .advance t => s.advance t
  | .notify t u => s.notify t u
  | .spurious t => s.setPhase t (s.phase t).wakeUp

end Step

/-! ### What a step can do -/

/-- The steps of one thread that change nothing but its phase. -/
inductive Inner (s : ThreadPool α ω τ) (t : ω ⊕ τ) : PoolPhase α → PoolPhase α → Prop where
  | run (task : α) : Inner s t .user (.run task .entering)
  | stop : Inner s t .user (.stop .entering)
  | finish (h : t.isLeft = true) : Inner s t .user .test
  | enter (h : s._running = true) : Inner s t .test (.take .entering)
  | exit : Inner s t .test .exited
  | place (task : α) (h : s.isFull = false) : Inner s t (.run task .testing) (.run task .ready)
  | task : Inner s t (.take .testing) (.take .ready)
  | miss (h : s._queue = []) : Inner s t (.take .ready) .missed
  | joined : Inner s t (.stop .joining) .user
  | unheardTask (task : α) : Inner s t (.run task .notifying) (.run task .leaving)
  | unheardPlace (h : ∀ u, (s.phase u).waitsPlace = false) :
      Inner s t (.take .notifying) (.take .leaving)
  | wakeUp (p : PoolPhase α) : Inner s t p p.wakeUp

/-- The steps that give the mutex back and change nothing else. -/
inductive Release (s : ThreadPool α ω τ) : PoolPhase α → PoolPhase α → Prop where
  | waitPlace (task : α) (h : s.isFull = true) : Release s (.run task .testing) (.run task .waiting)
  | waitTask (h : s._running = true) : Release s (.take .testing) (.take .waiting)
  | leaveRun (task : α) : Release s (.run task .leaving) .user
  | leaveTake : Release s (.take .leaving) .user
  | leaveMissed : Release s .missed .test
  | leaveStop : Release s (.stop .leaving) (.stop .joining)

section Trans

variable [DecidableEq ω] [DecidableEq τ]

/-- What one step can do; `l` is the label of the step where this matters. -/
inductive PoolTrans (s : ThreadPool α ω τ) (l : PoolLabel α ω τ) : ThreadPool α ω τ → Prop where
  | stay : PoolTrans s l s
  | inner {t : ω ⊕ τ} {p : PoolPhase α} (h : Inner s t (s.phase t) p) :
      PoolTrans s l (s.setPhase t p)
  | release {t : ω ⊕ τ} {p : PoolPhase α} (hl : l = .advance t) (h : Release s (s.phase t) p) :
      PoolTrans s l { s.setPhase t p with _mutex := none }
  | lock {t : ω ⊕ τ} {p : PoolPhase α} (h : (s.phase t).locked = some p) (hfree : s._mutex = none) :
      PoolTrans s l { s.setPhase t p with _mutex := some t }
  | push {t : ω ⊕ τ} {task : α} (h : s.phase t = .run task .ready) : PoolTrans s l (s.push t task)
  | pop {t : ω ⊕ τ} {task : α} {rest : List α} (h : s.phase t = .take .ready)
      (hqueue : s._queue = task :: rest) : PoolTrans s l (s.pop t rest)
  | clear {t : ω ⊕ τ} (hl : l = .advance t) (h : s.phase t = .stop .clearing) :
      PoolTrans s l { s.setPhase t (.stop .notifying) with _running := false }
  | notifyAll {t : ω ⊕ τ} (h : s.phase t = .stop .notifying) : PoolTrans s l (s.notifyAll t)
  | heardTask {t u : ω ⊕ τ} {task : α} (h : s.phase t = .run task .notifying)
      (hu : (s.phase u).waitsTask = true) :
      PoolTrans s l ((s.setPhase u (s.phase u).wakeUp).setPhase t (.run task .leaving))
  | heardPlace {t u : ω ⊕ τ} (h : s.phase t = .take .notifying)
      (hu : (s.phase u).waitsPlace = true) :
      PoolTrans s l ((s.setPhase u (s.phase u).wakeUp).setPhase t (.take .leaving))

variable [Fintype ω]

theorem trans_advance (s : ThreadPool α ω τ) (t : ω ⊕ τ) :
    PoolTrans s (.advance t) (s.advance t) := by
  unfold advance
  split <;> rename_i hp
  · cases hr : s._running with
    | true => exact .inner (hp ▸ .enter hr)
    | false => exact .inner (hp ▸ .exit)
  · split <;> rename_i hfull
    · exact .release rfl (hp ▸ .waitPlace _ hfull)
    · exact .inner (hp ▸ .place _ (Bool.eq_false_of_not_eq_true hfull))
  · exact .push hp
  · exact .release rfl (hp ▸ .leaveRun _)
  · split <;> rename_i hblocked
    · exact .release rfl (hp ▸ .waitTask (Bool.and_elim_right hblocked))
    · exact .inner (hp ▸ .task)
  · split <;> rename_i hqueue
    · exact .pop hp hqueue
    · exact .inner (hp ▸ .miss hqueue)
  · exact .release rfl (hp ▸ .leaveTake)
  · exact .release rfl (hp ▸ .leaveMissed)
  · exact .clear rfl hp
  · exact .notifyAll hp
  · exact .release rfl (hp ▸ .leaveStop)
  · split
    · exact .inner (hp ▸ .joined)
    · exact .stay
  · exact .stay

variable [Fintype τ]

theorem trans_notify (s : ThreadPool α ω τ) (l : PoolLabel α ω τ) (t u : ω ⊕ τ) :
    PoolTrans s l (s.notify t u) := by
  unfold notify
  split <;> rename_i hp
  · unfold deliver
    split
    · rename_i hu
      exact .heardTask hp hu
    · split
      · exact .stay
      · exact .inner (hp ▸ .unheardTask _)
  · unfold deliver
    split
    · rename_i hu
      exact .heardPlace hp hu
    · split
      · exact .stay
      · rename_i hnone
        exact .inner (hp ▸ .unheardPlace (by simpa using hnone))
  · exact .stay

theorem trans_step (s : ThreadPool α ω τ) (l : PoolLabel α ω τ) : PoolTrans s l (s.step l) := by
  cases l with
  | run t task =>
      simp only [step]
      split <;> rename_i hp
      · split
        · exact .stay
        · exact .inner (hp ▸ .run task)
      · exact .stay
  | stop t =>
      simp only [step]
      split <;> rename_i hp
      · exact .inner (hp ▸ .stop)
      · exact .stay
  | finish w =>
      simp only [step]
      split <;> rename_i hp
      · exact .inner (hp ▸ .finish rfl)
      · exact .stay
  | lock t =>
      simp only [step]
      split
      · rename_i hp hfree
        exact .lock hp hfree
      · exact .stay
  | advance t => exact trans_advance s t
  | notify t u => exact trans_notify s _ t u
  | spurious t => exact .inner (.wakeUp _)

end Trans

/-! ### Mutual exclusion -/

/-- What is true of a thread in the phase `p`. -/
structure Fits (s : ThreadPool α ω τ) (t : ω ⊕ τ) (p : PoolPhase α) : Prop where
  worker : p.works = true → t.isLeft = true
  bounded : p.waitsPlace = true → 0 < s._queue_capacity
  ready : ∀ task, p = .run task .ready → s.isFull = false
  closing : p = .stop .notifying → s._running = false

structure Guarded (s : ThreadPool α ω τ) : Prop where
  mutex : Owned PoolPhase.holds s.phase s._mutex
  fits : ∀ t, Fits s t (s.phase t)
  asserts : s.failed = false
  stopped : s.stopped = true → s._running = false

theorem guarded_started (capacity : ℕ) : Guarded (started capacity : ThreadPool α ω τ) where
  mutex t := by simp [started, PoolPhase.holds]
  fits t := ⟨nofun, nofun, nofun, nofun⟩
  asserts := rfl
  stopped := nofun

section Phases

variable {s : ThreadPool α ω τ} {t : ω ⊕ τ} {p p' : PoolPhase α}

theorem Inner.holds (h : Inner s t p p') : p'.holds = p.holds := by
  cases h with
  | wakeUp => exact p.holds_wakeUp
  | _ => rfl

theorem Fits.wakeUp (h : Fits s t p) : Fits s t p.wakeUp := by
  unfold PoolPhase.wakeUp
  split
  · exact ⟨nofun, nofun, nofun, nofun⟩
  · exact ⟨fun _ => h.worker rfl, nofun, nofun, nofun⟩
  · exact h

theorem Fits.wakeWorker (h : Fits s t p) : Fits s t p.wakeWorker := by
  unfold PoolPhase.wakeWorker
  split
  · exact ⟨fun _ => h.worker rfl, nofun, nofun, nofun⟩
  · exact h

theorem Fits.inner (h : Fits s t p) (hi : Inner s t p p') : Fits s t p' := by
  cases hi with
  | finish hleft => exact ⟨fun _ => hleft, nofun, nofun, nofun⟩
  | place task hfull => exact ⟨nofun, nofun, fun _ _ => hfull, nofun⟩
  | enter | exit | task | miss | unheardPlace => exact ⟨fun _ => h.worker rfl, nofun, nofun, nofun⟩
  | run | stop | joined | unheardTask => exact ⟨nofun, nofun, nofun, nofun⟩
  | wakeUp => exact h.wakeUp

theorem Release.holds (h : Release s p p') : p.holds = true ∧ p'.holds = false := by
  cases h <;> exact ⟨rfl, rfl⟩

theorem Fits.release (h : Fits s t p) (hr : Release s p p') : Fits s t p' := by
  cases hr with
  | waitPlace task hfull =>
      have hpos : 0 < s._queue_capacity := by
        simp only [isFull, Bool.and_eq_true, decide_eq_true_eq] at hfull
        exact hfull.1
      exact ⟨nofun, fun _ => hpos, nofun, nofun⟩
  | waitTask | leaveMissed => exact ⟨fun _ => h.worker rfl, nofun, nofun, nofun⟩
  | leaveRun | leaveTake | leaveStop => exact ⟨nofun, nofun, nofun, nofun⟩

theorem Fits.locked (h : Fits s t p) (hl : p.locked = some p') : p'.holds = true ∧ Fits s t p' := by
  unfold PoolPhase.locked at hl
  split at hl <;> cases hl
  · exact ⟨rfl, nofun, nofun, nofun, nofun⟩
  · exact ⟨rfl, nofun, nofun, nofun, nofun⟩
  · exact ⟨rfl, fun _ => h.worker rfl, nofun, nofun, nofun⟩
  · exact ⟨rfl, fun _ => h.worker rfl, nofun, nofun, nofun⟩
  · exact ⟨rfl, nofun, nofun, nofun, nofun⟩

end Phases

section Guarded

variable [DecidableEq ω] [DecidableEq τ] {s : ThreadPool α ω τ}

/-- One thread moves. -/
theorem Guarded.setPhase (h : Guarded s) {t : ω ⊕ τ} {p : PoolPhase α} {mutex : Option (ω ⊕ τ)}
    (hmutex : Owned PoolPhase.holds (Function.update s.phase t p) mutex) (hfits : Fits s t p) :
    Guarded { s.setPhase t p with _mutex := mutex } where
  mutex := hmutex
  fits u := by
    have hu := (Function.forall_update_iff s.phase (Fits s)).mpr ⟨hfits, fun v _ => h.fits v⟩ u
    exact ⟨hu.worker, hu.bounded, hu.ready, hu.closing⟩
  asserts := h.asserts
  stopped := h.stopped

theorem Guarded.inner (h : Guarded s) {t : ω ⊕ τ} {p : PoolPhase α} (hi : Inner s t (s.phase t) p) :
    Guarded (s.setPhase t p) :=
  h.setPhase (h.mutex.keep hi.holds) ((h.fits t).inner hi)

/-- The thread that holds the mutex may change the queue: nobody else is behind the `while` of
`run`. -/
theorem Guarded.setQueue (h : Guarded s) {t : ω ⊕ τ} {p : PoolPhase α}
    (hold : (s.phase t).holds = true)
    (hp : p.holds = true) (hfits : ∀ s' : ThreadPool α ω τ, Fits s' t p) (queue : List α) :
    Guarded { s.setPhase t p with _queue := queue } where
  mutex := h.mutex.keep (hp.trans hold.symm)
  fits := by
    refine (Function.forall_update_iff s.phase _).mpr ⟨hfits _, fun u hut => ?_⟩
    refine ⟨(h.fits u).worker, (h.fits u).bounded, fun task hu => ?_, (h.fits u).closing⟩
    exact absurd (h.mutex.eq_of_holds (by rw [hu]; rfl) hold) hut
  asserts := h.asserts
  stopped := h.stopped

theorem Guarded.push (h : Guarded s) {t : ω ⊕ τ} {task : α} (hp : s.phase t = .run task .ready) :
    Guarded (s.push t task) := by
  have hroom : (s.failed || s.isFull) = false := by rw [h.asserts, (h.fits t).ready task hp]; rfl
  have hnew := h.setQueue (p := .run task .notifying) (by rw [hp]; rfl) rfl
    (fun _ => ⟨nofun, nofun, nofun, nofun⟩) (s._queue ++ [task])
  exact ⟨hnew.mutex, fun u => ⟨(hnew.fits u).worker, (hnew.fits u).bounded, (hnew.fits u).ready,
    (hnew.fits u).closing⟩, hroom, hnew.stopped⟩

theorem Guarded.pop (h : Guarded s) {t : ω ⊕ τ} (hp : s.phase t = .take .ready) (rest : List α) :
    Guarded (s.pop t rest) := by
  have hold : (s.phase t).holds = true := by rw [hp]; rfl
  have hworker : t.isLeft = true := (h.fits t).worker (by rw [hp]; rfl)
  unfold ThreadPool.pop
  split
  · exact h.setQueue (p := .take .notifying) hold rfl
      (fun _ => ⟨fun _ => hworker, nofun, nofun, nofun⟩) rest
  · exact h.setQueue (p := .take .leaving) hold rfl
      (fun _ => ⟨fun _ => hworker, nofun, nofun, nofun⟩) rest

theorem Guarded.clear (h : Guarded s) {t : ω ⊕ τ} (hp : s.phase t = .stop .clearing) :
    Guarded { s.setPhase t (.stop .notifying) with _running := false } where
  mutex := h.mutex.keep (by rw [hp]; rfl)
  fits := by
    refine (Function.forall_update_iff s.phase _).mpr ⟨⟨nofun, nofun, nofun, fun _ => rfl⟩,
      fun u _ => ?_⟩
    exact ⟨(h.fits u).worker, (h.fits u).bounded, (h.fits u).ready, fun _ => rfl⟩
  asserts := h.asserts
  stopped _ := rfl

theorem Guarded.notifyAll (h : Guarded s) {t : ω ⊕ τ} (hp : s.phase t = .stop .notifying) :
    Guarded (s.notifyAll t) where
  mutex := (h.mutex.map PoolPhase.holds_wakeWorker).keep (by rw [Function.comp_apply, hp]; rfl)
  fits := by
    refine (Function.forall_update_iff _ _).mpr ⟨⟨nofun, nofun, nofun, nofun⟩, fun u _ => ?_⟩
    have hu := (h.fits u).wakeWorker
    exact ⟨hu.worker, hu.bounded, hu.ready, hu.closing⟩
  asserts := h.asserts
  stopped _ := (h.fits t).closing hp

/-- A notification that is heard: a waiter wakes up, and the notifier goes on. -/
theorem Guarded.heard (h : Guarded s) {t u : ω ⊕ τ} {p : PoolPhase α}
    (hp : Fits s t (s.phase t) → p.holds = true ∧ Fits s t p) (hold : (s.phase t).holds = true)
    (hu : (s.phase u).holds = false) :
    Guarded ((s.setPhase u (s.phase u).wakeUp).setPhase t p) := by
  have htu : t ≠ u := by
    rintro rfl
    rw [hold] at hu
    cases hu
  have hwoken : Guarded (s.setPhase u (s.phase u).wakeUp) := h.inner (.wakeUp _)
  obtain ⟨hholds, hfits⟩ := hp (h.fits t)
  have hphase : (s.setPhase u (s.phase u).wakeUp).phase t = s.phase t :=
    Function.update_of_ne htu _ _
  refine hwoken.setPhase (hwoken.mutex.keep ?_) ⟨hfits.worker, hfits.bounded,
    hfits.ready, hfits.closing⟩
  rw [hphase, hholds, hold]

theorem guarded_trans {l : PoolLabel α ω τ} {s' : ThreadPool α ω τ} (h : Guarded s)
    (ht : PoolTrans s l s') : Guarded s' := by
  cases ht with
  | stay => exact h
  | inner hi => exact h.inner hi
  | @release t p hl hr =>
      have hmutex := h.mutex
      rw [(h.mutex t).mp hr.holds.1] at hmutex
      exact h.setPhase (hmutex.release hr.holds.2) ((h.fits t).release hr)
  | @lock t p hp hfree =>
      have hmutex := h.mutex
      rw [hfree] at hmutex
      obtain ⟨hholds, hfits⟩ := (h.fits t).locked hp
      exact h.setPhase (hmutex.acquire hholds) hfits
  | push hp => exact h.push hp
  | pop hp hqueue => exact h.pop hp _
  | clear hl hp => exact h.clear hp
  | notifyAll hp => exact h.notifyAll hp
  | heardTask hp hu =>
      refine h.heard (fun _ => ⟨rfl, nofun, nofun, nofun, nofun⟩) (by rw [hp]; rfl) ?_
      exact PoolPhase.not_holds_of_waitsTask hu
  | heardPlace hp hu =>
      refine h.heard
        (fun hfits => ⟨rfl, fun _ => hfits.worker (by rw [hp]; rfl), nofun, nofun, nofun⟩)
        (by rw [hp]; rfl) ?_
      exact PoolPhase.not_holds_of_waitsPlace hu

variable [Fintype ω] [Fintype τ]

theorem guarded_exec (capacity : ℕ) (run : List (PoolLabel α ω τ)) :
    Guarded (exec step (started capacity) run) :=
  exec_invariant Guarded (fun s l h => guarded_trans h (trans_step s l)) run
    (guarded_started capacity)

/-- **The assertion of `run` never fails.** -/
theorem run_assert (capacity : ℕ) (run : List (PoolLabel α ω τ)) :
    (exec step (started capacity) run).failed = false := (guarded_exec capacity run).asserts

end Guarded

end ThreadPool

end Muduo.Base
