import Muduo.Lib.Runs

/-!
# `muduo::net::EventLoop` and its functor queue

The loop thread and any number of foreign threads, interleaved at the points where they can affect
each other: the push under `_mutex`, the write to the eventfd, the read in `EventLoop::handleRead`,
the swap in `doPendingFunctors`, and the writes of `_calling_pending_functors` and `_quit`.

* `LoopPc` — where the loop thread is; user code runs on it in `callback`, `body`, `destroy` (the
  destructors of the functors of a finished batch) and `outside` (before `loop()` is entered);
* `Move` — one step of some thread; `queueInloop` is a push followed, if it decides to wake the
  loop, by a separate write;
* `step` — total: a move that its thread cannot make leaves the state as it is.

`batch` and `executed` are history: the number of swaps so far, and the functors that have
run with the number of the batch in which they did; a functor carries the number of swaps
made before it was pushed.
-/

namespace Muduo.Net

/-- A channel in `_active_channels`. -/
inductive Source where
  | wakeup
  | channel
  deriving DecidableEq

/-- A functor with the number of swaps made before its push. -/
structure Pushed (F : Type*) where
  functor : F
  swaps : ℕ
  deriving DecidableEq

inductive LoopPc (F : Type*) where
  /-- `loop()` is not running. -/
  | outside
  /-- At `while (!_quit)`. -/
  | test
  /-- About to call `_poller->poll`. -/
  | poll
  /-- In the loop over the active channels. -/
  | handling (active : List Source)
  /-- In user code called by a channel. -/
  | callback (active : List Source)
  /-- In `doPendingFunctors`, before the swap. -/
  | swap
  /-- In the loop over the swapped-out vector. -/
  | functors (rest : List (Pushed F))
  /-- In the body of a functor. -/
  | body (rest : List (Pushed F))
  /-- In the destructor of the swapped-out vector. -/
  | destroy
  deriving DecidableEq

/-- A foreign thread between the first and the second half of `queueInloop` or `quit`. -/
inductive ForeignPc where
  | idle
  | pushed
  | quitting
  deriving DecidableEq

structure EventLoop (F : Type*) where
  _pending_functors : List (Pushed F)
  _calling_pending_functors : Bool
  _quit : Bool
  /-- The counter of the eventfd `_wake_up_fd`. -/
  counter : ℕ
  pc : LoopPc F
  /-- The loop thread is in `queueInloop`, between the push and `wakeup()`. -/
  waking : Bool
  foreign : ℕ → ForeignPc
  batch : ℕ
  executed : List (Pushed F × ℕ)

inductive Move (F : Type*) where
  /-- The loop thread goes on; `active` is what `poll` reports if that is the next step. -/
  | advance (active : List Source)
  /-- `queueInloop` on the loop thread, up to the unlock. -/
  | push (f : F)
  /-- `wakeup()` on the loop thread. -/
  | wakeup
  | quit
  | foreignPush (t : ℕ) (f : F)
  | foreignWakeup (t : ℕ)
  | foreignQuit (t : ℕ)
  deriving DecidableEq

/-- The functor that a move pushes. -/
def Move.functor {F : Type*} : Move F → Option F
  | .push f | .foreignPush _ f => some f
  | _ => none

namespace EventLoop

variable {F : Type*}

/-- The constructor. -/
def new : EventLoop F where
  _pending_functors := []
  _calling_pending_functors := false
  _quit := false
  counter := 0
  pc := .outside
  waking := false
  foreign := fun _ => .idle
  batch := 0
  executed := []

def eventfdMax : ℕ := 2 ^ 64 - 2

/-- The write in `wakeup()`; it fails with `EAGAIN` when the counter is at its maximum. -/
def writeEventfd (s : EventLoop F) : EventLoop F :=
  { s with counter := if s.counter < eventfdMax then s.counter + 1 else s.counter }

/-- `_pending_functors.push_back(cb)` under the mutex. -/
def pushBack (s : EventLoop F) (f : F) : EventLoop F :=
  { s with _pending_functors := s._pending_functors ++ [⟨f, s.batch⟩] }

def setForeign (s : EventLoop F) (t : ℕ) (pc : ForeignPc) : EventLoop F :=
  { s with foreign := Function.update s.foreign t pc }

/-- User code is running on the loop thread. -/
def userCode : LoopPc F → Bool
  | .outside | .callback _ | .body _ | .destroy => true
  | _ => false

/-- The next step of `loop()` and `doPendingFunctors()`. -/
def advance (s : EventLoop F) (active : List Source) : EventLoop F :=
  match s.pc with
  | .outside => { s with pc := .test, _quit := false }
  | .test => { s with pc := if s._quit then .outside else .poll }
  | .poll => { s with pc := .handling active }
  | .handling (.wakeup :: rest) => { s with pc := .handling rest, counter := 0 }
  | .handling (.channel :: rest) => { s with pc := .callback rest }
  | .handling [] => { s with pc := .swap, _calling_pending_functors := true }
  | .callback rest => { s with pc := .handling rest }
  | .swap =>
      { s with pc := .functors s._pending_functors, _pending_functors := [], batch := s.batch + 1 }
  | .functors (f :: rest) => { s with pc := .body rest, executed := s.executed ++ [(f, s.batch)] }
  | .functors [] => { s with pc := .destroy, _calling_pending_functors := false }
  | .body rest => { s with pc := .functors rest }
  | .destroy => { s with pc := .test }

/-- The moves a thread can make. -/
def enabled (s : EventLoop F) : Move F → Bool
  | .advance _ => !s.waking
  | .push _ => userCode s.pc && !s.waking
  | .wakeup => s.waking
  | .quit => userCode s.pc && !s.waking
  | .foreignPush t _ => s.foreign t == .idle
  | .foreignWakeup t => s.foreign t != .idle
  | .foreignQuit t => s.foreign t == .idle

def perform (s : EventLoop F) : Move F → EventLoop F
  | .advance active => s.advance active
  | .push f => { s.pushBack f with waking := s._calling_pending_functors }
  | .wakeup => { s.writeEventfd with waking := false }
  | .quit => { s with _quit := true }
  | .foreignPush t f => (s.pushBack f).setForeign t .pushed
  | .foreignWakeup t => s.writeEventfd.setForeign t .idle
  | .foreignQuit t => { s with _quit := true }.setForeign t .quitting

def step (s : EventLoop F) (m : Move F) : EventLoop F := if s.enabled m then s.perform m else s

/-- The functors of the current batch that have not started. -/
def unstarted : LoopPc F → List (Pushed F)
  | .functors rest | .body rest => rest
  | _ => []

end EventLoop

end Muduo.Net
