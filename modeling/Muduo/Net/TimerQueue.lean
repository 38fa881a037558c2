import Muduo.Lib.OrderedSet
import Muduo.Lib.Runs

/-!
# `muduo::net::TimerQueue`

Timers live at addresses of a heap and are owned through raw pointers: by a queued `addTimerInLoop`,
by the two sets `timers_` and `activeTimers_`, or by the batch that `handleRead` took out of them.
The allocator may hand out the address of a deleted timer again, so a `TimerId` is the address
together with the sequence number.

`handleRead` is cut where it calls user code: `batch` holds the entries whose callbacks have started
(`ran`), the others (`rest`), and whether a callback is running.  Timers are added and cancelled by
the loop thread, outside or inside callbacks, and by other threads through functors.

* `getExpired`, `reset`, `insert`, `addTimerInLoop`, `cancelInLoop` follow the source; an assertion
  that fails, or a pointer to a deleted timer that is followed, is recorded in `faults`;
* `Act` and `step` — the moves of the loop thread and of the others, `started` the sequence numbers
  of the callbacks started so far;
* `step_cases` — what each move does and under which tests; `Effect` and `step_effect`, the same
  without the label, for the invariants to go through case by case.
-/

namespace Muduo.Net

open Muduo.Lib

/-- `Timestamp`, microseconds since the epoch. -/
abbrev Timestamp := ℤ

/-- `interval_` is the number of microseconds `addTime` makes of it. -/
structure Timer where
  expiration_ : Timestamp
  interval_ : ℤ
  repeat_ : Bool
  sequence_ : ℕ
  deriving DecidableEq

structure TimerId where
  timer_ : ℕ
  sequence_ : ℕ
  deriving DecidableEq

abbrev Entry := Timestamp ×ₗ ℕ
abbrev ActiveTimer := ℕ ×ₗ ℕ

/-- `Timestamp::invalid()`. -/
def Timestamp.invalid : Timestamp := 0

def Timer.restart (t : Timer) (now : Timestamp) : Timer :=
  { t with expiration_ := if t.repeat_ then now + t.interval_ else Timestamp.invalid }

/-- The members that are `const`. -/
def Timer.constants (t : Timer) : ℤ × Bool × ℕ := (t.interval_, t.repeat_, t.sequence_)

def Entry.time (e : Entry) : Timestamp := (ofLex e).1
def Entry.timer (e : Entry) : ℕ := (ofLex e).2

inductive TimerFunctor where
  | addTimerInLoop (timer : ℕ)
  | cancelInLoop (id : TimerId)
  deriving DecidableEq

inductive TimerFault where
  | sizesDiffer
  | eraseCount
  | insertedTwice
  | expiredLeft
  | deadTimer
  deriving DecidableEq

/-- `handleRead` in progress. -/
structure Batch where
  now : Timestamp
  ran : List Entry
  rest : List Entry
  inside : Bool

structure TimerQueue where
  heap : ℕ → Option Timer
  /-- `Timer::s_numCreated_`. -/
  numCreated : ℕ
  timers_ : OrderedSet Entry
  activeTimers_ : OrderedSet ActiveTimer
  callingExpiredTimers_ : Bool
  cancelingTimers_ : OrderedSet ActiveTimer
  /-- The functors queued on the loop. -/
  functors : List TimerFunctor
  batch : Option Batch
  /-- The expirations passed to `resetTimerfd`. -/
  alarms : List Timestamp
  /-- The identifiers `addTimer` returned. -/
  issued : List TimerId
  /-- The sequence numbers of the callbacks started. -/
  started : List ℕ
  faults : List TimerFault

/-- No timer has this address. -/
def uintptrMax : ℕ := 2 ^ 64 - 1

@[simp] theorem Entry.time_toLex (t : Timestamp) (a : ℕ) : Entry.time (toLex (t, a)) = t := rfl

@[simp] theorem Entry.timer_toLex (t : Timestamp) (a : ℕ) : Entry.timer (toLex (t, a)) = a := rfl

theorem Entry.toLex_time_timer (e : Entry) : toLex (e.time, e.timer) = e := rfl

namespace TimerQueue

/-- The constructor. -/
def new : TimerQueue where
  heap := fun _ => none
  numCreated := 0
  timers_ := .empty
  activeTimers_ := .empty
  callingExpiredTimers_ := false
  cancelingTimers_ := .empty
  functors := []
  batch := none
  alarms := []
  issued := []
  started := []
  faults := []

def assert (q : TimerQueue) (p : Bool) (f : TimerFault) : TimerQueue :=
  if p then q else { q with faults := q.faults ++ [f] }

section Assert

variable (q : TimerQueue) (p : Bool) (f : TimerFault)

@[simp] theorem assert_heap : (q.assert p f).heap = q.heap := by unfold assert; split <;> rfl

@[simp] theorem assert_numCreated : (q.assert p f).numCreated = q.numCreated := by
  unfold assert; split <;> rfl

@[simp] theorem assert_timers_ :
    (q.assert p f).timers_ = q.timers_ := by unfold assert; split <;> rfl

@[simp] theorem assert_activeTimers_ : (q.assert p f).activeTimers_ = q.activeTimers_ := by
  unfold assert; split <;> rfl

@[simp] theorem assert_callingExpiredTimers_ :
    (q.assert p f).callingExpiredTimers_ = q.callingExpiredTimers_ := by
  unfold assert; split <;> rfl

@[simp] theorem assert_cancelingTimers_ :
    (q.assert p f).cancelingTimers_ = q.cancelingTimers_ := by
  unfold assert; split <;> rfl

@[simp] theorem assert_functors : (q.assert p f).functors = q.functors := by
  unfold assert; split <;> rfl

@[simp] theorem assert_batch : (q.assert p f).batch = q.batch := by unfold assert; split <;> rfl

@[simp] theorem assert_issued : (q.assert p f).issued = q.issued := by unfold assert; split <;> rfl

@[simp] theorem assert_started :
    (q.assert p f).started = q.started := by unfold assert; split <;> rfl

@[simp] theorem assert_alarms : (q.assert p f).alarms = q.alarms := by unfold assert; split <;> rfl

end Assert

def sizesAgree (q : TimerQueue) : Bool := q.timers_.size == q.activeTimers_.size

def delete (q : TimerQueue) (timer : ℕ) : TimerQueue :=
  { q with heap := Function.update q.heap timer none }

def resetTimerfd (q : TimerQueue) (expiration : Timestamp) : TimerQueue :=
  { q with alarms := q.alarms ++ [expiration] }

/-- `when` is earlier than the first entry, if there is one. -/
def earlierThanFirst (when_ : Timestamp) (timers : OrderedSet Entry) : Bool :=
  match timers.toList with
  | [] => true
  | e :: _ => when_ < e.time

/-- `insert`, on the timer `t` found at the address. -/
def insert (q : TimerQueue) (timer : ℕ) (t : Timer) : TimerQueue :=
  let entry : Entry := toLex (t.expiration_, timer)
  let active : ActiveTimer := toLex (timer, t.sequence_)
  let q₁ := ((q.assert q.sizesAgree .sizesDiffer).assert (entry ∉ q.timers_) .insertedTwice).assert
    (active ∉ q.activeTimers_) .insertedTwice
  let q₂ := { q₁ with
    timers_ := q₁.timers_.insert entry, activeTimers_ := q₁.activeTimers_.insert active }
  q₂.assert q₂.sizesAgree .sizesDiffer

def addTimerInLoop (q : TimerQueue) (timer : ℕ) : TimerQueue :=
  match q.heap timer with
  | none => q.assert false .deadTimer
  | some t =>
      let q₁ := q.insert timer t
      if earlierThanFirst t.expiration_ q.timers_ then q₁.resetTimerfd t.expiration_ else q₁

def cancelInLoop (q : TimerQueue) (id : TimerId) : TimerQueue :=
  let active : ActiveTimer := toLex (id.timer_, id.sequence_)
  let q₁ := q.assert q.sizesAgree .sizesDiffer
  let q₂ :=
    if active ∈ q₁.activeTimers_ then
      match q₁.heap id.timer_ with
      | none => q₁.assert false .deadTimer
      | some t =>
          let entry : Entry := toLex (t.expiration_, id.timer_)
          let q₁ := q₁.assert (entry ∈ q₁.timers_) .eraseCount
          { q₁ with
            timers_ := q₁.timers_.erase entry
            activeTimers_ := q₁.activeTimers_.erase active }.delete id.timer_
    else if q₁.callingExpiredTimers_ then
      { q₁ with cancelingTimers_ := q₁.cancelingTimers_.insert active }
    else q₁
  q₂.assert q₂.sizesAgree .sizesDiffer

/-- The second loop of `getExpired`: the expired timers leave `activeTimers_`. -/
def deactivate (q : TimerQueue) : List Entry → TimerQueue
  | [] => q
  | e :: es =>
      match q.heap e.timer with
      | none => (q.assert false .deadTimer).deactivate es
      | some t =>
          let active : ActiveTimer := toLex (e.timer, t.sequence_)
          let q₁ := q.assert (active ∈ q.activeTimers_) .eraseCount
          { q₁ with activeTimers_ := q₁.activeTimers_.erase active }.deactivate es

/-- `getExpired`: everything before `lower_bound((now, UINTPTR_MAX))`. -/
def getExpired (q : TimerQueue) (now : Timestamp) : TimerQueue × List Entry :=
  let sentry : Entry := toLex (now, uintptrMax)
  let q₁ := q.assert q.sizesAgree .sizesDiffer
  let expired := q₁.timers_.below sentry
  let q₂ := { q₁ with timers_ := q₁.timers_.dropBelow sentry }
  let q₃ := (q₂.assert (earlierThanFirst now q₂.timers_) .expiredLeft).deactivate expired
  (q₃.assert q₃.sizesAgree .sizesDiffer, expired)

/-- One turn of the loop in `reset`: a repeating timer that was not cancelled is restarted, any
other one is deleted. -/
def rearm (q : TimerQueue) (now : Timestamp) (e : Entry) : TimerQueue :=
  match q.heap e.timer with
  | none => q.assert false .deadTimer
  | some t =>
      if t.repeat_ ∧ toLex (e.timer, t.sequence_) ∉ q.cancelingTimers_ then
        { q with heap := Function.update q.heap e.timer (some (t.restart now)) }.insert e.timer
          (t.restart now)
      else q.delete e.timer

def reset (q : TimerQueue) (expired : List Entry) (now : Timestamp) : TimerQueue :=
  let q₁ := expired.foldl (fun q e => q.rearm now e) q
  match q₁.timers_.toList with
  | [] => q₁
  | e :: _ =>
      match q₁.heap e.timer with
      | none => q₁.assert false .deadTimer
      | some t => if 0 < t.expiration_ then q₁.resetTimerfd t.expiration_ else q₁

/-! ### The moves of the threads -/

inductive Act where
  /-- `addTimer`, with the address the allocator picks. -/
  | addTimer (inLoopThread : Bool) (address : ℕ) (when_ : Timestamp) (interval : ℤ) (repeats : Bool)
  | cancel (inLoopThread : Bool) (id : TimerId)
  /-- The loop runs the next queued functor. -/
  | functor
  /-- The timerfd alarms: `handleRead`, up to its first callback. -/
  | handleRead (now : Timestamp)
  /-- `handleRead` starts the next callback. -/
  | run
  /-- The running callback returns. -/
  | return_
  /-- The last callback has returned: the rest of `handleRead`. -/
  | finish
  deriving DecidableEq

/-- User code can run on the loop thread: outside `handleRead`, or inside a callback. -/
def userCode (q : TimerQueue) : Bool :=
  match q.batch with
  | none => true
  | some b => b.inside

def runFunctor (q : TimerQueue) : TimerFunctor → TimerQueue
  | .addTimerInLoop timer => q.addTimerInLoop timer
  | .cancelInLoop id => q.cancelInLoop id

/-- `new Timer(cb, when, interval)` at a free address. -/
def create (q : TimerQueue) (address : ℕ) (when_ : Timestamp) (interval : ℤ) (repeats : Bool) :
    TimerQueue :=
  { q with
    heap := Function.update q.heap address (some ⟨when_, interval, repeats, q.numCreated + 1⟩)
    numCreated := q.numCreated + 1
    issued := q.issued ++ [⟨address, q.numCreated + 1⟩] }

def step (q : TimerQueue) : Act → TimerQueue
  | .addTimer inLoopThread address when_ interval repeats =>
      if q.heap address = none ∧ address < uintptrMax then
        let q₁ := q.create address when_ interval repeats
        if !inLoopThread then { q₁ with functors := q₁.functors ++ [.addTimerInLoop address] }
        else if q.userCode then q₁.addTimerInLoop address
        else q
      else q
  | .cancel inLoopThread id =>
      if !inLoopThread then { q with functors := q.functors ++ [.cancelInLoop id] }
      else if q.userCode then q.cancelInLoop id
      else q
  | .functor =>
      match q.batch, q.functors with
      | none, f :: rest => { q with functors := rest }.runFunctor f
      | _, _ => q
  | .handleRead now =>
      match q.batch with
      | none =>
          let (q₁, expired) := q.getExpired now
          { q₁ with
            callingExpiredTimers_ := true
            cancelingTimers_ := .empty
            batch := some ⟨now, [], expired, false⟩ }
      | some _ => q
  | .run =>
      match q.batch with
      | some ⟨now, ran, e :: rest, false⟩ =>
          match q.heap e.timer with
          | none => q.assert false .deadTimer
          | some t =>
              { q with
                started := q.started ++ [t.sequence_]
                batch := some ⟨now, ran ++ [e], rest, true⟩ }
      | _ => q
  | .return_ =>
      match q.batch with
      | some b => { q with batch := some { b with inside := false } }
      | none => q
  | .finish =>
      match q.batch with
      | some ⟨now, ran, [], false⟩ =>
          { { q with callingExpiredTimers_ := false }.reset ran now with batch := none }
      | _ => q

/-- What a move can do to the queue. -/
inductive Effect (q : TimerQueue) : TimerQueue → Prop where
  | idle : Effect q q
  | queueAdd (a : ℕ) (when_ : Timestamp) (interval : ℤ) (repeats : Bool) : q.heap a = none →
      Effect q { q.create a when_ interval repeats with
        functors := q.functors ++ [.addTimerInLoop a] }
  | add (a : ℕ) (when_ : Timestamp) (interval : ℤ) (repeats : Bool) : q.heap a = none →
      Effect q ((q.create a when_ interval repeats).addTimerInLoop a)
  | queueCancel (id : TimerId) : Effect q { q with functors := q.functors ++ [.cancelInLoop id] }
  | cancel (id : TimerId) : Effect q (q.cancelInLoop id)
  | functor (f : TimerFunctor) (rest : List TimerFunctor) : q.functors = f :: rest →
      Effect q ({ q with functors := rest }.runFunctor f)
  | handleRead (now : Timestamp) : q.batch = none →
      Effect q { (q.getExpired now).1 with
        callingExpiredTimers_ := true
        cancelingTimers_ := .empty
        batch := some ⟨now, [], (q.getExpired now).2, false⟩ }
  | dead : Effect q (q.assert false .deadTimer)
  | run (now : Timestamp) (ran : List Entry) (e : Entry) (rest : List Entry) (t : Timer) :
      q.batch = some ⟨now, ran, e :: rest, false⟩ → q.heap e.timer = some t →
      Effect q { q with
        started := q.started ++ [t.sequence_]
        batch := some ⟨now, ran ++ [e], rest, true⟩ }
  | return_ (b : Batch) : q.batch = some b →
      Effect q { q with batch := some { b with inside := false } }
  | finish (now : Timestamp) (ran : List Entry) : q.batch = some ⟨now, ran, [], false⟩ →
      Effect q { { q with callingExpiredTimers_ := false }.reset ran now with batch := none }

/-- **What each move does**, with the tests it has passed. -/
@[elab_as_elim]
theorem step_cases (q : TimerQueue) {motive : Act → TimerQueue → Prop}
    (idle : ∀ act, motive act q)
    (queueAdd : ∀ inLoopThread a when_ interval repeats, q.heap a = none → a < uintptrMax →
      motive (.addTimer inLoopThread a when_ interval repeats)
        { q.create a when_ interval repeats with functors := q.functors ++ [.addTimerInLoop a] })
    (add : ∀ inLoopThread a when_ interval repeats, q.heap a = none → a < uintptrMax →
      motive (.addTimer inLoopThread a when_ interval repeats)
        ((q.create a when_ interval repeats).addTimerInLoop a))
    (queueCancel : ∀ inLoopThread id,
      motive (.cancel inLoopThread id) { q with functors := q.functors ++ [.cancelInLoop id] })
    (cancel : ∀ inLoopThread id, motive (.cancel inLoopThread id) (q.cancelInLoop id))
    (functor : ∀ f rest, q.batch = none → q.functors = f :: rest →
      motive .functor ({ q with functors := rest }.runFunctor f))
    (handleRead : ∀ now, q.batch = none →
      motive (.handleRead now) { (q.getExpired now).1 with
        callingExpiredTimers_ := true
        cancelingTimers_ := .empty
        batch := some ⟨now, [], (q.getExpired now).2, false⟩ })
    (dead : ∀ now ran e rest, q.batch = some ⟨now, ran, e :: rest, false⟩ → q.heap e.timer = none →
      motive .run (q.assert false .deadTimer))
    (run : ∀ now ran e rest t, q.batch = some ⟨now, ran, e :: rest, false⟩ →
      q.heap e.timer = some t →
      motive .run { q with
        started := q.started ++ [t.sequence_]
        batch := some ⟨now, ran ++ [e], rest, true⟩ })
    (return_ : ∀ b, q.batch = some b →
      motive .return_ { q with batch := some { b with inside := false } })
    (finish : ∀ now ran, q.batch = some ⟨now, ran, [], false⟩ →
      motive .finish { { q with callingExpiredTimers_ := false }.reset ran now with batch := none })
    (act : Act) : motive act (q.step act) := by
  cases act with
  | addTimer inLoopThread a when_ interval repeats =>
      simp only [step]
      split
      · rename_i hfree
        split
        · exact queueAdd inLoopThread a when_ interval repeats hfree.1 hfree.2
        · split
          · exact add inLoopThread a when_ interval repeats hfree.1 hfree.2
          · exact idle _
      · exact idle _
  | cancel inLoopThread id =>
      simp only [step]
      split
      · exact queueCancel inLoopThread id
      · split
        · exact cancel inLoopThread id
        · exact idle _
  | functor =>
      simp only [step]
      split
      · rename_i f rest hb hf
        exact functor f rest hb hf
      · exact idle _
  | handleRead now =>
      simp only [step]
      split
      · rename_i hb
        exact handleRead now hb
      · exact idle _
  | run =>
      simp only [step]
      split
      · rename_i now ran e rest hb
        split
        · rename_i hdead
          exact dead now ran e rest hb hdead
        · rename_i t ht
          exact run now ran e rest t hb ht
      · exact idle _
  | return_ =>
      simp only [step]
      split
      · rename_i b hb
        exact return_ b hb
      · exact idle _
  | finish =>
      simp only [step]
      split
      · rename_i now ran hb
        exact finish now ran hb
      · exact idle _

theorem step_effect (q : TimerQueue) (act : Act) : Effect q (q.step act) :=
  step_cases (motive := fun _ q' => Effect q q') q (fun _ => .idle)
    (fun _ a when_ interval repeats hfree _ => .queueAdd a when_ interval repeats hfree)
    (fun _ a when_ interval repeats hfree _ => .add a when_ interval repeats hfree)
    (fun _ id => .queueCancel id) (fun _ id => .cancel id) (fun f rest _ hf => .functor f rest hf)
    (fun now hb => .handleRead now hb) (fun _ _ _ _ _ _ => .dead)
    (fun now ran e rest t hb ht => .run now ran e rest t hb ht) (fun b hb => .return_ b hb)
    (fun now ran hb => .finish now ran hb) act

end TimerQueue

end Muduo.Net
