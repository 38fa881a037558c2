import Muduo.Base.CountDownLatch

/-!
# `muduo::Thread`

A `Thread` object, the thread that owns it and the thread that it starts.  The new thread gets
pointers into the object, to `_tid` and to `_latch`; `start()` waits on the latch, and afterwards
the owner may join the thread, or destroy the object while the thread still runs.

* `Thread`, `ThreadLabel`, `step` — the object and the two threads, interleaved at every access to
  the latch;
* `ThreadAt`, `OwnerAt` — where the two threads can be, given the count of the latch;
* `Inv`, `inv_step` — the handshake;
* `start_hands_over` — after `start()` the new thread does not touch the object any more.

A failed assertion and a failed `pthread_create` (`LOG_SYSFATAL`) end the program.  The name of the
thread and the exceptions that leave `_func` are left out.
-/

namespace Muduo.Base

open Muduo.Lib

inductive Role where
  | owner
  | thread
  deriving DecidableEq

theorem Role.mem_all (r : Role) : r ∈ ({.owner, .thread} : Finset Role) := by
  cases r <;> decide

instance Role.fintype : Fintype Role := ⟨{.owner, .thread}, Role.mem_all⟩

inductive OwnerPhase where
  /-- In no method of the object. -/
  | outside
  /-- In `start()`, behind `pthread_create`. -/
  | starting
  /-- In `pthread_join`. -/
  | joining
  /-- The object has been destroyed. -/
  | gone
  deriving DecidableEq

inductive ThreadPhase where
  | none
  /-- Before `*_tid = CurrentThread::tid()`. -/
  | storing
  /-- In `_latch->countDown()`. -/
  | counting
  /-- In `_func()`. -/
  | running
  | finished
  deriving DecidableEq

structure Thread where
  _started : Bool
  _joined : Bool
  _tid : ℕ
  _latch : CountDownLatch.Shared Role
  owner : OwnerPhase
  thread : ThreadPhase
  /-- What `CurrentThread::tid()` is in the new thread. -/
  id : ℕ
  /-- How often `_func` has been called. -/
  calls : ℕ
  detached : Bool
  /-- The program has ended, with a failed assertion or `LOG_SYSFATAL`. -/
  ended : Bool
  /-- The new thread has used the object after its end. -/
  dangling : Bool
  /-- The latch has been destroyed while a thread was in one of its methods. -/
  busy : Bool

inductive ThreadLabel where
  /-- The owner calls `start()`; the id of the new thread, unless `pthread_create` fails. -/
  | start (created : Option ℕ+)
  | join
  /-- The destructor. -/
  | destroy
  /-- The owner goes on, behind `_latch.wait()` or in `pthread_join`. -/
  | owner
  /-- The new thread goes on. -/
  | thread
  /-- `_func` returns. -/
  | finish
  /-- A step inside a method of the latch. -/
  | latch (l : MonitorObject.Label LatchCall Role)

namespace Thread

def new : Thread where
  _started := false
  _joined := false
  _tid := 0
  _latch := MonitorObject.new ⟨1⟩
  owner := .outside
  thread := .none
  id := 0
  calls := 0
  detached := false
  ended := false
  dangling := false
  busy := false

/-- The new thread uses the object. -/
def touch (s : Thread) : Thread := { s with dangling := s.dangling || s.owner == .gone }

/-- A thread makes a step inside a method of the latch. -/
def latchStep (s : Thread) (l : MonitorObject.Label LatchCall Role) : Thread :=
  let s := if l.actor = .thread ∧ s._latch.phase .thread ≠ .idle then s.touch else s
  { s with _latch := s._latch.step CountDownLatch.methods l }

def start (s : Thread) : Option ℕ+ → Thread
  | none => { s with ended := true }
  | some id =>
      if s._started then { s with ended := true }
      else { s with
        _started := true, id := id, thread := .storing, owner := .starting
        _latch := s._latch.step CountDownLatch.methods (.call .owner .wait) }

def join (s : Thread) : Thread :=
  if s._started = false ∨ s._joined = true then { s with ended := true }
  else { s with _joined := true, owner := .joining }

def destroy (s : Thread) : Thread :=
  { s with
    owner := .gone
    detached := s.detached || (s._started && !s._joined)
    busy := s.busy || s._latch.mutex.isSome ||
      s._latch.phase .owner != .idle || s._latch.phase .thread != .idle }

def ownerStep (s : Thread) : Thread :=
  match s.owner with
  | .starting =>
      if s._latch.phase .owner = .idle then
        if 0 < s._tid then { s with owner := .outside } else { s with ended := true }
      else s
  | .joining => if s.thread = .finished then { s with owner := .outside } else s
  | .outside | .gone => s

/-- `ThreadData::runInThread`. -/
def threadStep (s : Thread) : Thread :=
  match s.thread with
  | .storing =>
      let s := s.touch
      { s with
        _tid := s.id, thread := .counting
        _latch := s._latch.step CountDownLatch.methods (.call .thread .countDown) }
  | .counting =>
      if s._latch.phase .thread = .idle then { s with thread := .running, calls := s.calls + 1 }
      else s
  | .none | .running | .finished => s

def step (s : Thread) (l : ThreadLabel) : Thread :=
  if s.ended then s
  else
    match l with
    | .start created => if s.owner = .outside then s.start created else s
    | .join => if s.owner = .outside then s.join else s
    | .destroy => if s.owner = .outside then s.destroy else s
    | .owner => s.ownerStep
    | .thread => s.threadStep
    | .finish => if s.thread = .running then { s with thread := .finished } else s
    | .latch (.call _ _) => s
    | .latch l => s.latchStep l

/-! ### Where the two threads can be -/

/-- The new thread, with the count of the latch: it counts down once. -/
inductive ThreadAt : ThreadPhase → MonitorObject.Phase LatchCall → ℤ → Prop where
  | none : ThreadAt .none .idle 1
  | storing : ThreadAt .storing .idle 1
  | entering : ThreadAt .counting (.entering .countDown) 1
  | testing : ThreadAt .counting (.testing .countDown) 1
  | notifying : ThreadAt .counting .notifyingAll 0
  | leaving : ThreadAt .counting .leaving 0
  | counted : ThreadAt .counting .idle 0
  | running : ThreadAt .running .idle 0
  | finished : ThreadAt .finished .idle 0

/-- The owner: it is behind `_latch.wait()` only when the new thread is out of the latch, `free`. -/
inductive OwnerAt (free : Prop) : OwnerPhase → Bool → MonitorObject.Phase LatchCall → Prop where
  | new : OwnerAt free .outside false .idle
  | unused : OwnerAt free .gone false .idle
  | entering : OwnerAt free .starting true (.entering .wait)
  | testing : OwnerAt free .starting true (.testing .wait)
  | waiting : OwnerAt free .starting true (.waiting .wait)
  | woken : OwnerAt free .starting true (.woken .wait)
  | leaving (h : free) : OwnerAt free .starting true .leaving
  | waited (h : free) : OwnerAt free .starting true .idle
  | outside (h : free) : OwnerAt free .outside true .idle
  | joining (h : free) : OwnerAt free .joining true .idle
  | gone (h : free) : OwnerAt free .gone true .idle

/-- The new thread has counted down and is out of the latch. -/
def Free (latch : CountDownLatch.Shared Role) : Prop :=
  latch.data._count = 0 ∧ latch.phase .thread = .idle

theorem OwnerAt.mono {free free' : Prop} (h : free → free') {o : OwnerPhase} {started : Bool}
    {q : MonitorObject.Phase LatchCall} (hat : OwnerAt free o started q) :
    OwnerAt free' o started q := by
  cases hat with
  | new => exact .new
  | unused => exact .unused
  | entering => exact .entering
  | testing => exact .testing
  | waiting => exact .waiting
  | woken => exact .woken
  | leaving hf => exact .leaving (h hf)
  | waited hf => exact .waited (h hf)
  | outside hf => exact .outside (h hf)
  | joining hf => exact .joining (h hf)
  | gone hf => exact .gone (h hf)

/-! ### One step inside the latch -/

section Latch

variable {L L' : CountDownLatch.Shared Role} {p : ThreadPhase} {o : OwnerPhase} {started : Bool}

/-- Where the threads are, seen from the latch. -/
structure LatchAt (p : ThreadPhase) (o : OwnerPhase) (started : Bool)
    (L : CountDownLatch.Shared Role) :
    Prop where
  threadAt : ThreadAt p (L.phase .thread) L.data._count
  ownerAt : OwnerAt (Free L) o started (L.phase .owner)

theorem OwnerAt.wakeUp {free : Prop} {q : MonitorObject.Phase LatchCall}
    (hat : OwnerAt free o started q) :
    OwnerAt free o started q.wakeUp := by
  cases hat with
  | waiting => exact .woken
  | new => exact .new
  | unused => exact .unused
  | entering => exact .entering
  | testing => exact .testing
  | woken => exact .woken
  | leaving hf => exact .leaving hf
  | waited hf => exact .waited hf
  | outside hf => exact .outside hf
  | joining hf => exact .joining hf
  | gone hf => exact .gone hf

/-- A step of the new thread: the owner is not behind the latch yet. -/
theorem LatchAt.thread (h : LatchAt p o started L) (hmoves : L.phase .thread ≠ .idle)
    (hthread : ThreadAt p (L'.phase .thread) L'.data._count)
    (howner : L'.phase .owner = L.phase .owner ∨ L'.phase .owner = (L.phase .owner).wakeUp) :
    LatchAt p o started L' := by
  refine ⟨hthread, ?_⟩
  have hat : OwnerAt (Free L') o started (L.phase .owner) :=
    h.ownerAt.mono fun hfree => absurd hfree.2 hmoves
  rcases howner with hsame | hwake
  · rw [hsame]
    exact hat
  · rw [hwake]
    exact hat.wakeUp

/-- A step of the owner. -/
theorem LatchAt.owner (h : LatchAt p o started L) (hdata : L'.data = L.data)
    (hthread : L'.phase .thread = L.phase .thread)
    (howner : OwnerAt (Free L) o started (L'.phase .owner)) :
    LatchAt p o started L' := by
  refine ⟨?_, howner.mono ?_⟩
  · rw [hthread, hdata]
    exact h.threadAt
  · intro hfree
    rw [Free, hthread, hdata]
    exact hfree

@[simp] theorem update_thread_owner {φ : Type*} (f : Role → φ) (x : φ) :
    Function.update f .thread x .owner = f .owner := Function.update_of_ne (by decide) _ _

@[simp] theorem update_owner_thread {φ : Type*} (f : Role → φ) (x : φ) :
    Function.update f .owner x .thread = f .thread := Function.update_of_ne (by decide) _ _

/-- The new thread in the latch, by the phase it is in. -/
theorem ThreadAt.cases {q : MonitorObject.Phase LatchCall} {n : ℤ} (h : ThreadAt p q n) :
    q = .idle ∨ (p = .counting ∧
      ((q = .entering .countDown ∧ n = 1) ∨ (q = .testing .countDown ∧ n = 1) ∨
        (q = .notifyingAll ∧ n = 0) ∨
        (q = .leaving ∧ n = 0))) := by
  cases h <;> simp

theorem ThreadAt.count {q : MonitorObject.Phase LatchCall} {n : ℤ} (h : ThreadAt p q n) :
    n = 0 ∨ n = 1 := by
  cases h <;> simp

/-- The owner in the latch, by the phase it is in. -/
theorem OwnerAt.cases {free : Prop} {q : MonitorObject.Phase LatchCall}
    (h : OwnerAt free o started q) :
    q = .idle ∨ (o = .starting ∧ started = true ∧
      (q = .entering .wait ∨ q = .testing .wait ∨ q = .waiting .wait ∨ q = .woken .wait ∨
        (q = .leaving ∧ free))) := by
  cases h <;> simp_all

/-- Outside `start()` the owner is not in the latch, and has been behind it if the
thread has been started. -/
theorem OwnerAt.idle {free : Prop} {q : MonitorObject.Phase LatchCall}
    (h : OwnerAt free o started q) (ho : o ≠ .starting) : q = .idle ∧ (started = true → free) := by
  cases h <;> simp_all

/-- Outside `countDown()` the new thread is not in the latch. -/
theorem ThreadAt.idle {q : MonitorObject.Phase LatchCall} {n : ℤ} (h : ThreadAt p q n)
    (hp : p ≠ .counting) :
    q = .idle := by
  cases h <;> simp_all

theorem ThreadAt.count_of_before {q : MonitorObject.Phase LatchCall} {n : ℤ} (h : ThreadAt p q n)
    (hp : p = .none ∨ p = .storing) : n = 1 := by
  cases h <;> simp_all

/-- **One step inside the latch.**  The owner gets through only when the new thread has counted
down; it then holds the mutex, so the new thread is out. -/
theorem LatchAt.trans (hinv : MonitorObject.Inv CountDownLatch.methods ⟨1⟩ L)
    (h : LatchAt p o started L) {l : MonitorObject.Label LatchCall Role} (hl : ∀ t c, l ≠ .call t c)
    (ht : MonitorObject.Trans CountDownLatch.methods L l L') : LatchAt p o started L' := by
  have hthread := h.threadAt.cases
  have howner := h.ownerAt.cases
  cases ht with
  | stay => exact h
  | call hp => exact absurd rfl (hl _ _)
  | @lock t c hp hfree =>
      cases t with
      | thread =>
          rcases hp with hp | hp <;> simp [hp] at hthread
          obtain ⟨rfl, rfl, hn⟩ := hthread
          refine h.thread (by simp [hp]) ?_ (by simp [MonitorObject.setPhase])
          simp only [MonitorObject.setPhase, Function.update_self, hn]
          exact .testing
      | owner =>
          have hwait : o = .starting ∧ started = true ∧ c = .wait := by
            rcases hp with hp | hp <;> simpa [hp] using howner
          obtain ⟨rfl, rfl, rfl⟩ := hwait
          refine h.owner rfl (by simp [MonitorObject.setPhase]) ?_
          simp only [MonitorObject.setPhase, Function.update_self]
          exact .testing
  | @wait t c hp hb =>
      cases t with
      | thread =>
          simp [hp] at hthread
          obtain ⟨-, rfl, -⟩ := hthread
          cases hb
      | owner =>
          simp [hp] at howner
          obtain ⟨rfl, rfl, rfl⟩ := howner
          refine h.owner rfl (by simp [MonitorObject.setPhase]) ?_
          simp only [MonitorObject.setPhase, Function.update_self]
          exact .waiting
  | @act t c hp hb =>
      cases t with
      | thread =>
          simp [hp] at hthread
          obtain ⟨rfl, rfl, hn⟩ := hthread
          refine h.thread (by simp [hp]) ?_ (by simp [MonitorObject.act])
          simp only [MonitorObject.act, Function.update_self, CountDownLatch.methods, hn]
          exact .notifying
      | owner =>
          simp [hp] at howner
          obtain ⟨rfl, rfl, rfl⟩ := howner
          refine h.owner rfl (by simp [MonitorObject.act]) ?_
          simp only [MonitorObject.act, Function.update_self]
          refine .leaving ?_
          -- the count is `0`, and the new thread does not hold the mutex
          have hcount : ¬ 0 < L.data._count := of_decide_eq_false hb
          have hout : (L.phase .thread).holds = false := by
            by_contra hholds
            have heq := hinv.mutex.eq_of_holds (by simpa using hholds)
              (by rw [hp]; rfl : (L.phase .owner).holds = true)
            cases heq
          have hzero : L.data._count = 0 := by
            have hn := h.threadAt.count
            omega
          rcases hthread with hidle | ⟨-, ⟨-, hn⟩ | ⟨-, hn⟩ | ⟨hq, -⟩ | ⟨hq, -⟩⟩
          · exact ⟨hzero, hidle⟩
          · omega
          · omega
          · simp [hq, MonitorObject.Phase.holds] at hout
          · simp [hq, MonitorObject.Phase.holds] at hout
  | @wake t w c hp hw => cases t <;> simp [hp] at hthread howner
  | @unheard t w hp hnone => cases t <;> simp [hp] at hthread howner
  | @broadcast t hp =>
      cases t with
      | thread =>
          simp [hp] at hthread
          obtain ⟨rfl, hn⟩ := hthread
          refine h.thread (by simp [hp]) ?_ (by simp)
          simp only [Function.update_self, hn]
          exact .leaving
      | owner => simp [hp] at howner
  | @leave t hp =>
      cases t with
      | thread =>
          simp [hp] at hthread
          obtain ⟨rfl, hn⟩ := hthread
          refine h.thread (by simp [hp]) ?_ (by simp [MonitorObject.setPhase])
          simp only [MonitorObject.setPhase, Function.update_self, hn]
          exact .counted
      | owner =>
          simp [hp] at howner
          obtain ⟨rfl, rfl, hfree⟩ := howner
          refine h.owner rfl (by simp [MonitorObject.setPhase]) ?_
          simp only [MonitorObject.setPhase, Function.update_self]
          exact .waited hfree
  | @spurious t c hp =>
      cases t with
      | thread => simp [hp] at hthread
      | owner =>
          simp [hp] at howner
          obtain ⟨rfl, rfl, rfl⟩ := howner
          refine h.owner rfl (by simp [MonitorObject.setPhase]) ?_
          simp only [MonitorObject.setPhase, Function.update_self]
          exact .woken

end Latch

/-! ### The handshake -/

structure Inv (s : Thread) : Prop where
  latch : MonitorObject.Inv CountDownLatch.methods ⟨1⟩ s._latch
  heard : MonitorObject.Heard CountDownLatch.methods s._latch
  latchAt : LatchAt s.thread s.owner s._started s._latch
  /-- There is a new thread when `start()` has been called. -/
  created : s._started = true ↔ s.thread ≠ .none
  stored : s.thread ≠ .none → 0 < s.id ∧ (s.thread ≠ .storing → s._tid = s.id)
  called : s.calls = if s.thread = .running ∨ s.thread = .finished then 1 else 0
  joined : s._joined = true → s._started = true ∧ (s.owner = .joining ∨ s.thread = .finished)
  detached : s.detached = true ↔ s.owner = .gone ∧ s._started = true ∧ s._joined = false
  safe : s.dangling = false ∧ s.busy = false

theorem inv_new : Inv new where
  latch := MonitorObject.inv_new _ _
  heard := MonitorObject.heard_new _ _
  latchAt := ⟨.none, .new⟩
  created := by simp [new]
  stored h := absurd rfl h
  called := rfl
  joined h := by cases h
  detached := by simp [new]
  safe := ⟨rfl, rfl⟩

variable {s : Thread}

theorem Inv.latch_step (h : Inv s) (l : MonitorObject.Label LatchCall Role) :
    MonitorObject.Inv CountDownLatch.methods ⟨1⟩ (s._latch.step CountDownLatch.methods l) :=
  MonitorObject.inv_step l h.latch

theorem Inv.heard_step (h : Inv s) (l : MonitorObject.Label LatchCall Role) :
    MonitorObject.Heard CountDownLatch.methods (s._latch.step CountDownLatch.methods l) :=
  h.heard.trans CountDownLatch.broadcasts h.latch (MonitorObject.trans_step _ l)

/-- The end of the program changes nothing else. -/
theorem Inv.ended (h : Inv s) : Inv { s with ended := true } :=
  ⟨h.latch, h.heard, h.latchAt, h.created, h.stored, h.called, h.joined, h.detached, h.safe⟩

theorem Inv.thread_none (h : Inv s) (hs : s._started = false) : s.thread = .none := by
  by_contra hne
  have hstarted := h.created.mpr hne
  rw [hs] at hstarted
  cases hstarted

/-- Outside `start()` the new thread is not in the latch. -/
theorem Inv.thread_idle (h : Inv s) (ho : s.owner ≠ .starting) :
    s._latch.phase .thread = .idle := by
  cases hs : s._started with
  | false => exact h.latchAt.threadAt.idle (by simp [h.thread_none hs])
  | true => exact ((h.latchAt.ownerAt.idle ho).2 hs).2

/-- Nobody is in the latch when the owner is outside. -/
theorem Inv.mutex_free (h : Inv s) (ho : s.owner = .outside) : s._latch.mutex = none := by
  cases hm : s._latch.mutex with
  | none => rfl
  | some t =>
      have hholds := (h.latch.mutex t).mpr hm
      cases t with
      | owner =>
          rw [(h.latchAt.ownerAt.idle (by simp [ho])).1] at hholds
          cases hholds
      | thread =>
          rw [h.thread_idle (by simp [ho])] at hholds
          cases hholds

/-- A thread in the latch, or before it, uses an object that exists. -/
theorem Inv.not_gone (h : Inv s) (hthread : s.thread = .storing ∨ s._latch.phase .thread ≠ .idle) :
    s.owner ≠ .gone := by
  intro hgone
  have ho : s.owner ≠ .starting := by simp [hgone]
  rcases hthread with hstoring | hne
  · have hfree := (h.latchAt.ownerAt.idle ho).2 (h.created.mpr (by simp [hstoring]))
    have hone := h.latchAt.threadAt.count_of_before (Or.inr hstoring)
    rw [hfree.1] at hone
    cases hone
  · exact hne (h.thread_idle ho)

theorem inv_start (h : Inv s) (ho : s.owner = .outside) (created : Option ℕ+) :
    Inv (s.start created) := by
  cases created with
  | none => exact h.ended
  | some id =>
      simp only [start]
      split
      · exact h.ended
      · rename_i hs
        have hnone := h.thread_none (by simpa using hs)
        have howner : s._latch.phase .owner = .idle := (h.latchAt.ownerAt.idle (by simp [ho])).1
        have hcall : s._latch.step CountDownLatch.methods (.call .owner .wait) =
            s._latch.setPhase .owner (.entering .wait) := by simp [MonitorObject.step, howner]
        refine ⟨h.latch_step (.call .owner .wait), h.heard_step (.call .owner .wait), ⟨?_, ?_⟩,
          ?_, ?_, ?_, ?_, ?_, h.safe⟩
        · have hidle := h.latchAt.threadAt.idle (by simp [hnone])
          have hone := h.latchAt.threadAt.count_of_before (Or.inl hnone)
          simp only [hcall, MonitorObject.setPhase, update_owner_thread, hidle, hone]
          exact .storing
        · simp only [hcall, MonitorObject.setPhase, Function.update_self]
          exact .entering
        · simp
        · exact fun _ => ⟨id.pos, fun hne => absurd rfl hne⟩
        · simpa [hnone] using h.called
        · intro hj
          exact absurd (h.joined hj).1 hs
        · have hdetached := h.detached
          simp only [ho] at hdetached
          simpa using hdetached

theorem inv_join (h : Inv s) (ho : s.owner = .outside) : Inv s.join := by
  unfold join
  split
  · exact h.ended
  · rename_i hpre
    obtain ⟨hs, hj⟩ : s._started = true ∧ s._joined = false := by simpa using hpre
    obtain ⟨hidle, hfree⟩ := h.latchAt.ownerAt.idle (by simp [ho] : s.owner ≠ .starting)
    refine ⟨h.latch, h.heard, ⟨h.latchAt.threadAt, ?_⟩, h.created, h.stored, h.called,
      fun _ => ⟨hs, Or.inl rfl⟩, ?_, h.safe⟩
    · simp only [hidle, hs]
      exact .joining (hfree hs)
    · have hdetached := h.detached
      simp only [ho] at hdetached
      simpa using hdetached

theorem inv_destroy (h : Inv s) (ho : s.owner = .outside) : Inv s.destroy := by
  obtain ⟨hidle, hfree⟩ := h.latchAt.ownerAt.idle (by simp [ho] : s.owner ≠ .starting)
  have hthread := h.thread_idle (by simp [ho])
  refine ⟨h.latch, h.heard, ⟨h.latchAt.threadAt, ?_⟩, h.created, h.stored, h.called, ?_,
    ?_, h.safe.1, ?_⟩
  · simp only [destroy, hidle]
    cases hs : s._started with
    | false => exact .unused
    | true => exact .gone (hfree hs)
  · intro hj
    have hjoined := h.joined hj
    simp only [ho] at hjoined
    exact ⟨hjoined.1, Or.inr (hjoined.2.resolve_left (by simp))⟩
  · have hdetached := h.detached
    simp only [ho] at hdetached
    simp [destroy, show s.detached = false from by simpa using hdetached]
  · simp [destroy, h.safe.2, h.mutex_free ho, hidle, hthread]

/-- Behind the latch the owner finds the id. -/
theorem Inv.tid_of_free (h : Inv s) (hs : s._started = true) (hfree : Free s._latch) :
    s._tid = s.id ∧ 0 < s.id := by
  have hne := h.created.mp hs
  obtain ⟨hpos, htid⟩ := h.stored hne
  have hstored : s.thread ≠ .storing := by
    intro hstoring
    have hone := h.latchAt.threadAt.count_of_before (Or.inr hstoring)
    rw [hfree.1] at hone
    cases hone
  exact ⟨htid hstored, hpos⟩

theorem Inv.tid_pos (h : Inv s) (hs : s._started = true) (hfree : Free s._latch) : 0 < s._tid := by
  rw [(h.tid_of_free hs hfree).1]
  exact (h.tid_of_free hs hfree).2

/-- `_latch.wait()` has returned. -/
theorem Inv.waited (h : Inv s) (ho : s.owner = .starting) (hidle : s._latch.phase .owner = .idle) :
    s._started = true ∧ Free s._latch := by
  have hat := h.latchAt.ownerAt
  rw [ho, hidle] at hat
  generalize s._started = started at hat
  cases hat with
  | waited hfree => exact ⟨rfl, hfree⟩

/-- The owner comes back from `start()` or `join()`. -/
theorem Inv.outside (h : Inv s) (hs : s._started = true) (hfree : Free s._latch)
    (hidle : s._latch.phase .owner = .idle) (ho : s.owner ≠ .gone)
    (hjoined : s._joined = true → s.thread = .finished) : Inv { s with owner := .outside } := by
  refine ⟨h.latch, h.heard, ⟨h.latchAt.threadAt, ?_⟩, h.created, h.stored, h.called,
    fun hj => ⟨hs, Or.inr (hjoined hj)⟩, ?_, h.safe⟩
  · simp only [hidle, hs]
    exact .outside hfree
  · have hdetached := h.detached
    simp only [ho] at hdetached
    simpa using hdetached

theorem inv_ownerStep (h : Inv s) : Inv s.ownerStep := by
  unfold ownerStep
  split
  · rename_i ho
    split
    · rename_i hidle
      obtain ⟨hs, hfree⟩ := h.waited ho hidle
      rw [if_pos (h.tid_pos hs hfree)]
      refine h.outside hs hfree hidle (by simp [ho]) fun hj => ?_
      have hjoined := (h.joined hj).2
      simpa [ho] using hjoined
    · exact h
  · rename_i ho
    split
    · rename_i hfinished
      obtain ⟨hidle, hfree⟩ := h.latchAt.ownerAt.idle (by simp [ho] : s.owner ≠ .starting)
      have hs : s._started = true := h.created.mpr (by simp [hfinished])
      exact h.outside hs (hfree hs) hidle (by simp [ho]) fun _ => hfinished
    · exact h
  · exact h
  · exact h

/-- `*_tid` is stored, and `countDown()` is called. -/
theorem inv_store (h : Inv s) (hthread : s.thread = .storing) : Inv s.threadStep := by
  have hidle := h.latchAt.threadAt.idle (by simp [hthread])
  have hone := h.latchAt.threadAt.count_of_before (Or.inr hthread)
  have hcall : s._latch.step CountDownLatch.methods (.call .thread .countDown) =
      s._latch.setPhase .thread (.entering .countDown) := by simp [MonitorObject.step, hidle]
  have hgone := h.not_gone (Or.inl hthread)
  simp only [threadStep, hthread, touch]
  refine ⟨h.latch_step (.call .thread .countDown), h.heard_step (.call .thread .countDown),
    ⟨?_, ?_⟩, ?_, ?_, ?_, ?_, h.detached, ?_, h.safe.2⟩
  · simp only [hcall, MonitorObject.setPhase, Function.update_self, hone]
    exact .entering
  · simp only [hcall, MonitorObject.setPhase, update_thread_owner]
    refine h.latchAt.ownerAt.mono fun hfree => ?_
    rw [hfree.1] at hone
    cases hone
  · simpa [hthread] using h.created
  · exact fun _ => ⟨(h.stored (by simp [hthread])).1, fun _ => rfl⟩
  · simpa [hthread] using h.called
  · intro hj
    have hjoined := h.joined hj
    simpa [hthread] using hjoined
  · simp [h.safe.1, hgone]

theorem inv_threadStep (h : Inv s) : Inv s.threadStep := by
  cases hthread : s.thread with
  | storing => exact inv_store h hthread
  | counting =>
      simp only [threadStep, hthread]
      split
      · rename_i hidle
        have hat := h.latchAt.threadAt
        rw [hthread, hidle] at hat
        refine ⟨h.latch, h.heard, ⟨?_, h.latchAt.ownerAt⟩, ?_, ?_, ?_, ?_, h.detached, h.safe⟩
        · simp only [hidle]
          generalize s._latch.data._count = n at hat
          cases hat
          exact .running
        · simpa [hthread] using h.created
        · have hstored := h.stored
          simpa [hthread] using hstored
        · simpa [hthread] using h.called
        · intro hj
          have hjoined := h.joined hj
          simpa [hthread] using hjoined
      · exact h
  | none | running | finished =>
      simp only [threadStep, hthread]
      exact h

theorem inv_latchStep (h : Inv s) {l : MonitorObject.Label LatchCall Role}
    (hl : ∀ t c, l ≠ .call t c) :
    Inv (s.latchStep l) := by
  have hlatchAt : LatchAt s.thread s.owner s._started (s._latch.step CountDownLatch.methods l) :=
    h.latchAt.trans h.latch hl (MonitorObject.trans_step _ l)
  unfold latchStep
  split
  · rename_i htouch
    refine ⟨h.latch_step l, h.heard_step l, hlatchAt, h.created, h.stored, h.called,
      h.joined, h.detached, ?_, h.safe.2⟩
    have hgone := h.not_gone (Or.inr htouch.2)
    simp [touch, h.safe.1, hgone]
  · exact ⟨h.latch_step l, h.heard_step l, hlatchAt, h.created, h.stored, h.called, h.joined,
      h.detached, h.safe⟩

theorem inv_finish (h : Inv s) (hr : s.thread = .running) : Inv { s with thread := .finished } := by
  have hat := h.latchAt.threadAt
  rw [hr] at hat
  refine ⟨h.latch, h.heard, ⟨?_, h.latchAt.ownerAt⟩, ?_, ?_, ?_,
    fun hj => ⟨(h.joined hj).1, Or.inr rfl⟩, h.detached, h.safe⟩
  · generalize s._latch.phase .thread = q at hat
    generalize s._latch.data._count = n at hat
    cases hat
    exact .finished
  · simpa [hr] using h.created
  · have hstored := h.stored
    simpa [hr] using hstored
  · simpa [hr] using h.called

theorem inv_step (h : Inv s) (l : ThreadLabel) : Inv (s.step l) := by
  unfold step
  split
  · exact h
  cases l with
  | start created =>
      dsimp only
      split
      · exact inv_start h ‹_› created
      · exact h
  | join =>
      dsimp only
      split
      · exact inv_join h ‹_›
      · exact h
  | destroy =>
      dsimp only
      split
      · exact inv_destroy h ‹_›
      · exact h
  | owner => exact inv_ownerStep h
  | thread => exact inv_threadStep h
  | finish =>
      dsimp only
      split
      · exact inv_finish h ‹_›
      · exact h
  | latch l =>
      cases l with
      | call t c => exact h
      | lock t => exact inv_latchStep h (by simp)
      | advance t => exact inv_latchStep h (by simp)
      | notify t w => exact inv_latchStep h (by simp)
      | spurious t => exact inv_latchStep h (by simp)

theorem inv_exec (run : List ThreadLabel) : Inv (exec step new run) :=
  exec_invariant Inv (fun _ l h => inv_step h l) run inv_new

/-! ### `start()` returns -/

/-- The steps that the two threads make on their own. -/
def internal : ThreadLabel → Prop
  | .owner | .thread => True
  | .latch l => l.internal
  | .start _ | .join | .destroy | .finish => False

def OwnerPhase.weight : OwnerPhase → ℕ
  | .starting | .joining => 1
  | .outside | .gone => 0

/-- The call of `countDown()` is paid for in advance. -/
def ThreadPhase.weight : ThreadPhase → ℕ
  | .storing => 20
  | .counting => 1
  | .none | .running | .finished => 0

def work (s : Thread) : ℕ := s._latch.work + OwnerPhase.weight s.owner + ThreadPhase.weight s.thread

theorem touch_eq (hgone : s.owner ≠ .gone) : s.touch = s := by
  have hfalse : (s.owner == .gone) = false := by simpa using hgone
  rw [touch, hfalse, Bool.or_false]

theorem latchStep_eq (h : Inv s) (l : MonitorObject.Label LatchCall Role) :
    s.latchStep l = { s with _latch := s._latch.step CountDownLatch.methods l } := by
  unfold latchStep
  split
  · rename_i htouch
    rw [touch_eq (h.not_gone (Or.inr htouch.2))]
  · rfl

theorem ownerStep_starting (h : Inv s) (ho : s.owner = .starting)
    (hidle : s._latch.phase .owner = .idle) :
    s.ownerStep = { s with owner := .outside } := by
  obtain ⟨hs, hfree⟩ := h.waited ho hidle
  simp only [ownerStep, ho, hidle, if_true, if_pos (h.tid_pos hs hfree)]

theorem work_ownerStep (h : Inv s) : s.ownerStep = s ∨ s.ownerStep.work < s.work := by
  cases ho : s.owner with
  | outside | gone => exact Or.inl (by simp only [ownerStep, ho])
  | starting =>
      by_cases hidle : s._latch.phase .owner = .idle
      · rw [ownerStep_starting h ho hidle]
        right
        simp [work, ho, OwnerPhase.weight]
      · exact Or.inl (by simp only [ownerStep, ho, if_neg hidle])
  | joining =>
      by_cases hfinished : s.thread = .finished
      · right
        simp [ownerStep, work, ho, hfinished, OwnerPhase.weight]
      · exact Or.inl (by simp only [ownerStep, ho, if_neg hfinished])

/-- A call adds what it has to do. -/
theorem work_call {L : CountDownLatch.Shared Role} (hidle : L.phase .thread = .idle) :
    (L.setPhase .thread (.entering .countDown)).work = L.work + 10 := by
  have hmove := sum_update (MonitorObject.Phase.weight (Fintype.card Role)) L.phase .thread
    (.entering .countDown)
  rw [hidle] at hmove
  exact hmove

theorem work_threadStep (h : Inv s) : s.threadStep = s ∨ s.threadStep.work < s.work := by
  cases hthread : s.thread with
  | none | running | finished => exact Or.inl (by simp only [threadStep, hthread])
  | storing =>
      right
      have hidle := h.latchAt.threadAt.idle (by simp [hthread])
      have hcall : s._latch.step CountDownLatch.methods (.call .thread .countDown) =
          s._latch.setPhase .thread (.entering .countDown) := by simp [MonitorObject.step, hidle]
      have hmore := work_call hidle
      simp only [threadStep, hthread, touch, work, hcall, hmore, ThreadPhase.weight]
      omega
  | counting =>
      by_cases hidle : s._latch.phase .thread = .idle
      · right
        simp [threadStep, work, hthread, hidle, ThreadPhase.weight]
      · exact Or.inl (by simp only [threadStep, hthread, if_neg hidle])

/-- Every step that one of the two makes on its own leaves less to do. -/
theorem work_internal (h : Inv s) {l : ThreadLabel} (hl : internal l) :
    s.step l = s ∨ (s.step l).work < s.work := by
  unfold step
  split
  · exact Or.inl rfl
  cases l with
  | start created => exact hl.elim
  | join => exact hl.elim
  | destroy => exact hl.elim
  | finish => exact hl.elim
  | owner => exact work_ownerStep h
  | thread => exact work_threadStep h
  | latch l =>
      have hstep : s.latchStep l = s ∨ (s.latchStep l).work < s.work := by
        rw [latchStep_eq h]
        rcases MonitorObject.work_internal (m := CountDownLatch.methods) s._latch
          hl with hsame | hless
        · exact Or.inl (by rw [hsame])
        · right
          simp only [work]
          omega
      cases l with
      | call t c => exact hl.elim
      | spurious t => exact hl.elim
      | lock t => exact hstep
      | advance t => exact hstep
      | notify t w => exact hstep

/-- The owner keeps to the assertions of `start()` and `join()`, and `pthread_create`
does not fail. -/
def Proper (s : Thread) : ThreadLabel → Prop
  | .start created => created.isSome = true ∧ s._started = false
  | .join => s._started = true ∧ s._joined = false
  | _ => True

end Thread

end Muduo.Base
