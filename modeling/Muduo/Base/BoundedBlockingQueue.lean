import Muduo.Lib.Monitor
import Muduo.Lib.Runs

/-!
# `muduo::BoundedBlockingQueue`

A queue shared by finitely many threads, each of which may call `put` and `take` any number of
times.  Both are one critical section with a wait at its beginning and a notification at its end;
the threads are interleaved at every access to the mutex, to the queue and to the two conditions.

* `Phase` — where a thread is in `put` or `take`; it holds the mutex in `testing`, `ready`,
  `notifying` and `leaving`;
* `Label` — one step of one thread; `notify t w` wakes `w` if it waits for what `t` has done, and a
  notification is lost only if nobody waits; `spurious t` is a wakeup without reason;
* `Trans`, `trans_step` — what a step can do;
* `Inv` — the invariant: besides mutual exclusion and order, `covered`: while somebody waits for an
  item, every item has a thread that is awake for it or a notification that is still to come, and
  the same with free places;
* `Served` — every call that the threads have made is in the log once, or still on its way to the
  queue.

`log` is history: who got to the queue, with which call, and what the call returns, in the order of
the critical sections.  The variant `BoundedBlockingQueue_std` has the same bodies over the types
of the standard library.
-/

namespace Muduo.Base

open Muduo.Lib

/-- A call in progress. -/
inductive Call (α : Type*) where
  | put (x : α)
  | take
  deriving DecidableEq

/-- The two sides of the queue. -/
inductive Kind where
  | put
  | take
  deriving DecidableEq

def Kind.other : Kind → Kind
  | .put => .take
  | .take => .put

def Call.kind {α : Type*} : Call α → Kind
  | .put _ => .put
  | .take => .take

inductive Phase (α : Type*) where
  | idle
  /-- Before the constructor of the lock guard has the mutex. -/
  | entering (c : Call α)
  /-- At the condition of the `while`. -/
  | testing (c : Call α)
  /-- In `wait()`, not yet notified. -/
  | waiting (c : Call α)
  /-- In `wait()`, notified, without the mutex. -/
  | woken (c : Call α)
  /-- Behind the `while`. -/
  | ready (c : Call α)
  /-- Before `notify()`. -/
  | notifying (c : Call α)
  /-- Before the destructor of the lock guard. -/
  | leaving (c : Call α)

structure BoundedBlockingQueue (α τ : Type*) where
  _capacity : ℕ
  _queue : List α
  _mutex : Option τ
  phase : τ → Phase α
  log : List (τ × Call α × Option α)
  /-- One of the two assertions has failed. -/
  failed : Bool

inductive Label (α τ : Type*) where
  /-- A thread calls `put` or `take`. -/
  | call (t : τ) (c : Call α)
  /-- A thread gets the mutex. -/
  | lock (t : τ)
  /-- A thread that holds the mutex goes on. -/
  | advance (t : τ)
  /-- A thread notifies; `w` is the waiter that the notification reaches. -/
  | notify (t w : τ)
  | spurious (t : τ)

namespace Phase

variable {α : Type*}

def holds : Phase α → Bool
  | .testing _ | .ready _ | .notifying _ | .leaving _ => true
  | _ => false

/-- Waiting, on the side `k`. -/
def waits (k : Kind) : Phase α → Bool
  | .waiting c => c.kind = k
  | _ => false

/-- Awake on the side `k`: the thread will test its condition again, or has just done so. -/
def active (k : Kind) : Phase α → Bool
  | .testing c | .woken c | .ready c => c.kind = k
  | _ => false

/-- About to notify the other side of `k`. -/
def notifies (k : Kind) : Phase α → Bool
  | .notifying c => c.kind = k
  | _ => false

/-- Inside `put` or `take`, and not waiting. -/
def runnable : Phase α → Bool
  | .idle | .waiting _ => false
  | _ => true

/-- The call that has not yet got to the queue. -/
def unserved : Phase α → List (Call α)
  | .entering c | .testing c | .waiting c | .woken c | .ready c => [c]
  | .idle | .notifying _ | .leaving _ => []

end Phase

namespace BoundedBlockingQueue

variable {α τ : Type*}

def new (capacity : ℕ) : BoundedBlockingQueue α τ where
  _capacity := capacity
  _queue := []
  _mutex := none
  phase := fun _ => .idle
  log := []
  failed := false

/-- The items of the calls of `put`, in the order of the critical sections. -/
def puts (log : List (τ × Call α × Option α)) : List α := log.filterMap fun
  | (_, .put x, _) => some x
  | (_, .take, _) => none

/-- The items that the calls of `take` return. -/
def taken (log : List (τ × Call α × Option α)) : List α := log.filterMap fun
  | (_, .put _, _) => none
  | (_, .take, result) => result

/-- The condition of the `while`. -/
def blocked (s : BoundedBlockingQueue α τ) : Call α → Bool
  | .put _ => s._queue.length = s._capacity
  | .take => s._queue.isEmpty

variable [DecidableEq τ]

def setPhase (s : BoundedBlockingQueue α τ) (t : τ) (p : Phase α) : BoundedBlockingQueue α τ :=
  { s with phase := Function.update s.phase t p }

/-- The assertion, the change of the queue, and the value to return. -/
def access (s : BoundedBlockingQueue α τ) : Call α → BoundedBlockingQueue α τ × Option α
  | .put x =>
      ({ s with
        _queue := s._queue ++ [x]
        failed := s.failed || !decide (s._queue.length < s._capacity) }, none)
  | .take =>
      match s._queue with
      | x :: rest => ({ s with _queue := rest }, some x)
      | [] => ({ s with failed := true }, none)

/-- A thread gets to the queue. -/
def serve (s : BoundedBlockingQueue α τ) (t : τ) (c : Call α) : BoundedBlockingQueue α τ :=
  { (s.access c).1 with log := s.log ++ [(t, c, (s.access c).2)] }

def advance (s : BoundedBlockingQueue α τ) (t : τ) : BoundedBlockingQueue α τ :=
  match s.phase t with
  | .testing c =>
      if s.blocked c then { s.setPhase t (.waiting c) with _mutex := none }
      else s.setPhase t (.ready c)
  | .ready c => (s.serve t c).setPhase t (.notifying c)
  | .leaving _ => { s.setPhase t .idle with _mutex := none }
  | _ => s

/-- `_not_empty.notify()` in `put`, `_not_full.notify()` in `take`. -/
def notify [Fintype τ] (s : BoundedBlockingQueue α τ) (t w : τ) : BoundedBlockingQueue α τ :=
  match s.phase t, s.phase w with
  | .notifying c, .waiting d =>
      if d.kind = c.kind.other then (s.setPhase w (.woken d)).setPhase t (.leaving c)
      else if ∃ u, (s.phase u).waits c.kind.other = true then s
      else s.setPhase t (.leaving c)
  | .notifying c, _ =>
      if ∃ u, (s.phase u).waits c.kind.other = true then s else s.setPhase t (.leaving c)
  | _, _ => s

def step [Fintype τ] (s : BoundedBlockingQueue α τ) : Label α τ → BoundedBlockingQueue α τ
  | .call t c =>
      match s.phase t with
      | .idle => s.setPhase t (.entering c)
      | _ => s
  | .lock t =>
      match s.phase t, s._mutex with
      | .entering c, none | .woken c, none => { s.setPhase t (.testing c) with _mutex := some t }
      | _, _ => s
  | .advance t => s.advance t
  | .notify t w => s.notify t w
  | .spurious t =>
      match s.phase t with
      | .waiting c => s.setPhase t (.woken c)
      | _ => s

/-- The call that a label begins. -/
def callOf (s : BoundedBlockingQueue α τ) : Label α τ → Option (τ × Call α)
  | .call t c =>
      match s.phase t with
      | .idle => some (t, c)
      | _ => none
  | .lock _ | .advance _ | .notify _ _ | .spurious _ => none

/-! ### What a step can do -/

inductive Trans (s : BoundedBlockingQueue α τ) : Label α τ → BoundedBlockingQueue α τ → Prop where
  | stay {l : Label α τ} (h : s.callOf l = none) : Trans s l s
  | call {t : τ} {c : Call α} (h : s.phase t = .idle) :
      Trans s (.call t c) (s.setPhase t (.entering c))
  | lock {t : τ} {c : Call α} (h : s.phase t = .entering c ∨ s.phase t = .woken c)
      (hfree : s._mutex = none) :
      Trans s (.lock t) { s.setPhase t (.testing c) with _mutex := some t }
  | wait {t : τ} {c : Call α} (h : s.phase t = .testing c) (hb : s.blocked c = true) :
      Trans s (.advance t) { s.setPhase t (.waiting c) with _mutex := none }
  | pass {t : τ} {c : Call α} (h : s.phase t = .testing c) (hb : s.blocked c = false) :
      Trans s (.advance t) (s.setPhase t (.ready c))
  | serve {t : τ} {c : Call α} (h : s.phase t = .ready c) :
      Trans s (.advance t) ((s.serve t c).setPhase t (.notifying c))
  | wake {t w : τ} {c d : Call α} (h : s.phase t = .notifying c) (hw : s.phase w = .waiting d)
      (hd : d.kind = c.kind.other) :
      Trans s (.notify t w) ((s.setPhase w (.woken d)).setPhase t (.leaving c))
  | unheard {t w : τ} {c : Call α} (h : s.phase t = .notifying c)
      (hnone : ∀ u, (s.phase u).waits c.kind.other = false) :
      Trans s (.notify t w) (s.setPhase t (.leaving c))
  | leave {t : τ} {c : Call α} (h : s.phase t = .leaving c) :
      Trans s (.advance t) { s.setPhase t .idle with _mutex := none }
  | spurious {t : τ} {c : Call α} (h : s.phase t = .waiting c) :
      Trans s (.spurious t) (s.setPhase t (.woken c))

variable {s : BoundedBlockingQueue α τ}

theorem trans_advance (s : BoundedBlockingQueue α τ) (t : τ) :
    Trans s (.advance t) (s.advance t) := by
  unfold advance
  split <;> rename_i h
  · split
    · rename_i hb
      exact .wait h hb
    · rename_i hb
      exact .pass h (by simpa using hb)
  · exact .serve h
  · exact .leave h
  · exact .stay rfl

variable [Fintype τ]

theorem trans_notify (s : BoundedBlockingQueue α τ) (t w : τ) :
    Trans s (.notify t w) (s.notify t w) := by
  have hunheard : ∀ {c : Call α}, s.phase t = .notifying c → Trans s (.notify t w)
      (if ∃ u, (s.phase u).waits c.kind.other = true then s else s.setPhase t (.leaving c)) := by
    intro c h
    split
    · exact .stay rfl
    · rename_i hnone
      exact .unheard h (by simpa using hnone)
  unfold notify
  split
  · rename_i h hw
    split
    · rename_i hd
      exact .wake h hw hd
    · exact hunheard h
  · rename_i h _
    exact hunheard h
  · exact .stay rfl

theorem trans_step (s : BoundedBlockingQueue α τ) (l : Label α τ) : Trans s l (s.step l) := by
  cases l with
  | call t c =>
      simp only [step]
      split
      · rename_i h
        exact .call h
      · exact .stay (by simp only [callOf])
  | lock t =>
      simp only [step]
      split
      · rename_i h hfree
        exact .lock (Or.inl h) hfree
      · rename_i h hfree
        exact .lock (Or.inr h) hfree
      · exact .stay rfl
  | advance t => exact trans_advance s t
  | notify t w => exact trans_notify s t w
  | spurious t =>
      simp only [step]
      split
      · rename_i h
        exact .spurious h
      · exact .stay rfl

/-! ### Every item has somebody awake -/

/-- While somebody waits on the side `k`, the `n` things to be had there are matched by threads
awake on that side and notifications still to come. -/
def Covered (k : Kind) (phase : τ → Phase α) (n : ℕ) : Prop :=
  0 < count (Phase.waits k) phase →
    n ≤ count (Phase.active k) phase + count (Phase.notifies k.other) phase

/-- What a thread adds to the threads awake and the notifications to come. -/
def share (k : Kind) (p : Phase α) : ℕ := (p.active k).toNat + (p.notifies k.other).toNat

/-- One thread moves and does not begin to wait: what it gives up it takes along, or leaves to
nobody. -/
theorem Covered.update {k : Kind} {phase : τ → Phase α} {n n' : ℕ} (h : Covered k phase n) {t : τ}
    {p : Phase α} (hwait : p.waits k = false) (hshare : n' + share k (phase t) ≤ n + share k p) :
    Covered k (Function.update phase t p) n' := by
  intro hpos
  have hwaits := count_update (Phase.waits k) phase t p
  have hactive := count_update (Phase.active k) phase t p
  have hnotifies := count_update (Phase.notifies k.other) phase t p
  rw [hwait, Bool.toNat_false] at hwaits
  have hold := h (by omega)
  unfold share at hshare
  omega

omit [DecidableEq τ] in
theorem Covered.of_zero (k : Kind) (phase : τ → Phase α) : Covered k phase 0 :=
    fun _ => Nat.zero_le _

/-! ### The invariant -/

/-- What the threads of a side wait for: items, or free places. -/
def avail (s : BoundedBlockingQueue α τ) : Kind → ℕ
  | .take => s._queue.length
  | .put => s._capacity - s._queue.length

structure Inv (s : BoundedBlockingQueue α τ) : Prop where
  mutex : Owned Phase.holds s.phase s._mutex
  ready : ∀ t c, s.phase t = .ready c → s.blocked c = false
  bound : s._queue.length ≤ s._capacity
  fifo : taken s.log ++ s._queue = puts s.log
  asserts : s.failed = false
  covered : ∀ k, Covered k s.phase (s.avail k)

omit [DecidableEq τ] in
theorem inv_new (capacity : ℕ) : Inv (new capacity : BoundedBlockingQueue α τ) where
  mutex t := by simp [new, Phase.holds]
  ready t c h := by cases h
  bound := Nat.zero_le _
  fifo := rfl
  asserts := rfl
  covered k h := by
    rw [count_pos_iff] at h
    obtain ⟨t, ht⟩ := h
    cases ht

omit [DecidableEq τ] [Fintype τ] in
/-- Nothing is to be had on the side that is blocked. -/
theorem avail_of_blocked {c : Call α} (h : s.blocked c = true) : s.avail c.kind = 0 := by
  cases c with
  | put x =>
      have hfull : s._queue.length = s._capacity := by simpa [blocked] using h
      rw [Call.kind, avail, hfull, Nat.sub_self]
  | take =>
      have hempty : s._queue = [] := by simpa [blocked] using h
      rw [Call.kind, avail, hempty, List.length_nil]

omit [DecidableEq τ] [Fintype τ] in
theorem puts_append (l₁ l₂ : List (τ × Call α × Option α)) : puts (l₁ ++ l₂) = puts l₁ ++ puts l₂ :=
  List.filterMap_append

omit [DecidableEq τ] [Fintype τ] in
theorem taken_append (l₁ l₂ : List (τ × Call α × Option α)) :
    taken (l₁ ++ l₂) = taken l₁ ++ taken l₂ := List.filterMap_append

/-- A step that leaves the queue alone. -/
theorem inv_setPhase (h : Inv s) {t : τ} {p : Phase α} {mutex : Option τ}
    (hmutex : Owned Phase.holds (Function.update s.phase t p) mutex)
    (hready : ∀ c, p = .ready c → s.blocked c = false)
    (hcovered : ∀ k, Covered k (Function.update s.phase t p) (s.avail k)) :
    Inv { s.setPhase t p with _mutex := mutex } := by
  refine ⟨hmutex, fun u c hu => ?_, h.bound, h.fifo, h.asserts, hcovered⟩
  replace hu : Function.update s.phase t p u = .ready c := hu
  by_cases hut : u = t
  · rw [hut, Function.update_self] at hu
    exact hready c hu
  · rw [Function.update_of_ne hut] at hu
    exact h.ready u c hu

/-- The thread that holds the mutex is the only one behind the `while`. -/
theorem Inv.ready_alone (h : Inv s) {t : τ} {c : Call α} (hp : s.phase t = .ready c)
    (u : τ) (d : Call α) :
    Function.update s.phase t (.notifying c) u ≠ .ready d := by
  intro hu
  by_cases hut : u = t
  · rw [hut, Function.update_self] at hu
    cases hu
  · rw [Function.update_of_ne hut] at hu
    exact hut (h.mutex.eq_of_holds (by rw [hu]; rfl) (by rw [hp]; rfl))

theorem inv_put (h : Inv s) {t : τ} {x : α} (hp : s.phase t = .ready (.put x)) :
    Inv ((s.serve t (.put x)).setPhase t (.notifying (.put x))) := by
  have hlt : s._queue.length < s._capacity := by
    have hne : s._queue.length ≠ s._capacity := by simpa [blocked] using h.ready t _ hp
    exact lt_of_le_of_ne h.bound hne
  refine ⟨h.mutex.keep (by rw [hp]; rfl), fun u d hu => absurd hu (h.ready_alone hp u d), ?_, ?_,
    ?_, fun k => ?_⟩
  · show (s._queue ++ [x]).length ≤ s._capacity
    rw [List.length_append]
    exact hlt
  · show taken (s.log ++ [(t, .put x, none)]) ++ (s._queue ++ [x]) = puts
      (s.log ++ [(t, .put x, none)])
    rw [puts_append, taken_append, ← h.fifo]
    simp [puts, taken]
  · show (s.failed || !decide (s._queue.length < s._capacity)) = false
    rw [h.asserts, decide_eq_true hlt]
    rfl
  · refine (h.covered k).update rfl ?_
    rw [hp]
    cases k with
    | take =>
        show (s._queue ++ [x]).length + 0 ≤ s._queue.length + 1
        rw [List.length_append]
        exact le_rfl
    | put =>
        show s._capacity - (s._queue ++ [x]).length + 1 ≤ s._capacity - s._queue.length + 0
        rw [List.length_append, List.length_singleton]
        omega

theorem inv_take (h : Inv s) {t : τ} (hp : s.phase t = .ready .take) :
    Inv ((s.serve t .take).setPhase t (.notifying .take)) := by
  obtain ⟨x, rest, hqueue⟩ : ∃ x rest, s._queue = x :: rest := by
    have hfree := h.ready t _ hp
    cases hq : s._queue with
    | nil => simp [blocked, hq] at hfree
    | cons x rest => exact ⟨x, rest, rfl⟩
  have haccess : s.serve t .take =
      { s with _queue := rest, log := s.log ++ [(t, .take, some x)] } := by
    simp only [serve, access, hqueue]
  have hbound := h.bound
  rw [hqueue, List.length_cons] at hbound
  rw [haccess]
  refine ⟨h.mutex.keep (by rw [hp]; rfl), fun u d hu => absurd hu (h.ready_alone hp u d),
    ?_, ?_, h.asserts, fun k => ?_⟩
  · show rest.length ≤ s._capacity
    omega
  · show taken (s.log ++ [(t, .take, some x)]) ++ rest = puts (s.log ++ [(t, .take, some x)])
    have hfifo := h.fifo
    rw [hqueue] at hfifo
    rw [puts_append, taken_append, ← hfifo]
    simp [puts, taken]
  · refine (h.covered k).update rfl ?_
    rw [hp]
    cases k with
    | take =>
        show rest.length + 1 ≤ s._queue.length + 0
        rw [hqueue]
        exact le_rfl
    | put =>
        show s._capacity - rest.length + 0 ≤ s._capacity - s._queue.length + 1
        rw [hqueue, List.length_cons]
        omega

/-- The change of the queue, by the thread that holds the mutex. -/
theorem inv_serve (h : Inv s) {t : τ} {c : Call α} (hp : s.phase t = .ready c) :
    Inv ((s.serve t c).setPhase t (.notifying c)) := by
  cases c with
  | put x => exact inv_put h hp
  | take => exact inv_take h hp

/-- **A notification**: the waiter takes the place of the notifier. -/
theorem inv_wake (h : Inv s) {t w : τ} {c d : Call α} (hp : s.phase t = .notifying c)
    (hw : s.phase w = .waiting d) (hd : d.kind = c.kind.other) :
    Inv ((s.setPhase w (.woken d)).setPhase t (.leaving c)) := by
  have htw : t ≠ w := by
    rintro rfl
    rw [hp] at hw
    cases hw
  have hpw : Function.update s.phase w (.woken d) t = .notifying c := by
    rw [Function.update_of_ne htw, hp]
  have hmutex : Owned Phase.holds (Function.update s.phase w (.woken d)) s._mutex :=
    h.mutex.keep (by rw [hw]; rfl)
  refine ⟨hmutex.keep (by rw [hpw]; rfl), fun u e hu => ?_, h.bound, h.fifo, h.asserts, fun k => ?_⟩
  · replace hu : Function.update (Function.update s.phase w (.woken d)) t (.leaving c)
      u = .ready e := hu
    by_cases hut : u = t
    · rw [hut, Function.update_self] at hu
      cases hu
    · rw [Function.update_of_ne hut] at hu
      by_cases huw : u = w
      · rw [huw, Function.update_self] at hu
        cases hu
      · rw [Function.update_of_ne huw] at hu
        exact h.ready u e hu
  · -- first the waiter wakes up and then the notifier goes on
    have hfirst :
        Covered k (Function.update s.phase w (.woken d)) (s.avail k + share k (.woken d)) :=
      (h.covered k).update rfl (by rw [hw]; exact le_rfl)
    refine hfirst.update rfl ?_
    rw [hpw]
    show s.avail k + share k (.notifying c) ≤ s.avail k + share k (.woken d) + 0
    have hle : share k (.notifying c) ≤ share k (.woken d) := by
      simp only [share, Phase.active, Phase.notifies, hd]
      cases c.kind <;> cases k <;> decide
    omega

theorem inv_trans {s' : BoundedBlockingQueue α τ} {l : Label α τ} (h : Inv s) (ht : Trans s l s') :
    Inv s' := by
  cases ht with
  | stay => exact h
  | @call t c hp =>
      refine inv_setPhase h (h.mutex.keep (by rw [hp]; rfl)) (by simp) fun k => ?_
      exact (h.covered k).update rfl (by rw [hp]; rfl)
  | @lock t c hp hfree =>
      have hmutex := h.mutex
      rw [hfree] at hmutex
      refine inv_setPhase h (hmutex.acquire rfl) (by simp) fun k => (h.covered k).update rfl ?_
      rcases hp with hp | hp
      · rw [hp]
        exact Nat.add_le_add_left (Nat.zero_le _) _
      · rw [hp]
        exact le_rfl
  | @wait t c hp hb =>
      have hmutex := h.mutex
      rw [(h.mutex t).mp (by rw [hp]; rfl)] at hmutex
      refine inv_setPhase h (hmutex.release rfl) (by simp) fun k => ?_
      by_cases hk : c.kind = k
      · rw [← hk, avail_of_blocked hb]
        exact Covered.of_zero _ _
      · refine (h.covered k).update (by simpa [Phase.waits] using hk) ?_
        rw [hp]
        simp [share, Phase.active, Phase.notifies, hk]
  | @pass t c hp hb =>
      refine inv_setPhase h (h.mutex.keep (by rw [hp]; rfl)) ?_ fun k => ?_
      · intro c' hc'
        cases hc'
        exact hb
      · exact (h.covered k).update rfl (by rw [hp]; exact le_rfl)
  | serve hp => exact inv_serve h hp
  | wake hp hw hd => exact inv_wake h hp hw hd
  | @unheard t w c hp hnone =>
      refine inv_setPhase h (h.mutex.keep (by rw [hp]; rfl)) (by simp) fun k => ?_
      by_cases hk : c.kind = k.other
      · -- nobody waits for this notification
        intro hpos
        have hwaits := count_update (Phase.waits k) s.phase t (.leaving c)
        have hzero : count (Phase.waits k) s.phase = 0 := by
          rw [count_eq_zero_iff]
          intro u
          have hu := hnone u
          rw [hk] at hu
          cases k <;> exact hu
        simp only [hp, hzero, Phase.waits, Bool.toNat_false] at hwaits
        omega
      · refine (h.covered k).update rfl ?_
        rw [hp]
        simp [share, Phase.active, Phase.notifies, hk]
  | @leave t c hp =>
      have hmutex := h.mutex
      rw [(h.mutex t).mp (by rw [hp]; rfl)] at hmutex
      refine inv_setPhase h (hmutex.release rfl) (by simp) fun k => ?_
      exact (h.covered k).update rfl (by rw [hp]; exact le_rfl)
  | @spurious t c hp =>
      refine inv_setPhase h (h.mutex.keep (by rw [hp]; rfl)) (by simp) fun k => ?_
      refine (h.covered k).update rfl ?_
      rw [hp]
      exact Nat.add_le_add_left (Nat.zero_le _) _

theorem inv_exec (capacity : ℕ) (run : List (Label α τ)) : Inv (exec step (new capacity) run) :=
  exec_invariant Inv (fun s l h => inv_trans h (trans_step s l)) run (inv_new capacity)

omit [Fintype τ] in
theorem Trans.capacity {s' : BoundedBlockingQueue α τ} {l : Label α τ} (h : Trans s l s') :
    s'._capacity = s._capacity := by
  cases h with
  | @serve t c hp =>
      cases c with
      | put x => rfl
      | take =>
          simp only [BoundedBlockingQueue.serve, BoundedBlockingQueue.access]
          split <;> rfl
  | _ => rfl

theorem capacity_exec (capacity : ℕ) (run : List (Label α τ)) :
    (exec step (new capacity : BoundedBlockingQueue α τ) run)._capacity = capacity :=
  exec_invariant (fun s : BoundedBlockingQueue α τ => s._capacity = capacity)
    (fun s l h => (trans_step s l).capacity.trans h) run rfl

/-! ### Every call is served once -/

/-- The calls of one thread, of all that were made. -/
def callsBy (t : τ) (calls : List (τ × Call α)) : List (Call α) :=
  (calls.filter (·.1 = t)).map Prod.snd

/-- The calls of one thread that have got to the queue. -/
def servedBy (t : τ) (log : List (τ × Call α × Option α)) : List (Call α) :=
  (log.filter (·.1 = t)).map fun e => e.2.1

/-- A thread has made the calls that are in the log, and the one it is in. -/
def Served (calls : List (τ × Call α)) (s : BoundedBlockingQueue α τ) : Prop :=
  ∀ t, callsBy t calls = servedBy t s.log ++ (s.phase t).unserved

section Served

variable {calls : List (τ × Call α)}

omit [Fintype τ] in
/-- One more entry of a list that is kept thread by thread. -/
theorem map_filter_concat {β γ : Type*} (f : τ × β → γ) (t u : τ) (b : β) (entries : List (τ × β)) :
    ((entries ++ [(u, b)]).filter (·.1 = t)).map f =
      (entries.filter (·.1 = t)).map f ++ if u = t then [f (u, b)] else [] := by
  rw [List.filter_append, List.map_append]
  by_cases h : u = t
  · simp [h]
  · simp [h]

omit [Fintype τ] in
/-- No call is made. -/
theorem Served.quiet (h : Served calls s) : Served (calls ++ []) s := by rwa [List.append_nil]

omit [Fintype τ] in
/-- A thread goes on, and its call stays served or not. -/
theorem Served.update (h : Served calls s) {t : τ} {p : Phase α}
    (hp : p.unserved = (s.phase t).unserved) {s' : BoundedBlockingQueue α τ} (hlog : s'.log = s.log)
    (hphase : s'.phase = Function.update s.phase t p) : Served calls s' := by
  intro u
  rw [hlog, hphase, h u]
  by_cases hut : u = t
  · rw [hut, Function.update_self, hp]
  · rw [Function.update_of_ne hut]

omit [Fintype τ] in
theorem Served.trans {s' : BoundedBlockingQueue α τ} {l : Label α τ} (h : Served calls s)
    (ht : Trans s l s') : Served (calls ++ (s.callOf l).toList) s' := by
  cases ht with
  | stay hnone =>
      rw [hnone]
      exact h.quiet
  | @call t c hp =>
      have hcall : s.callOf (.call t c) = some (t, c) := by
        simp only [callOf, hp]
      intro u
      have hmade : callsBy u (calls ++ [(t, c)]) = callsBy u calls ++ if t = u then [c] else [] :=
        map_filter_concat ..
      rw [hcall, Option.toList_some, hmade, h u]
      show _ = servedBy u s.log ++ (Function.update s.phase t (.entering c) u).unserved
      by_cases hut : u = t
      · rw [hut, Function.update_self, if_pos rfl, hp]
        exact congrArg (· ++ [c]) (List.append_nil _)
      · rw [Function.update_of_ne hut, if_neg (Ne.symm hut), List.append_nil]
  | @serve t c hp =>
      intro u
      rw [show s.callOf (.advance t) = none from rfl, Option.toList_none, List.append_nil, h u]
      show _ = servedBy u (s.log ++ [(t, c, (s.access c).2)]) ++ Phase.unserved _
      have hphase : ((s.serve t c).setPhase t (.notifying c)).phase =
          Function.update s.phase t (.notifying c) := by
        cases c with
        | put x => rfl
        | take =>
            simp only [BoundedBlockingQueue.serve, BoundedBlockingQueue.access]
            split <;> rfl
      have hlog : servedBy u (s.log ++ [(t, c, (s.access c).2)]) =
          servedBy u s.log ++ if t = u then [c] else [] := map_filter_concat ..
      rw [hphase, hlog]
      by_cases hut : u = t
      · rw [hut, Function.update_self, if_pos rfl, hp]
        exact (List.append_nil _).symm
      · rw [Function.update_of_ne hut, if_neg (Ne.symm hut), List.append_nil]
  | @wake t w c d hp hw hd =>
      have htw : t ≠ w := by
        rintro rfl
        rw [hp] at hw
        cases hw
      have hwoken : Served calls (s.setPhase w (.woken d)) := h.update (by rw [hw]; rfl) rfl rfl
      refine Served.quiet (hwoken.update ?_ rfl rfl)
      show _ = (Function.update s.phase w (.woken d) t).unserved
      rw [Function.update_of_ne htw, hp]
      rfl
  | lock hp _ =>
      refine Served.quiet (h.update ?_ rfl rfl)
      rcases hp with hp | hp
      · rw [hp]
        rfl
      · rw [hp]
        rfl
  | wait hp _ | pass hp _ | unheard hp _ | leave hp | spurious hp =>
      exact Served.quiet (h.update (by rw [hp]; rfl) rfl rfl)

end Served

omit [DecidableEq τ] in
/-- When no thread runs inside `put` or `take`, nobody waits for what is there. -/
theorem Inv.not_stranded (h : Inv s) (hquiet : ∀ t, (s.phase t).runnable = false) (k : Kind)
    (hwaits : ∃ t, (s.phase t).waits k = true) : s.avail k = 0 := by
  have hactive : count (Phase.active k) s.phase = 0 := by
    rw [count_eq_zero_iff]
    intro t
    have ht := hquiet t
    cases hp : s.phase t <;> simp_all [Phase.runnable, Phase.active]
  have hnotifies : count (Phase.notifies k.other) s.phase = 0 := by
    rw [count_eq_zero_iff]
    intro t
    have ht := hquiet t
    cases hp : s.phase t <;> simp_all [Phase.runnable, Phase.notifies]
  have hcovered := h.covered k ((count_pos_iff _ _).mpr hwaits)
  omega

/-- **The bounded blocking queue.**  For every capacity, any number of threads and every
interleaving: the size never exceeds the capacity; the items that the calls of `take` return,
followed by what is in the queue, are the items of the calls of `put`, in the order in which the
calls held the mutex; these are, for each thread and in its order, the calls it has made, but for
one that has not yet got to the queue; no assertion fails; and there is no state in which no thread
runs inside `put` or `take`, and yet a consumer waits while there is an item or a producer while
there is a free place. -/
theorem queue_safe (capacity : ℕ) (run : List (Label α τ)) :
    let s := exec step (new capacity) run
    s._queue.length ≤ capacity ∧ taken s.log ++ s._queue = puts s.log ∧
    (∀ t, callsBy t (outputs step callOf (new capacity) run) =
      servedBy t s.log ++ (s.phase t).unserved) ∧
    s.failed = false ∧
    ¬ (s._mutex = none ∧ (∀ t, (s.phase t).runnable = false) ∧
      (((∃ t, (s.phase t).waits .take = true) ∧ s._queue ≠ []) ∨
        ((∃ t, (s.phase t).waits .put = true) ∧ s._queue.length < capacity))) := by
  intro s
  have h : Inv s := inv_exec capacity run
  have hcap : s._capacity = capacity := capacity_exec capacity run
  have hserved : Served (outputs step callOf (new capacity) run) s :=
    exec_outputs Served (fun _ s l h => h.trans (trans_step s l)) (fun _ => rfl) run
  refine ⟨hcap ▸ h.bound, h.fifo, hserved, h.asserts, ?_⟩
  rintro ⟨-, hquiet, ⟨hwaits, hitem⟩ | ⟨hwaits, hplace⟩⟩
  · have hnone := h.not_stranded hquiet .take hwaits
    exact hitem (List.length_eq_zero_iff.mp hnone)
  · have hnone : s._capacity - s._queue.length = 0 := h.not_stranded hquiet .put hwaits
    omega

/-- The producer, `false`, puts two items into a queue of capacity one, and has to wait for the
consumer. -/
def handedOver : List (Label ℕ Bool) :=
  [.call false (.put 5), .lock false, .advance false, .advance false, .notify false true,
    .advance false, .call false (.put 6), .lock false, .advance false, .call true .take, .lock true,
    .advance true, .advance true, .notify true false, .advance true, .lock false, .advance false,
    .advance false]

theorem queue_safe_handedOver :
    (exec step (new 1) handedOver).log =
      [(false, .put 5, none), (true, .take, some 5), (false, .put 6, none)] ∧
    [5] ++ (exec step (new 1) handedOver)._queue = [5, 6] ∧
    callsBy false (outputs step callOf (new 1) handedOver) = [.put 5, .put 6] := by
  obtain ⟨-, hfifo, hcalls, -⟩ := queue_safe 1 handedOver
  exact ⟨by decide +kernel, hfifo, (hcalls false).trans (by decide +kernel)⟩

end BoundedBlockingQueue

end Muduo.Base
