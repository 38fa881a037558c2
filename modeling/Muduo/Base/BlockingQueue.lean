import Muduo.Lib.MonitorObject

/-!
# `muduo::BlockingQueue`

The unbounded queue as a monitor object: `put` notifies one thread after every item, `take`
waits in its `while` as long as the queue is empty.  The two overloads of `put` differ in how
the item is copied only.

* `methods` — the three methods;
* `tokens` — every item has been announced by one notification and is taken by one `take`;
* `taken_put` — the items taken, followed by those in the queue, are the items put;
* `queue_fifo_and_live` — the queue hands out what was put, in order and once, and lets
  nobody sleep beside an item.
-/

namespace Muduo.Base

open Muduo.Lib

inductive QueueCall (α : Type*) where
  | put (x : α)
  | take
  | size

def QueueCall.takes {α : Type*} : QueueCall α → Bool
  | .take => true
  | _ => false

inductive QueueResult (α : Type*) where
  | void
  | item (x : α)
  | size (n : ℕ)

structure BlockingQueue (α : Type*) where
  _queue : List α
  /-- The assertion of `take` has failed. -/
  failed : Bool

namespace BlockingQueue

variable {α τ : Type*}

def new : BlockingQueue α := ⟨[], false⟩

def put (s : BlockingQueue α) (x : α) : BlockingQueue α := { s with _queue := s._queue ++ [x] }

/-- Behind the `while`. -/
def take (s : BlockingQueue α) : BlockingQueue α × QueueResult α :=
  match s._queue with
  | x :: rest => ({ s with _queue := rest }, .item x)
  | [] => ({ s with failed := true }, .void)

def methods : Methods (BlockingQueue α) (QueueCall α) (QueueResult α) where
  blocked c s :=
    match c with
    | .take => s._queue.isEmpty
    | .put _ | .size => false
  body c s :=
    match c with
    | .put x => ⟨s.put x, .void, .one⟩
    | .take => ⟨s.take.1, s.take.2, .none⟩
    | .size => ⟨s, .size s._queue.length, .none⟩

/-- The queue and the threads that use it. -/
abbrev Shared (α τ : Type*) := MonitorObject (BlockingQueue α) (QueueCall α) (QueueResult α) τ

/-- The items put, in the order of the critical sections. -/
def puts : List (τ × QueueCall α × QueueResult α) → List α
  | [] => []
  | (_, .put x, _) :: log => x :: puts log
  | _ :: log => puts log

/-- The items that calls of `take` have returned. -/
def taken : List (τ × QueueCall α × QueueResult α) → List α
  | [] => []
  | (_, .take, .item x) :: log => x :: taken log
  | _ :: log => taken log

theorem tokens : MonitorObject.Tokens (methods (α := α)) QueueCall.takes fun s =>
    s._queue.length where
  blocked c s h := by
    cases c with
    | take => exact ⟨rfl, by simpa [methods] using h⟩
    | put x | size => cases h
  body c s h := by
    cases c with
    | put x => simp [methods, put, QueueCall.takes]
    | take =>
        cases hq : s._queue with
        | nil => simp [methods, hq] at h
        | cons x rest => simp [methods, take, hq, QueueCall.takes]
    | size => simp [methods, QueueCall.takes]
  signal c s := by
    cases c <;> simp [methods]

/-- What a run of calls, one after the other, does to the queue. -/
theorem serial_fifo {s : BlockingQueue α} {log : List (τ × QueueCall α × QueueResult α)}
    (h : Along (MonitorObject.serialStep methods) (MonitorObject.Legal methods) s log) :
    taken log ++ (exec (MonitorObject.serialStep methods) s log)._queue = s._queue ++ puts log ∧
      (exec (MonitorObject.serialStep methods) s log).failed = s.failed := by
  induction log generalizing s with
  | nil => simp [taken, puts]
  | cons e log ih =>
      obtain ⟨t, c, r⟩ := e
      obtain ⟨⟨hfree, hresult⟩, hrest⟩ := h
      obtain ⟨hqueue, hfailed⟩ := ih hrest
      rw [exec_cons]
      cases c with
      | put x =>
          refine ⟨?_, hfailed⟩
          show taken log ++ _ = s._queue ++ x :: puts log
          rw [hqueue]
          simp [MonitorObject.serialStep, methods, put]
      | size => exact ⟨hqueue, hfailed⟩
      | take =>
          cases hq : s._queue with
          | nil => simp [methods, hq] at hfree
          | cons x rest =>
              have htake : s.take = ({ s with _queue := rest }, .item x) := by simp only [take, hq]
              have hr : s.take.2 = r := hresult
              rw [htake] at hr
              have hnext : MonitorObject.serialStep methods s (t, .take, r) =
                  { s with _queue := rest } := by
                show s.take.1 = _
                rw [htake]
              rw [hnext] at hqueue hfailed ⊢
              subst hr
              refine ⟨?_, hfailed⟩
              show x :: taken log ++ _ = x :: rest ++ puts log
              rw [List.cons_append, hqueue, List.cons_append]

/-- The queue is what has been put and not yet been taken. -/
theorem taken_put {s : Shared α τ} (h : MonitorObject.Inv methods new s) :
    taken s.log ++ s.data._queue = puts s.log ∧ s.data.failed = false := by
  have hserial := serial_fifo h.legal
  rw [h.data] at hserial
  exact hserial

/-- The call of a log is made on the queue that the calls before it have left. -/
theorem legal_at {pre post : List (τ × QueueCall α × QueueResult α)} {t : τ} {c : QueueCall α}
    {r : QueueResult α}
    (h : Along (MonitorObject.serialStep methods) (MonitorObject.Legal methods) new
      (pre ++ (t, c, r) :: post)) :
    ∃ s : BlockingQueue α, MonitorObject.Legal methods s (t, c, r) ∧
      taken pre ++ s._queue = puts pre := by
  obtain ⟨hpre, hhere, -⟩ := (along_append _ _ _).mp h
  exact ⟨_, hhere, (serial_fifo hpre).1⟩

variable [DecidableEq τ] [Fintype τ]

/-- **The blocking queue.**  For any number of threads and every interleaving: the items returned
by `take`, followed by those in the queue, are the items put, in that order; the assertion of
`take` does not fail; `size` returns how many items have been put and not yet taken; and once no
thread calls any more, under every fair schedule all calls return, except those of `take` when
the queue is empty. -/
theorem queue_fifo_and_live (run : List (MonitorObject.Label (QueueCall α) τ)) :
    let s : Shared α τ := exec (MonitorObject.step methods) (MonitorObject.new new) run
    taken s.log ++ s.data._queue = puts s.log ∧ s.data.failed = false ∧
    (∀ pre t r post, s.log = pre ++ (t, .size, r) :: post →
      ∃ n, r = .size n ∧ (taken pre).length + n = (puts pre).length) ∧
    ∀ sched, Fair MonitorObject.Label.internal sched →
      ∃ N, let s' := stateAt (MonitorObject.step methods) s sched N
        ∀ t, s'.phase t = .idle ∨ (s'.phase t = .waiting .take ∧ s'.data._queue = []) := by
  intro s
  have hinv : MonitorObject.Inv methods new s := MonitorObject.inv_exec methods new run
  obtain ⟨hfifo, hfailed⟩ := taken_put hinv
  refine ⟨hfifo, hfailed, fun pre t r post hlog => ?_, fun sched hfair => ?_⟩
  · have hlegal := hinv.legal
    rw [hlog] at hlegal
    obtain ⟨q, ⟨-, hresult⟩, hq⟩ := legal_at hlegal
    refine ⟨q._queue.length, hresult.symm, ?_⟩
    rw [← hq, List.length_append]
  · obtain ⟨N, -, hrest⟩ := MonitorObject.fair_rest_tokens tokens run hfair
    refine ⟨N, fun t => (hrest t).imp id ?_⟩
    rintro ⟨c, hc, htakes, hnone⟩
    cases c with
    | take => exact ⟨hc, List.length_eq_zero_iff.mp hnone⟩
    | put x | size => cases htakes

end BlockingQueue

end Muduo.Base
