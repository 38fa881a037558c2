import Muduo.Lib.MonitorObject

/-!
# `muduo::CountDownLatch`

The latch as a monitor object: `wait()` waits in its `while` as long as `_count > 0`, `countDown()`
notifies everybody when the count is `0`, `getCount()` reads it.  Any number of threads call the
three methods in any order.

* `methods` — the three methods;
* `broadcasts` — only the call that takes the count from `1` to `0` ends a wait, and it notifies;
* `count_eq` — the count, from the calls so far;
* `wait_returns_iff_counted` — the latch opens when it has been counted down, not
  earlier, and for everybody.
-/

namespace Muduo.Base

open Muduo.Lib

inductive LatchCall where
  | wait
  | countDown
  | getCount
  deriving DecidableEq

structure CountDownLatch where
  _count : ℤ

namespace CountDownLatch

/-- The methods; the result is that of `getCount`. -/
def methods : Methods CountDownLatch LatchCall (Option ℤ) where
  blocked c s :=
    match c with
    | .wait => s._count > 0
    | .countDown | .getCount => false
  body c s :=
    match c with
    | .wait => ⟨s, none, .none⟩
    | .countDown => ⟨⟨s._count - 1⟩, none, if s._count - 1 = 0 then .all else .none⟩
    | .getCount => ⟨s, some s._count, .none⟩

/-- The latch and the threads that use it. -/
abbrev Shared (τ : Type*) := MonitorObject CountDownLatch LatchCall (Option ℤ) τ

variable {τ : Type*}

/-- The critical sections of `countDown` in a log. -/
def countDowns (log : List (τ × LatchCall × Option ℤ)) : ℕ :=
  log.countP fun e => e.2.1 = .countDown

theorem broadcasts : MonitorObject.Broadcasts methods := by
  intro c d s hc _ hopen
  cases c with
  | wait =>
      have hpos : 0 < s._count := of_decide_eq_true hc
      cases d with
      | countDown =>
          have hnext : ¬ 0 < s._count - 1 := of_decide_eq_false hopen
          exact if_pos (by omega)
      | wait | getCount => exact absurd hpos (of_decide_eq_false hopen)
  | countDown | getCount => cases hc

/-- The count after the calls of a log. -/
theorem count_serial (s : CountDownLatch) (log : List (τ × LatchCall × Option ℤ)) :
    (exec (MonitorObject.serialStep methods) s log)._count = s._count - countDowns log := by
  induction log generalizing s with
  | nil => simp [countDowns]
  | cons e log ih =>
      obtain ⟨t, c, r⟩ := e
      rw [exec_cons, ih]
      cases c with
      | countDown =>
          simp [countDowns, MonitorObject.serialStep, methods]
          omega
      | wait | getCount => simp [countDowns, MonitorObject.serialStep, methods]

theorem count_eq {count : ℤ} {s : Shared τ} (h : MonitorObject.Inv methods ⟨count⟩ s) :
    s.data._count = count - countDowns s.log := by
  rw [← h.data]
  exact count_serial ⟨count⟩ s.log

/-- The call of a log is made on the count that the calls before it have left. -/
theorem legal_at {s : CountDownLatch} {pre post : List (τ × LatchCall × Option ℤ)}
    {t : τ} {c : LatchCall} {r : Option ℤ}
    (h : Along (MonitorObject.serialStep methods) (MonitorObject.Legal methods) s
      (pre ++ (t, c, r) :: post)) :
    MonitorObject.Legal methods ⟨s._count - countDowns pre⟩ (t, c, r) := by
  have hhere := ((along_append _ _ _).mp h).2.1
  have hdata : exec (MonitorObject.serialStep methods) s pre = ⟨s._count - countDowns pre⟩ := by
    rw [← count_serial]
  rw [hdata] at hhere
  exact hhere

variable [DecidableEq τ] [Fintype τ]

/-- **The latch.**  For every count, any number of threads and every interleaving: a `wait` gets
through only after `count` calls of `countDown`, and `getCount` returns the count less those calls;
and once no thread calls any more, under every fair schedule all calls return, except that of `wait`
while the latch has not been counted down. -/
theorem wait_returns_iff_counted (count : ℤ) (run : List (MonitorObject.Label LatchCall τ)) :
    let s : Shared τ := exec (MonitorObject.step methods) (MonitorObject.new ⟨count⟩) run
    (∀ pre t r post, s.log = pre ++ (t, .wait, r) :: post → count ≤ countDowns pre) ∧
    (∀ pre t r post, s.log = pre ++ (t, .getCount, r) :: post → r = some (count - countDowns pre)) ∧
    ∀ sched, Fair MonitorObject.Label.internal sched →
      ∃ N, let s' := stateAt (MonitorObject.step methods) s sched N
        ∀ t, s'.phase t = .idle ∨ (s'.phase t = .waiting .wait ∧ countDowns s'.log < count) := by
  intro s
  have hinv : MonitorObject.Inv methods ⟨count⟩ s := MonitorObject.inv_exec methods ⟨count⟩ run
  refine ⟨fun pre t r post hlog => ?_, fun pre t r post hlog => ?_, fun sched hfair => ?_⟩
  · have hlegal := hinv.legal
    rw [hlog] at hlegal
    have hopen : ¬ 0 < count - countDowns pre := of_decide_eq_false (legal_at hlegal).1
    omega
  · have hlegal := hinv.legal
    rw [hlog] at hlegal
    exact (legal_at hlegal).2.symm
  · obtain ⟨N, hend, hrest⟩ := MonitorObject.fair_rest_broadcasts broadcasts run hfair
    refine ⟨N, fun t => (hrest t).imp id ?_⟩
    rintro ⟨c, hc, hblocked⟩
    cases c with
    | wait =>
        have hpos : 0 < (stateAt (MonitorObject.step methods) s sched N).data._count :=
          of_decide_eq_true hblocked
        rw [show (stateAt (MonitorObject.step methods) s sched N).data._count =
          _ from count_eq hend] at hpos
        exact ⟨hc, sub_pos.mp hpos⟩
    | countDown | getCount => cases hblocked

end CountDownLatch

end Muduo.Base
