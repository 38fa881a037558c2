import Mathlib

/-!
# Systems that come to rest

An infinite schedule `sched : ℕ → α` of labels.  When every step of it either changes nothing or
lowers a measure, the system comes to rest; and when the schedule keeps offering every label of a
class, no label of that class changes the state in which it rests.

* `stateAt step s sched n` — the state after the first `n` labels;
* `exists_settled` — from some point on nothing changes;
* `fair_settles` — **the liveness rule**: under a fair schedule the system ends where nothing is
  enabled.
-/

namespace Muduo.Lib

variable {σ α : Type*} {step : σ → α → σ}

/-- The state after the first `n` labels of a schedule. -/
def stateAt (step : σ → α → σ) (s : σ) (sched : ℕ → α) : ℕ → σ
  | 0 => s
  | n + 1 => step (stateAt step s sched n) (sched n)

@[simp] theorem stateAt_zero (s : σ) (sched : ℕ → α) : stateAt step s sched 0 = s := rfl

@[simp] theorem stateAt_succ (s : σ) (sched : ℕ → α) (n : ℕ) :
    stateAt step s sched (n + 1) = step (stateAt step s sched n) (sched n) := rfl

/-- The schedule consists of labels with `P`, and each of them is offered again and again. -/
structure Fair (P : α → Prop) (sched : ℕ → α) : Prop where
  only : ∀ n, P (sched n)
  again : ∀ a, P a → ∀ n, ∃ m, n ≤ m ∧ sched m = a

theorem stateAt_invariant {I : σ → Prop} {P : α → Prop} (hI : ∀ s a, I s → P a → I (step s a))
    {s : σ}
    (h0 : I s) {sched : ℕ → α} (hP : ∀ n, P (sched n)) (n : ℕ) : I (stateAt step s sched n) := by
  induction n with
  | zero => exact h0
  | succ n ih => exact hI _ _ ih (hP n)

/-- A system whose effective steps lower a measure comes to rest. -/
theorem exists_settled {I : σ → Prop} {P : α → Prop} (μ : σ → ℕ)
    (hI : ∀ s a, I s → P a → I (step s a))
    (hμ : ∀ s a, I s → P a → step s a = s ∨ μ (step s a) < μ s) {s : σ} (h0 : I s) {sched : ℕ → α}
    (hP : ∀ n, P (sched n)) :
    ∃ N, ∀ n, N ≤ n → stateAt step s sched n = stateAt step s sched N := by
  -- a point of the run at which the measure is least
  obtain ⟨N, hleast⟩ : ∃ N, ∀ n, μ (stateAt step s sched N) ≤ μ (stateAt step s sched n) := by
    obtain ⟨_, ⟨N, rfl⟩, hmin⟩ := WellFounded.has_min (measure id).wf
      (Set.range fun n => μ (stateAt step s sched n)) ⟨_, 0, rfl⟩
    exact ⟨N, fun n => not_lt.mp (hmin _ ⟨n, rfl⟩)⟩
  refine ⟨N, fun n hn => ?_⟩
  induction n, hn using Nat.le_induction with
  | base => rfl
  | succ n hn ih =>
      rcases hμ _ _ (stateAt_invariant hI h0 hP n) (hP n) with hsame | hless
      · rw [stateAt_succ, hsame, ih]
      · have hle := hleast (n + 1)
        rw [stateAt_succ] at hle
        rw [ih] at hle hless
        omega

/-- **The liveness rule.**  Under a fair schedule such a system reaches a state that no label
of the class changes. -/
theorem fair_settles {I : σ → Prop} {P : α → Prop} (μ : σ → ℕ)
    (hI : ∀ s a, I s → P a → I (step s a))
    (hμ : ∀ s a, I s → P a → step s a = s ∨ μ (step s a) < μ s) {s : σ} (h0 : I s) {sched : ℕ → α}
    (hfair : Fair P sched) :
    ∃ N, I (stateAt step s sched N) ∧
      ∀ a, P a → step (stateAt step s sched N) a = stateAt step s sched N := by
  obtain ⟨N, hN⟩ := exists_settled μ hI hμ h0 hfair.only
  refine ⟨N, stateAt_invariant hI h0 hfair.only N, fun a ha => ?_⟩
  obtain ⟨m, hm, rfl⟩ := hfair.again a ha N
  have hnext : stateAt step s sched (m + 1) = stateAt step s sched N := hN (m + 1) (by omega)
  rw [stateAt_succ, hN m hm] at hnext
  exact hnext

end Muduo.Lib
