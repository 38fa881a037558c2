import Mathlib

/-!
# Threads in the code of a monitor

Finitely many threads, each in a phase; a mutex that is held in some of the phases.  One step of the
system changes the phase of one thread, `Function.update phase t x`.

* `sum_update` — a sum over the threads when one of them moves; `count p phase` — the number of
  threads in a phase with `p`; `count_update` — the same for that number;
* `Owned holds phase mutex` — the mutex belongs to the one thread in a phase that holds
  it; `Owned.acquire`, `Owned.release`, `Owned.keep` — the three kinds of steps;
  `Owned.map` — all threads at once.
-/

namespace Muduo.Lib

variable {τ φ : Type*} [DecidableEq τ]

/-! ### Counting -/

section Count

variable [Fintype τ]

/-- The number of threads in a phase with `p`. -/
def count (p : φ → Bool) (phase : τ → φ) : ℕ := ∑ t, (p (phase t)).toNat

/-- A sum over the threads of something that depends on the phase, when one thread moves. -/
theorem sum_update (f : φ → ℕ) (phase : τ → φ) (t : τ) (x : φ) :
    ∑ u, f (Function.update phase t x u) + f (phase t) = ∑ u, f (phase u) + f x := by
  have hrest : ∑ u ∈ Finset.univ.erase t, f (Function.update phase t x u) =
      ∑ u ∈ Finset.univ.erase t, f (phase u) := by
    refine Finset.sum_congr rfl fun u hu => ?_
    rw [Function.update_of_ne (Finset.ne_of_mem_erase hu)]
  rw [← Finset.add_sum_erase _ _ (Finset.mem_univ t),
    ← Finset.add_sum_erase _ _ (Finset.mem_univ t), hrest, Function.update_self]
  omega

/-- A thread that moves is taken from where it was and added where it goes. -/
theorem count_update (p : φ → Bool) (phase : τ → φ) (t : τ) (x : φ) :
    count p (Function.update phase t x) + (p (phase t)).toNat = count p phase + (p x).toNat :=
  sum_update (fun y => (p y).toNat) phase t x

omit [DecidableEq τ] in
theorem count_eq_zero_iff (p : φ → Bool) (phase : τ → φ) :
    count p phase = 0 ↔ ∀ t, p (phase t) = false := by
  simp [count, Finset.sum_eq_zero_iff]

omit [DecidableEq τ] in
theorem count_pos_iff (p : φ → Bool) (phase : τ → φ) :
    0 < count p phase ↔ ∃ t, p (phase t) = true := by
  rw [Nat.pos_iff_ne_zero, ne_eq, count_eq_zero_iff, not_forall]
  simp only [Bool.not_eq_false]

end Count

/-! ### The mutex -/

/-- The mutex is held by the thread whose phase holds it. -/
def Owned (holds : φ → Bool) (phase : τ → φ) (mutex : Option τ) : Prop :=
  ∀ t, holds (phase t) = true ↔ mutex = some t

namespace Owned

variable {holds : φ → Bool} {phase : τ → φ} {mutex : Option τ}

theorem keep (h : Owned holds phase mutex) {t : τ} {x : φ} (hx : holds x = holds (phase t)) :
    Owned holds (Function.update phase t x) mutex := by
  intro u
  by_cases hu : u = t
  · subst hu
    rw [Function.update_self, hx]
    exact h u
  · rw [Function.update_of_ne hu]
    exact h u

theorem acquire (h : Owned holds phase none) {t : τ} {x : φ} (hx : holds x = true) :
    Owned holds (Function.update phase t x) (some t) := by
  intro u
  by_cases hu : u = t
  · subst hu
    simp [hx]
  · rw [Function.update_of_ne hu, h u]
    simp [Ne.symm hu]

theorem release {t : τ} (h : Owned holds phase (some t)) {x : φ} (hx : holds x = false) :
    Owned holds (Function.update phase t x) none := by
  intro u
  by_cases hu : u = t
  · subst hu
    simp [hx]
  · rw [Function.update_of_ne hu, h u]
    simp [Ne.symm hu]

omit [DecidableEq τ] in
/-- All threads may change their phases at once, if none gets the mutex or gives it back. -/
theorem map (h : Owned holds phase mutex) {g : φ → φ} (hg : ∀ x, holds (g x) = holds x) :
    Owned holds (g ∘ phase) mutex := by
  intro t
  rw [Function.comp_apply, hg]
  exact h t

omit [DecidableEq τ] in
/-- Two threads do not hold the mutex. -/
theorem eq_of_holds (h : Owned holds phase mutex) {t u : τ} (ht : holds (phase t) = true)
    (hu : holds (phase u) = true) : t = u :=
  Option.some.inj (((h t).mp ht).symm.trans ((h u).mp hu))

end Owned

end Muduo.Lib
