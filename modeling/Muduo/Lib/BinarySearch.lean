import Mathlib

/-!
# `std::lower_bound`

The search over the positions `0, …, n - 1` of a range; `below i` says that the element there
is less than the value sought.  The loop is the usual one: the middle position is inspected,
and one half is dropped.

Nothing is assumed of the range: the result is the end of a position that is below, or the front,
and the start of one that is not, or the end (`below_pred`, `not_below`).  On a partitioned range
that is the first position not below.
-/

namespace Muduo.Lib

/-- The loop on the `len` positions from `first` on. -/
def lowerBoundLoop (below : ℕ → Bool) : ℕ → ℕ → ℕ → ℕ
  | 0, first, _ => first
  | fuel + 1, first, len =>
    if len = 0 then first
    else if below (first + len / 2) then lowerBoundLoop below fuel (first + len / 2 + 1)
      (len - len / 2 - 1)
    else lowerBoundLoop below fuel first (len / 2)

def lowerBound (below : ℕ → Bool) (n : ℕ) : ℕ := lowerBoundLoop below n 0 n

/-- A position that ends the elements below and starts those not below, as far as its neighbours
tell. -/
structure IsCut (below : ℕ → Bool) (n k : ℕ) : Prop where
  le : k ≤ n
  below_pred : 0 < k → below (k - 1) = true
  not_below : k < n → below k = false

theorem isCut_lowerBoundLoop {below : ℕ → Bool} {n fuel first len : ℕ} (hfuel : len ≤ fuel)
    (hn : first + len ≤ n)
    (hfirst : 0 < first → below (first - 1) = true) (hlast : first + len < n →
      below (first + len) = false) :
    IsCut below n (lowerBoundLoop below fuel first len) := by
  induction fuel generalizing first len with
  | zero =>
    obtain rfl : len = 0 := by omega
    exact ⟨hn, hfirst, hlast⟩
  | succ fuel ih =>
    rw [lowerBoundLoop]
    split_ifs with h0 hb
    · subst h0
      exact ⟨hn, hfirst, hlast⟩
    · -- the upper half remains: its front follows an element below
      refine ih (by omega) (by omega) (fun _ => by simpa using hb) fun h => ?_
      have hend : first + len / 2 + 1 + (len - len / 2 - 1) = first + len := by omega
      rw [hend] at h ⊢
      exact hlast h
    · -- the lower half remains: its end is not below
      exact ih (by omega) (by omega) hfirst fun _ => by simpa using hb

theorem isCut_lowerBound (below : ℕ → Bool) (n : ℕ) : IsCut below n (lowerBound below n) :=
  isCut_lowerBoundLoop le_rfl (by omega) (by omega) (by omega)

end Muduo.Lib
