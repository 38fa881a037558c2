import Mathlib

/-!
# Signed machine arithmetic

The signed integers of `w` bits, with the operators of C: an operation whose exact result does not
fit has no result (signed overflow is undefined), and division truncates.  A computation in such
arithmetic is an `Option`; that it has a value says that none of its intermediate results overflows.

* `Fits w x` — `x` is a value of the type; `fit w x` — `x` as the result of an operation;
* `Checked.add`, `sub`, `mul`, `div`, `rem` — the operators;
* `narrow w x` — the conversion to a type of `w` bits, which wraps around.
-/

namespace Muduo.Lib

/-- The values of a signed type of `w` bits. -/
def Fits (w : ℕ) (x : ℤ) : Prop := -2 ^ (w - 1) ≤ x ∧ x < 2 ^ (w - 1)

instance (w : ℕ) (x : ℤ) : Decidable (Fits w x) := inferInstanceAs (Decidable (_ ∧ _))

/-- The result of an operation whose exact value is `x`. -/
def fit (w : ℕ) (x : ℤ) : Option ℤ := if Fits w x then some x else none

namespace Checked

def add (w : ℕ) (x y : ℤ) : Option ℤ := fit w (x + y)

def sub (w : ℕ) (x y : ℤ) : Option ℤ := fit w (x - y)

def mul (w : ℕ) (x y : ℤ) : Option ℤ := fit w (x * y)

def div (w : ℕ) (x y : ℤ) : Option ℤ := if y = 0 then none else fit w (x.tdiv y)

def rem (w : ℕ) (x y : ℤ) : Option ℤ := if y = 0 then none else fit w (x.tmod y)

end Checked

/-- Conversion to a signed type of `w` bits. -/
def narrow (w : ℕ) (x : ℤ) : ℤ := Int.bmod x (2 ^ w)

/-- One step of a computation that has a result. -/
theorem bind_of_eq {α β : Type} {x : Option α} {a : α} (h : x = some a) (f : α → Option β) :
    (x >>= f) = f a := by
  rw [h]
  rfl

theorem fits_int {x : ℤ} : Fits 32 x ↔ -2147483648 ≤ x ∧ x < 2147483648 := by
  norm_num [Fits]

theorem fit_of_fits {w : ℕ} {x : ℤ} (h : Fits w x) : fit w x = some x := if_pos h

/-- The form in which arithmetic closes the side condition. -/
theorem fit_int {x : ℤ} (h : -2147483648 ≤ x ∧ x < 2147483648) : fit 32 x = some x :=
  fit_of_fits (fits_int.mpr h)

theorem fit_long {x : ℤ} (h : -9223372036854775808 ≤ x ∧ x < 9223372036854775808) :
    fit 64 x = some x :=
  fit_of_fits (by norm_num [Fits]; omega)

/-- On nonnegative operands the quotient is the floor. -/
theorem div_int {x y : ℤ} (hx : 0 ≤ x ∧ x < 2147483648) (hy : 0 < y) :
    Checked.div 32 x y = some (x / y) := by
  have hle : x / y ≤ x := Int.ediv_le_self y hx.1
  have hnonneg : 0 ≤ x / y := Int.ediv_nonneg hx.1 hy.le
  rw [Checked.div, if_neg hy.ne', Int.tdiv_eq_ediv_of_nonneg hx.1, fit_int (by omega)]

/-- A value of the type converts to itself. -/
theorem narrow_int {x : ℤ} (h : -2147483648 ≤ x ∧ x < 2147483648) : narrow 32 x = x := by
  unfold narrow
  exact Int.bmod_eq_of_le (by norm_num; omega) (by norm_num; omega)

end Muduo.Lib
