import Mathlib

/-!
# Numerals

A number in positional notation as a text has it: most significant digit first, at least one
digit, no leading zero.  The digits are naturals; which symbol stands for a digit is left to the
program that prints it.

* `numeral b n` — the digits of `n` in base `b`; `readNumeral` — reading them from left to right;
* `IsNumeral` — a list of digits is the notation of a number;
* `numeral_of_lt`, `numeral_of_le` — the two turns of a loop that takes the last digit off.
-/

namespace Muduo.Lib

/-- The digits of `n`, the most significant one first. -/
def numeral (b n : ℕ) : List ℕ := if n = 0 then [0] else (b.digits n).reverse

/-- The number a list of digits stands for. -/
def readNumeral (b : ℕ) (ds : List ℕ) : ℕ := ds.foldl (fun n d => d + b * n) 0

/-- `ds` is the notation of `n`. -/
structure IsNumeral (b n : ℕ) (ds : List ℕ) : Prop where
  digit_lt : ∀ d ∈ ds, d < b
  ne_nil : ds ≠ []
  no_leading_zero : ds.head? = some 0 → ds = [0]
  value : readNumeral b ds = n

theorem readNumeral_eq_ofDigits (b : ℕ) (ds : List ℕ) :
    readNumeral b ds = Nat.ofDigits b ds.reverse := by
  rw [Nat.ofDigits_eq_foldr, List.foldr_reverse]
  rfl

/-- The last turn of the loop: one digit is left. -/
theorem numeral_of_lt {b n : ℕ} (hn : n < b) : numeral b n = [n] := by
  rcases Nat.eq_zero_or_pos n with rfl | hpos
  · rfl
  · rw [numeral, if_neg hpos.ne', Nat.digits_of_lt b n hpos.ne' hn, List.reverse_singleton]

section Base

variable {b n : ℕ} (hb : 1 < b)
include hb

theorem isNumeral_numeral : IsNumeral b n (numeral b n) := by
  rcases Nat.eq_zero_or_pos n with rfl | hn
  · exact ⟨by simp [numeral]; omega, by simp [numeral], by simp [numeral], by simp [numeral,
      readNumeral]⟩
  · have hn' : n ≠ 0 := hn.ne'
    have hdigits : b.digits n ≠ [] := Nat.digits_ne_nil_iff_ne_zero.mpr hn'
    have hnum : numeral b n = (b.digits n).reverse := if_neg hn'
    rw [hnum]
    refine ⟨fun d hd => Nat.digits_lt_base hb (List.mem_reverse.mp hd), by simpa using hdigits,
      fun hhead => ?_, ?_⟩
    · -- the leading digit is the last one of the other order
      rw [List.head?_reverse, List.getLast?_eq_some_getLast hdigits] at hhead
      exact absurd (Option.some.inj hhead) (Nat.getLast_digit_ne_zero b hn')
    · rw [readNumeral_eq_ofDigits, List.reverse_reverse, Nat.ofDigits_digits]

/-- Any other turn takes the last digit off. -/
theorem numeral_of_le (hn : b ≤ n) : numeral b n = numeral b (n / b) ++ [n % b] := by
  have hpos : 0 < n := by omega
  have hdiv : n / b ≠ 0 := (Nat.div_pos hn (by omega)).ne'
  rw [numeral, numeral, if_neg hpos.ne', if_neg hdiv, Nat.digits_def' hb hpos, List.reverse_cons]

theorem length_numeral_le {k : ℕ} (hk : 0 < k) (hn : n < b ^ k) : (numeral b n).length ≤ k := by
  rw [numeral]
  split_ifs
  · exact hk
  · rw [List.length_reverse]
    exact (Nat.digits_length_le_iff hb n).mpr hn

end Base

end Muduo.Lib
