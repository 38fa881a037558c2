import Mathlib

/-!
# Formatted output into a fixed array

The conversions of `snprintf` that print a decimal number, alone or in a field of given width, and
the truncation to the size of the array.
-/

namespace Muduo.Lib

/-- `%u`, `%zd` and the non-negative `%d`. -/
def formatNat (n : ℕ) : List Char := Nat.toDigits 10 n

/-- `%d`. -/
def formatInt : ℤ → List Char
  | .ofNat n => formatNat n
  | .negSucc n => '-' :: formatNat (n + 1)

/-- Filling up a text that is shorter than the field. -/
def padLeft (w : ℕ) (fill : Char) (text : List Char) : List Char :=
    List.replicate (w - text.length) fill ++ text

/-- `%wd`. -/
def formatWidth (w : ℕ) (x : ℤ) : List Char := padLeft w ' ' (formatInt x)

/-- `%0wd`: the zeros stand behind the sign. -/
def formatZeros (w : ℕ) : ℤ → List Char
  | .ofNat n => padLeft w '0' (formatNat n)
  | .negSucc n => '-' :: padLeft (w - 1) '0' (formatNat (n + 1))

/-- The characters as they lie in memory. -/
def charBytes (text : List Char) : List UInt8 := text.map fun c => UInt8.ofNat c.toNat

/-- The characters of a string literal. -/
def literal (s : String) : List UInt8 := charBytes s.toList

/-- `snprintf` into an array of `size` characters, the last one for the terminator. -/
def snprintf (size : ℕ) (text : List Char) : List Char := text.take (size - 1)

theorem formatNat_length {n e : ℕ} (he : 0 < e) (hn : n < 10 ^ e) : (formatNat n).length ≤ e :=
  Nat.toDigits_length 10 n e he hn

theorem formatNat_injective {m n : ℕ} (h : formatNat m = formatNat n) : m = n := by
  have hval := congrArg (fun ds => Nat.ofDigitChars 10 ds 0) h
  simpa only [formatNat, Nat.ofDigitChars_toDigits (b := 10) (by omega) le_rfl] using hval

theorem le_length_padLeft (w : ℕ) (fill : Char) (text : List Char) :
    w ≤ (padLeft w fill text).length := by
  rw [padLeft, List.length_append, List.length_replicate]
  omega

theorem le_length_formatWidth (w : ℕ) (x : ℤ) : w ≤ (formatWidth w x).length :=
    le_length_padLeft w ' ' _

theorem le_length_formatZeros (w : ℕ) (x : ℤ) : w ≤ (formatZeros w x).length := by
  cases x with
  | ofNat n => exact le_length_padLeft w '0' _
  | negSucc n =>
    have hlen := le_length_padLeft (w - 1) '0' (formatNat (n + 1))
    rw [formatZeros, List.length_cons]
    omega

/-- Two digits, which can be read back. -/
theorem formatZeros_two {x : ℤ} (h : 0 ≤ x ∧ x < 100) :
    (formatZeros 2 x).length = 2 ∧ (Nat.ofDigitChars 10 (formatZeros 2 x) 0 : ℤ) = x := by
  have hall : ∀ n < 100, (formatZeros 2 (n : ℕ)).length = 2 ∧
      Nat.ofDigitChars 10 (formatZeros 2 (n : ℕ)) 0 = n := by
    decide +kernel
  lift x to ℕ using h.1
  obtain ⟨hlen, hread⟩ := hall x (by omega)
  exact ⟨hlen, by rw [hread]⟩

theorem formatZeros_two_inj {x y : ℤ} (hx : 0 ≤ x ∧ x < 100) (hy : 0 ≤ y ∧ y < 100)
    (h : formatZeros 2 x = formatZeros 2 y) : x = y := by
  rw [← (formatZeros_two hx).2, ← (formatZeros_two hy).2, h]

/-- A number in a field is written with blanks, a sign and digits. -/
theorem mem_formatWidth {w : ℕ} {x : ℤ} {c : Char} (h : c ∈ formatWidth w x) : c = ' ' ∨ c = '-' ∨
    c.isDigit = true := by
  have hdigit : ∀ {n : ℕ}, c ∈ formatNat n → c.isDigit = true :=
    fun hc => Nat.isDigit_of_mem_toDigits (by omega) le_rfl hc
  rcases List.mem_append.mp h with hfill | hnum
  · exact .inl (List.eq_of_mem_replicate hfill)
  · cases x with
    | ofNat n => exact .inr (.inr (hdigit hnum))
    | negSucc n =>
      rcases List.mem_cons.mp hnum with rfl | hc
      · exact .inr (.inl rfl)
      · exact .inr (.inr (hdigit hc))

end Muduo.Lib
