import Mathlib

/-!
# The proleptic Gregorian calendar

Dates of the Gregorian calendar, extended to all years (year 0 is a leap year, negative years
are before it).  A `Day` carries the proof that its month and its day exist, so every value is
a date of the calendar.

* `Day.next` — the following day, as a wall calendar is turned: next day, first of the next
  month, first of January;
* the order of `Day` is lexicographic in year, month and day;
* `Day.ordinal` — the number of days up to and including the date, day 1 being the first of January
  of year 1: whole years, then whole months, then days;
* `Day.ofYear` — the days since New Year; `Day.weekday` — the day of the week;
* `ordinalIso` — the ordinal is an isomorphism of orders from the days onto the integers;
  `ordinal_next` — the next day has the next number.
-/

namespace Muduo.Lib

/-- Divisible by 4, and not by 100 unless by 400. -/
def isLeap (year : ℤ) : Bool := year % 4 = 0 ∧ (year % 100 ≠ 0 ∨ year % 400 = 0)

def daysInMonth (leap : Bool) (month : ℤ) : ℤ :=
  if month = 2 then (if leap then 29 else 28)
  else if month = 4 ∨ month = 6 ∨ month = 9 ∨ month = 11 then 30
  else 31

/-- A date of the calendar. -/
@[ext] structure Day where
  year : ℤ
  month : ℤ
  day : ℤ
  month_pos : 1 ≤ month
  month_le : month ≤ 12
  day_pos : 1 ≤ day
  day_le : day ≤ daysInMonth (isLeap year) month
  deriving DecidableEq

namespace Day

/-- The day after. -/
def next (d : Day) : Day :=
  if h : d.day + 1 ≤ daysInMonth (isLeap d.year) d.month then
    { d with day := d.day + 1, day_pos := by have := d.day_pos; omega, day_le := h }
  else if hm : d.month + 1 ≤ 12 then
    { year := d.year, month := d.month + 1, day := 1
      month_pos := by have := d.month_pos; omega
      month_le := hm
      day_pos := le_rfl
      day_le := by unfold daysInMonth; split_ifs <;> omega }
  else
    { year := d.year + 1, month := 1, day := 1
      month_pos := le_rfl
      month_le := by omega
      day_pos := le_rfl
      day_le := by unfold daysInMonth; split_ifs <;> omega }

/-! ### Chronological order -/

/-- Year first, then month, then day. -/
def key (d : Day) : ℤ ×ₗ ℤ ×ₗ ℤ := toLex (d.year, toLex (d.month, d.day))

theorem key_injective : Function.Injective key := by
  intro d e h
  simp only [key, toLex_inj, Prod.mk.injEq] at h
  exact Day.ext h.1 h.2.1 h.2.2

instance : LinearOrder Day := LinearOrder.lift' key key_injective

theorem lt_iff (d e : Day) : d < e ↔ d.year < e.year ∨
    d.year = e.year ∧ (d.month < e.month ∨ d.month = e.month ∧ d.day < e.day) := by
  change key d < key e ↔ _
  simp only [key, Prod.Lex.toLex_lt_toLex]

/-! ### Counting days -/

/-- The days of the years before `year`, from year 1 on (negative before it). -/
def beforeYear (year : ℤ) : ℤ :=
  365 * (year - 1) + (year - 1) / 4 - (year - 1) / 100 + (year - 1) / 400

/-- The days of the months before `month`. -/
def beforeMonth (leap : Bool) (month : ℤ) : ℤ :=
  ((List.range (month - 1).toNat).map fun k : ℕ => daysInMonth leap (k + 1)).sum

/-- The days since the first of January. -/
def ofYear (d : Day) : ℤ := beforeMonth (isLeap d.year) d.month + d.day - 1

/-- The number of the day; the first of January of year 1 is day 1. -/
def ordinal (d : Day) : ℤ := beforeYear d.year + d.ofYear + 1

theorem daysInMonth_pos (leap : Bool) (month : ℤ) : 0 < daysInMonth leap month := by
  unfold daysInMonth
  split_ifs <;> omega

theorem beforeMonth_succ (leap : Bool) {month : ℤ} (h : 1 ≤ month) :
    beforeMonth leap (month + 1) = beforeMonth leap month + daysInMonth leap month := by
  obtain ⟨k, rfl⟩ : ∃ k : ℕ, month = k + 1 := ⟨(month - 1).toNat, by omega⟩
  have h1 : ((k : ℤ) + 1 + 1 - 1).toNat = k + 1 := by omega
  have h2 : ((k : ℤ) + 1 - 1).toNat = k := by omega
  rw [beforeMonth, beforeMonth, h1, h2, List.range_succ, List.map_append, List.sum_append]
  simp

theorem beforeMonth_add (leap : Bool) {month : ℤ} (h : 1 ≤ month) (n : ℕ) :
    beforeMonth leap month ≤ beforeMonth leap (month + n) := by
  induction n with
  | zero => simp
  | succ n ih =>
    have hs := beforeMonth_succ leap (show 1 ≤ month + n by omega)
    have hpos := daysInMonth_pos leap (month + n)
    rw [Nat.cast_add, Nat.cast_one, ← add_assoc, hs]
    omega

/-- Whole months come in order. -/
theorem beforeMonth_mono (leap : Bool) {m m' : ℤ} (h : 1 ≤ m) (hm : m ≤ m') :
    beforeMonth leap m ≤ beforeMonth leap m' := by
  have := beforeMonth_add leap h (m' - m).toNat
  rwa [show m + ((m' - m).toNat : ℤ) = m' by omega] at this

/-- The twelve months make a year of 365 or 366 days, which is what the count of years adds. -/
theorem beforeYear_succ (year : ℤ) :
    beforeYear (year + 1) = beforeYear year + beforeMonth (isLeap year) 13 := by
  have h13 : ∀ leap : Bool, beforeMonth leap 13 = if leap then 366 else 365 := by decide
  rw [h13]
  unfold beforeYear isLeap
  split_ifs with h
  · simp only [decide_eq_true_eq] at h
    omega
  · simp only [decide_eq_true_eq] at h
    omega

theorem beforeYear_mono {y y' : ℤ} (h : y ≤ y') : beforeYear y ≤ beforeYear y' := by
  unfold beforeYear
  omega

theorem ofYear_nonneg (d : Day) : 0 ≤ d.ofYear := by
  have h := beforeMonth_mono (isLeap d.year) le_rfl d.month_pos
  have h1 : beforeMonth (isLeap d.year) 1 = 0 := rfl
  have := d.day_pos
  unfold ofYear
  omega

/-- A date is before the end of its month, hence before the end of its year. -/
theorem ofYear_lt (d : Day) : d.ofYear < beforeMonth (isLeap d.year) 13 := by
  have hs := beforeMonth_succ (isLeap d.year) d.month_pos
  have hmono := beforeMonth_mono (isLeap d.year)
    (show 1 ≤ d.month + 1 by have := d.month_pos; omega)
    (show d.month + 1 ≤ 13 by have := d.month_le; omega)
  have := d.day_le
  unfold ofYear
  omega

theorem ofYear_le (d : Day) : d.ofYear ≤ 365 := by
  have h := d.ofYear_lt
  have h13 : ∀ leap : Bool, beforeMonth leap 13 ≤ 366 := by decide
  have := h13 (isLeap d.year)
  omega

/-! ### The day after -/

theorem ordinal_next (d : Day) : d.next.ordinal = d.ordinal + 1 := by
  have hs := beforeMonth_succ (isLeap d.year) d.month_pos
  have hle := d.day_le
  unfold next
  split_ifs with h hm
  · -- inside the month
    simp only [ordinal, ofYear]
    omega
  · -- the first of the next month
    simp only [ordinal, ofYear]
    omega
  · -- new year
    have h12 : d.month = 12 := by have := d.month_le; omega
    have hdec : beforeMonth (isLeap d.year) 13 =
        beforeMonth (isLeap d.year) 12 + daysInMonth (isLeap d.year) 12 :=
      beforeMonth_succ (isLeap d.year) (show (1 : ℤ) ≤ 12 by norm_num)
    have hy := beforeYear_succ d.year
    have h1 : beforeMonth (isLeap (d.year + 1)) 1 = 0 := rfl
    rw [h12] at hle h
    simp only [ordinal, ofYear, h12]
    omega

/-! ### The isomorphism -/

theorem ordinal_strictMono : StrictMono ordinal := by
  intro d e h
  have hd := d.ofYear_lt
  have he := e.ofYear_nonneg
  rcases (lt_iff d e).mp h with hy | ⟨hy, hm | ⟨hm, hday⟩⟩
  · have h1 := beforeYear_succ d.year
    have h2 := beforeYear_mono (show d.year + 1 ≤ e.year by omega)
    unfold ordinal
    omega
  · have hs := beforeMonth_succ (isLeap d.year) d.month_pos
    have hmono := beforeMonth_mono (isLeap d.year)
      (show 1 ≤ d.month + 1 by have := d.month_pos; omega) (show d.month + 1 ≤ e.month by omega)
    have hle := d.day_le
    have hpos := e.day_pos
    unfold ordinal ofYear
    rw [← hy]
    omega
  · unfold ordinal ofYear
    rw [← hy, ← hm]
    omega

theorem ordinal_lt_iff {d e : Day} : d.ordinal < e.ordinal ↔ d < e := ordinal_strictMono.lt_iff_lt

/-- The first of January of a year. -/
def newYear (year : ℤ) : Day where
  year := year
  month := 1
  day := 1
  month_pos := le_rfl
  month_le := by omega
  day_pos := le_rfl
  day_le := daysInMonth_pos _ _

@[simp] theorem ofYear_newYear (year : ℤ) : (newYear year).ofYear = 0 := rfl

theorem ordinal_sub_newYear (d : Day) : d.ordinal - (newYear d.year).ordinal = d.ofYear := by
  have hyear : (newYear d.year).year = d.year := rfl
  rw [ordinal, ordinal, ofYear_newYear, hyear]
  omega

/-- Every number is reached from an early enough New Year by turning the calendar. -/
theorem ordinal_surjective : Function.Surjective ordinal := by
  have key : ∀ (d : Day) (n : ℕ), ∃ e : Day, e.ordinal = d.ordinal + n := by
    intro d n
    induction n with
    | zero => exact ⟨d, by simp⟩
    | succ n ih =>
      obtain ⟨e, he⟩ := ih
      exact ⟨e.next, by rw [ordinal_next, he]; omega⟩
  intro n
  have hstart : (newYear (-(n.natAbs : ℤ))).ordinal ≤ n := by
    have : (newYear (-(n.natAbs : ℤ))).ordinal = beforeYear (-(n.natAbs : ℤ)) + 0 + 1 := rfl
    rw [this]
    unfold beforeYear
    omega
  obtain ⟨e, he⟩ := key (newYear (-(n.natAbs : ℤ))) (n - (newYear (-(n.natAbs : ℤ))).ordinal).toNat
  exact ⟨e, by omega⟩

/-- The day of the week, Sunday being 0: the first of January of year 1 is a Monday. -/
def weekday (d : Day) : ℤ := d.ordinal % 7

/-- Days and integers are the same ordered set. -/
noncomputable def ordinalIso : Day ≃o ℤ :=
  StrictMono.orderIsoOfSurjective ordinal ordinal_strictMono ordinal_surjective

@[simp] theorem ordinal_symm (n : ℤ) : (ordinalIso.symm n).ordinal = n :=
    ordinalIso.apply_symm_apply n

end Day

end Muduo.Lib
