import Muduo.Lib.Calendar
import Muduo.Lib.Checked

/-!
# `muduo::Date`

A date is its Julian day number.  `getJulianDayNumber` and `getYearMonthDay` convert in `int`
arithmetic: a computation that overflows has no result, so `= some _` below also says that no
intermediate value does.
-/

namespace Muduo.Base

open Muduo.Lib Muduo.Lib.Checked

/-- `Date::YearMonthDay`. -/
structure YearMonthDay where
  year : ℤ
  month : ℤ
  day : ℤ
  deriving DecidableEq, Repr

def getJulianDayNumber (year month day : ℤ) : Option ℤ := do
  let a ← div 32 (← sub 32 14 month) 12
  let y ← sub 32 (← add 32 year 4800) a
  let m ← sub 32 (← add 32 month (← mul 32 12 a)) 3
  -- the sum, from left to right
  let s ← add 32 day (← div 32 (← add 32 (← mul 32 153 m) 2) 5)
  let s ← add 32 s (← mul 32 y 365)
  let s ← add 32 s (← div 32 y 4)
  let s ← sub 32 s (← div 32 y 100)
  let s ← add 32 s (← div 32 y 400)
  sub 32 s 32045

def getYearMonthDay (julianDayNumber : ℤ) : Option YearMonthDay := do
  let a ← add 32 julianDayNumber 32044
  let b ← div 32 (← add 32 (← mul 32 4 a) 3) 146097
  let c ← sub 32 a (← div 32 (← mul 32 b 146097) 4)
  let d ← div 32 (← add 32 (← mul 32 4 c) 3) 1461
  let e ← sub 32 c (← div 32 (← mul 32 1461 d) 4)
  let m ← div 32 (← add 32 (← mul 32 5 e) 2) 153
  let day ← add 32 (← sub 32 e (← div 32 (← add 32 (← mul 32 153 m) 2) 5)) 1
  let month ← sub 32 (← add 32 m 3) (← mul 32 12 (← div 32 m 10))
  let year ← add 32 (← sub 32 (← add 32 (← mul 32 b 100) d) 4800) (← div 32 m 10)
  return { year, month, day }

/-! ### Years from March

Both conversions count years from the first of March, so that the leap day is the last of the year;
year 0 of this count begins on the first of March of the year -4800.
-/

/-- January and February belong to the year before: `a` of `getJulianDayNumber`. -/
def marchShift (d : Day) : ℤ := if d.month ≤ 2 then 1 else 0

/-- The year counted from March: `y`. -/
def marchYear (d : Day) : ℤ := d.year + 4800 - marchShift d

/-- The months since March: `m`. -/
def marchMonth (d : Day) : ℤ := d.month + 12 * marchShift d - 3

/-- The days since the first of March: `e` of `getYearMonthDay`. -/
def marchDay (d : Day) : ℤ := (153 * marchMonth d + 2) / 5 + d.day - 1

/-- The days of the March years before `y`. -/
def beforeMarch (y : ℤ) : ℤ := y * 365 + y / 4 - y / 100 + y / 400

theorem marchShift_cases (d : Day) :
    d.month ≤ 2 ∧ marchShift d = 1 ∨ 2 < d.month ∧ marchShift d = 0 := by
  unfold marchShift
  split_ifs <;> omega

theorem marchMonth_range (d : Day) : 0 ≤ marchMonth d ∧ marchMonth d ≤ 11 := by
  have h := marchShift_cases d
  have := d.month_pos
  have := d.month_le
  unfold marchMonth
  omega

/-- Which leap years have a 366th day in the March count: the next year has a leap day. -/
def LeapAfter (y : ℤ) : Prop := (y + 1) % 4 = 0 ∧ ((y + 1) % 100 ≠ 0 ∨ (y + 1) % 400 = 0)

/-- The formula of the code for the days before a month, and the lengths of the months, agree: the
month can be read back from the day of the year, and only a leap day is the 366th. -/
theorem marchDay_spec (d : Day) :
    0 ≤ marchDay d ∧ (5 * marchDay d + 2) / 153 = marchMonth d ∧
      (marchDay d ≤ 364 ∨ marchDay d = 365 ∧ LeapAfter (marchYear d)) := by
  have hs := marchShift_cases d
  have hpos := d.month_pos
  have hmle := d.month_le
  have hday := d.day_pos
  have hle := d.day_le
  unfold marchDay marchMonth marchYear LeapAfter
  generalize marchShift d = a at hs ⊢
  generalize d.month = m at *
  generalize d.year = y at *
  generalize d.day = n at *
  unfold daysInMonth isLeap at hle
  simp only [decide_eq_true_eq] at hle
  interval_cases m <;> simp at hle hs <;> subst hs <;> omega

/-! ### The Julian day number -/

/-- Day 0 of the count, the 24th of November of the year -4713. -/
def julianEpoch : Day := ⟨-4713, 11, 24, by decide, by decide, by decide, by decide⟩

/-- The days since the epoch. -/
def julianDay (d : Day) : ℤ := d.ordinal - julianEpoch.ordinal

/-- The first day of the March count. -/
def firstDay : Day := ⟨-4800, 3, 1, by decide, by decide, by decide, by decide⟩

theorem julianDay_next (d : Day) : julianDay d.next = julianDay d + 1 := by
  rw [julianDay, julianDay, Day.ordinal_next]
  omega

theorem julianDay_lt_iff {d e : Day} : julianDay d < julianDay e ↔ d < e := by
  rw [julianDay, julianDay, ← Day.ordinal_lt_iff]
  omega

theorem exists_julianDay (n : ℤ) : ∃ d, julianDay d = n := by
  obtain ⟨d, hd⟩ := Day.ordinal_surjective (n + julianEpoch.ordinal)
  exact ⟨d, by rw [julianDay, hd]; omega⟩

theorem julianDay_firstDay : julianDay firstDay = -32044 := by decide

theorem firstDay_le_iff (d : Day) : firstDay ≤ d ↔ -32044 ≤ julianDay d := by
  rw [← julianDay_firstDay, ← not_lt, ← not_lt, julianDay_lt_iff]

/-- The calendar counts from January, the code from March: the same number. -/
theorem julianDay_eq (d : Day) : julianDay d = beforeMarch (marchYear d) + marchDay d - 32044 := by
  have hs := marchShift_cases d
  have hpos := d.month_pos
  have hmle := d.month_le
  have hepoch : julianEpoch.ordinal = -1721425 := by decide
  have hb : Day.beforeMonth (isLeap d.year) d.month = (153 * marchMonth d + 2) / 5 +
      (if d.month ≤ 2 then -306 else if isLeap d.year then 60 else 59) := by
    unfold marchMonth marchShift
    generalize isLeap d.year = leap
    generalize d.month = m at hpos hmle
    interval_cases m <;> cases leap <;> decide
  rw [julianDay, hepoch, Day.ordinal, Day.ofYear, hb]
  unfold marchDay beforeMarch Day.beforeYear marchYear isLeap
  simp only [decide_eq_true_eq]
  generalize marchShift d = a at hs ⊢
  split_ifs with h1 h2
  · omega
  · omega
  · omega

theorem marchYear_nonneg {d : Day} (h : firstDay ≤ d) : 0 ≤ marchYear d := by
  have hs := marchShift_cases d
  have hlt : ¬ d < firstDay := not_lt.mpr h
  rw [Day.lt_iff] at hlt
  simp only [firstDay] at hlt
  unfold marchYear
  omega

/-- The dates both conversions handle: `4 * (jdn + 32044) + 3` is an `int`. -/
def InRange (d : Day) : Prop := firstDay ≤ d ∧ 4 * (julianDay d + 32044) + 3 < 2 ^ 31

instance (d : Day) : Decidable (InRange d) := inferInstanceAs (Decidable (_ ∧ _))

theorem marchYear_le {d : Day} (h : firstDay ≤ d) (hn : julianDay d < 600000000) :
    marchYear d ≤ 1700000 := by
  have hy := marchYear_nonneg h
  have hd := (marchDay_spec d).1
  rw [julianDay_eq] at hn
  unfold beforeMarch at hn
  omega

theorem getJulianDayNumber_eq {d : Day} (h : firstDay ≤ d) (hn : julianDay d < 600000000) :
    getJulianDayNumber d.year d.month d.day = some (julianDay d) := by
  have hs := marchShift_cases d
  have hpos := d.month_pos
  have hmle := d.month_le
  have hday : 1 ≤ d.day ∧ d.day ≤ 31 :=
    ⟨d.day_pos, d.day_le.trans (by unfold daysInMonth; split_ifs <;> omega)⟩
  have hy := marchYear_nonneg h
  have hyle := marchYear_le h hn
  have hm := marchMonth_range d
  have hyear : d.year + 4800 - marchShift d = marchYear d := rfl
  have hmonth : d.month + 12 * marchShift d - 3 = marchMonth d := rfl
  have h1 : sub 32 14 d.month = some (14 - d.month) := fit_int (by omega)
  have h2 : div 32 (14 - d.month) 12 = some (marchShift d) := by
    rw [div_int (by omega) (by omega)]
    congr 1
    omega
  have h3 : add 32 d.year 4800 = some (d.year + 4800) := fit_int (by omega)
  have h4 : sub 32 (d.year + 4800) (marchShift d) = some (marchYear d) := fit_int (by omega)
  have h5 : mul 32 12 (marchShift d) = some (12 * marchShift d) := fit_int (by omega)
  have h6 : add 32 d.month (12 * marchShift d) = some (d.month + 12 * marchShift d) :=
    fit_int (by omega)
  have h7 : sub 32 (d.month + 12 * marchShift d) 3 = some (marchMonth d) := fit_int (by omega)
  rw [julianDay_eq]
  unfold marchDay beforeMarch
  generalize marchMonth d = m at h7 hm ⊢
  generalize marchYear d = y at h4 hy hyle ⊢
  have h8 : mul 32 153 m = some (153 * m) := fit_int (by omega)
  have h9 : add 32 (153 * m) 2 = some (153 * m + 2) := fit_int (by omega)
  have h10 : div 32 (153 * m + 2) 5 = some ((153 * m + 2) / 5) := div_int (by omega) (by omega)
  have h11 : mul 32 y 365 = some (y * 365) := fit_int (by omega)
  have h12 : div 32 y 4 = some (y / 4) := div_int (by omega) (by omega)
  have h13 : div 32 y 100 = some (y / 100) := div_int (by omega) (by omega)
  have h14 : div 32 y 400 = some (y / 400) := div_int (by omega) (by omega)
  refine (bind_of_eq h1 _).trans <| (bind_of_eq h2 _).trans <| (bind_of_eq h3 _).trans <|
    (bind_of_eq h4 _).trans <| (bind_of_eq h5 _).trans <| (bind_of_eq h6 _).trans <|
    (bind_of_eq h7 _).trans <| (bind_of_eq h8 _).trans <| (bind_of_eq h9 _).trans <|
    (bind_of_eq h10 _).trans <| (bind_of_eq (fit_int (by omega)) _).trans <|
    (bind_of_eq h11 _).trans <| (bind_of_eq (fit_int (by omega)) _).trans <|
    (bind_of_eq h12 _).trans <| (bind_of_eq (fit_int (by omega)) _).trans <|
    (bind_of_eq h13 _).trans <| (bind_of_eq (fit_int (by omega)) _).trans <|
    (bind_of_eq h14 _).trans <| (bind_of_eq (fit_int (by omega)) _).trans ?_
  refine (fit_int (by omega)).trans ?_
  congr 1
  omega

/-- The computation, given its quotients and remainders: `q` centuries, `r` years of the century,
`e` days of the year, of which the month is the `m`-th. -/
theorem getYearMonthDay_parts {a q c r e m : ℤ} (ha : 0 ≤ a ∧ 4 * a + 3 < 2147483648)
    (hq : (4 * a + 3) / 146097 = q) (hc : a - q * 146097 / 4 = c) (hr : (4 * c + 3) / 1461 = r)
    (he : c - 1461 * r / 4 = e) (hm : (5 * e + 2) / 153 = m)
    (hqr : 0 ≤ q ∧ q ≤ 14700) (hcr : 0 ≤ c ∧ c ≤ 36524) (hrr : 0 ≤ r ∧ r ≤ 99)
    (her : 0 ≤ e ∧ e ≤ 365) :
    getYearMonthDay (a - 32044) =
      some { year := q * 100 + r - 4800 + m / 10
             month := m + 3 - 12 * (m / 10)
             day := e - (153 * m + 2) / 5 + 1 } := by
  have h1 : add 32 (a - 32044) 32044 = some a := by
    rw [add, sub_add_cancel, fit_int (by omega)]
  have h2 : mul 32 4 a = some (4 * a) := fit_int (by omega)
  have h3 : add 32 (4 * a) 3 = some (4 * a + 3) := fit_int (by omega)
  have h4 : div 32 (4 * a + 3) 146097 = some q := by rw [div_int (by omega) (by omega), hq]
  have h5 : mul 32 q 146097 = some (q * 146097) := fit_int (by omega)
  have h6 : div 32 (q * 146097) 4 = some (q * 146097 / 4) := div_int (by omega) (by omega)
  have h7 : sub 32 a (q * 146097 / 4) = some c := by rw [sub, hc, fit_int (by omega)]
  clear hq hc
  have h8 : mul 32 4 c = some (4 * c) := fit_int (by omega)
  have h9 : add 32 (4 * c) 3 = some (4 * c + 3) := fit_int (by omega)
  have h10 : div 32 (4 * c + 3) 1461 = some r := by rw [div_int (by omega) (by omega), hr]
  have h11 : mul 32 1461 r = some (1461 * r) := fit_int (by omega)
  have h12 : div 32 (1461 * r) 4 = some (1461 * r / 4) := div_int (by omega) (by omega)
  have h13 : sub 32 c (1461 * r / 4) = some e := by rw [sub, he, fit_int (by omega)]
  clear hr he
  have h14 : mul 32 5 e = some (5 * e) := fit_int (by omega)
  have h15 : add 32 (5 * e) 2 = some (5 * e + 2) := fit_int (by omega)
  have h16 : div 32 (5 * e + 2) 153 = some m := by rw [div_int (by omega) (by omega), hm]
  have hmr : 0 ≤ m ∧ m ≤ 11 := by omega
  clear hm
  have h17 : mul 32 153 m = some (153 * m) := fit_int (by omega)
  have h18 : add 32 (153 * m) 2 = some (153 * m + 2) := fit_int (by omega)
  have h19 : div 32 (153 * m + 2) 5 = some ((153 * m + 2) / 5) := div_int (by omega) (by omega)
  have h20 : sub 32 e ((153 * m + 2) / 5) = some (e - (153 * m + 2) / 5) := fit_int (by omega)
  have h21 : add 32 (e - (153 * m + 2) / 5) 1 = some (e - (153 * m + 2) / 5 + 1) :=
    fit_int (by omega)
  have h22 : add 32 m 3 = some (m + 3) := fit_int (by omega)
  have h23 : div 32 m 10 = some (m / 10) := div_int (by omega) (by omega)
  have h24 : mul 32 12 (m / 10) = some (12 * (m / 10)) := fit_int (by omega)
  have h25 : sub 32 (m + 3) (12 * (m / 10)) = some (m + 3 - 12 * (m / 10)) := fit_int (by omega)
  have h26 : mul 32 q 100 = some (q * 100) := fit_int (by omega)
  have h27 : add 32 (q * 100) r = some (q * 100 + r) := fit_int (by omega)
  have h28 : sub 32 (q * 100 + r) 4800 = some (q * 100 + r - 4800) := fit_int (by omega)
  have h29 : add 32 (q * 100 + r - 4800) (m / 10) = some (q * 100 + r - 4800 + m / 10) :=
    fit_int (by omega)
  exact (bind_of_eq h1 _).trans <| (bind_of_eq h2 _).trans <| (bind_of_eq h3 _).trans <|
    (bind_of_eq h4 _).trans <| (bind_of_eq h5 _).trans <| (bind_of_eq h6 _).trans <|
    (bind_of_eq h7 _).trans <| (bind_of_eq h8 _).trans <| (bind_of_eq h9 _).trans <|
    (bind_of_eq h10 _).trans <| (bind_of_eq h11 _).trans <| (bind_of_eq h12 _).trans <|
    (bind_of_eq h13 _).trans <| (bind_of_eq h14 _).trans <| (bind_of_eq h15 _).trans <|
    (bind_of_eq h16 _).trans <| (bind_of_eq h17 _).trans <| (bind_of_eq h18 _).trans <|
    (bind_of_eq h19 _).trans <| (bind_of_eq h20 _).trans <| (bind_of_eq h21 _).trans <|
    (bind_of_eq h22 _).trans <| (bind_of_eq h23 _).trans <| (bind_of_eq h24 _).trans <|
    (bind_of_eq h25 _).trans <| (bind_of_eq h26 _).trans <| (bind_of_eq h27 _).trans <|
    (bind_of_eq h28 _).trans <| (bind_of_eq h23 _).trans <| (bind_of_eq h29 _)

/-- The days of the March years, century by century. -/
theorem beforeMarch_eq (q r : ℤ) (hr : 0 ≤ r ∧ r < 100) :
    beforeMarch (q * 100 + r) = 36524 * q + q / 4 + (365 * r + r / 4) := by
  have h4 : (q * 100 + r) / 4 = 25 * q + r / 4 := by omega
  have h100 : (q * 100 + r) / 100 = q := by omega
  have h400 : (q * 100 + r) / 400 = q / 4 := by omega
  rw [beforeMarch, h4, h100, h400]
  ring

/-- A century has 36524 days, and one more when its last year is a leap year. -/
theorem century_le {q r e : ℤ} (hr : 0 ≤ r ∧ r < 100) (hle : e ≤ 364 ∨ e = 365 ∧
    LeapAfter (q * 100 + r)) :
    365 * r + r / 4 + e ≤ 36523 ∨ 365 * r + r / 4 + e = 36524 ∧ q % 4 = 3 := by
  rcases hle with h | ⟨h, h4, h100⟩
  · omega
  · rcases lt_or_ge r 99 with hlt | hge
    · omega
    · obtain rfl : r = 99 := by omega
      omega

theorem getYearMonthDay_julianDay {d : Day} (h : InRange d) :
    getYearMonthDay (julianDay d) = some ⟨d.year, d.month, d.day⟩ := by
  obtain ⟨hfirst, hn⟩ := h
  have hy := marchYear_nonneg hfirst
  obtain ⟨he, hm, hle⟩ := marchDay_spec d
  have hlt := marchYear_le hfirst (by omega)
  have hnum := julianDay_eq d
  have hs := marchShift_cases d
  have hmonth : d.month = marchMonth d + 3 - 12 * marchShift d := by unfold marchMonth; omega
  have hyear : d.year = marchYear d - 4800 + marchShift d := by unfold marchYear; omega
  have hday : d.day = marchDay d - (153 * marchMonth d + 2) / 5 + 1 := by unfold marchDay; omega
  have hshift : marchShift d = marchMonth d / 10 := by
    have := d.month_pos
    have := d.month_le
    omega
  obtain ⟨q, r, hyr, hr⟩ : ∃ q r, marchYear d = q * 100 + r ∧ 0 ≤ r ∧ r < 100 :=
    ⟨marchYear d / 100, marchYear d % 100, by omega, by omega⟩
  rw [hyr] at hnum hle hy hlt
  have hc := century_le hr hle
  have hr4 : marchDay d ≤ 364 ∨ marchDay d = 365 ∧ r % 4 = 3 := by
    rcases hle with h | ⟨h, h4, -⟩ <;> omega
  rw [beforeMarch_eq q r hr] at hnum
  have ha : julianDay d = 36524 * q + q / 4 + (365 * r + r / 4 + marchDay d) - 32044 := by omega
  have hparts := getYearMonthDay_parts (a := 36524 * q + q / 4 + (365 * r + r / 4 + marchDay d))
    (q := q) (c := 365 * r + r / 4 + marchDay d) (r := r) (e := marchDay d) (m := marchMonth d)
    (by omega) (by omega) (by omega) (by omega) (by omega) hm (by omega) (by omega)
    (by omega) (by omega)
  rw [ha, hparts, hmonth, hyear, hday, hyr, hshift]

/-! ### The class -/

structure Date where
  julianDayNumber_ : ℤ
  deriving DecidableEq, Repr

namespace Date

def kDaysPerWeek : ℤ := 7

/-- `Date(year, month, day)`. -/
def ofYearMonthDay (year month day : ℤ) : Option Date := do
  return ⟨← getJulianDayNumber year month day⟩

def yearMonthDay (x : Date) : Option YearMonthDay := getYearMonthDay x.julianDayNumber_

def weekDay (x : Date) : Option ℤ := do
  rem 32 (← add 32 x.julianDayNumber_ 1) kDaysPerWeek

/-- `operator<`. -/
def lt (x y : Date) : Bool := x.julianDayNumber_ < y.julianDayNumber_

end Date

theorem ofYearMonthDay_eq {d : Day} (h : InRange d) :
    Date.ofYearMonthDay d.year d.month d.day = some ⟨julianDay d⟩ :=
  bind_of_eq (getJulianDayNumber_eq h.1 (by have := h.2; omega)) _

/-- The remainder has the sign of the number, which is no matter modulo 7. -/
theorem weekDay_eq {n : ℤ} (h : -32044 ≤ n ∧ n < 600000000) :
    Date.weekDay ⟨n⟩ = some ((n + 1).tmod 7) := by
  have hneg : -7 < (n + 1).tmod 7 := Int.lt_tmod_of_pos (n + 1) (by norm_num)
  have hpos : (n + 1).tmod 7 < 7 := Int.tmod_lt_of_pos (n + 1) (by norm_num)
  have hadd : add 32 n 1 = some (n + 1) := fit_int (by omega)
  have hrem : rem 32 (n + 1) 7 = some ((n + 1).tmod 7) := fit_int (by omega)
  exact (bind_of_eq hadd _).trans hrem

theorem tmod_seven_succ (n : ℤ) : (n + 1).tmod 7 ≡ n.tmod 7 + 1 [ZMOD 7] := by
  have hmod : ∀ m : ℤ, m.tmod 7 ≡ m [ZMOD 7] := fun m => by
    rw [Int.tmod_def]
    exact (Int.modEq_sub_modulus_mul_iff).mp rfl
  exact (hmod (n + 1)).trans ((hmod n).symm.add_right 1)

/-- From the day number 0 on the day of the week is the documented 0 to 6, counted from a Sunday. -/
theorem weekDay_eq_emod {n : ℤ} (h : 0 ≤ n ∧ n < 600000000) :
    Date.weekDay ⟨n⟩ = some ((n + 1) % 7) := by
  rw [weekDay_eq (by omega), Int.tmod_eq_emod_of_nonneg (by omega)]

theorem inRange_of_julianDay {n : ℤ} (h0 : -32044 ≤ n) (h1 : 4 * (n + 32044) + 3 < 2 ^ 31) :
    ∃ d, InRange d ∧ julianDay d = n := by
  obtain ⟨d, rfl⟩ := exists_julianDay n
  exact ⟨d, ⟨(firstDay_le_iff d).mpr h0, h1⟩, rfl⟩

theorem InRange.lt {d : Day} (h : InRange d) :
    -32044 ≤ julianDay d ∧ julianDay d + 1 < 600000000 := by
  have := h.2
  exact ⟨(firstDay_le_iff d).mp h.1, by omega⟩

/-- The Julian day number is an isomorphism between the dates of the calendar and the numbers: no
intermediate value overflows, the conversions are inverse, the next day has the next number, the
order of numbers is the chronological order, and the day of the week goes round with the numbers. -/
theorem julian_day_isomorphism :
    (∀ d, InRange d →
      getJulianDayNumber d.year d.month d.day = some (julianDay d) ∧
      getYearMonthDay (julianDay d) = some ⟨d.year, d.month, d.day⟩ ∧
      getJulianDayNumber d.next.year d.next.month d.next.day = some (julianDay d + 1)) ∧
    (∀ n : ℤ, -32044 ≤ n → 4 * (n + 32044) + 3 < 2 ^ 31 →
      ∃ d : Day, getYearMonthDay n = some ⟨d.year, d.month, d.day⟩ ∧
        getJulianDayNumber d.year d.month d.day = some n) ∧
    (∀ d e, InRange d → InRange e →
      ∃ x y, Date.ofYearMonthDay d.year d.month d.day = some x ∧
      Date.ofYearMonthDay e.year e.month e.day = some y ∧
        (x.lt y = true ↔ d < e)) ∧
    (∀ d, InRange d →
      ∃ x y w w', Date.ofYearMonthDay d.year d.month d.day = some x ∧
        Date.ofYearMonthDay d.next.year d.next.month d.next.day = some y ∧
        x.weekDay = some w ∧ y.weekDay = some w' ∧ w' ≡ w + 1 [ZMOD 7]) ∧
    (Date.ofYearMonthDay 1900 1 1 >>= Date.weekDay) = some 1 := by
  have hnext : ∀ d, InRange d →
      getJulianDayNumber d.next.year d.next.month d.next.day = some (julianDay d + 1) := by
    intro d h
    have hlt := h.lt
    have hfirst : firstDay ≤ d.next := (firstDay_le_iff _).mpr (by rw [julianDay_next]; omega)
    rw [← julianDay_next]
    exact getJulianDayNumber_eq hfirst (by rw [julianDay_next]; omega)
  refine ⟨fun d h => ⟨getJulianDayNumber_eq h.1 (by have := h.lt; omega),
    getYearMonthDay_julianDay h, hnext d h⟩, ?_, ?_, ?_, by decide +kernel⟩
  · intro n h0 h1
    obtain ⟨d, hd, rfl⟩ := inRange_of_julianDay h0 h1
    exact ⟨d, getYearMonthDay_julianDay hd, getJulianDayNumber_eq hd.1 (by have := hd.lt; omega)⟩
  · intro d e hd he
    refine ⟨_, _, ofYearMonthDay_eq hd, ofYearMonthDay_eq he, ?_⟩
    rw [Date.lt, decide_eq_true_eq]
    exact julianDay_lt_iff
  · intro d h
    have hlt := h.lt
    refine ⟨_, _, _, _, ofYearMonthDay_eq h, bind_of_eq (hnext d h) _, weekDay_eq ⟨hlt.1, by omega⟩,
      weekDay_eq ⟨by omega, by omega⟩, tmod_seven_succ _⟩

/-- The leap day of 2000. -/
def leapDay2000 : Day := ⟨2000, 2, 29, by decide, by decide, by decide, by decide⟩

theorem julian_day_of_leapDay2000 : InRange leapDay2000 ∧
    getYearMonthDay (julianDay leapDay2000) = some ⟨2000, 2, 29⟩ ∧
    getJulianDayNumber 2000 3 1 = some (julianDay leapDay2000 + 1) :=
  have h : InRange leapDay2000 := by decide +kernel
  ⟨h, (julian_day_isomorphism.1 leapDay2000 h).2⟩

end Muduo.Base
