import Muduo.Base.Date

/-!
# UTC break-down: `TimeZone::toUtcTime` and `TimeZone::fromUtcTime`

The two static functions that replace `gmtime(3)` and `timegm(3)`.  `time_t` and the arithmetic on
it have 64 bits, the fields of `struct tm` and the arithmetic on them 32; the day and the second of
the day are narrowed by casts.  As in `Muduo.Base.Date`, a computation that overflows has no result.

`Denotes tm d h` says what a `struct tm` means: the date `d` of the calendar and the
second `h` of the day.
-/

namespace Muduo.Base

open Muduo.Lib Muduo.Lib.Checked

/-- `struct tm`; `tm_zone` is the string it points to. -/
structure Tm where
  tm_sec : ℤ
  tm_min : ℤ
  tm_hour : ℤ
  tm_mday : ℤ
  tm_mon : ℤ
  tm_year : ℤ
  tm_wday : ℤ
  tm_yday : ℤ
  tm_isdst : ℤ
  tm_gmtoff : ℤ
  tm_zone : List UInt8
  deriving DecidableEq, Repr

/-- `memZero`. -/
def Tm.zero : Tm := ⟨0, 0, 0, 0, 0, 0, 0, 0, 0, 0, []⟩

def kSecondsPerDay : ℤ := 24 * 60 * 60

def kJulianDayOf1970_01_01 : ℤ := (getJulianDayNumber 1970 1 1).getD 0

/-- The argument is `unsigned`. -/
def fillHMS (seconds : ℕ) (utc : Tm) : Tm :=
  let minutes := seconds / 60
  { utc with tm_sec := seconds % 60, tm_min := minutes % 60, tm_hour := minutes / 60 }

/-- The second of the day and the day, both `int`, after the borrow for a negative remainder. -/
def secondsAndDays (secondsSinceEpoch : ℤ) : Option (ℤ × ℤ) :=
  let seconds := narrow 32 (secondsSinceEpoch.tmod kSecondsPerDay)
  let days := narrow 32 (secondsSinceEpoch.tdiv kSecondsPerDay)
  if seconds < 0 then do
    return (← add 32 seconds kSecondsPerDay, ← sub 32 days 1)
  else
    some (seconds, days)

def toUtcTime (secondsSinceEpoch : ℤ) (yday : Bool) : Option Tm := do
  let utc := { Tm.zero with tm_zone := [71, 77, 84] }  -- "GMT"
  let secondsDays ← secondsAndDays secondsSinceEpoch
  let utc := fillHMS (secondsDays.1 % 2 ^ 32).toNat utc
  let date : Date := ⟨← add 32 secondsDays.2 kJulianDayOf1970_01_01⟩
  let ymd ← date.yearMonthDay
  let year ← sub 32 ymd.year 1900
  let mon ← sub 32 ymd.month 1
  let wday ← date.weekDay
  let utc := { utc with tm_year := year, tm_mon := mon, tm_mday := ymd.day, tm_wday := wday }
  if yday then
    let startOfYear ← Date.ofYearMonthDay ymd.year 1 1
    return { utc with tm_yday := ← sub 32 date.julianDayNumber_ startOfYear.julianDayNumber_ }
  else
    return utc

/-- `fromUtcTime(year, month, day, hour, minute, seconds)`. -/
def fromUtcTime (year month day hour minute seconds : ℤ) : Option ℤ := do
  let date ← Date.ofYearMonthDay year month day
  let secondsInDay ← add 32 (← add 32 (← mul 32 hour 3600) (← mul 32 minute 60)) seconds
  let days ← sub 32 date.julianDayNumber_ kJulianDayOf1970_01_01
  add 64 (← mul 64 days kSecondsPerDay) secondsInDay

/-- `fromUtcTime(const struct tm&)`. -/
def fromUtcTimeTm (utc : Tm) : Option ℤ := do
  fromUtcTime (← add 32 utc.tm_year 1900) (← add 32 utc.tm_mon 1) utc.tm_mday utc.tm_hour
    utc.tm_min utc.tm_sec

/-- A `struct tm` that means the second `h` of the day `d`. -/
structure Denotes (tm : Tm) (d : Day) (h : ℤ) : Prop where
  sec : 0 ≤ tm.tm_sec ∧ tm.tm_sec ≤ 59
  min : 0 ≤ tm.tm_min ∧ tm.tm_min ≤ 59
  hour : 0 ≤ tm.tm_hour ∧ tm.tm_hour ≤ 23
  time : tm.tm_hour * 3600 + tm.tm_min * 60 + tm.tm_sec = h
  year : tm.tm_year + 1900 = d.year
  month : tm.tm_mon + 1 = d.month
  day : tm.tm_mday = d.day

/-- The day of the epoch. -/
def epochDay : Day :=
  ⟨1970, 1, 1, (Day.newYear 1970).month_pos, (Day.newYear 1970).month_le,
    (Day.newYear 1970).day_pos, (Day.newYear 1970).day_le⟩

/-- The seconds since the epoch of the second `h` of the day `d`. -/
def instant (d : Day) (h : ℤ) : ℤ := (d.ordinal - epochDay.ordinal) * 86400 + h

theorem kSecondsPerDay_eq : kSecondsPerDay = 86400 := rfl

theorem kJulianDayOf1970_01_01_eq : kJulianDayOf1970_01_01 = 2440588 := by decide +kernel

theorem julianDay_epochDay : julianDay epochDay = 2440588 := by decide +kernel

theorem instant_eq (d : Day) (h : ℤ) : instant d h = (julianDay d - 2440588) * 86400 + h := by
  rw [instant, ← julianDay_epochDay, julianDay, julianDay]
  ring

theorem weekday_eq (d : Day) : d.weekday = (julianDay d + 1) % 7 := by
  have hepoch : julianEpoch.ordinal = -1721425 := by decide +kernel
  rw [Day.weekday, julianDay, hepoch]
  omega

/-- The dates of which `toUtcTime` is meant to be used: the day of the week is right from
the day number 0 on. -/
def InUtcRange (d : Day) : Prop := 0 ≤ julianDay d ∧ 4 * (julianDay d + 32044) + 3 < 2 ^ 31

instance (d : Day) : Decidable (InUtcRange d) := inferInstanceAs (Decidable (_ ∧ _))

theorem InUtcRange.inRange {d : Day} (h : InUtcRange d) : InRange d :=
  ⟨(firstDay_le_iff d).mpr (by have := h.1; omega), h.2⟩

/-! ### From the instant to the fields -/

theorem fillHMS_eq (h : ℤ) (hh : 0 ≤ h ∧ h < 86400) (utc : Tm) :
    fillHMS (h % 2 ^ 32).toNat utc =
      { utc with tm_sec := h % 60, tm_min := h / 60 % 60, tm_hour := h / 3600 } := by
  obtain ⟨n, rfl⟩ := Int.eq_ofNat_of_zero_le hh.1
  have hn : ((n : ℤ) % 2 ^ 32).toNat = n := by omega
  rw [hn, fillHMS]
  congr 1
  push_cast
  omega

/-- The start of the year is in range with the date. -/
theorem newYear_number {d : Day} (h : InUtcRange d) :
    Date.ofYearMonthDay d.year 1 1 = some ⟨julianDay d - d.ofYear⟩ := by
  have hsub := d.ordinal_sub_newYear
  have hle := d.ofYear_le
  have hnonneg := d.ofYear_nonneg
  have hnum : julianDay (Day.newYear d.year) = julianDay d - d.ofYear := by
    unfold julianDay
    omega
  obtain ⟨h0, h1⟩ := h
  have hfirst : firstDay ≤ Day.newYear d.year := (firstDay_le_iff _).mpr (by omega)
  have heq := getJulianDayNumber_eq hfirst (by omega)
  rw [hnum] at heq
  exact bind_of_eq heq _

/-- The break-down of the second `h` of the day `d`. -/
def brokenDown (d : Day) (h : ℤ) (yday : Bool) : Tm where
  tm_sec := h % 60
  tm_min := h / 60 % 60
  tm_hour := h / 3600
  tm_mday := d.day
  tm_mon := d.month - 1
  tm_year := d.year - 1900
  tm_wday := d.weekday
  tm_yday := if yday then d.ofYear else 0
  tm_isdst := 0
  tm_gmtoff := 0
  tm_zone := [71, 77, 84]

/-- Truncation towards zero and the borrow give the floor. -/
theorem secondsAndDays_eq {k h : ℤ} (hk : -2147483648 < k ∧ k < 2147483648)
    (hh : 0 ≤ h ∧ h < 86400) :
    secondsAndDays (k * 86400 + h) = some (h, k) := by
  unfold secondsAndDays
  rw [kSecondsPerDay_eq]
  rcases le_or_gt 0 k with hpos | hneg
  · have hmod : (k * 86400 + h).tmod 86400 = h := by
      rw [Int.tmod_eq_emod_of_nonneg (by omega)]
      omega
    have hdiv : (k * 86400 + h).tdiv 86400 = k := by
      rw [Int.tdiv_eq_ediv_of_nonneg (by omega)]
      omega
    rw [hmod, hdiv, narrow_int (by omega), narrow_int (by omega)]
    exact if_neg (by omega)
  · -- minus the quotient of the absolute value
    obtain ⟨n, hn⟩ : ∃ n, k * 86400 + h = -n := ⟨-(k * 86400 + h), by omega⟩
    have hmod : (k * 86400 + h).tmod 86400 = -(n % 86400) := by
      rw [hn, Int.neg_tmod, Int.tmod_eq_emod_of_nonneg (by omega)]
    have hdiv : (k * 86400 + h).tdiv 86400 = -(n / 86400) := by
      rw [hn, Int.neg_tdiv, Int.tdiv_eq_ediv_of_nonneg (by omega)]
    rw [hmod, hdiv, narrow_int (by omega), narrow_int (by omega)]
    rcases eq_or_ne (n % 86400) 0 with h0 | h0
    · simp only [h0, neg_zero, lt_self_iff_false, if_false, Option.some.injEq, Prod.mk.injEq]
      omega
    · have hadd : add 32 (-(n % 86400)) 86400 = some h := by
        rw [add, fit_int (by omega)]
        congr 1
        omega
      have hsub : sub 32 (-(n / 86400)) 1 = some k := by
        rw [sub, fit_int (by omega)]
        congr 1
        omega
      refine (if_pos (by omega)).trans ?_
      exact (bind_of_eq hadd _).trans (bind_of_eq hsub _)

theorem toUtcTime_instant {d : Day} {h : ℤ} (hd : InUtcRange d) (hh : 0 ≤ h ∧ h < 86400)
    (yday : Bool) :
    toUtcTime (instant d h) yday = some (brokenDown d h yday) := by
  have hr : InRange d := hd.inRange
  have hlt := marchYear_le hr.1 (by have := hr.lt; omega)
  have hs := marchShift_cases d
  have hmpos := d.month_pos
  have hmle := d.month_le
  have hy := marchYear_nonneg hr.1
  have hof := d.ofYear_nonneg
  have hofle := d.ofYear_le
  have hnew := newYear_number hd
  obtain ⟨hlo, hhi⟩ := hd
  unfold marchYear at hlt hy
  have h0 : secondsAndDays (instant d h) = some (h, julianDay d - 2440588) := by
    rw [instant_eq]
    exact secondsAndDays_eq (by omega) hh
  have h1 : add 32 (julianDay d - 2440588) kJulianDayOf1970_01_01 = some (julianDay d) := by
    rw [add, kJulianDayOf1970_01_01_eq, sub_add_cancel, fit_int (by omega)]
  have h2 : Date.yearMonthDay ⟨julianDay d⟩ = some ⟨d.year, d.month, d.day⟩ :=
    getYearMonthDay_julianDay hr
  have h3 : sub 32 d.year 1900 = some (d.year - 1900) := fit_int (by omega)
  have h4 : sub 32 d.month 1 = some (d.month - 1) := fit_int (by omega)
  have h5 : Date.weekDay ⟨julianDay d⟩ = some d.weekday := by
    rw [weekDay_eq_emod (by omega), weekday_eq]
  have h6 : sub 32 (julianDay d) (julianDay d - d.ofYear) = some d.ofYear := by
    rw [sub, sub_sub_cancel, fit_int (by omega)]
  refine (bind_of_eq h0 _).trans <| (bind_of_eq h1 _).trans <| (bind_of_eq h2 _).trans <|
    (bind_of_eq h3 _).trans <| (bind_of_eq h4 _).trans <| (bind_of_eq h5 _).trans ?_
  rw [fillHMS_eq h hh]
  cases yday with
  | true => exact (bind_of_eq hnew _).trans (bind_of_eq h6 _)
  | false => rfl

theorem denotes_brokenDown (d : Day) {h : ℤ} (hh : 0 ≤ h ∧ h < 86400) (yday : Bool) :
    Denotes (brokenDown d h yday) d h where
  sec := by dsimp only [brokenDown]; omega
  min := by dsimp only [brokenDown]; omega
  hour := by dsimp only [brokenDown]; omega
  time := by dsimp only [brokenDown]; omega
  year := by dsimp only [brokenDown]; omega
  month := by dsimp only [brokenDown]; omega
  day := rfl

/-! ### From the fields to the instant -/

theorem fromUtcTime_eq {d : Day} {hour minute seconds : ℤ} (hd : InUtcRange d)
    (hhour : 0 ≤ hour ∧ hour ≤ 23)
    (hmin : 0 ≤ minute ∧ minute ≤ 59) (hsec : 0 ≤ seconds ∧ seconds ≤ 59) :
    fromUtcTime d.year d.month d.day hour minute seconds =
      some (instant d (hour * 3600 + minute * 60 + seconds)) := by
  have hr := hd.inRange
  obtain ⟨hlo, hhi⟩ := hd
  have h1 : mul 32 hour 3600 = some (hour * 3600) := fit_int (by omega)
  have h2 : mul 32 minute 60 = some (minute * 60) := fit_int (by omega)
  have h3 : add 32 (hour * 3600) (minute * 60) = some (hour * 3600 + minute * 60) :=
    fit_int (by omega)
  have h4 :
      add 32 (hour * 3600 + minute * 60) seconds = some (hour * 3600 + minute * 60 + seconds) :=
    fit_int (by omega)
  have h5 : sub 32 (julianDay d) kJulianDayOf1970_01_01 = some (julianDay d - 2440588) := by
    rw [sub, kJulianDayOf1970_01_01_eq, fit_int (by omega)]
  have h6 :
      mul 64 (julianDay d - 2440588) kSecondsPerDay = some ((julianDay d - 2440588) * 86400) := by
    rw [mul, kSecondsPerDay_eq, fit_long (by omega)]
  refine (bind_of_eq (ofYearMonthDay_eq hr) _).trans <| (bind_of_eq h1 _).trans <|
    (bind_of_eq h2 _).trans <|
    (bind_of_eq h3 _).trans <| (bind_of_eq h4 _).trans <| (bind_of_eq h5 _).trans <|
    (bind_of_eq h6 _).trans ?_
  rw [instant_eq, add, fit_long (by omega)]

theorem fromUtcTimeTm_of_denotes {tm : Tm} {d : Day} {h : ℤ} (hd : InUtcRange d)
    (ht : Denotes tm d h) :
    fromUtcTimeTm tm = some (instant d h) := by
  have hlt := marchYear_le hd.inRange.1 (by have := hd.inRange.lt; omega)
  have hy := marchYear_nonneg hd.inRange.1
  have hs := marchShift_cases d
  have hmpos := d.month_pos
  have hmle := d.month_le
  unfold marchYear at hlt hy
  have h1 : add 32 tm.tm_year 1900 = some d.year := by rw [add, ht.year, fit_int (by omega)]
  have h2 : add 32 tm.tm_mon 1 = some d.month := by rw [add, ht.month, fit_int (by omega)]
  refine (bind_of_eq h1 _).trans <| (bind_of_eq h2 _).trans ?_
  rw [ht.day, fromUtcTime_eq hd ht.hour ht.min ht.sec, ht.time]

/-! ### Both directions -/

/-- Every instant is a second of a day. -/
theorem exists_instant (t : ℤ) :
    ∃ d, julianDay d = t / 86400 + 2440588 ∧ t = instant d (t % 86400) := by
  obtain ⟨d, hd⟩ := exists_julianDay (t / 86400 + 2440588)
  refine ⟨d, hd, ?_⟩
  rw [instant_eq, hd]
  omega

/-- The break-down and its inverse: the fields are in range and denote the instant, with the day of
the week and of the year; converted back they give the instant; and the fields of a valid date and
time of day survive the way through the instant. -/
theorem utc_breakdown_inverse :
    (∀ t : ℤ, 0 ≤ t / 86400 + 2440588 → 4 * (t / 86400 + 2440588 + 32044) + 3 < 2 ^ 31 →
      ∃ d : Day, ∃ h : ℤ, t = instant d h ∧
        (∃ tm, toUtcTime t true = some tm ∧ Denotes tm d h ∧ tm.tm_wday = d.weekday ∧
          tm.tm_yday = d.ofYear ∧
          0 ≤ tm.tm_yday ∧ tm.tm_yday ≤ 365) ∧
        ∀ yday, (toUtcTime t yday >>= fromUtcTimeTm) = some t) ∧
    (∀ (d : Day) (hour minute seconds : ℤ), InUtcRange d → 0 ≤ hour ∧ hour ≤ 23 →
      0 ≤ minute ∧ minute ≤ 59 →
      0 ≤ seconds ∧ seconds ≤ 59 → ∀ yday,
      ∃ tm, (fromUtcTime d.year d.month d.day hour minute seconds >>= fun t => toUtcTime t yday) =
      some tm ∧
        tm.tm_year + 1900 = d.year ∧ tm.tm_mon + 1 = d.month ∧ tm.tm_mday = d.day ∧
        tm.tm_hour = hour ∧ tm.tm_min = minute ∧ tm.tm_sec = seconds) := by
  constructor
  · intro t hlo hhi
    obtain ⟨d, hd, ht⟩ := exists_instant t
    have hr : InUtcRange d := ⟨hd ▸ hlo, hd ▸ hhi⟩
    have hh : 0 ≤ t % 86400 ∧ t % 86400 < 86400 := by omega
    have hto : ∀ yday, toUtcTime t yday = some (brokenDown d (t % 86400) yday) := fun yday => by
      have := toUtcTime_instant hr hh yday
      rwa [← ht] at this
    refine ⟨d, t % 86400, ht, ⟨_, hto true, denotes_brokenDown d hh true, rfl, rfl, d.ofYear_nonneg,
      d.ofYear_le⟩, ?_⟩
    intro yday
    refine (bind_of_eq (hto yday) _).trans ?_
    rw [fromUtcTimeTm_of_denotes hr (denotes_brokenDown d hh yday), ← ht]
  · intro d hour minute seconds hd hhour hmin hsec yday
    have hh : 0 ≤ hour * 3600 + minute * 60 + seconds ∧ hour * 3600 + minute * 60 + seconds <
      86400 := by omega
    have hden := denotes_brokenDown d hh yday
    refine ⟨_, (bind_of_eq (fromUtcTime_eq hd hhour hmin hsec) _).trans
      (toUtcTime_instant hd hh yday), hden.year, hden.month, hden.day, ?_, ?_, ?_⟩
    · dsimp only [brokenDown]
      omega
    · dsimp only [brokenDown]
      omega
    · dsimp only [brokenDown]
      omega

/-- The last second before the epoch, and the leap day of 2000 at noon. -/
theorem utc_breakdown_before_epoch :
    (∃ d h, -1 = instant d h ∧ (toUtcTime (-1) true >>= fromUtcTimeTm) = some (-1)) ∧
    ∃ tm, (fromUtcTime 2000 2 29 12 0 0 >>= fun t => toUtcTime t true) = some tm ∧ tm.tm_mday = 29 ∧
      tm.tm_hour = 12 := by
  refine ⟨?_, ?_⟩
  · obtain ⟨d, h, ht, -, hback⟩ := utc_breakdown_inverse.1 (-1) (by decide) (by decide)
    exact ⟨d, h, ht, hback true⟩
  · obtain ⟨tm, htm, -, -, hday, hhour, -, -⟩ :=
      utc_breakdown_inverse.2 leapDay2000 12 0 0 (by decide +kernel)
      (by decide) (by decide) (by decide) true
    exact ⟨tm, htm, hday, hhour⟩

end Muduo.Base
