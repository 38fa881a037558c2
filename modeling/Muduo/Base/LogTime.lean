import Muduo.Base.LogStream
import Muduo.Base.TimeZone

/-!
# `Logger::Impl::formatTime`: the cached date and time

The date and the time of a log record are formatted once a second: a thread keeps the text of
the last second it logged in `t_time` and the second itself in `t_last_second`.  The text
depends on the global time zone as well, which `Logger::setTimeZone` changes at any time, and
the cache does not know it.

`Noted` keeps, over a history, which zone the cached text was formatted in;
`cached_time_is_current_iff` says when the text of a record is the one a fresh formatting gives.
The assertions of the source are taken as compiled out.
-/

namespace Muduo.Base

open Muduo.Lib LogStream

/-- A valid `TimeZone`: every search in its data ends at a type. -/
structure Zone where
  data : Data
  types : data.localtimes ≠ []
  indices : ∀ tr ∈ data.transitions, tr.localtimeIdx < data.localtimes.length

/-- `TimeZone(int eastOfUtc, const char* name)`. -/
def Zone.fixed (eastOfUtc : Int32) (name : List UInt8) : Zone where
  data := ⟨[], [⟨eastOfUtc.toInt, false, 0⟩], name⟩
  types := by simp
  indices := by simp

theorem Zone.toLocalTime_isSome (gmtime_r : ℤ → Tm) (z : Zone) (seconds : ℤ) :
    (Base.toLocalTime gmtime_r z.data seconds).isSome = true := by
  obtain ⟨lt, -, hfind⟩ := exists_findLocaltime z.types z.indices ⟨seconds, 0, 0⟩ ⟨true⟩
  rw [toLocalTime_eq hfind]
  rfl

def Zone.toLocalTime (gmtime_r : ℤ → Tm) (z : Zone) (seconds : ℤ) : Tm :=
  (Base.toLocalTime gmtime_r z.data seconds).get (z.toLocalTime_isSome gmtime_r seconds)

def kMicroSecondsPerSecond : ℤ := 1000000

/-- The two variables of a thread. -/
structure ThreadTime where
  t_time : List UInt8
  size_eq : t_time.length = 64
  t_last_second : ℤ

/-- Thread-local storage is zero before the first record. -/
def ThreadTime.initial : ThreadTime := ⟨List.replicate 64 0, List.length_replicate, 0⟩

/-- `class T`: a text with its length. -/
def T (str : List UInt8) (len : Int32) : Item := .append (c_str str) len

/-- `"%4d%02d%02d %02d:%02d:%02d"`. -/
def dateTimeText (tm_time : Tm) : List Char :=
  formatWidth 4 (tm_time.tm_year + 1900) ++ formatZeros 2 (tm_time.tm_mon + 1) ++ formatZeros 2
    tm_time.tm_mday ++ [' '] ++
    formatZeros 2 tm_time.tm_hour ++ [':'] ++ formatZeros 2 tm_time.tm_min ++ [':'] ++ formatZeros
      2 tm_time.tm_sec

/-- `snprintf(t_time, sizeof(t_time), ...)`. -/
def ThreadTime.print (t : ThreadTime) (text : List Char) : ThreadTime where
  t_time := overwrite t.t_time 0 (charBytes (snprintf 64 text) ++ [0])
  size_eq := by
    rw [length_overwrite, t.size_eq]
    rw [t.size_eq, charBytes, snprintf, List.length_append, List.length_map, List.length_take,
      List.length_singleton]
    omega
  t_last_second := t.t_last_second

section FormatTime

variable (gmtime_r : ℤ → Tm)

/-- The break-down of a second where the zone `tz` is in force. -/
def brokenDownIn (tz : Option Zone) (seconds : ℤ) : Tm :=
  match tz with
  | some z => z.toLocalTime gmtime_r seconds
  | none => gmtime_r seconds

/-- The variables of the thread, and what is put into the stream. -/
def formatTime (global_log_timezone : Option Zone) (t : ThreadTime) (microSecondsSinceEpoch : ℤ) :
    ThreadTime × List Item :=
  let seconds := microSecondsSinceEpoch.tdiv kMicroSecondsPerSecond
  let microseconds := narrow 32 (microSecondsSinceEpoch.tmod kMicroSecondsPerSecond)
  let t :=
    if seconds ≠ t.t_last_second then
      { t with t_last_second := seconds }.print
        (dateTimeText (brokenDownIn gmtime_r global_log_timezone seconds))
    else t
  match global_log_timezone with
  | some _ =>
      (t, [T t.t_time 17,
        T (charBytes (snprintf 32 ('.' :: formatZeros 6 microseconds ++ [' ']))) 8])
  | none =>
      (t, [T t.t_time 17,
      T (charBytes (snprintf 32 ('.' :: formatZeros 6 microseconds ++ ['Z', ' ']))) 9])

/-! ### Histories of one thread -/

inductive LogEvent where
  | log (microSecondsSinceEpoch : Int64)
  | setTimeZone (tz : Option Zone)

structure LogClock where
  thread : ThreadTime
  global_log_timezone : Option Zone

def LogClock.initial : LogClock := ⟨ThreadTime.initial, none⟩

def LogClock.step (s : LogClock) : LogEvent → LogClock
  | .log us => { s with thread := (formatTime gmtime_r s.global_log_timezone s.thread us.toInt).1 }
  | .setTimeZone tz => { s with global_log_timezone := tz }

/-- The first seventeen characters of a record made at `us`: the stream is new, so they are what
`formatTime` puts in first. -/
def LogClock.stamp (snprintf : Float → DoubleText) (memory : List.Vector UInt8 k_small_buffer)
    (s : LogClock) (us : Int64) :
    List UInt8 :=
  (exec (insert snprintf) (FixedBuffer.new memory)
    (formatTime gmtime_r s.global_log_timezone s.thread us.toInt).2).content.take 17

/-- The seventeen characters without a cache. -/
def freshStamp (tz : Option Zone) (seconds : ℤ) : List UInt8 :=
  (charBytes (dateTimeText (brokenDownIn gmtime_r tz seconds))).take 17

end FormatTime

/-- What the cache was computed from: the second, and the zone in force when its text was
formatted, if ever. -/
structure Noted where
  zone : Option Zone
  second : ℤ
  formattedIn : Option (Option Zone)

def Noted.initial : Noted := ⟨none, 0, none⟩

def Noted.step (n : Noted) : LogEvent → Noted
  | .log us =>
    let seconds := us.toInt.tdiv kMicroSecondsPerSecond
    if seconds ≠ n.second then { n with second := seconds, formattedIn := some n.zone } else n
  | .setTimeZone tz => { n with zone := tz }

/-! ### The text in the cache -/

theorem length_dateTimeText (tm_time : Tm) : 17 ≤ (dateTimeText tm_time).length := by
  have hyear := le_length_formatWidth 4 (tm_time.tm_year + 1900)
  have hmon := le_length_formatZeros 2 (tm_time.tm_mon + 1)
  have hmday := le_length_formatZeros 2 tm_time.tm_mday
  have hhour := le_length_formatZeros 2 tm_time.tm_hour
  have hmin := le_length_formatZeros 2 tm_time.tm_min
  have hsec := le_length_formatZeros 2 tm_time.tm_sec
  simp only [dateTimeText, List.length_append, List.length_singleton]
  omega

/-- The first seventeen characters of the array are those of the text printed. -/
theorem take_print (t : ThreadTime) {text : List Char} (h : 17 ≤ text.length) :
    (t.print text).t_time.take 17 = (charBytes text).take 17 := by
  have hlen : 17 ≤ (charBytes (snprintf 64 text)).length := by
    rw [charBytes, snprintf, List.length_map, List.length_take]
    omega
  simp only [ThreadTime.print, overwrite, List.take_zero, List.nil_append]
  rw [List.take_append_of_le_length (by rw [List.length_append]; omega),
    List.take_append_of_le_length hlen, charBytes,
    snprintf, ← List.map_take, List.take_take, List.map_take]
  rfl

/-- No text formatted begins like an array that was never written. -/
theorem freshStamp_ne_zeros (gmtime_r : ℤ → Tm) (tz : Option Zone) (seconds : ℤ) :
    freshStamp gmtime_r tz seconds ≠ List.replicate 17 0 := by
  intro h
  obtain ⟨c, rest, hyear⟩ := List.exists_cons_of_length_pos
    (lt_of_lt_of_le (by omega : 0 < 4)
      (le_length_formatWidth 4 ((brokenDownIn gmtime_r tz seconds).tm_year + 1900)))
  have hc := mem_formatWidth (hyear ▸ List.mem_cons_self : c ∈ formatWidth 4 _)
  have hhead := congrArg List.head? h
  simp only [freshStamp, charBytes, dateTimeText, hyear, List.cons_append, List.map_cons,
    List.take_succ_cons, List.head?_cons, List.replicate_succ, Option.some.injEq] at hhead
  -- the first character is a blank, a sign or a digit
  have hrange : 32 ≤ c.toNat ∧ c.toNat < 256 := by
    rcases hc with rfl | rfl | hdigit
    · decide
    · decide
    · have hdigits : '0'.toNat = 48 ∧ '9'.toNat = 57 := ⟨rfl, rfl⟩
      rw [Char.isDigit_iff_toNat] at hdigit
      omega
  have hnat := congrArg UInt8.toNat hhead
  rw [UInt8.toNat_ofNat_of_lt' hrange.2] at hnat
  have hzero : (0 : UInt8).toNat = 0 := rfl
  omega

section Cache

variable (gmtime_r : ℤ → Tm)

theorem formatTime_thread (tz : Option Zone) (t : ThreadTime) (us : ℤ) :
    (formatTime gmtime_r tz t us).1 =
      if us.tdiv kMicroSecondsPerSecond ≠ t.t_last_second then
        { t with t_last_second := us.tdiv kMicroSecondsPerSecond }.print
          (dateTimeText (brokenDownIn gmtime_r tz (us.tdiv kMicroSecondsPerSecond)))
      else t := by
  cases tz <;> rfl

/-- The seventeen characters come first. -/
theorem formatTime_items (tz : Option Zone) (t : ThreadTime) (us : ℤ) :
    ∃ i, (formatTime gmtime_r tz t us).2 = [T (formatTime gmtime_r tz t us).1.t_time 17, i] := by
  cases tz <;> exact ⟨_, rfl⟩

theorem stamp_eq (snprintf : Float → DoubleText) (memory : List.Vector UInt8 k_small_buffer)
    (s : LogClock) (us : Int64) :
    s.stamp gmtime_r snprintf memory us =
      (formatTime gmtime_r s.global_log_timezone s.thread us.toInt).1.t_time.take 17 := by
  obtain ⟨i, hitems⟩ := formatTime_items gmtime_r s.global_log_timezone s.thread us.toInt
  rw [LogClock.stamp, hitems]
  generalize (formatTime gmtime_r s.global_log_timezone s.thread us.toInt).1 = t
  have hsize := t.size_eq
  have htext : block (c_str t.t_time) 17 = t.t_time.take 17 := block_c_str t.t_time (by omega)
  have hlen : (t.t_time.take 17).length = 17 := by rw [List.length_take]; omega
  have hfirst :
      accept k_small_buffer [] (Item.offer snprintf (T t.t_time 17)) = t.t_time.take 17 := by
    rw [← htext]
    exact accept_of_fits (by rw [T, Item.offer, Offer.whole_need, length_block]; decide)
  -- whatever follows stands behind them
  have hbehind : ∀ o :
      Offer UInt8, (accept k_small_buffer (t.t_time.take 17) o).take 17 = t.t_time.take 17 := by
    intro o
    rw [accept]
    split_ifs
    · rw [List.take_append_of_le_length hlen.ge, List.take_of_length_le hlen.le]
    · exact List.take_of_length_le hlen.le
  rw [(content_exec snprintf (FixedBuffer.wf_new (by decide) memory) _).2]
  change (accept k_small_buffer (accept k_small_buffer [] (Item.offer snprintf (T t.t_time 17)))
    (Item.offer snprintf i)).take 17 = _
  rw [hfirst, hbehind]

/-- The cache holds the text of its second in the zone noted, or nothing. -/
structure CacheOf (s : LogClock) (n : Noted) : Prop where
  zone : s.global_log_timezone = n.zone
  second : s.thread.t_last_second = n.second
  text : s.thread.t_time.take 17 =
    match n.formattedIn with
    | some tz => freshStamp gmtime_r tz n.second
    | none => List.replicate 17 0

theorem cacheOf_initial : CacheOf gmtime_r LogClock.initial Noted.initial := ⟨rfl, rfl, rfl⟩

theorem cacheOf_step {s : LogClock} {n : Noted} (h : CacheOf gmtime_r s n) (e : LogEvent) :
    CacheOf gmtime_r (s.step gmtime_r e) (n.step e) := by
  cases e with
  | setTimeZone tz => exact ⟨rfl, h.second, h.text⟩
  | log us =>
    have hthread := formatTime_thread gmtime_r s.global_log_timezone s.thread us.toInt
    rw [h.second] at hthread
    simp only [LogClock.step, Noted.step, hthread]
    split_ifs with hnew
    · refine ⟨h.zone, rfl, ?_⟩
      rw [take_print _ (length_dateTimeText _), h.zone]
      rfl
    · exact ⟨h.zone, h.second, h.text⟩

theorem cacheOf_exec (events : List LogEvent) :
    CacheOf gmtime_r (exec (LogClock.step gmtime_r) LogClock.initial events)
      (exec Noted.step Noted.initial events) := by
  induction events using List.reverseRecOn with
  | nil => exact cacheOf_initial gmtime_r
  | append_singleton events e ih =>
    rw [exec_concat, exec_concat]
    exact cacheOf_step gmtime_r ih e

end Cache

/-- After any history of records and zone changes, a record carries the time its second has in the
zone in force exactly if its second is not the cached one, or the cached text was formatted in a
zone that writes this second alike. -/
theorem cached_time_is_current_iff (gmtime_r : ℤ → Tm) (snprintf : Float → DoubleText)
    (memory : List.Vector UInt8 k_small_buffer) (events : List LogEvent) (us : Int64) :
    let s := exec (LogClock.step gmtime_r) LogClock.initial events
    let n := exec Noted.step Noted.initial events
    let second := us.toInt.tdiv kMicroSecondsPerSecond
    s.stamp gmtime_r snprintf memory us = freshStamp gmtime_r s.global_log_timezone second ↔
      second ≠ n.second ∨
        ∃ tz, n.formattedIn = some tz ∧
          freshStamp gmtime_r tz second = freshStamp gmtime_r s.global_log_timezone second := by
  intro s n second
  have hcache : CacheOf gmtime_r s n := cacheOf_exec gmtime_r events
  rw [stamp_eq, formatTime_thread, hcache.second]
  by_cases hne : second ≠ n.second
  · rw [if_pos hne, take_print _ (length_dateTimeText _)]
    exact ⟨fun _ => .inl hne, fun _ => rfl⟩
  · have htext := hcache.text
    rw [← not_ne_iff.mp hne] at htext
    rw [if_neg hne, htext]
    cases hformatted : n.formattedIn with
    | none =>
      refine ⟨fun h => absurd h.symm (freshStamp_ne_zeros gmtime_r _ _), fun h => ?_⟩
      rcases h with h | ⟨tz, htz, -⟩
      · exact absurd h hne
      · cases htz
    | some tz =>
      refine ⟨fun h => .inr ⟨tz, rfl, h⟩, fun h => ?_⟩
      rcases h with h | ⟨tz', htz, heq⟩
      · exact absurd h hne
      · obtain rfl := Option.some.inj htz
        exact heq

/-- The first day of the epoch. -/
theorem civilTime_of_lt {s : ℤ} (hs : 0 ≤ s ∧ s < 86400) :
    civilTime s = brokenDown epochDay s true := by
  have hday : Day.ordinalIso.symm epochDay.ordinal = epochDay :=
    Day.ordinalIso.symm_apply_apply epochDay
  rw [civilTime, Int.ediv_eq_zero_of_lt hs.1 hs.2, Int.emod_eq_of_lt hs.1 hs.2, zero_add, hday]

theorem toLocalTime_fixed (gmtime_r : ℤ → Tm) (eastOfUtc : Int32) (name : List UInt8)
    (seconds : ℤ) :
    (Zone.fixed eastOfUtc name).toLocalTime gmtime_r seconds =
      localTm gmtime_r ⟨[], [⟨eastOfUtc.toInt, false, 0⟩], name⟩ ⟨eastOfUtc.toInt, false, 0⟩
        (seconds + eastOfUtc.toInt) :=
  rfl

/-- A record one second after the epoch, the zone set to an hour east of UTC, and another record in
the same second: it carries the time of UTC. -/
theorem stale_time_after_setTimeZone :
    let s := exec (LogClock.step civilTime) LogClock.initial
      [.log 1000000, .setTimeZone (some (Zone.fixed 3600 (literal "CET")))]
    s.stamp civilTime (fun _ => ⟨[48], le_rfl, by decide⟩) (List.Vector.replicate k_small_buffer 0)
      1500000 ≠
      freshStamp civilTime s.global_log_timezone
        ((1500000 : Int64).toInt.tdiv kMicroSecondsPerSecond) := by
  have hcache :=
    cacheOf_exec civilTime [.log 1000000, .setTimeZone (some (Zone.fixed 3600 (literal "CET")))]
  intro s
  have htext : s.thread.t_time.take 17 = freshStamp civilTime none 1 := hcache.text
  have hsecond : s.thread.t_last_second = 1 := hcache.second
  have hzone : s.global_log_timezone = some (Zone.fixed 3600 (literal "CET")) := hcache.zone
  have hus : (1500000 : Int64).toInt.tdiv kMicroSecondsPerSecond = 1 := by decide
  rw [stamp_eq, formatTime_thread, hsecond, hus, if_neg (by omega), htext, hzone]
  simp only [freshStamp, brokenDownIn, toLocalTime_fixed, localTm]
  rw [civilTime_of_lt (by omega), civilTime_of_lt (by decide)]
  decide +kernel

end Muduo.Base
