import Muduo.Base.AppendFile
import Muduo.Base.TimeZone
import Muduo.Lib.Format

/-!
# `muduo::LogFile`: rolling log files

A `LogFile` appends to one file at a time and opens the next one when the file has grown past
`_roll_size`, when an append finds that a new day has begun, or on demand; it refuses while the
clock has not advanced past the last roll.  Every reading of the clock is chosen by the environment,
and so is what `fwrite` takes of a line.

`closed` keeps the files that were replaced and `creations` the seconds in which files were opened.
A pointer that is null where it is followed has no result, so a run is an `Option`.

`rolling_loses_nothing` is the result over all runs; the invariant is `Intact`.
-/

namespace Muduo.Base

open Muduo.Lib

structure LogFile where
  _basename : List Char
  _roll_size : ℤ
  _flush_interval : Int32
  _check_every_n : Int32
  _count : ℤ
  _start_of_period : ℤ
  _last_roll : ℤ
  _last_flush : ℤ
  _file : Option AppendFile
  closed : List AppendFile
  creations : List ℤ

/-- `".%Y%m%d-%H%M%S."`. -/
def timeText (tm : Tm) : List Char :=
  ['.'] ++ formatInt (tm.tm_year + 1900) ++ formatZeros 2 (tm.tm_mon + 1) ++ formatZeros 2
  tm.tm_mday ++ ['-'] ++
    formatZeros 2 tm.tm_hour ++ formatZeros 2 tm.tm_min ++ formatZeros 2 tm.tm_sec ++ ['.']

/-- `strftime` into an array of `size` characters; what it leaves there when the text does not fit
is not specified, and is taken as nothing. -/
def strftime (size : ℕ) (text : List Char) : List Char := if text.length < size then text else []

namespace LogFile

def _k_roll_per_seconds : ℤ := 60 * 60 * 24

inductive Call where
  | append (logline : List UInt8) (answers : Answers) (now rollNow : Int64)
  | rollFile (now : Int64)
  | flush

section Functions

-- the C library, and the process
variable (gmtime_r : ℤ → Tm) (hostname : List Char) (pid : Int32)

def getLogFileName (basename : List Char) (now : ℤ) : List Char :=
  basename ++ strftime 32 (timeText (gmtime_r now)) ++ hostname ++ snprintf 32
    ('.' :: formatInt pid.toInt) ++ ".log".toList

/-- `now` is the reading of the clock in `getLogFileName`. -/
def rollFile (s : LogFile) (now : ℤ) : LogFile × Bool :=
  let filename := getLogFileName gmtime_r hostname pid s._basename now
  let start := now.tdiv _k_roll_per_seconds * _k_roll_per_seconds
  if s._last_roll < now then
    ({ s with
        _last_roll := now
        _last_flush := now
        _start_of_period := start
        _file := some ⟨filename, [], 0⟩
        closed := s.closed ++ s._file.toList
        creations := s.creations ++ [now] }, true)
  else (s, false)

/-- The constructor. -/
def new (basename : List Char) (roll_size : ℤ) (flush_interval check_interval : Int32) (now : ℤ) :
    LogFile :=
  (rollFile gmtime_r hostname pid ⟨basename, roll_size, flush_interval, check_interval, 0, 0, 0, 0,
    none, [], []⟩ now).1

/-- Behind the write: `now` is the reading for the check, `rollNow` the one of `rollFile`. -/
def afterWrite (s : LogFile) (writtenBytes now rollNow : ℤ) : LogFile :=
  if s._roll_size < writtenBytes then (s.rollFile gmtime_r hostname pid rollNow).1
  else
    let s := { s with _count := narrow 32 (s._count + 1) }
    if s._check_every_n.toInt < s._count then
      let s := { s with _count := 0 }
      let this_period := now.tdiv _k_roll_per_seconds * _k_roll_per_seconds
      if this_period ≠ s._start_of_period then (s.rollFile gmtime_r hostname pid rollNow).1
      else if s._flush_interval.toInt < now - s._last_flush then { s with _last_flush := now }
      else s
    else s

def append_unlocked (s : LogFile) (logline : List UInt8) (answers : Answers) (now rollNow : ℤ) :
    Option LogFile := do
  let file ← s._file
  let file ← file.append answers logline
  return afterWrite gmtime_r hostname pid { s with _file := some file } file.writtenBytes_ now
    rollNow

def step (s : LogFile) : Call → Option LogFile
  | .append logline answers now rollNow =>
      s.append_unlocked gmtime_r hostname pid logline answers now.toInt rollNow.toInt
  | .rollFile now => some (s.rollFile gmtime_r hostname pid now.toInt).1
  | .flush => s._file.map fun _ => s

/-- One call after the other. -/
def run (s : LogFile) : List Call → Option LogFile
  | [] => some s
  | call :: calls => s.step gmtime_r hostname pid call >>= fun s => run s calls

end Functions

/-- All files, in the order in which they were opened. -/
def files (s : LogFile) : List AppendFile := s.closed ++ s._file.toList

/-- The lines appended by a run. -/
def lines (calls : List Call) : List (List UInt8) :=
  calls.filterMap fun call =>
    match call with
    | .append logline _ _ _ => some logline
    | _ => none

/-- The calls of `fwrite` take the whole line. -/
def Call.Accepted : Call → Prop
  | .append logline answers _ _ => ¬ answers.Stalled logline.length
  | _ => True

/-- What `gmtime_r` is documented to do. -/
def BreaksDown (gmtime_r : ℤ → Tm) : Prop := ∀ s, ∃ d h, Denotes (gmtime_r s) d h ∧ s = instant d h

/-! ### File names -/

/-- A second after the epoch that a `time_t` can hold. -/
def Second (s : ℤ) : Prop := 0 < s ∧ s < 2 ^ 63

theorem year_bounds {d : Day} {h s : ℤ} (hs : Second s) (hh : 0 ≤ h ∧ h < 86400)
    (heq : s = instant d h) :
    0 < d.year ∧ d.year < 10 ^ 12 := by
  have hepoch : epochDay.ordinal = 719163 := by decide +kernel
  have hnonneg := d.ofYear_nonneg
  have hle := d.ofYear_le
  obtain ⟨hpos, hlt⟩ := hs
  rw [instant, hepoch, Day.ordinal, Day.beforeYear] at heq
  constructor <;> omega

/-- The fields behind the year have two digits. -/
structure TwoDigits (tm : Tm) : Prop where
  mon : 0 ≤ tm.tm_mon + 1 ∧ tm.tm_mon + 1 < 100
  mday : 0 ≤ tm.tm_mday ∧ tm.tm_mday < 100
  hour : 0 ≤ tm.tm_hour ∧ tm.tm_hour < 100
  min : 0 ≤ tm.tm_min ∧ tm.tm_min < 100
  sec : 0 ≤ tm.tm_sec ∧ tm.tm_sec < 100

theorem twoDigits_of_denotes {tm : Tm} {d : Day} {h : ℤ} (hd : Denotes tm d h) : TwoDigits tm := by
  have hmonth := d.month_pos
  have hmonth' := d.month_le
  have hday := d.day_pos
  have hday' : d.day ≤ 31 := by
    have hle := d.day_le
    unfold daysInMonth at hle
    split_ifs at hle <;> omega
  have hsec := hd.sec
  have hmin := hd.min
  have hhour := hd.hour
  refine ⟨?_, ?_, by omega, by omega, by omega⟩
  · rw [hd.month]
    omega
  · rw [hd.day]
    omega

theorem length_timeText {tm : Tm} (htwo : TwoDigits tm) (hyear : 0 < tm.tm_year + 1900 ∧
    tm.tm_year + 1900 < 10 ^ 12) :
    (timeText tm).length < 32 := by
  have hlen : (formatInt (tm.tm_year + 1900)).length ≤ 12 := by
    obtain ⟨n, hn⟩ := Int.eq_ofNat_of_zero_le hyear.1.le
    rw [hn] at hyear ⊢
    exact formatNat_length (by omega) (by omega)
  simp only [timeText, List.length_append, List.length_singleton, (formatZeros_two htwo.mon).1,
    (formatZeros_two htwo.mday).1, (formatZeros_two htwo.hour).1, (formatZeros_two htwo.min).1,
    (formatZeros_two htwo.sec).1]
  omega

/-- The text determines the fields: the year is what stands in front of ten digits. -/
theorem timeText_inj {tm tm' : Tm} (htwo : TwoDigits tm) (htwo' : TwoDigits tm')
    (hyear : 0 < tm.tm_year + 1900)
    (hyear' : 0 < tm'.tm_year + 1900) (h : timeText tm = timeText tm') :
    tm.tm_year = tm'.tm_year ∧ tm.tm_mon = tm'.tm_mon ∧ tm.tm_mday = tm'.tm_mday ∧
    tm.tm_hour = tm'.tm_hour ∧
      tm.tm_min = tm'.tm_min ∧ tm.tm_sec = tm'.tm_sec := by
  have hlen : ∀ {x y : ℤ}, 0 ≤ x ∧ x < 100 → 0 ≤ y ∧ y < 100 → (formatZeros 2 x).length =
      (formatZeros 2 y).length :=
    fun hx hy => (formatZeros_two hx).1.trans (formatZeros_two hy).1.symm
  obtain ⟨h, -⟩ := List.append_inj' h rfl
  obtain ⟨h, hsec⟩ := List.append_inj' h (hlen htwo.sec htwo'.sec)
  obtain ⟨h, hmin⟩ := List.append_inj' h (hlen htwo.min htwo'.min)
  obtain ⟨h, hhour⟩ := List.append_inj' h (hlen htwo.hour htwo'.hour)
  obtain ⟨h, -⟩ := List.append_inj' h rfl
  obtain ⟨h, hmday⟩ := List.append_inj' h (hlen htwo.mday htwo'.mday)
  obtain ⟨h, hmon⟩ := List.append_inj' h (hlen htwo.mon htwo'.mon)
  obtain ⟨-, hyears⟩ := List.append_inj h rfl
  have hmon := formatZeros_two_inj htwo.mon htwo'.mon hmon
  have hyear : tm.tm_year + 1900 = tm'.tm_year + 1900 := by
    obtain ⟨n, hn⟩ := Int.eq_ofNat_of_zero_le hyear.le
    obtain ⟨n', hn'⟩ := Int.eq_ofNat_of_zero_le hyear'.le
    rw [hn, hn'] at hyears ⊢
    exact congrArg _ (formatNat_injective hyears)
  exact ⟨by omega, by omega, formatZeros_two_inj htwo.mday htwo'.mday hmday,
    formatZeros_two_inj htwo.hour htwo'.hour hhour, formatZeros_two_inj htwo.min htwo'.min hmin,
    formatZeros_two_inj htwo.sec htwo'.sec hsec⟩

/-- Two files opened in different seconds have different names. -/
theorem getLogFileName_inj {gmtime_r : ℤ → Tm} (hgm : BreaksDown gmtime_r) {hostname : List Char}
    {pid : Int32} {basename : List Char} {s t : ℤ} (hs : Second s) (ht : Second t)
    (h : getLogFileName gmtime_r hostname pid basename s =
      getLogFileName gmtime_r hostname pid basename t) : s = t := by
  -- what a second gives: a text that fits, and the fields it is made of
  have hfields : ∀ {r}, Second r → TwoDigits (gmtime_r r) ∧ 0 < (gmtime_r r).tm_year + 1900 ∧
      strftime 32 (timeText (gmtime_r r)) = timeText (gmtime_r r) := by
    intro r hr
    obtain ⟨d, k, hd, heq⟩ := hgm r
    have hsec := hd.sec
    have hmin := hd.min
    have hhour := hd.hour
    have htime := hd.time
    have hyear := year_bounds hr (by omega) heq
    rw [← hd.year] at hyear
    have htwo := twoDigits_of_denotes hd
    exact ⟨htwo, hyear.1, if_pos (length_timeText htwo hyear)⟩
  obtain ⟨htwo, hyear, htext⟩ := hfields hs
  obtain ⟨htwo', hyear', htext'⟩ := hfields ht
  rw [getLogFileName, getLogFileName, htext, htext'] at h
  have htexts : timeText (gmtime_r s) = timeText (gmtime_r t) :=
    List.append_cancel_left
      (List.append_cancel_right (List.append_cancel_right (List.append_cancel_right h)))
  obtain ⟨h1, h2, h3, h4, h5, h6⟩ := timeText_inj htwo htwo' hyear hyear' htexts
  obtain ⟨d, k, hd, heq⟩ := hgm s
  obtain ⟨d', k', hd', heq'⟩ := hgm t
  obtain rfl : d = d' := by
    apply Day.ext
    · rw [← hd.year, ← hd'.year, h1]
    · rw [← hd.month, ← hd'.month, h2]
    · rw [← hd.day, ← hd'.day, h3]
  rw [heq, heq', ← hd.time, ← hd'.time, h4, h5, h6]

/-! ### What a call does to the files -/

section Calls

variable {gmtime_r : ℤ → Tm} {hostname : List Char} {pid : Int32}

/-- The members that the files depend on are the same. -/
structure SameFiles (s s' : LogFile) : Prop where
  basename : s'._basename = s._basename
  roll_size : s'._roll_size = s._roll_size
  last_roll : s'._last_roll = s._last_roll
  file : s'._file = s._file
  closed : s'.closed = s.closed
  creations : s'.creations = s.creations

/-- A new file is opened in the second `now`. -/
structure Opens (gmtime_r : ℤ → Tm) (hostname : List Char) (pid : Int32) (s s' : LogFile)
    (now : ℤ) : Prop where
  advanced : s._last_roll < now
  basename : s'._basename = s._basename
  roll_size : s'._roll_size = s._roll_size
  last_roll : s'._last_roll = now
  file : s'._file = some ⟨getLogFileName gmtime_r hostname pid s._basename now, [], 0⟩
  closed : s'.closed = s.closed ++ s._file.toList
  creations : s'.creations = s.creations ++ [now]

theorem SameFiles.refl (s : LogFile) : SameFiles s s := ⟨rfl, rfl, rfl, rfl, rfl, rfl⟩

theorem rollFile_cases (gmtime_r : ℤ → Tm) (hostname : List Char) (pid : Int32)
    (s : LogFile) (now : ℤ) :
    (now ≤ s._last_roll ∧ (s.rollFile gmtime_r hostname pid now).1 = s) ∨
      Opens gmtime_r hostname pid s (s.rollFile gmtime_r hostname pid now).1 now := by
  unfold rollFile
  split_ifs with h
  · exact .inr ⟨h, rfl, rfl, rfl, rfl, rfl, rfl⟩
  · exact .inl ⟨not_lt.mp h, rfl⟩

theorem Opens.of_same {s s₁ s' : LogFile} {now : ℤ} (h : Opens gmtime_r hostname pid s₁ s' now)
    (hsame : SameFiles s s₁) :
    Opens gmtime_r hostname pid s s' now := by
  refine ⟨hsame.last_roll ▸ h.advanced, h.basename.trans hsame.basename,
    h.roll_size.trans hsame.roll_size, h.last_roll, ?_, ?_, ?_⟩
  · rw [h.file, hsame.basename]
  · rw [h.closed, hsame.closed, hsame.file]
  · rw [h.creations, hsame.creations]

/-- Behind the write a file is opened or not; a file that has grown too large is kept only when the
clock has not advanced. -/
theorem afterWrite_cases (gmtime_r : ℤ → Tm) (hostname : List Char) (pid : Int32) (s : LogFile)
    (writtenBytes now rollNow : ℤ) :
    (SameFiles s (s.afterWrite gmtime_r hostname pid writtenBytes now rollNow) ∧
      (s._roll_size < writtenBytes → rollNow ≤ s._last_roll)) ∨
    Opens gmtime_r hostname pid s (s.afterWrite gmtime_r hostname pid writtenBytes now rollNow)
      rollNow := by
  unfold afterWrite
  by_cases hlarge : s._roll_size < writtenBytes
  · rw [if_pos hlarge]
    rcases rollFile_cases gmtime_r hostname pid s rollNow with ⟨hle, heq⟩ | hopens
    · rw [heq]
      exact .inl ⟨SameFiles.refl s, fun _ => hle⟩
    · exact .inr hopens
  · rw [if_neg hlarge]
    dsimp only
    split_ifs with hcheck hperiod hflush
    · rcases rollFile_cases gmtime_r hostname pid { s with _count := 0 } rollNow with
        ⟨hle, heq⟩ | hopens
      · rw [heq]
        exact .inl ⟨⟨rfl, rfl, rfl, rfl, rfl, rfl⟩, fun h => absurd h hlarge⟩
      · exact .inr (hopens.of_same ⟨rfl, rfl, rfl, rfl, rfl, rfl⟩)
    · exact .inl ⟨⟨rfl, rfl, rfl, rfl, rfl, rfl⟩, fun h => absurd h hlarge⟩
    · exact .inl ⟨⟨rfl, rfl, rfl, rfl, rfl, rfl⟩, fun h => absurd h hlarge⟩
    · exact .inl ⟨⟨rfl, rfl, rfl, rfl, rfl, rfl⟩, fun h => absurd h hlarge⟩

/-- The state behind the write of a line that is taken as a whole. -/
def wrote (s : LogFile) (f : AppendFile) (logline : List UInt8) : LogFile :=
  { s with _file := some ⟨f.filename, f.sent ++ logline, f.writtenBytes_ + logline.length⟩ }

theorem step_append {s : LogFile} {f : AppendFile} (hf : s._file = some f) {logline : List UInt8}
    {answers : Answers} (h : ¬ answers.Stalled logline.length) (now rollNow : Int64) :
    s.step gmtime_r hostname pid (.append logline answers now rollNow) =
      some (afterWrite gmtime_r hostname pid (s.wrote f logline) (f.writtenBytes_ + logline.length)
        now.toInt rollNow.toInt) := by
  rw [step, append_unlocked, hf]
  change (f.append answers logline >>= _) = _
  rw [AppendFile.append_of_not_stalled h f]
  rfl

end Calls

/-! ### Over whole runs -/

section Runs

variable {gmtime_r : ℤ → Tm} {hostname : List Char} {pid : Int32} {basename : List Char}
    {roll_size : ℤ}

/-- After the lines `ls`: the files were opened one second after the other, and each holds
whole lines, in order. -/
structure Intact (gmtime_r : ℤ → Tm) (hostname : List Char) (pid : Int32) (basename : List Char)
    (roll_size : ℤ) (s : LogFile) (ls : List (List UInt8)) : Prop where
  basename_eq : s._basename = basename
  roll_size_eq : s._roll_size = roll_size
  current : ∃ f, s._file = some f ∧ f.writtenBytes_ = f.sent.length
  last_pos : 0 < s._last_roll
  seconds : ∀ t ∈ s.creations, Second t ∧ t ≤ s._last_roll
  sorted : s.creations.Pairwise (· < ·)
  names : s.files.map AppendFile.filename = s.creations.map
    (getLogFileName gmtime_r hostname pid basename)
  groups : ∃ groups : List (List (List UInt8)), groups.flatten = ls ∧
    s.files.map AppendFile.sent = groups.map List.flatten

variable {s s' : LogFile} {ls : List (List UInt8)}

theorem Intact.same (h : Intact gmtime_r hostname pid basename roll_size s ls)
    (hsame : SameFiles s s') :
    Intact gmtime_r hostname pid basename roll_size s' ls := by
  have hfiles : s'.files = s.files := by rw [files, files, hsame.closed, hsame.file]
  refine ⟨hsame.basename.trans h.basename_eq, hsame.roll_size.trans h.roll_size_eq, ?_,
    ?_, ?_, ?_, ?_, ?_⟩
  · rw [hsame.file]
    exact h.current
  · rw [hsame.last_roll]
    exact h.last_pos
  · rw [hsame.creations, hsame.last_roll]
    exact h.seconds
  · rw [hsame.creations]
    exact h.sorted
  · rw [hfiles, hsame.creations]
    exact h.names
  · rw [hfiles]
    exact h.groups

theorem Intact.opens (h : Intact gmtime_r hostname pid basename roll_size s ls) {now : ℤ}
    (hopens : Opens gmtime_r hostname pid s s' now) (hnow : now < 2 ^ 63) :
    Intact gmtime_r hostname pid basename roll_size s' ls := by
  have hadvanced := hopens.advanced
  have hpos := h.last_pos
  have hfiles :
      s'.files = s.files ++ [⟨getLogFileName gmtime_r hostname pid s._basename now, [], 0⟩] := by
    rw [files, files, hopens.closed, hopens.file]
    rfl
  refine ⟨hopens.basename.trans h.basename_eq, hopens.roll_size.trans h.roll_size_eq,
    ⟨_, hopens.file, rfl⟩, ?_, ?_, ?_, ?_, ?_⟩
  · rw [hopens.last_roll]
    omega
  · intro t ht
    rw [hopens.creations, List.mem_append, List.mem_singleton] at ht
    rw [hopens.last_roll]
    rcases ht with ht | rfl
    · obtain ⟨hsecond, hle⟩ := h.seconds t ht
      exact ⟨hsecond, by omega⟩
    · exact ⟨⟨by omega, hnow⟩, le_rfl⟩
  · rw [hopens.creations, List.pairwise_append]
    refine ⟨h.sorted, List.pairwise_singleton _ _, fun t ht u hu => ?_⟩
    have hle := (h.seconds t ht).2
    rw [List.mem_singleton.mp hu]
    omega
  · rw [hfiles, hopens.creations, List.map_append, List.map_append, h.names, h.basename_eq]
    rfl
  · obtain ⟨groups, hlines, hsent⟩ := h.groups
    refine ⟨groups ++ [[]], ?_, ?_⟩
    · rw [List.flatten_append, hlines]
      simp
    · rw [hfiles, List.map_append, List.map_append, hsent]
      rfl

/-- A whole line goes to the end of the current file. -/
theorem Intact.write (h : Intact gmtime_r hostname pid basename roll_size s ls) {f : AppendFile}
    (hf : s._file = some f) (logline : List UInt8) :
    Intact gmtime_r hostname pid basename roll_size (s.wrote f logline) (ls ++ [logline]) := by
  have hfiles : s.files = s.closed ++ [f] := by
    rw [files, hf]
    rfl
  have hfiles' : (s.wrote f logline).files =
      s.closed ++ [⟨f.filename, f.sent ++ logline, f.writtenBytes_ + logline.length⟩] := rfl
  refine ⟨h.basename_eq, h.roll_size_eq, ⟨_, rfl, ?_⟩, h.last_pos, h.seconds, h.sorted, ?_, ?_⟩
  · obtain ⟨f', hf', hcount⟩ := h.current
    obtain rfl : f = f' := Option.some.inj (hf.symm.trans hf')
    rw [List.length_append, hcount]
    push_cast
    rfl
  · have hnames := h.names
    rw [hfiles, List.map_append] at hnames
    rw [hfiles', List.map_append]
    exact hnames
  · obtain ⟨groups, hlines, hsent⟩ := h.groups
    rw [hfiles, List.map_append, List.map_singleton] at hsent
    -- the last group is the one of the current file
    obtain ⟨front, last, rfl, hfront, hlast⟩ := List.map_eq_append_iff.mp hsent.symm
    obtain ⟨group, rfl, hgroup⟩ : ∃ group, last = [group] ∧ group.flatten = f.sent := by
      obtain ⟨group, rest, rfl, hgroup, hrest⟩ := List.map_eq_cons_iff.mp hlast
      exact ⟨group, by rw [List.map_eq_nil_iff.mp hrest], hgroup⟩
    refine ⟨front ++ [group ++ [logline]], ?_, ?_⟩
    · rw [← hlines]
      simp
    · rw [hfiles', List.map_append, List.map_append, hfront]
      simp [hgroup]

/-- What one call does, when its line is taken. -/
theorem step_intact (h : Intact gmtime_r hostname pid basename roll_size s ls) {call : Call}
    (hcall : call.Accepted) :
    ∃ s', s.step gmtime_r hostname pid call = some s' ∧
      Intact gmtime_r hostname pid basename roll_size s' (ls ++ lines [call]) ∧
      s.closed.length ≤ s'.closed.length := by
  cases call with
  | append logline answers now rollNow =>
    obtain ⟨f, hf, -⟩ := h.current
    have hwrite := h.write hf logline
    refine ⟨_, step_append hf hcall now rollNow, ?_⟩
    rcases afterWrite_cases gmtime_r hostname pid (s.wrote f logline)
      (f.writtenBytes_ + logline.length) now.toInt rollNow.toInt with ⟨hsame, -⟩ | hopens
    · refine ⟨hwrite.same hsame, ?_⟩
      rw [hsame.closed]
      exact le_rfl
    · refine ⟨hwrite.opens hopens rollNow.toInt_lt, ?_⟩
      rw [hopens.closed, List.length_append]
      exact Nat.le_add_right _ _
  | rollFile now =>
    refine ⟨_, rfl, ?_⟩
    rw [show ls ++ lines [Call.rollFile now] = ls from List.append_nil ls]
    rcases rollFile_cases gmtime_r hostname pid s now.toInt with ⟨-, heq⟩ | hopens
    · rw [heq]
      exact ⟨h, le_rfl⟩
    · refine ⟨h.opens hopens now.toInt_lt, ?_⟩
      rw [hopens.closed, List.length_append]
      exact Nat.le_add_right _ _
  | flush =>
    obtain ⟨f, hf, -⟩ := h.current
    exact ⟨s, by rw [step, hf]; rfl, by rwa [show ls ++ lines [Call.flush] =
      ls from List.append_nil ls], le_rfl⟩

theorem lines_cons (call : Call) (calls : List Call) :
    lines (call :: calls) = lines [call] ++ lines calls := by
  rw [lines, lines, lines, ← List.filterMap_append]
  rfl

theorem run_intact (h : Intact gmtime_r hostname pid basename roll_size s ls) {calls : List Call}
    (hcalls : ∀ call ∈ calls, call.Accepted) :
    ∃ s', s.run gmtime_r hostname pid calls = some s' ∧
      Intact gmtime_r hostname pid basename roll_size s' (ls ++ lines calls) ∧
      s.closed.length ≤ s'.closed.length := by
  induction calls generalizing s ls with
  | nil => exact ⟨s, rfl, by rwa [show ls ++ lines [] = ls from List.append_nil ls], le_rfl⟩
  | cons call calls ih =>
    obtain ⟨s₁, hstep, hintact, hle⟩ := step_intact h (hcalls call List.mem_cons_self)
    obtain ⟨s₂, hrun, hintact₂, hle₂⟩ := ih hintact fun c hc =>
      hcalls c (List.mem_cons_of_mem call hc)
    refine ⟨s₂, ?_, ?_, hle.trans hle₂⟩
    · rw [run, hstep]
      exact hrun
    · rw [lines_cons, ← List.append_assoc]
      exact hintact₂

theorem intact_new (gmtime_r : ℤ → Tm) (hostname : List Char) (pid : Int32) (basename : List Char)
    (roll_size : ℤ) (flush_interval check_interval : Int32) {now : ℤ} (hnow : Second now) :
    Intact gmtime_r hostname pid basename roll_size
      (new gmtime_r hostname pid basename roll_size flush_interval check_interval now) [] := by
  have hnew : new gmtime_r hostname pid basename roll_size flush_interval check_interval now =
      ⟨basename, roll_size, flush_interval, check_interval, 0,
        now.tdiv _k_roll_per_seconds * _k_roll_per_seconds, now, now,
        some ⟨getLogFileName gmtime_r hostname pid basename now, [], 0⟩, [], [now]⟩ := by
    rw [new, rollFile, if_pos hnow.1]
    rfl
  rw [hnew]
  exact ⟨rfl, rfl, ⟨_, rfl, rfl⟩, hnow.1, by simpa using hnow, List.pairwise_singleton _ _,
    rfl, [[]], rfl, rfl⟩

/-- A file that the line made too large takes another one only if the clock had not advanced when
the roll was tried. -/
theorem le_last_roll_of_same_file {s₁ : LogFile}
    (h : Intact gmtime_r hostname pid basename roll_size s₁ ls)
    {logline : List UInt8} {answers : Answers} {now rollNow : Int64}
    (hline : ¬ answers.Stalled logline.length)
    {mid : List Call} (hmid : ∀ call ∈ mid, call.Accepted) {s₂ : LogFile}
    (hrun : s₁.run gmtime_r hostname pid (.append logline answers now rollNow :: mid) = some s₂)
    (hclosed : s₂.closed.length = s₁.closed.length) {f : AppendFile} (hf : s₁._file = some f)
    (hlarge : roll_size < (f.sent ++ logline).length) : rollNow.toInt ≤ s₁._last_roll := by
  obtain ⟨f', hf', hcount⟩ := h.current
  obtain rfl : f = f' := Option.some.inj (hf.symm.trans hf')
  have hwrite := h.write hf logline
  rw [run, step_append hf hline] at hrun
  replace hrun : LogFile.run gmtime_r hostname pid _ mid = some s₂ := hrun
  rcases afterWrite_cases gmtime_r hostname pid (s₁.wrote f logline)
    (f.writtenBytes_ + logline.length) now.toInt rollNow.toInt with ⟨-, hle⟩ | hopens
  · apply hle
    rw [hwrite.roll_size_eq, hcount]
    rw [List.length_append] at hlarge
    push_cast at hlarge
    exact hlarge
  · -- the file was replaced, and files are never taken back
    obtain ⟨s', hrun', -, hmono⟩ := run_intact (hwrite.opens hopens rollNow.toInt_lt) hmid
    obtain rfl : s' = s₂ := Option.some.inj (hrun'.symm.trans hrun)
    rw [hopens.closed, List.length_append] at hmono
    replace hmono : s₁.closed.length + 1 ≤ s'.closed.length := hmono
    omega

end Runs

/-- Whatever the roll size, the intervals, the calls and the readings of the clock, if the first one
is positive and `fwrite` takes every line: files are opened in strictly increasing seconds and under
different names; their contents, in the order in which they were opened, are the lines appended,
each line whole in one file; and a line goes to a file that is already too large only if the clock
had not advanced past the last roll when the roll was tried. -/
theorem rolling_loses_nothing (gmtime_r : ℤ → Tm) (hgm : BreaksDown gmtime_r) (hostname : List Char)
    (pid : Int32)
    (basename : List Char) (roll_size : ℤ) (flush_interval check_interval : Int32) (first : Int64)
    (hfirst : 0 < first.toInt) (calls : List Call) (hcalls : ∀ call ∈ calls, call.Accepted) :
    let start :=
      new gmtime_r hostname pid basename roll_size flush_interval check_interval first.toInt
    ∃ s, start.run gmtime_r hostname pid calls = some s ∧
      s.creations.Pairwise (· < ·) ∧
      s.files.map AppendFile.filename = s.creations.map
        (getLogFileName gmtime_r hostname pid basename) ∧
      (s.files.map AppendFile.filename).Nodup ∧
      s.files.flatMap AppendFile.sent = (lines calls).flatten ∧
      (∃ groups : List (List (List UInt8)), groups.flatten = lines calls ∧
        s.files.map AppendFile.sent = groups.map List.flatten) ∧
      ∀ (pre mid post : List Call) (l l' : List UInt8) (a a' : Answers)
        (now rollNow now' rollNow' : Int64) (s₁ s₂ : LogFile) (f : AppendFile),
        calls = pre ++ .append l a now rollNow :: (mid ++ .append l' a' now' rollNow' :: post) →
        start.run gmtime_r hostname pid pre = some s₁ →
        s₁.run gmtime_r hostname pid (.append l a now rollNow :: mid) = some s₂ →
        s₂.closed.length = s₁.closed.length → s₁._file = some f → roll_size < (f.sent ++ l).length →
        rollNow.toInt ≤ s₁._last_roll := by
  intro start
  have hstart := intact_new gmtime_r hostname pid basename roll_size flush_interval check_interval
    (show Second first.toInt from ⟨hfirst, first.toInt_lt⟩)
  obtain ⟨s, hrun, hintact, -⟩ := run_intact hstart hcalls
  rw [List.nil_append] at hintact
  obtain ⟨groups, hgroups, hsent⟩ := hintact.groups
  refine ⟨s, hrun, hintact.sorted, hintact.names, ?_, ?_, ⟨groups, hgroups, hsent⟩, ?_⟩
  · rw [hintact.names]
    refine List.Nodup.map_on (fun t ht u hu h => ?_) (hintact.sorted.imp ne_of_lt)
    exact getLogFileName_inj hgm (hintact.seconds t ht).1 (hintact.seconds u hu).1 h
  · rw [← hgroups, List.flatMap_def, hsent, List.flatten_flatten]
  · intro pre mid post l l' a a' now rollNow now' rollNow' s₁ s₂ f hsplit hpre hmid
      hclosed hf hlarge
    have hmem :
        ∀ call, call ∈ pre ∨ call ∈ mid ∨ call = .append l a now rollNow → call.Accepted := by
      intro call hcall
      apply hcalls
      rw [hsplit]
      simp only [List.mem_append, List.mem_cons]
      tauto
    obtain ⟨s', hrun', hintact', -⟩ := run_intact hstart fun c hc => hmem c (.inl hc)
    obtain rfl : s' = s₁ := Option.some.inj (hrun'.symm.trans hpre)
    exact le_last_roll_of_same_file hintact' (hmem _ (.inr (.inr rfl)))
      (fun c hc => hmem c (.inr (.inl hc))) hmid hclosed hf hlarge

theorem breaksDown_civil : BreaksDown civilTime := by
  intro s
  refine ⟨Day.ordinalIso.symm (s / 86400 + epochDay.ordinal), s % 86400,
    denotes_brokenDown _ (by omega) true, ?_⟩
  rw [instant, Day.ordinal_symm]
  omega

/-- Two lines with a roll between them, the clock standing still and then going back. -/
theorem rolling_loses_nothing_two_lines :
    ∃ s, (new civilTime "host".toList 1 "server".toList 0 3 1024 5).run civilTime "host".toList 1
        [.append [97] .all 5 5, .rollFile 7, .append [98] .all 6 6] = some s ∧
      s.files.flatMap AppendFile.sent = [97, 98] := by
  obtain ⟨s, hrun, -, -, -, hlines, -⟩ :=
    rolling_loses_nothing civilTime breaksDown_civil "host".toList 1
    "server".toList 0 3 1024 5 (by decide) [.append [97] .all 5 5, .rollFile 7,
      .append [98] .all 6 6]
    (by simp [Call.Accepted, Answers.not_stalled_all])
  exact ⟨s, hrun, hlines⟩

end LogFile

end Muduo.Base
