import Muduo.Net.TimerRepresentation

/-!
# The alarm of the timer queue

A `TimerQueue` owns one `timerfd`, armed by `resetTimerfd` when a new timer becomes the earliest and
at the end of `handleRead`.  Cancelling never re-arms it, and reading it in `handleRead` consumes
it.  Here the queue runs with the clock and the `timerfd`.

* `howMuchTimeFromNow` — the `timespec` for an expiration; always valid and never zero, and at most
  100 microseconds late;
* `Rearms q q'` — what a move does to the set and the alarm: either it arms for a time that no entry
  precedes, or every entry that needs an alarm comes after one that needed it before; `rearms_step`;
* `TimedQueue` — the queue with the clock and the `timerfd`, and `TimedQueue.step`;
* `timers_have_alarm` — outside `handleRead` no timer waits without an alarm.
-/

namespace Muduo.Net

open Muduo.Lib

/-! ### `resetTimerfd` and the kernel -/

structure Timespec where
  tv_sec : ℤ
  tv_nsec : ℤ
  deriving DecidableEq

def Timestamp.kMicroSecondsPerSecond : ℤ := 1000000

/-- The value an `int64_t` holds. -/
def int64 (z : ℤ) : ℤ := z.bmod (2 ^ 64)

def FitsInt64 (z : ℤ) : Prop := -2 ^ 63 ≤ z ∧ z < 2 ^ 63

instance (z : ℤ) : Decidable (FitsInt64 z) := by unfold FitsInt64; infer_instance

theorem int64_eq_self {z : ℤ} (h : FitsInt64 z) : int64 z = z := by
  obtain ⟨hlow, hhigh⟩ := h
  exact Int.bmod_eq_of_le (by norm_num; omega) (by norm_num; omega)

def howMuchTimeFromNow (when_ now : Timestamp) : Timespec :=
  let difference := int64 (when_ - now)
  let microseconds := if difference < 100 then 100 else difference
  { tv_sec := microseconds.tdiv Timestamp.kMicroSecondsPerSecond
    tv_nsec := microseconds.tmod Timestamp.kMicroSecondsPerSecond * 1000 }

namespace Timespec

/-- `timerfd_settime` does not reject it with `EINVAL`. -/
def Valid (ts : Timespec) : Prop := 0 ≤ ts.tv_sec ∧ 0 ≤ ts.tv_nsec ∧ ts.tv_nsec < 10 ^ 9

instance (ts : Timespec) : Decidable ts.Valid := by unfold Valid; infer_instance

def nanoseconds (ts : Timespec) : ℤ := 10 ^ 9 * ts.tv_sec + ts.tv_nsec

end Timespec

/-- The microseconds are at least 100, so the truncating division is the Euclidean one. -/
theorem howMuchTimeFromNow_eq (when_ now : Timestamp) : ∃ microseconds : ℤ,
    microseconds = max (int64 (when_ - now)) 100 ∧
      howMuchTimeFromNow when_ now = ⟨microseconds / 1000000, microseconds % 1000000 * 1000⟩ := by
  refine ⟨_, rfl, ?_⟩
  have hmax : (if int64 (when_ - now) < 100 then 100 else int64 (when_ - now)) =
      max (int64 (when_ - now)) 100 := by
    split <;> omega
  have hpos : 0 ≤ max (int64 (when_ - now)) 100 := by omega
  simp only [howMuchTimeFromNow, hmax, Timestamp.kMicroSecondsPerSecond,
    Int.tdiv_eq_ediv_of_nonneg hpos, Int.tmod_eq_emod_of_nonneg hpos]

theorem howMuchTimeFromNow_valid (when_ now : Timestamp) :
    (howMuchTimeFromNow when_ now).Valid ∧ howMuchTimeFromNow when_ now ≠ ⟨0, 0⟩ := by
  obtain ⟨m, hm, heq⟩ := howMuchTimeFromNow_eq when_ now
  rw [heq, Ne, Timespec.mk.injEq]
  unfold Timespec.Valid
  dsimp only
  omega

theorem nanoseconds_howMuchTimeFromNow {when_ now : Timestamp} (hfits : FitsInt64 (when_ - now)) :
    (howMuchTimeFromNow when_ now).nanoseconds = 1000 * max (when_ - now) 100 := by
  obtain ⟨m, hm, heq⟩ := howMuchTimeFromNow_eq when_ now
  rw [int64_eq_self hfits] at hm
  rw [heq, Timespec.nanoseconds, ← hm]
  dsimp only
  omega

/-! ### What a move does to the set and the alarm -/

namespace TimerQueue

/-- The entry needs an alarm: outside `handleRead` every one does, and inside it those that the end
of `handleRead` will not arm for. -/
def NeedsAlarm (q : TimerQueue) (e : Entry) : Prop := q.batch = none ∨ e.time ≤ 0

/-- A move arms for a time that no entry precedes, or does not arm, and then an entry that needs an
alarm comes after one that needed it before. -/
def Rearms (q q' : TimerQueue) : Prop :=
  (q'.alarms = q.alarms ∧ ∀ e ∈ q'.timers_, q'.NeedsAlarm e →
    ∃ e₀ ∈ q.timers_, q.NeedsAlarm e₀ ∧ e₀.time ≤ e.time) ∨
  ∃ expiration, q'.alarms = q.alarms ++ [expiration] ∧ ∀ e ∈ q'.timers_, expiration ≤ e.time

section Rearming

variable {q q' : TimerQueue} {held : List ℕ}

theorem le_of_head {timers : OrderedSet Entry} {first : Entry} {rest : List Entry}
    (hl : timers.toList = first :: rest) {e : Entry} (he : e ∈ timers) : first.time ≤ e.time := by
  have hsorted := timers.sorted
  rw [hl, List.pairwise_cons] at hsorted
  rw [OrderedSet.mem_def, hl, List.mem_cons] at he
  rcases he with rfl | hrest
  · exact le_rfl
  · have hlt := hsorted.1 e hrest
    rw [← Entry.toLex_time_timer first, ← Entry.toLex_time_timer e, Prod.Lex.toLex_lt_toLex] at hlt
    rcases hlt with hlt | ⟨heq, -⟩
    · exact hlt.le
    · exact heq.le

theorem earlierThanFirst_iff {when_ : Timestamp} {timers : OrderedSet Entry} :
    earlierThanFirst when_ timers = true ↔ ∀ e ∈ timers, when_ < e.time := by
  unfold earlierThanFirst
  split
  · rename_i hl
    simp [OrderedSet.mem_def, hl]
  · rename_i first rest hl
    rw [decide_eq_true_eq]
    constructor
    · intro hlt e he
      exact hlt.trans_le (le_of_head hl he)
    · intro hall
      exact hall first (by rw [OrderedSet.mem_def, hl]; exact List.mem_cons_self)

/-- Nothing was armed, and no entry is new. -/
theorem rearms_of_subset (halarms : q'.alarms = q.alarms)
    (hbatch : q'.batch = none → q.batch = none)
    (hsub : ∀ e ∈ q'.timers_, e ∈ q.timers_) : Rearms q q' :=
  Or.inl ⟨halarms, fun e he hneeds => ⟨e, hsub e he, hneeds.imp_left hbatch, le_rfl⟩⟩

theorem rearms_addTimerInLoop (q : TimerQueue) (a : ℕ) : Rearms q (q.addTimerInLoop a) := by
  unfold addTimerInLoop
  split
  · exact rearms_of_subset (assert_alarms ..) (by simp) (by simp)
  · rename_i t _
    have htimers : ∀ e ∈ (q.insert a t).timers_, e = toLex (t.expiration_, a) ∨ e ∈ q.timers_ := by
      simp [insert]
    have hbatch : (q.insert a t).batch = q.batch := batch_of_frame (frame_insert q a t)
    have halarms : (q.insert a t).alarms = q.alarms := by simp [insert]
    dsimp only
    split
    · -- it is earlier than all others
      rename_i hearlier
      rw [earlierThanFirst_iff] at hearlier
      refine Or.inr ⟨t.expiration_, by rw [resetTimerfd, halarms], fun e he => ?_⟩
      rcases htimers e he with rfl | hold
      · exact le_rfl
      · exact (hearlier e hold).le
    · -- the first entry is no later than the new one
      rename_i hlater
      rw [earlierThanFirst_iff] at hlater
      push Not at hlater
      obtain ⟨first, hfirst, hle⟩ := hlater
      refine Or.inl ⟨halarms, fun e he hneeds => ?_⟩
      rw [NeedsAlarm, hbatch] at hneeds
      rcases htimers e he with rfl | hold
      · exact ⟨first, hfirst, hneeds.imp_right hle.trans, hle⟩
      · exact ⟨e, hold, hneeds, le_rfl⟩

theorem rearms_cancelInLoop (q : TimerQueue) (id : TimerId) : Rearms q (q.cancelInLoop id) := by
  refine rearms_of_subset ?_ (by rw [batch_of_frame (frame_cancelInLoop q id)]; exact fun h => h) ?_
  · unfold cancelInLoop
    dsimp only
    simp only [assert_alarms]
    split
    · split <;> simp [delete]
    · split <;> simp
  · unfold cancelInLoop
    dsimp only
    simp only [assert_timers_]
    split
    · split
      · simp
      · intro e he
        simp only [delete, OrderedSet.mem_erase] at he
        exact he.2
    · split <;> simp

theorem rearms_runFunctor (q : TimerQueue) (f : TimerFunctor) : Rearms q (q.runFunctor f) := by
  cases f with
  | addTimerInLoop a => exact rearms_addTimerInLoop q a
  | cancelInLoop id => exact rearms_cancelInLoop q id

/-- Repeating timers do not repeat backwards. -/
def Forward (q : TimerQueue) : Prop := ∀ a t, q.heap a = some t → t.repeat_ = true → 0 ≤ t.interval_

theorem Forward.interval (h : Forward q) {a : ℕ} {t : Timer} (hlive : q.WasLive a t)
    (hrepeat : t.repeat_ = true) : 0 ≤ t.interval_ := by
  obtain ⟨u, hu, hconst⟩ := hlive
  simp only [Timer.constants, Prod.mk.injEq] at hconst
  obtain ⟨hinterval, hrep, -⟩ := hconst
  rw [← hinterval]
  exact h a u hu (hrep.trans hrepeat)

/-- A timer put back by `reset` expires after `now`. -/
theorem rearm_timers (h : Forward q) (now : Timestamp) (e : Entry) :
    (q.rearm now e).alarms = q.alarms ∧
      ∀ e' ∈ (q.rearm now e).timers_, e' ∈ q.timers_ ∨ now ≤ e'.time := by
  unfold rearm
  split
  · rw [assert_alarms, assert_timers_]
    exact ⟨rfl, fun _ he' => Or.inl he'⟩
  · rename_i t ht
    split
    · rename_i hrepeat
      refine ⟨by simp [insert], fun e' he' => ?_⟩
      simp only [insert, assert_timers_, OrderedSet.mem_insert] at he'
      rcases he' with rfl | hold
      · right
        simp only [Entry.time_toLex, Timer.restart, hrepeat.1, if_true]
        exact le_add_of_nonneg_right (h e.timer t ht hrepeat.1)
      · exact Or.inl hold
    · exact ⟨rfl, fun _ he' => Or.inl he'⟩

theorem rearmAll_timers (h : Forward q) (now : Timestamp) (es : List Entry) :
    (es.foldl (fun q e => q.rearm now e) q).alarms = q.alarms ∧
      ∀ e ∈ (es.foldl (fun q e => q.rearm now e) q).timers_, e ∈ q.timers_ ∨ now ≤ e.time := by
  induction es generalizing q with
  | nil => exact ⟨rfl, fun _ he => Or.inl he⟩
  | cons e es ih =>
      obtain ⟨halarms, htimers⟩ := rearm_timers h now e
      obtain ⟨halarms', htimers'⟩ := ih fun _ _ ht => h.interval (live_of_rearm ht)
      refine ⟨halarms'.trans halarms, fun e' he' => ?_⟩
      rcases htimers' e' he' with hin | hle
      · exact htimers e' hin
      · exact Or.inr hle

/-- The end of `handleRead` arms for the first entry, unless its expiration is not valid: then it
was added during the batch. -/
theorem rearms_reset {es : List Entry} {now : Timestamp} (hown : Own q (es.map Entry.timer ++ held))
    (hforward : Forward q) (hnow : 0 < now) :
    Rearms q { q.reset es now with batch := none } := by
  have hfold := own_rearmAll hown now
  obtain ⟨halarms, htimers⟩ := rearmAll_timers hforward now es
  unfold reset
  dsimp only
  split
  · rename_i hl
    refine Or.inl ⟨halarms, fun e he => ?_⟩
    rw [OrderedSet.mem_def] at he
    dsimp only at he
    rw [hl] at he
    exact absurd he List.not_mem_nil
  · rename_i first rest hl
    have hfirst : first ∈ (es.foldl (fun q e => q.rearm now e) q).timers_ := by
      rw [OrderedSet.mem_def, hl]
      exact List.mem_cons_self
    obtain ⟨t, ht, hexp⟩ := hfold.entry first hfirst
    rw [ht]
    dsimp only
    split
    · refine Or.inr ⟨t.expiration_, by rw [resetTimerfd, halarms], fun e he => ?_⟩
      rw [hexp]
      exact le_of_head hl he
    · rename_i hinvalid
      rw [hexp] at hinvalid
      refine Or.inl
        ⟨halarms, fun e he _ => ⟨first, ?_, Or.inr (not_lt.mp hinvalid), le_of_head hl he⟩⟩
      rcases htimers first hfirst with hin | hle
      · exact hin
      · exact absurd (hnow.trans_le hle) hinvalid

end Rearming

/-- What the alarm needs to know of the queue. -/
structure ReadyInv (q : TimerQueue) : Prop where
  own : OwnInv q
  forward : Forward q
  now : ∀ b, q.batch = some b → 0 < b.now

theorem readyInv_new : ReadyInv new where
  own := ownInv_new
  forward _ _ ht := by simp [new] at ht
  now _ hb := by simp [new] at hb

/-- The clock is past the epoch, and a repeating timer does not go backwards. -/
def Act.Sensible : Act → Prop
  | .addTimer _ _ _ interval repeats => repeats = true → 0 ≤ interval
  | .handleRead now => 0 < now
  | _ => True

theorem readyInv_step {q : TimerQueue} (h : ReadyInv q) {act : Act} (hact : act.Sensible) :
    ReadyInv (q.step act) where
  own := ownInv_step h.own act
  forward a t ht hrepeat := by
    rcases live_step q act ht with hlive | ⟨-, _, _, _, _, rfl, rfl⟩
    · exact h.forward.interval hlive hrepeat
    · exact hact hrepeat
  now b hb := by
    rcases now_step q act hb with ⟨b₀, hb₀, hnow⟩ | rfl
    · exact hnow ▸ h.now b₀ hb₀
    · exact hact

theorem alarms_getExpired (q : TimerQueue) (now : Timestamp) :
    (q.getExpired now).1.alarms = q.alarms := by
  obtain ⟨act, fs, heq⟩ := getExpired_eq q now
  rw [heq]

/-- After the first half of `handleRead` all entries are later than a valid time. -/
theorem lt_of_mem_getExpired {q : TimerQueue} {now : Timestamp} (hnow : 0 < now) {e : Entry}
    (he : e ∈ (q.getExpired now).1.timers_) : 0 < e.time := by
  rw [timers_getExpired, OrderedSet.mem_dropBelow] at he
  have hlex := he.2
  rw [← Entry.toLex_time_timer e, Prod.Lex.toLex_le_toLex] at hlex
  rcases hlex with hlt | ⟨heq, -⟩
  · exact hnow.trans hlt
  · exact hnow.trans_le heq.le

theorem rearms_step {q : TimerQueue} (h : ReadyInv q) (act : Act) :
    act.Sensible → Rearms q (q.step act) := by
  have hidle : Rearms q q := rearms_of_subset rfl (fun hb => hb) (fun _ he => he)
  refine step_cases q ?idle ?queueAdd ?add ?queueCancel ?cancel ?functor ?handleRead
    ?dead ?run ?return_ ?finish act
  case idle => exact fun _ _ => hidle
  case queueAdd => exact fun _ _ _ _ _ _ _ _ => hidle
  case add =>
    exact fun _ a when_ interval repeats _ _ _ =>
      rearms_addTimerInLoop (q.create a when_ interval repeats) a
  case queueCancel => exact fun _ _ _ => hidle
  case cancel => exact fun _ id _ => rearms_cancelInLoop q id
  case functor => exact fun f rest _ _ _ => rearms_runFunctor { q with functors := rest } f
  case handleRead =>
    refine fun now _ hnow => Or.inl ⟨alarms_getExpired q now, fun e he hneeds => ?_⟩
    exact absurd (hneeds.resolve_left nofun) (not_le.mpr (lt_of_mem_getExpired hnow he))
  case dead => exact fun _ _ _ _ _ _ _ => rearms_of_subset (assert_alarms ..) (by simp) (by simp)
  case run =>
    exact fun _ _ _ _ _ _ _ _ => rearms_of_subset rfl (fun hnone => nomatch hnone) (fun _ he => he)
  case return_ => exact fun _ _ _ =>
    rearms_of_subset rfl (fun hnone => nomatch hnone) (fun _ he => he)
  case finish => exact fun _ _ hb _ => rearms_reset (h.own.ran hb) h.forward (h.now _ hb)

end TimerQueue

/-! ### The queue with its clock and its `timerfd` -/

/-- A pending alarm, in microseconds and nanoseconds of the clock; it has fired when the deadline
has come, and stays until it is read or replaced. -/
structure Alarm where
  armedAt : Timestamp
  deadline : ℤ
  deriving DecidableEq

/-- A call of `resetTimerfd`, with the clock it read and the value it passed to the kernel. -/
structure Arming where
  expiration : Timestamp
  now : Timestamp
  newValue : Timespec
  deriving DecidableEq

def armingAt (now expiration : Timestamp) : Arming :=
  ⟨expiration, now, howMuchTimeFromNow expiration now⟩

def Arming.Fits (arming : Arming) : Prop := FitsInt64 (arming.expiration - arming.now)

instance (arming : Arming) : Decidable arming.Fits := by unfold Arming.Fits; infer_instance

structure TimedQueue where
  queue : TimerQueue
  clock : Timestamp
  timerfd : Option Alarm
  armings : List Arming

namespace TimedQueue

def new (clock : Timestamp) : TimedQueue where
  queue := .new
  clock := clock
  timerfd := none
  armings := []

/-- `timerfd_settime` with a relative time: zero disarms, an invalid value is refused. -/
def timerfd_settime (s : TimedQueue) (newValue : Timespec) : TimedQueue :=
  if newValue = ⟨0, 0⟩ then { s with timerfd := none }
  else if newValue.Valid then
    { s with timerfd := some ⟨s.clock, 1000 * s.clock + newValue.nanoseconds⟩ }
  else s

/-- `resetTimerfd`; the clock is read and the alarm set at one moment. -/
def resetTimerfd (s : TimedQueue) (expiration : Timestamp) : TimedQueue :=
  let arming := armingAt s.clock expiration
  timerfd_settime { s with armings := s.armings ++ [arming] } arming.newValue

/-- `readTimerfd`: an alarm that has fired is consumed, otherwise the read fails with `EAGAIN`. -/
def readTimerfd (s : TimedQueue) : TimedQueue :=
  match s.timerfd with
  | some alarm => if alarm.deadline ≤ 1000 * s.clock then { s with timerfd := none } else s
  | none => s

/-- The queue has moved to `q'`; the alarms it set reach the kernel. -/
def follow (s : TimedQueue) (q' : TimerQueue) : TimedQueue :=
  { (q'.alarms.drop s.queue.alarms.length).foldl resetTimerfd s with queue := q' }

/-- The moves of the queue; a repeating timer has an interval, and between two moves, or between the
two system calls at the start of `handleRead`, time passes. -/
inductive Move where
  | tick (microseconds : ℕ)
  | addTimer (inLoopThread : Bool) (address : ℕ) (when_ : Timestamp) (interval : Option ℕ)
  | cancel (inLoopThread : Bool) (id : TimerId)
  | functor
  | handleRead (delay : ℕ)
  | run
  | return_
  | finish

def step (s : TimedQueue) : Move → TimedQueue
  | .tick microseconds => { s with clock := s.clock + microseconds }
  | .addTimer inLoopThread address when_ interval =>
      s.follow (s.queue.step
        (.addTimer inLoopThread address when_ (interval.getD 0) interval.isSome))
  | .cancel inLoopThread id => s.follow (s.queue.step (.cancel inLoopThread id))
  | .functor => s.follow (s.queue.step .functor)
  | .handleRead delay =>
      match s.queue.batch with
      | none =>
          let now := s.clock
          { s with clock := s.clock + delay }.readTimerfd.follow (s.queue.step (.handleRead now))
      | some _ => s
  | .run => s.follow (s.queue.step .run)
  | .return_ => s.follow (s.queue.step .return_)
  | .finish => s.follow (s.queue.step .finish)

/-! ### The alarms reach the kernel -/

section Follow

variable {s : TimedQueue} {q' : TimerQueue}

/-- Arming never disarms and is never refused. -/
theorem resetTimerfd_eq (s : TimedQueue) (expiration : Timestamp) :
    s.resetTimerfd expiration = { s with
      armings := s.armings ++ [armingAt s.clock expiration]
      timerfd :=
        some ⟨s.clock, 1000 * s.clock + (howMuchTimeFromNow expiration s.clock).nanoseconds⟩ } := by
  obtain ⟨hvalid, hne⟩ := howMuchTimeFromNow_valid expiration s.clock
  simp [resetTimerfd, timerfd_settime, armingAt, hne, hvalid]

theorem foldl_resetTimerfd (s : TimedQueue) (expirations : List Timestamp) :
    (expirations.foldl resetTimerfd s).armings = s.armings ++ expirations.map (armingAt s.clock) ∧
      (expirations.foldl resetTimerfd s).clock = s.clock := by
  induction expirations generalizing s with
  | nil => simp
  | cons expiration expirations ih =>
      obtain ⟨harmings, hclock⟩ := ih (s.resetTimerfd expiration)
      rw [List.foldl_cons, harmings, hclock, resetTimerfd_eq]
      simp

theorem clock_follow (s : TimedQueue) (q' : TimerQueue) : (s.follow q').clock = s.clock :=
  (foldl_resetTimerfd s _).2

theorem armings_follow (s : TimedQueue) (q' : TimerQueue) :
    ∃ expirations : List Timestamp, (s.follow q').armings = s.armings ++ expirations.map
      (armingAt s.clock) :=
  ⟨_, (foldl_resetTimerfd s _).1⟩

/-- The alarm is set for a moment no later than `time`, or 100 microseconds after it was set. -/
def Covered (s : TimedQueue) (time : Timestamp) : Prop :=
  ∃ alarm, s.timerfd = some alarm ∧ alarm.deadline ≤ 1000 * max time (alarm.armedAt + 100)

theorem Covered.mono {time time' : Timestamp} (h : s.Covered time) (hle : time ≤ time') :
    s.Covered time' := by
  obtain ⟨alarm, halarm, hdeadline⟩ := h
  refine ⟨alarm, halarm, hdeadline.trans ?_⟩
  gcongr

theorem covered_resetTimerfd {expiration : Timestamp} (hfits : (armingAt s.clock expiration).Fits) :
    (s.resetTimerfd expiration).Covered expiration := by
  rw [resetTimerfd_eq]
  refine ⟨_, rfl, ?_⟩
  have hns : (howMuchTimeFromNow expiration s.clock).nanoseconds = 1000 * max
      (expiration - s.clock) 100 :=
    nanoseconds_howMuchTimeFromNow hfits
  have hmax : s.clock + max (expiration - s.clock) 100 = max expiration (s.clock + 100) := by
    rw [← max_add_add_left, add_sub_cancel]
  dsimp only
  rw [hns, ← mul_add, hmax]

/-- The queue arms as `Rearms` says, so what needs an alarm has one. -/
theorem covered_follow (hq : s.queue.Rearms q')
    (hcovered : ∀ e ∈ s.queue.timers_, s.queue.NeedsAlarm e → s.Covered e.time)
    (hfits : ∀ arming ∈ (s.follow q').armings, arming.Fits) :
    ∀ e ∈ q'.timers_, q'.NeedsAlarm e → (s.follow q').Covered e.time := by
  intro e he hneeds
  rcases hq with ⟨halarms, hkept⟩ | ⟨expiration, halarms, hearliest⟩
  · obtain ⟨e₀, he₀, hneeds₀, hle⟩ := hkept e he hneeds
    have hsame : s.follow q' = { s with queue := q' } := by
      unfold follow
      rw [halarms, List.drop_length]
      rfl
    rw [hsame]
    exact (hcovered e₀ he₀ hneeds₀).mono hle
  · have harm : s.follow q' = { s.resetTimerfd expiration with queue := q' } := by
      unfold follow
      rw [halarms, List.drop_left]
      rfl
    rw [harm] at hfits ⊢
    have hfit : (armingAt s.clock expiration).Fits := by
      refine hfits _ ?_
      rw [resetTimerfd_eq]
      exact List.mem_append_right _ List.mem_cons_self
    exact (covered_resetTimerfd hfit).mono (hearliest e he)

end Follow

/-! ### Whole runs -/

theorem clock_readTimerfd (s : TimedQueue) : s.readTimerfd.clock = s.clock := by
  unfold readTimerfd
  split
  · split <;> rfl
  · rfl

theorem armings_readTimerfd (s : TimedQueue) : s.readTimerfd.armings = s.armings := by
  unfold readTimerfd
  split
  · split <;> rfl
  · rfl

theorem armings_step (s : TimedQueue) (m : Move) :
    ∃ (now : Timestamp) (expirations : List Timestamp),
      (s.step m).armings = s.armings ++ expirations.map (armingAt now) := by
  have hfollow :
      ∀ (s : TimedQueue) (q' : TimerQueue), ∃ (now : Timestamp) (expirations : List Timestamp),
        (s.follow q').armings = s.armings ++ expirations.map (armingAt now) :=
    fun s q' => ⟨s.clock, armings_follow s q'⟩
  cases m with
  | tick microseconds => exact ⟨0, [], (List.append_nil _).symm⟩
  | addTimer inLoopThread address when_ interval => exact hfollow s _
  | cancel inLoopThread id => exact hfollow s _
  | functor => exact hfollow s _
  | handleRead delay =>
      simp only [step]
      split
      · obtain ⟨now, expirations, heq⟩ := hfollow { s with clock := s.clock + delay }.readTimerfd
          (s.queue.step (.handleRead s.clock))
        exact ⟨now, expirations, by rw [heq, armings_readTimerfd]⟩
      · exact ⟨0, [], (List.append_nil _).symm⟩
  | run => exact hfollow s _
  | return_ => exact hfollow s _
  | finish => exact hfollow s _

structure AlarmInv (s : TimedQueue) : Prop where
  ready : s.queue.ReadyInv
  clock : 0 < s.clock
  covered : ∀ e ∈ s.queue.timers_, s.queue.NeedsAlarm e → s.Covered e.time

theorem alarmInv_follow {s : TimedQueue} (h : AlarmInv s) {act : TimerQueue.Act}
    (hact : act.Sensible) (hfits : ∀ arming ∈ (s.follow (s.queue.step act)).armings, arming.Fits) :
    AlarmInv (s.follow (s.queue.step act)) where
  ready := TimerQueue.readyInv_step h.ready hact
  clock := by rw [clock_follow]; exact h.clock
  covered := covered_follow (TimerQueue.rearms_step h.ready act hact) h.covered hfits

theorem alarmInv_step {s : TimedQueue} (h : AlarmInv s) (m : Move)
    (hfits : ∀ arming ∈ (s.step m).armings, arming.Fits) : AlarmInv (s.step m) := by
  cases m with
  | tick microseconds =>
      exact ⟨h.ready, add_pos_of_pos_of_nonneg h.clock (Int.natCast_nonneg _), h.covered⟩
  | addTimer inLoopThread address when_ interval =>
      refine alarmInv_follow h ?_ hfits
      intro hsome
      exact Int.natCast_nonneg _
  | cancel inLoopThread id => exact alarmInv_follow h trivial hfits
  | functor => exact alarmInv_follow h trivial hfits
  | handleRead delay =>
      simp only [step]
      split
      · -- the alarm may be consumed, but nothing needs one now
        rename_i hb
        have hnow : TimerQueue.Act.Sensible (.handleRead s.clock) := h.clock
        refine ⟨TimerQueue.readyInv_step h.ready hnow, ?_, fun e he hneeds => ?_⟩
        · rw [clock_follow, clock_readTimerfd]
          exact add_pos_of_pos_of_nonneg h.clock (Int.natCast_nonneg _)
        · simp only [follow, TimerQueue.step, hb] at he hneeds
          exact absurd (hneeds.resolve_left (by rintro ⟨⟩))
            (not_le.mpr (TimerQueue.lt_of_mem_getExpired h.clock he))
      · exact h
  | run => exact alarmInv_follow h trivial hfits
  | return_ => exact alarmInv_follow h trivial hfits
  | finish => exact alarmInv_follow h trivial hfits

theorem alarmInv_new {clock : Timestamp} (hclock : 0 < clock) : AlarmInv (new clock) where
  ready := TimerQueue.readyInv_new
  clock := hclock
  covered _ he := absurd he List.not_mem_nil

theorem alarmInv_exec {start : Timestamp} (hstart : 0 < start) (run : List Move)
    (hfits : ∀ arming ∈ (exec step (new start) run).armings, arming.Fits) :
    AlarmInv (exec step (new start) run) := by
  -- the history only grows, so all earlier armings fit as well
  refine exec_invariant (fun s => (∀ arming ∈ s.armings, arming.Fits) → AlarmInv s) ?_ run
    (fun _ => alarmInv_new hstart) hfits
  intro s m hs hfits
  obtain ⟨now, expirations, harmings⟩ := armings_step s m
  refine alarmInv_step (hs fun arming harming => hfits arming ?_) m hfits
  rw [harmings]
  exact List.mem_append_left _ harming

theorem newValue_exec (start : Timestamp) (run : List Move) :
    ∀ arming ∈ (exec step (new start) run).armings,
      arming.newValue = howMuchTimeFromNow arming.expiration arming.now := by
  refine exec_invariant (fun s : TimedQueue => ∀ arming ∈ s.armings,
    arming.newValue = howMuchTimeFromNow arming.expiration arming.now) ?_ run
    (fun _ harming => absurd harming List.not_mem_nil)
  intro s m hs arming harming
  obtain ⟨now, expirations, harmings⟩ := armings_step s m
  rw [harmings, List.mem_append, List.mem_map] at harming
  rcases harming with hold | ⟨expiration, -, rfl⟩
  · exact hs arming hold
  · rfl

/-- **No timer waits without an alarm.**  From a clock past the epoch, whatever timers are added
and cancelled, inside callbacks and outside, as long as no difference between an expiration to arm
for and the clock overflows: outside `handleRead`, when `timers_` is not empty, the `timerfd`
holds an alarm, fired and unread or still pending, whose deadline is at most the earliest
expiration or 100 microseconds after it was armed; and every value passed to `timerfd_settime` is
a valid time other than zero. -/
theorem timers_have_alarm (start : Timestamp) (hstart : 0 < start) (run : List Move)
    (hfits : ∀ arming ∈ (exec step (new start) run).armings, arming.Fits) :
    let s := exec step (new start) run
    (s.queue.batch = none → ∀ first, s.queue.timers_.toList.head? = some first →
      ∃ alarm, s.timerfd = some alarm ∧
        alarm.deadline ≤ 1000 * max first.time (alarm.armedAt + 100)) ∧
    ∀ arming ∈ s.armings, 0 ≤ arming.newValue.tv_sec ∧ 0 ≤ arming.newValue.tv_nsec ∧
      arming.newValue.tv_nsec < 10 ^ 9 ∧ arming.newValue ≠ ⟨0, 0⟩ := by
  intro s
  have hinv : AlarmInv s := alarmInv_exec hstart run hfits
  refine ⟨fun hb first hfirst => ?_, fun arming harming => ?_⟩
  · exact hinv.covered first (List.mem_of_mem_head? hfirst) (Or.inl hb)
  · rw [newValue_exec start run arming harming]
    obtain ⟨⟨hsec, hnsec, hlt⟩, hne⟩ := howMuchTimeFromNow_valid arming.expiration arming.now
    exact ⟨hsec, hnsec, hlt, hne⟩

/-- A timer is added, a second one with an invalid expiration from its callback, and the batch ends:
the queue is not armed again, and the alarm set inside the callback is still there. -/
def addedInCallback : List Move :=
  [.addTimer true 1 2000 none, .tick 1500, .handleRead 3, .run, .addTimer true 2 0 none,
    .tick 7, .return_, .finish]

theorem addedInCallback_alarm :
    (∀ arming ∈ (exec step (new 1000) addedInCallback).armings, arming.Fits) ∧
    ∃ alarm, (exec step (new 1000) addedInCallback).timerfd = some alarm ∧
      alarm.deadline ≤ 1000 * max 0 (alarm.armedAt + 100) :=
  ⟨by decide +kernel, (timers_have_alarm 1000 (by decide) addedInCallback (by decide +kernel)).1
    (by decide +kernel) (toLex (0, 2)) (by decide +kernel)⟩

end TimedQueue

end Muduo.Net
