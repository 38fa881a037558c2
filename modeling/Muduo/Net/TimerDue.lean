import Muduo.Net.TimerIdentity

/-!
# Timers fire when they are due

`getExpired(now)` cuts `timers_` at the sentry `(now, UINTPTR_MAX)`.  No timer has that address,
so the cut is at `now`.  What it takes out is the batch: it is fixed, in the order of the
expirations, before the first callback runs, and no callback can change the expiration of a
timer in it or delete one.

* `TakesDue`, `takesDue` — the cut, in any state in which the two sets hold the same timers;
* `Firing`, `firings` — the callbacks a run starts, with the clock reading of their batch;
* `batch_step` — what a move can do while a batch runs: everything below follows from it;
* `DueInv` — the batch is due and in order; `firings_inBatch` — the callbacks follow its order;
* `Once` — a timer that does not repeat has not fired, or has its turn behind it; `once_step`;
* `rearmed_finish` — where a repeating timer is after its batch;
* `timers_fire_when_due` — all of it, for whole runs.
-/

namespace Muduo.Net

open Muduo.Lib

namespace TimerQueue

variable {q : TimerQueue}

/-! ### The cut -/

/-- `getExpired(now)` takes the entries up to `now` out of both sets, in order, and
fails no assertion. -/
structure TakesDue (q : TimerQueue) (now : Timestamp) : Prop where
  mem : ∀ e, e ∈ (q.getExpired now).2 ↔ e ∈ q.timers_ ∧ e.time ≤ now
  nodup : (q.getExpired now).2.Nodup
  ordered : (q.getExpired now).2.Pairwise fun e f => e.time ≤ f.time
  timers : ∀ e, e ∈ (q.getExpired now).1.timers_ ↔ e ∈ q.timers_ ∧ now < e.time
  active : ∀ a s, toLex (a, s) ∈ (q.getExpired now).1.activeTimers_ ↔
    toLex (a, s) ∈ q.activeTimers_ ∧ ∃ t, q.heap a = some t ∧ now < t.expiration_
  faults : (q.getExpired now).1.faults = q.faults

theorem Entry.time_le_of_lt {e f : Entry} (h : e < f) : e.time ≤ f.time := by
  rw [← Entry.toLex_time_timer e, ← Entry.toLex_time_timer f, Prod.Lex.toLex_lt_toLex] at h
  rcases h with hlt | ⟨heq, -⟩
  · exact hlt.le
  · exact heq.le

theorem pairwise_expired (q : TimerQueue) (now : Timestamp) :
    (q.getExpired now).2.Pairwise (· < ·) := by
  rw [expired_eq]
  exact q.timers_.sorted.sublist (List.takeWhile_sublist _)

theorem mem_expired (hbound : ∀ e ∈ q.timers_, e.timer < uintptrMax) (now : Timestamp) (e : Entry) :
    e ∈ (q.getExpired now).2 ↔ e ∈ q.timers_ ∧ e.time ≤ now := by
  rw [expired_eq, OrderedSet.mem_below]
  refine and_congr_right fun he => ?_
  rw [← not_le, sentry_le_iff (hbound e he), not_lt]

theorem takesDue (h : SetInv q) (hbound : ∀ e ∈ q.timers_, e.timer < uintptrMax) (now : Timestamp) :
    TakesDue q now := by
  have htimers : ∀ e, e ∈ (q.getExpired now).1.timers_ ↔ e ∈ q.timers_ ∧ now < e.time := by
    intro e
    rw [timers_getExpired, OrderedSet.mem_dropBelow]
    exact and_congr_right fun he => sentry_le_iff (hbound e he) now
  refine ⟨mem_expired hbound now, (pairwise_expired q now).imp ne_of_lt,
    (pairwise_expired q now).imp Entry.time_le_of_lt, htimers, fun a s =>
    ?_, faults_getExpired h hbound now⟩
  rw [(setInv_getExpired h now).active, h.active, heap_getExpired]
  simp only [htimers, Entry.time_toLex]
  constructor
  · rintro ⟨t, ht, hs, hin, hlt⟩
    exact ⟨⟨t, ht, hs, hin⟩, t, ht, hlt⟩
  · rintro ⟨⟨t, ht, hs, hin⟩, u, hu, hlt⟩
    obtain rfl : t = u := Option.some.inj (ht.symm.trans hu)
    exact ⟨t, ht, hs, hin, hlt⟩

/-! ### The callbacks of a run -/

/-- The start of a callback: the clock reading of its batch, and the timer as it is then. -/
structure Firing where
  now : Timestamp
  timer : Timer

/-- The callback a move starts. -/
def fires (q : TimerQueue) : Act → Option Firing
  | .run =>
      match q.batch with
      | some ⟨now, _, e :: _, false⟩ => (q.heap e.timer).map (Firing.mk now)
      | _ => none
  | _ => none

def firings (q : TimerQueue) (run : List Act) : List Firing := outputs step fires q run

theorem fires_eq_some {act : Act} {f : Firing} (h : q.fires act = some f) :
    act = .run ∧ ∃ ran e rest, q.batch = some ⟨f.now, ran, e :: rest, false⟩ ∧
      q.heap e.timer = some f.timer := by
  unfold fires at h
  split at h
  · split at h
    · rename_i now ran e rest hb
      obtain ⟨t, ht, rfl⟩ := Option.map_eq_some_iff.mp h
      exact ⟨rfl, ran, e, rest, hb, ht⟩
    · cases h
  · cases h

theorem started_of_ne_run {act : Act} : act ≠ .run → (q.step act).started = q.started := by
  refine step_cases (motive := fun act q' => act ≠ .run → q'.started = q.started) q
    ?idle ?queueAdd ?add ?queueCancel ?cancel ?functor ?handleRead ?dead ?run ?return_ ?finish act
  case idle => exact fun _ _ => rfl
  case queueAdd => exact fun _ _ _ _ _ _ _ _ => rfl
  case add => exact fun _ _ _ _ _ _ _ _ => (started_of_frame (frame_addTimerInLoop ..)).trans rfl
  case queueCancel => exact fun _ _ _ => rfl
  case cancel => exact fun _ id _ => started_of_frame (frame_cancelInLoop q id)
  case functor => exact fun _ _ _ _ _ => (started_of_frame (frame_runFunctor ..)).trans rfl
  case handleRead =>
    intro now _ _
    have hread := started_of_frame (frame_getExpired q now)
    exact hread
  case dead => exact fun _ _ _ _ _ _ h => absurd rfl h
  case run => exact fun _ _ _ _ _ _ _ h => absurd rfl h
  case return_ => exact fun _ _ _ => rfl
  case finish => exact fun _ _ _ _ => (started_of_frame (frame_reset ..)).trans rfl

theorem started_step (q : TimerQueue) (act : Act) :
    (q.step act).started = q.started ++ (q.fires act).toList.map fun f => f.timer.sequence_ := by
  cases hf : q.fires act with
  | some f =>
      obtain ⟨rfl, ran, e, rest, hb, ht⟩ := fires_eq_some hf
      simp [step, hb, ht]
  | none =>
      rw [Option.toList_none, List.map_nil, List.append_nil]
      by_cases hact : act = .run
      · subst hact
        simp only [step]
        split
        · rename_i now ran e rest hb
          cases ht : q.heap e.timer with
          | none => simp
          | some t => simp [fires, hb, ht] at hf
        · rfl
      · exact started_of_ne_run hact

theorem started_exec (q : TimerQueue) (run : List Act) :
    (exec step q run).started = q.started ++ (firings q run).map fun f => f.timer.sequence_ :=
  log_exec started (fun f : Firing => f.timer.sequence_) started_step q run

/-! ### While a batch runs -/

/-- The batch `b` goes on as `b'`: at most one entry has moved from `rest` to `ran`, and then the
move has started its callback. -/
structure Advances (q : TimerQueue) (act : Act) (b b' : Batch) : Prop where
  now : b'.now = b.now
  turn : b'.ran = b.ran ∧ b'.rest = b.rest ∨ ∃ e t, q.heap e.timer = some t ∧
    q.fires act = some ⟨b.now, t⟩ ∧ b'.ran = b.ran ++ [e] ∧ b.rest = e :: b'.rest

theorem advances_refl (act : Act) (b : Batch) : Advances q act b b := ⟨rfl, Or.inl ⟨rfl, rfl⟩⟩

theorem Advances.all {act : Act} {b b' : Batch} (h : Advances q act b b') :
    b'.ran ++ b'.rest = b.ran ++ b.rest := by
  obtain ⟨-, ⟨hran, hrest⟩ | ⟨e, -, -, -, hran, hrest⟩⟩ := h
  · rw [hran, hrest]
  · rw [hran, hrest, List.append_assoc, List.singleton_append]

theorem Advances.ran {act : Act} {b b' : Batch} (h : Advances q act b b') : b.ran ⊆ b'.ran := by
  obtain ⟨-, ⟨hran, -⟩ | ⟨e, -, -, -, hran, -⟩⟩ := h
  · rw [hran]
    exact List.Subset.refl _
  · rw [hran]
    exact List.subset_append_left ..

/-- The batch goes on, and its timers are left alone. -/
structure GoesOn (q : TimerQueue) (act : Act) (b : Batch) (q' : TimerQueue) : Prop where
  batch : ∃ b', q'.batch = some b' ∧ Advances q act b b'
  heap : ∀ a ∈ heldBy (some b), q'.heap a = q.heap a

theorem goesOn_of_eq {act : Act} {b : Batch} {q' : TimerQueue} (hb : q'.batch = some b)
    (hheap : ∀ a ∈ heldBy (some b), q'.heap a = q.heap a) : GoesOn q act b q' :=
  ⟨⟨b, hb, advances_refl act b⟩, hheap⟩

/-- The timers of a batch are live and outside the sets. -/
theorem OwnInv.held (h : OwnInv q) {b : Batch} (hb : q.batch = some b) {a : ℕ}
    (ha : a ∈ heldBy (some b)) :
    (∃ t, q.heap a = some t) ∧ a ∉ q.timers_.toList.map Entry.timer ∧ a ∉ queued q.functors := by
  have hown := hb ▸ h.own
  refine ⟨(hown.live a).mpr (List.mem_append_right _ ha), fun hin => ?_,
    fun hin => hown.notMem_held hin ha⟩
  obtain ⟨e, he, rfl⟩ := List.mem_map.mp hin
  exact (hown.notMem_of_timers he).2 ha

/-- **What a move can do while a batch runs**: go on with it or end it. -/
theorem batch_step (h : OwnInv q) {b : Batch} (hb : q.batch = some b) (act : Act) :
    GoesOn q act b (q.step act) ∨ act = .finish ∧ b.rest = [] ∧ b.inside = false ∧
      q.step act = { { q with callingExpiredTimers_ := false }.reset b.ran b.now with
        batch := none } := by
  have hother : q.batch ≠ none := by rw [hb]; exact nofun
  -- a new timer is at a free address
  have hcreate : ∀ {a : ℕ} (when_ : Timestamp) (interval : ℤ) (repeats : Bool), q.heap a = none →
      ∀ a' ∈ heldBy (some b), (q.create a when_ interval repeats).heap a' = q.heap a' := by
    intro a when_ interval repeats hfree a' ha'
    obtain ⟨⟨t, ht⟩, -⟩ := h.held hb ha'
    refine heap_of_ne q ?_ _
    rintro rfl
    rw [hfree] at ht
    cases ht
  refine step_cases (motive := fun act q' => GoesOn q act b q' ∨ act = .finish ∧ b.rest = [] ∧
    b.inside = false ∧
    q' = { { q with callingExpiredTimers_ := false }.reset b.ran b.now with batch := none })
    q ?idle ?queueAdd ?add ?queueCancel ?cancel ?functor ?handleRead ?dead ?run ?return_ ?finish act
  case idle => exact fun _ => Or.inl (goesOn_of_eq hb fun _ _ => rfl)
  case queueAdd =>
    exact fun _ a when_ interval repeats hfree _ =>
      Or.inl (goesOn_of_eq hb (hcreate when_ interval repeats hfree))
  case add =>
    refine fun _ a when_ interval repeats hfree _ => Or.inl (goesOn_of_eq ?_ fun a' ha' => ?_)
    · exact (batch_of_frame (frame_addTimerInLoop ..)).trans hb
    · rw [heap_addTimerInLoop]
      exact hcreate when_ interval repeats hfree a' ha'
  case queueCancel => exact fun _ _ => Or.inl (goesOn_of_eq hb fun _ _ => rfl)
  case cancel =>
    refine fun _ id =>
      Or.inl (goesOn_of_eq ((batch_of_frame (frame_cancelInLoop q id)).trans hb) ?_)
    exact fun a ha => heap_cancelInLoop h.own id (h.held hb ha).2.1
  case functor => exact fun _ _ hnone _ => absurd hnone hother
  case handleRead => exact fun _ hnone => absurd hnone hother
  case dead =>
    exact fun _ _ _ _ _ _ =>
      Or.inl (goesOn_of_eq ((assert_batch ..).trans hb) fun _ _ => by rw [assert_heap])
  case run =>
    intro now ran e rest t hb' ht
    obtain rfl := Option.some.inj (hb.symm.trans hb')
    have hfires : q.fires .run = some ⟨now, t⟩ := by simp [fires, hb, ht]
    exact Or.inl ⟨⟨_, rfl, rfl, Or.inr ⟨e, t, ht, hfires, rfl, rfl⟩⟩, fun _ _ => rfl⟩
  case return_ =>
    intro b' hb'
    obtain rfl := Option.some.inj (hb.symm.trans hb')
    exact Or.inl ⟨⟨_, rfl, rfl, Or.inl ⟨rfl, rfl⟩⟩, fun _ _ => rfl⟩
  case finish =>
    intro now ran hb'
    obtain rfl := Option.some.inj (hb.symm.trans hb')
    exact Or.inr ⟨rfl, rfl, rfl, rfl⟩

/-- The timers of the batch had expired when the clock was read, and their entries are in order. -/
structure DueInv (q : TimerQueue) : Prop where
  due : ∀ b, q.batch = some b → ∀ e ∈ b.ran ++ b.rest,
    ∃ t, q.heap e.timer = some t ∧ t.expiration_ = e.time ∧ e.time ≤ b.now
  ordered : ∀ b, q.batch = some b → (b.ran ++ b.rest).Pairwise fun e f => e.time ≤ f.time

/-- A batch begins with the expired entries. -/
theorem batch_of_none (hnone : q.batch = none) {act : Act} {b : Batch}
    (hb : (q.step act).batch = some b) :
    b = ⟨b.now, [], (q.getExpired b.now).2, false⟩ ∧ (q.step act).heap = q.heap := by
  rcases now_step q act hb with ⟨b₀, hb₀, -⟩ | rfl
  · cases hnone.symm.trans hb₀
  · simp only [step, hnone, Option.some.injEq] at hb ⊢
    exact ⟨hb.symm, heap_getExpired q b.now⟩

theorem dueInv_step (h : SoundInv q) (hdue : DueInv q) (act : Act) : DueInv (q.step act) := by
  cases hb : q.batch with
  | none =>
      have hbound : ∀ e ∈ q.timers_, e.timer < uintptrMax := by
        intro e he
        obtain ⟨t, ht, -⟩ := h.own.own.entry e he
        exact h.bound e.timer t ht
      refine ⟨fun b hb' e he => ?_, fun b hb' => ?_⟩
      · obtain ⟨hbatch, hheap⟩ := batch_of_none hb hb'
        rw [hbatch] at he
        obtain ⟨hmem, hle⟩ := (mem_expired hbound b.now e).mp he
        obtain ⟨t, ht, hexp⟩ := h.own.own.entry e hmem
        exact ⟨t, hheap ▸ ht, hexp, hle⟩
      · rw [(batch_of_none hb hb').1]
        exact (pairwise_expired q b.now).imp Entry.time_le_of_lt
  | some b =>
      rcases batch_step h.own hb act with ⟨⟨b', hb', hadv⟩, hheap⟩ | ⟨-, -, -, hend⟩
      · refine ⟨fun b'' hb'' e he => ?_, fun b'' hb'' => ?_⟩
        · obtain rfl := Option.some.inj (hb'.symm.trans hb'')
          rw [hadv.all] at he
          rw [hheap e.timer (List.mem_map_of_mem he), hadv.now]
          exact hdue.due b hb e he
        · obtain rfl := Option.some.inj (hb'.symm.trans hb'')
          rw [hadv.all]
          exact hdue.ordered b hb
      · rw [hend]
        exact ⟨fun _ hb' => (nomatch hb'), fun _ hb' => (nomatch hb')⟩

theorem dueInv_exec (run : List Act) : SoundInv (exec step new run) ∧ DueInv (exec step new run) :=
  exec_invariant (fun q => SoundInv q ∧ DueInv q)
    (fun _ act h => ⟨soundInv_step h.1 act, dueInv_step h.1 h.2 act⟩) run
    ⟨soundInv_exec [], ⟨fun _ hb => (nomatch hb), fun _ hb => (nomatch hb)⟩⟩

/-- **No callback starts before its timer is due.** -/
theorem firing_due (hdue : DueInv q) {act : Act} {f : Firing} (hf : q.fires act = some f) :
    f.timer.expiration_ ≤ f.now := by
  obtain ⟨-, ran, e, rest, hb, ht⟩ := fires_eq_some hf
  obtain ⟨t, ht', hexp, hle⟩ := hdue.due _ hb e (List.mem_append_right _ List.mem_cons_self)
  obtain rfl : f.timer = t := Option.some.inj (ht.symm.trans ht')
  exact hexp.trans_le hle

/-- The batch after a callback has been started. -/
theorem batch_of_fires {act : Act} {f : Firing} (hf : q.fires act = some f) :
    ∃ ran e rest, q.batch = some ⟨f.now, ran, e :: rest, false⟩ ∧ q.heap e.timer = some f.timer ∧
      (q.step act).batch = some ⟨f.now, ran ++ [e], rest, true⟩ := by
  obtain ⟨rfl, ran, e, rest, hb, ht⟩ := fires_eq_some hf
  exact ⟨ran, e, rest, hb, ht, by simp [step, hb, ht]⟩

/-- **Inside a batch the callbacks are started in the order of the entries.** -/
theorem firings_inBatch (h : SoundInv q) (hdue : DueInv q) {b : Batch} (hb : q.batch = some b)
    {during : List Act} (hin : Along step (fun q _ => q.batch.isSome) q during) :
    (firings q during).map (fun f => f.timer.expiration_) <+: b.rest.map Entry.time := by
  induction during generalizing q b with
  | nil => exact List.nil_prefix
  | cons act during ih =>
      show ((q.fires act).toList ++ firings (q.step act) during).map _ <+: _
      rcases batch_step h.own hb act with ⟨⟨b', hb', hadv⟩, -⟩ | ⟨rfl, -, -, hend⟩
      · have hlater := ih (soundInv_step h act) (dueInv_step h hdue act) hb' hin.2
        cases hf : q.fires act with
        | none =>
            have hquiet := hadv.turn.resolve_right fun ⟨_, _, _, hfires, _⟩ =>
              nomatch hf.symm.trans hfires
            rw [← hquiet.2]
            exact hlater
        | some f =>
            obtain ⟨ran, e, rest, hbatch, ht, hnext⟩ := batch_of_fires hf
            obtain rfl := Option.some.inj (hb.symm.trans hbatch)
            obtain rfl := Option.some.inj (hb'.symm.trans hnext)
            obtain ⟨t, ht', hexp, -⟩ := hdue.due _ hb e (List.mem_append_right _ List.mem_cons_self)
            obtain rfl : f.timer = t := Option.some.inj (ht.symm.trans ht')
            rw [List.map_cons, ← hexp]
            exact (List.prefix_cons_inj _).mpr hlater
      · -- the batch has ended, so the segment ends here
        cases during with
        | nil => exact List.nil_prefix
        | cons act' _ =>
            have hsome := hin.2.1
            rw [hend] at hsome
            cases hsome

/-! ### Timers that do not repeat -/

theorem numCreated_addTimerInLoop (q : TimerQueue) (a : ℕ) :
    (q.addTimerInLoop a).numCreated = q.numCreated := by
  unfold addTimerInLoop
  split
  · exact assert_numCreated ..
  · dsimp only
    split <;> simp [insert, resetTimerfd]

theorem numCreated_cancelInLoop (q : TimerQueue) (id : TimerId) :
    (q.cancelInLoop id).numCreated = q.numCreated := by
  unfold cancelInLoop
  dsimp only
  rw [assert_numCreated]
  split
  · split
    · simp
    · simp [delete]
  · split <;> simp

theorem numCreated_rearm (q : TimerQueue) (now : Timestamp) (e : Entry) :
    (q.rearm now e).numCreated = q.numCreated := by
  unfold rearm
  split
  · exact assert_numCreated ..
  · split
    · simp [insert]
    · rfl

theorem numCreated_reset (q : TimerQueue) (es : List Entry) (now : Timestamp) :
    (q.reset es now).numCreated = q.numCreated :=
  reset_keeps numCreated numCreated_rearm (fun _ _ _ => rfl) q es now

theorem numCreated_le_step (q : TimerQueue) (act : Act) :
    q.numCreated ≤ (q.step act).numCreated := by
  refine step_cases (motive := fun _ q' => q.numCreated ≤ q'.numCreated) q ?idle ?queueAdd ?add
    ?queueCancel ?cancel ?functor ?handleRead ?dead ?run ?return_ ?finish act
  case idle => exact fun _ => le_rfl
  case queueAdd => exact fun _ _ _ _ _ _ _ => Nat.le_succ _
  case add =>
    intro _ _ _ _ _ _ _
    rw [numCreated_addTimerInLoop]
    exact Nat.le_succ _
  case queueCancel => exact fun _ _ => le_rfl
  case cancel => exact fun _ id => (numCreated_cancelInLoop q id).ge
  case functor =>
    intro f rest _ _
    cases f with
    | addTimerInLoop a => exact (numCreated_addTimerInLoop { q with functors := rest } a).ge
    | cancelInLoop id => exact (numCreated_cancelInLoop { q with functors := rest } id).ge
  case handleRead =>
    intro now _
    obtain ⟨act, fs, heq⟩ := getExpired_eq q now
    rw [heq]
  case dead => exact fun _ _ _ _ _ _ => (assert_numCreated ..).ge
  case run => exact fun _ _ _ _ _ _ _ => le_rfl
  case return_ => exact fun _ _ => le_rfl
  case finish => exact fun now ran _ =>
    (numCreated_reset { q with callingExpiredTimers_ := false } ran now).ge

/-- The timer with sequence number `s` does not repeat: it has not been started, or it has been
started once and is dead or has its turn in the batch behind it. -/
structure Once (q : TimerQueue) (s : ℕ) : Prop where
  created : s ≤ q.numCreated
  count : q.started.count s ≤ 1
  live : ∀ a t, q.heap a = some t → t.sequence_ = s →
    t.repeat_ = false ∧ (s ∈ q.started → a ∈ (ranOf q.batch).map Entry.timer)

/-- A timer whose turn it is has not been started. -/
theorem Once.notMem_started (h : OwnInv q) {s : ℕ} (honce : Once q s) {act : Act} {f : Firing}
    (hf : q.fires act = some f) (hs : f.timer.sequence_ = s) : s ∉ q.started := by
  intro hstarted
  obtain ⟨-, ran, e, rest, hb, ht⟩ := fires_eq_some hf
  have hran := (honce.live e.timer f.timer ht hs).2 hstarted
  rw [hb] at hran
  exact h.turn_notMem_ran hb hran

theorem started_count_step (q : TimerQueue) (act : Act) (s : ℕ) :
    (q.step act).started.count s = q.started.count s ∧ (s ∈ (q.step act).started → s ∈ q.started) ∨
      ∃ f, q.fires act = some f ∧ f.timer.sequence_ = s ∧
      (q.step act).started = q.started ++ [s] := by
  rw [started_step]
  cases hf : q.fires act with
  | none => simp
  | some f =>
      by_cases hs : f.timer.sequence_ = s
      · exact Or.inr ⟨f, rfl, hs, by simp [hs]⟩
      · left
        simp [hs, Ne.symm hs]

/-- A timer that does not repeat and has its turn behind it stays there until it is deleted. -/
theorem behind_step (h : OwnInv q) {a : ℕ} {u t : Timer}
    (hran : a ∈ (ranOf q.batch).map Entry.timer)
    (hu : q.heap a = some u) (hone : u.repeat_ = false) {act : Act}
    (ht : (q.step act).heap a = some t) :
    a ∈ (ranOf (q.step act).batch).map Entry.timer := by
  cases hb : q.batch with
  | none =>
      rw [hb] at hran
      exact absurd hran List.not_mem_nil
  | some b =>
      rw [hb] at hran
      rcases batch_step h hb act with ⟨⟨b', hb', hadv⟩, -⟩ | ⟨-, -, -, hend⟩
      · rw [hb']
        exact List.map_subset _ hadv.ran hran
      · have hdead :
            ({ q with callingExpiredTimers_ := false }.reset b.ran b.now).heap a = none := by
          refine dead_reset hran fun v hv => ?_
          obtain rfl : u = v := Option.some.inj (hu.symm.trans hv)
          exact hone
        rw [hend] at ht
        cases hdead.symm.trans ht

/-- **A move keeps a timer that does not repeat from being started twice.** -/
theorem once_step (h : OwnInv q) {s : ℕ} (honce : Once q s) (act : Act) : Once (q.step act) s where
  created := honce.created.trans (numCreated_le_step q act)
  count := by
    rcases started_count_step q act s with ⟨hcount, -⟩ | ⟨f, hf, hs, hstarted⟩
    · rw [hcount]
      exact honce.count
    · have hnot := honce.notMem_started h hf hs
      rw [hstarted, List.count_append, List.count_eq_zero_of_not_mem hnot,
        List.count_singleton_self]
  live a t ht hs := by
    rcases live_step q act ht with ⟨u, hu, hconst⟩ | ⟨-, _, _, _, _, -, rfl⟩
    · simp only [Timer.constants, Prod.mk.injEq] at hconst
      obtain ⟨-, hrep, hseq⟩ := hconst
      obtain ⟨hone, hbehind⟩ := honce.live a u hu (hseq.trans hs)
      refine ⟨hrep ▸ hone, fun hstarted => ?_⟩
      rcases started_count_step q act s with ⟨-, hsame⟩ | ⟨f, hf, hfs, -⟩
      · exact behind_step h (hbehind (hsame hstarted)) hu hone ht
      · -- it has been started by this very move
        obtain ⟨ran, e, rest, -, he, hnext⟩ := batch_of_fires hf
        obtain rfl : e.timer = a := h.own.unique _ _ _ _ he hu (hfs.trans (hseq.trans hs).symm)
        rw [hnext]
        exact List.mem_map_of_mem (List.mem_append_right _ List.mem_cons_self)
    · exact absurd honce.created (by rw [← hs]; exact Nat.not_succ_le_self _)

/-- Every live timer that does not repeat has been started at most once. -/
structure OneShots (q : TimerQueue) : Prop where
  started : ∀ s ∈ q.started, s ≤ q.numCreated
  once : ∀ a t, q.heap a = some t → t.repeat_ = false → Once q t.sequence_

theorem oneShots_step (h : OwnInv q) (hones : OneShots q) (act : Act) : OneShots (q.step act) where
  started s hs := by
    refine le_trans ?_ (numCreated_le_step q act)
    rcases started_count_step q act s with ⟨-, hsame⟩ | ⟨f, hf, rfl, -⟩
    · exact hones.started s (hsame hs)
    · obtain ⟨-, _, e, _, -, ht⟩ := fires_eq_some hf
      exact h.own.fresh _ _ ht
  once a t ht hone := by
    have h' := (ownInv_step h act).own
    rcases live_step q act ht with ⟨u, hu, hconst⟩ | ⟨-, _, _, _, _, hact, hnew⟩
    · simp only [Timer.constants, Prod.mk.injEq] at hconst
      obtain ⟨-, hrep, hseq⟩ := hconst
      rw [← hseq]
      exact once_step h (hones.once a u hu (hrep.trans hone)) act
    · -- a new timer has a new number, and nothing has been started with it
      have hnot : t.sequence_ ∉ (q.step act).started := by
        rw [started_of_ne_run (by rw [hact]; exact nofun), hnew]
        exact fun hs => Nat.not_succ_le_self _ (hones.started _ hs)
      refine ⟨h'.fresh a t ht, by simp [List.count_eq_zero_of_not_mem hnot], ?_⟩
      intro b u hu hs
      obtain rfl := h'.unique _ _ _ _ hu ht hs
      obtain rfl : u = t := Option.some.inj (hu.symm.trans ht)
      exact ⟨hone, fun hs' => absurd hs' hnot⟩

theorem oneShots_exec (run : List Act) :
    OwnInv (exec step new run) ∧ OneShots (exec step new run) :=
  exec_invariant (fun q => OwnInv q ∧ OneShots q)
    (fun _ act h => ⟨ownInv_step h.1 act, oneShots_step h.1 h.2 act⟩) run
    ⟨ownInv_new, ⟨fun _ hs => absurd hs List.not_mem_nil, fun _ _ ht => nomatch ht⟩⟩

theorem once_exec {s : ℕ} (h : OwnInv q) (honce : Once q s) (after : List Act) :
    (exec step q after).started.count s ≤ 1 :=
  (exec_invariant (fun q => OwnInv q ∧ Once q s)
    (fun _ act h => ⟨ownInv_step h.1 act, once_step h.1 h.2 act⟩) after ⟨h, honce⟩).2.count

/-! ### Timers that repeat -/

/-- While a batch runs, only the execution of a cancellation cancels. -/
theorem canceling_step {b : Batch} (hb : q.batch = some b) {act : Act} {x : ActiveTimer}
    (hx : x ∈ (q.step act).cancelingTimers_) : x ∈ q.cancelingTimers_ ∨
      ∃ id, q.executesCancel act = some id ∧ x = toLex (id.timer_, id.sequence_) := by
  cases act with
  | addTimer inLoopThread a when_ interval repeats =>
      left
      simp only [step] at hx
      split_ifs at hx
      · exact hx
      · rwa [canceling_addTimerInLoop] at hx
      · exact hx
      · exact hx
  | cancel inLoopThread id =>
      simp only [step] at hx
      split_ifs at hx with hother huser
      · exact Or.inl hx
      · rcases canceling_cancelInLoop q id hx with hx | hx
        · exact Or.inl hx
        · refine Or.inr ⟨id, ?_, hx⟩
          obtain rfl : inLoopThread = true := by simpa using hother
          simp [executesCancel, huser]
      · exact Or.inl hx
  | functor =>
      simp only [step, hb] at hx
      exact Or.inl hx
  | handleRead now =>
      simp only [step, hb] at hx
      exact Or.inl hx
  | run =>
      left
      simp only [step] at hx
      split at hx
      · split at hx
        · rwa [assert_cancelingTimers_] at hx
        · exact hx
      · exact hx
  | return_ =>
      simp only [step, hb] at hx
      exact Or.inl hx
  | finish =>
      left
      simp only [step] at hx
      split at hx
      · rename_i now ran _
        rwa [canceling_reset { q with callingExpiredTimers_ := false } ran now] at hx
      · exact hx

/-- The timer `t` at address `a` is in both sets again, to expire one interval after `now`. -/
def Rearmed (q : TimerQueue) (now : Timestamp) (a : ℕ) (t : Timer) : Prop :=
  q.heap a = some { t with expiration_ := now + t.interval_ } ∧
    toLex (now + t.interval_, a) ∈ q.timers_ ∧ toLex (a, t.sequence_) ∈ q.activeTimers_

/-- **The end of a batch puts its repeating timers back**, unless they have been cancelled. -/
theorem rearmed_finish (h : OwnInv q) {now : Timestamp} {ran : List Entry}
    (hb : q.batch = some ⟨now, ran, [], false⟩) {e : Entry} (he : e ∈ ran) {t : Timer}
    (ht : q.heap e.timer = some t) (hrepeat : t.repeat_ = true)
    (hc : toLex (e.timer, t.sequence_) ∉ q.cancelingTimers_) :
    Rearmed (q.step .finish) now e.timer t := by
  have hin : e.timer ∈ ran.map Entry.timer := List.mem_map_of_mem he
  have hstep : q.step .finish =
      { { q with callingExpiredTimers_ := false }.reset ran now with batch := none } := by
    simp [step, hb]
  have hheap : (q.step .finish).heap e.timer = some (t.restart now) := by
    rw [hstep]
    refine (heap_reset ..).trans ((if_pos hin).trans ?_)
    exact rearmed_eq_some.mpr ⟨t, ht, hrepeat, hc, rfl⟩
  have hrestart : t.restart now = { t with expiration_ := now + t.interval_ } := by
    simp [Timer.restart, hrepeat]
  have h' := ownInv_step h .finish
  -- it is neither queued nor in a batch, so it is in the sets
  have hactive : toLex (e.timer, t.sequence_) ∈ (q.step .finish).activeTimers_ := by
    have hbatch : (q.step .finish).batch = none := by rw [hstep]
    have hfunctors : (q.step .finish).functors = q.functors := by
      rw [hstep]
      exact (functors_of_frame (frame_reset ..)).trans rfl
    have hheld : e.timer ∈ heldBy (some ⟨now, ran, [], false⟩) := by simpa [heldBy] using hin
    rcases h'.place hheap with hqueued | hact | hran | hrest
    · rw [hfunctors] at hqueued
      exact absurd hqueued (h.held hb hheld).2.2
    · exact hact
    · rw [hbatch] at hran
      exact absurd hran List.not_mem_nil
    · rw [hbatch] at hrest
      exact absurd hrest List.not_mem_nil
  obtain ⟨u, hu, -, hmem⟩ := (h'.own.active _ _).mp hactive
  obtain rfl : t.restart now = u := Option.some.inj (hheap.symm.trans hu)
  rw [hrestart] at hheap hmem
  exact ⟨hheap, hmem, hactive⟩

/-- The timer `t` of the entry `e` is in the batch of `now` if that runs, and it
is not cancelled. -/
structure InBatch (q : TimerQueue) (now : Timestamp) (e : Entry) (t : Timer) : Prop where
  own : OwnInv q
  entry : ∀ b, q.batch = some b → b.now = now ∧ e ∈ b.ran ++ b.rest ∧ q.heap e.timer = some t
  uncancelled : toLex (e.timer, t.sequence_) ∉ q.cancelingTimers_

theorem inBatch_step {now : Timestamp} {e : Entry} {t : Timer} (h : InBatch q now e t) (act : Act)
    (hrun : q.batch.isSome ∧ q.executesCancel act ≠ some ⟨e.timer, t.sequence_⟩) :
    InBatch (q.step act) now e t := by
  obtain ⟨b, hb⟩ := Option.isSome_iff_exists.mp hrun.1
  obtain ⟨hnow, hin, ht⟩ := h.entry b hb
  refine ⟨ownInv_step h.own act, fun b'' hb'' => ?_, fun hx => ?_⟩
  · rcases batch_step h.own hb act with ⟨⟨b', hb', hadv⟩, hheap⟩ | ⟨-, -, -, hend⟩
    · obtain rfl := Option.some.inj (hb'.symm.trans hb'')
      rw [hadv.all, hheap e.timer (List.mem_map_of_mem hin)]
      exact ⟨hadv.now.trans hnow, hin, ht⟩
    · rw [hend] at hb''
      cases hb''
  · rcases canceling_step hb hx with hx | ⟨id, hexec, hid⟩
    · exact h.uncancelled hx
    · obtain ⟨hid₁, hid₂⟩ := Prod.mk.inj (toLex.injective hid)
      exact hrun.2 (by rw [hexec, hid₁, hid₂])

theorem inBatch_handleRead (h : OwnInv q) (hnone : q.batch = none) {now : Timestamp}
    {e : Entry} {t : Timer} (he : e ∈ (q.getExpired now).2) (ht : q.heap e.timer = some t) :
    InBatch (q.step (.handleRead now)) now e t := by
  refine ⟨ownInv_step h _, fun b hb => ?_, ?_⟩
  · obtain ⟨-, hheap⟩ := batch_of_none hnone hb
    simp only [step, hnone, Option.some.injEq] at hb
    rw [hheap, ← hb]
    exact ⟨rfl, he, ht⟩
  · simp [step, hnone]

/-! ### Whole runs -/

/-- **Timers fire exactly when they are due.**  Where the two sets hold the same timers,
`getExpired(now)` takes exactly the entries up to `now`, in order, out of both.  In every run: a
callback is started only when the clock reading of its batch has reached the expiration that its
timer has then; the callbacks of a batch are started in the order of the expirations; the callback
of a timer that does not repeat is started at most once; and when a batch has run its callbacks, its
end puts every repeating timer whose cancellation has not been executed meanwhile back into both
sets, one interval after the clock reading. -/
theorem timers_fire_when_due :
    (∀ q now, SetInv q → (∀ e ∈ q.timers_, e.timer < uintptrMax) → TakesDue q now) ∧
    (∀ run, ∀ f ∈ firings new run, f.timer.expiration_ ≤ f.now) ∧
    (∀ before during, Along step (fun q _ => q.batch.isSome) (exec step new before) during →
      ((firings (exec step new before) during).map fun f => f.timer.expiration_).Pairwise (· ≤ ·)) ∧
    (∀ before after a t, (exec step new before).heap a = some t → t.repeat_ = false →
      ((firings new (before ++ after)).map fun f => f.timer.sequence_).count t.sequence_ ≤ 1) ∧
    (∀ before now during e t ran, (exec step new before).batch = none →
      e ∈ ((exec step new before).getExpired now).2 → (exec step new before).heap e.timer = some t →
      t.repeat_ = true →
      Along step (fun q act => q.batch.isSome ∧ q.executesCancel act ≠ some ⟨e.timer, t.sequence_⟩)
        (exec step new (before ++ [.handleRead now])) during →
      (exec step new (before ++ .handleRead now :: during)).batch = some ⟨now, ran, [], false⟩ →
      Rearmed (exec step new (before ++ .handleRead now :: during ++ [.finish])) now
        e.timer t) := by
  refine ⟨fun q now h hbound => takesDue h hbound now, fun run => ?_, fun before during hin => ?_,
    fun before after a t ht hone => ?_, fun before now during e t ran hnone he ht hrepeat hin hb =>
    ?_⟩
  · exact forall_mem_outputs (fun q => SoundInv q ∧ DueInv q)
      (fun _ act h => ⟨soundInv_step h.1 act, dueInv_step h.1 h.2 act⟩)
      (fun _ _ _ h hf => firing_due h.2 hf) (dueInv_exec []) run
  · obtain ⟨hsound, hdue⟩ := dueInv_exec before
    cases hb : (exec step new before).batch with
    | none =>
        cases during with
        | nil => exact List.Pairwise.nil
        | cons act during =>
            rw [along_cons, hb] at hin
            cases hin.1
    | some b =>
        have horder := hdue.ordered b hb
        have hrest : (b.rest.map Entry.time).Pairwise (· ≤ ·) :=
          List.pairwise_map.mpr (List.pairwise_append.mp horder).2.1
        exact hrest.sublist (firings_inBatch hsound hdue hb hin).sublist
  · obtain ⟨hown, hones⟩ := oneShots_exec before
    have hcount := once_exec hown (hones.once a t ht hone) after
    rw [← exec_append, started_exec] at hcount
    exact hcount
  · rw [exec_concat]
    rw [exec_append, exec_cons] at hb ⊢
    rw [exec_concat] at hin
    have hbatch : InBatch _ now e t := along_invariant (fun q => InBatch q now e t)
      (fun _ act h hrun => inBatch_step h act hrun)
      (inBatch_handleRead (ownInv_exec before) hnone he ht) hin
    obtain ⟨-, hran, ht'⟩ := hbatch.entry _ hb
    rw [List.append_nil] at hran
    exact rearmed_finish hbatch.own hb hran ht' hrepeat hbatch.uncancelled

deriving instance DecidableEq for Batch

/-- A timer that expires once and one that repeats every five microseconds, due at the same time. -/
def twoTimers : List Act := [.addTimer true 1 10 0 false, .addTimer true 2 10 5 true]

/-- Two callbacks. -/
def twoCallbacks : List Act := [.run, .return_, .run, .return_]

theorem timers_fire_when_due_together :
    ((firings new (twoTimers ++ .handleRead 11 :: twoCallbacks)).map fun f => f.timer.sequence_) =
    [1, 2] ∧
    Rearmed (exec step new (twoTimers ++ .handleRead 11 :: twoCallbacks ++ [.finish])) 11 2
      ⟨10, 5, true, 2⟩ :=
  ⟨by decide +kernel, timers_fire_when_due.2.2.2.2 twoTimers 11 twoCallbacks (toLex (10, 2))
    ⟨10, 5, true, 2⟩
    [toLex (10, 1), toLex (10, 2)] (by decide +kernel) (by decide +kernel) (by decide +kernel) rfl
    (by decide +kernel) (by decide +kernel)⟩

end TimerQueue

end Muduo.Net
