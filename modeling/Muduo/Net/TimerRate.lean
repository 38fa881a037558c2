import Muduo.Net.TimerDue

/-!
# The rate of a repeating timer

A repeating timer is set up again by the batch in which it has fired, for one interval after the
clock reading of that batch.  So a late batch delays all later callbacks and never makes up for lost
ones: between two callbacks of one timer lies at least its interval, whatever the other timers, the
callbacks and the other threads do.

* `Spaced` — a list of times that are at least a distance apart, counted from an earliest one;
* `heap_step` — what a move can do to a timer: its expiration changes at the end of a batch only;
* `NotBefore`, `notBefore_step`, `notBefore_fires` — the earliest time of the next callback;
* `callbacks_spaced` — all runs.
-/

namespace Muduo.Net

/-- The first time is `d` or later, and every other one at least `gap` after the one before it. -/
def Spaced (gap : ℤ) : ℤ → List ℤ → Prop
  | _, [] => True
  | d, x :: xs => d ≤ x ∧ Spaced gap (x + gap) xs

namespace Spaced

variable {gap d x : ℤ} {xs : List ℤ}

theorem getElem (h : Spaced gap d xs) {k : ℕ} (hk : xs[k]? = some x) : d + k * gap ≤ x := by
  induction k generalizing d xs with
  | zero =>
      cases xs with
      | nil => cases hk
      | cons y ys =>
          obtain rfl : y = x := Option.some.inj hk
          simpa using h.1
  | succ k ih =>
      cases xs with
      | nil => cases hk
      | cons y ys =>
          have hlater := ih h.2 hk
          have hfirst := h.1
          push_cast
          linarith

/-- From any of the times on. -/
theorem drop (h : Spaced gap d xs) {i : ℕ} (hi : xs[i]? = some x) : Spaced gap x (xs.drop i) := by
  induction i generalizing d xs with
  | zero =>
      cases xs with
      | nil => cases hi
      | cons y ys =>
          obtain rfl : y = x := Option.some.inj hi
          exact ⟨le_rfl, h.2⟩
  | succ i ih =>
      cases xs with
      | nil => cases hi
      | cons y ys => exact ih h.2 hi

end Spaced

open Muduo.Lib

namespace TimerQueue

variable {q : TimerQueue}

/-- **What a move can do to a timer** that stays alive, except for the end of its batch: create
it, or leave it alone. -/
theorem heap_step (q : TimerQueue) (act : Act) {a : ℕ} {t : Timer} : act ≠ .finish →
    (q.step act).heap a = some t → q.heap a = some t ∨ q.CreatedBy act a t := by
  have hcreate :
      ∀ {address : ℕ} {when_ : Timestamp} {interval : ℤ} {repeats : Bool} (inLoopThread : Bool),
        address < uintptrMax → (q.create address when_ interval repeats).heap a = some t →
        q.heap a = some t ∨
          q.CreatedBy (.addTimer inLoopThread address when_ interval repeats) a t := by
    intro address when_ interval repeats inLoopThread haddress ht
    by_cases ha : a = address
    · subst ha
      rw [show (q.create a when_ interval repeats).heap a = _ from Function.update_self ..] at ht
      exact Or.inr ⟨haddress, _, _, _, _, rfl, (Option.some.inj ht).symm⟩
    · exact Or.inl ((heap_of_ne q ha _).symm.trans ht)
  refine step_cases (motive := fun act q' => act ≠ .finish → q'.heap a = some t →
    q.heap a = some t ∨ q.CreatedBy act a t) q ?idle ?queueAdd ?add ?queueCancel ?cancel
    ?functor ?handleRead ?dead ?run ?return_ ?finish act
  case idle => exact fun _ _ ht => Or.inl ht
  case queueAdd =>
    exact fun inLoopThread _ _ _ _ _ haddress _ ht => hcreate inLoopThread haddress ht
  case add =>
    intro inLoopThread address when_ interval repeats _ haddress _ ht
    rw [heap_addTimerInLoop] at ht
    exact hcreate inLoopThread haddress ht
  case queueCancel => exact fun _ _ _ ht => Or.inl ht
  case cancel => exact fun _ id _ ht => Or.inl ((cancelInLoop_mono q id).1 a t ht)
  case functor =>
    intro f rest _ _ _ ht
    cases f with
    | addTimerInLoop b =>
        rw [runFunctor, heap_addTimerInLoop] at ht
        exact Or.inl ht
    | cancelInLoop id => exact Or.inl ((cancelInLoop_mono { q with functors := rest } id).1 a t ht)
  case handleRead =>
    intro now _ _ ht
    replace ht : (q.getExpired now).1.heap a = some t := ht
    rw [heap_getExpired] at ht
    exact Or.inl ht
  case dead =>
    intro _ _ _ _ _ _ _ ht
    rw [assert_heap] at ht
    exact Or.inl ht
  case run => exact fun _ _ _ _ _ _ _ _ ht => Or.inl ht
  case return_ => exact fun _ _ _ ht => Or.inl ht
  case finish => exact fun _ _ _ hne => absurd rfl hne

/-- The timer with sequence number `s` has the interval `gap`, and its next callback is
not started before `d`: its expiration is not earlier, or it has had its turn in the batch
that is to restart it. -/
structure NotBefore (q : TimerQueue) (s : ℕ) (gap d : ℤ) : Prop where
  created : s ≤ q.numCreated
  live : ∀ a t, q.heap a = some t → t.sequence_ = s → t.interval_ = gap ∧
    (a ∉ (ranOf q.batch).map Entry.timer ∧ d ≤ t.expiration_ ∨
      ∃ b, q.batch = some b ∧ a ∈ b.ran.map Entry.timer ∧ d ≤ b.now + gap)

/-- A callback sets the earliest time of the next one. -/
theorem notBefore_fires (h : OwnInv q) {act : Act} {f : Firing} (hf : q.fires act = some f) :
    NotBefore (q.step act) f.timer.sequence_ f.timer.interval_ (f.now + f.timer.interval_) := by
  obtain ⟨ran, e, rest, hb, he, hnext⟩ := batch_of_fires hf
  obtain ⟨rfl, -⟩ := fires_eq_some hf
  have hheap : (q.step .run).heap = q.heap := by simp [step, hb, he]
  refine ⟨(h.own.fresh _ _ he).trans (numCreated_le_step q .run), fun a t ht hs => ?_⟩
  rw [hheap] at ht
  obtain rfl : a = e.timer := h.own.unique _ _ _ _ ht he hs
  obtain rfl : t = f.timer := Option.some.inj (ht.symm.trans he)
  refine ⟨rfl, Or.inr ⟨_, hnext, ?_, le_rfl⟩⟩
  exact List.mem_map_of_mem (List.mem_append_right _ List.mem_cons_self)

/-- A callback is not started before that time. -/
theorem NotBefore.le_now (h : OwnInv q) (hdue : DueInv q) {s : ℕ} {gap d : ℤ}
    (hnb : NotBefore q s gap d)
    {act : Act} {f : Firing} (hf : q.fires act = some f) (hs : f.timer.sequence_ = s) :
    d ≤ f.now ∧ f.timer.interval_ = gap := by
  obtain ⟨-, ran, e, rest, hb, he⟩ := fires_eq_some hf
  obtain ⟨hgap, ⟨-, hd⟩ | ⟨b, hb', hran, -⟩⟩ := hnb.live _ _ he hs
  · exact ⟨hd.trans (firing_due hdue hf), hgap⟩
  · -- its turn is not behind it
    obtain rfl := Option.some.inj (hb.symm.trans hb')
    exact absurd hran (h.turn_notMem_ran hb)

/-- Where a timer is in the batch, when the batch goes on and its callback is not
the one started. -/
theorem NotBefore.place (h : OwnInv q) {s : ℕ} {gap d : ℤ} (hnb : NotBefore q s gap d) {act : Act}
    (hfinish : act ≠ .finish) (hquiet : ∀ f, q.fires act = some f → f.timer.sequence_ ≠ s)
    {a : ℕ} {t : Timer} (ht : q.heap a = some t) (hs : t.sequence_ = s) :
    a ∉ (ranOf (q.step act).batch).map Entry.timer ∧ d ≤ t.expiration_ ∨
      ∃ b, (q.step act).batch = some b ∧ a ∈ b.ran.map Entry.timer ∧ d ≤ b.now + gap := by
  obtain ⟨-, hplace⟩ := hnb.live a t ht hs
  cases hb : q.batch with
  | none =>
      rw [hb] at hplace
      obtain ⟨-, hd⟩ := hplace.resolve_right fun ⟨_, hnone, _⟩ => nomatch hnone
      refine Or.inl ⟨?_, hd⟩
      cases hb' : (q.step act).batch with
      | none => exact List.not_mem_nil
      | some b' =>
          rw [(batch_of_none hb hb').1]
          exact List.not_mem_nil
  | some b =>
      rw [hb] at hplace
      rcases batch_step h hb act with ⟨⟨b', hb', hadv⟩, -⟩ | ⟨hact, -⟩
      · rw [hb']
        rcases hplace with ⟨hout, hd⟩ | ⟨_, hsome, hran, hd⟩
        · refine Or.inl ⟨fun hin => ?_, hd⟩
          rcases hadv.turn with ⟨hsame, -⟩ | ⟨e, u, hu, hfires, hnext, -⟩
          · rw [ranOf, hsame] at hin
            exact hout hin
          · rw [ranOf, hnext, List.map_append, List.mem_append] at hin
            rcases hin with hin | hin
            · exact hout hin
            · obtain rfl : a = e.timer := by simpa using hin
              obtain rfl : t = u := Option.some.inj (ht.symm.trans hu)
              exact hquiet _ hfires hs
        · obtain rfl := Option.some.inj hsome
          exact Or.inr ⟨b', rfl, List.map_subset _ hadv.ran hran, hadv.now ▸ hd⟩
      · exact absurd hact hfinish

/-- The end of a batch restarts its timers. -/
theorem notBefore_finish {s : ℕ} {gap d : ℤ} (hnb : NotBefore q s gap d) :
    NotBefore (q.step .finish) s gap d := by
  refine ⟨hnb.created.trans (numCreated_le_step q .finish), fun a t ht hs => ?_⟩
  simp only [step] at ht ⊢
  split at ht
  · rename_i now ran hb
    replace ht := (heap_reset { q with callingExpiredTimers_ := false } ran now a).symm.trans ht
    split at ht
    · rename_i hran
      obtain ⟨u, hu, hrep, -, rfl⟩ := rearmed_eq_some.mp ht
      obtain ⟨hgap, ⟨hout, -⟩ | ⟨b, hb', -, hd⟩⟩ := hnb.live a u hu hs
      · rw [hb] at hout
        exact absurd hran hout
      · obtain rfl := Option.some.inj (hb.symm.trans hb')
        refine ⟨hgap, Or.inl ⟨List.not_mem_nil, ?_⟩⟩
        simpa [Timer.restart, hrep, hgap] using hd
    · rename_i hout
      obtain ⟨hgap, ⟨-, hd⟩ | ⟨b, hb', hran, -⟩⟩ := hnb.live a t ht hs
      · exact ⟨hgap, Or.inl ⟨List.not_mem_nil, hd⟩⟩
      · obtain rfl := Option.some.inj (hb.symm.trans hb')
        exact absurd hran hout
  · exact hnb.live a t ht hs

/-- **A move that starts no callback of the timer** keeps the earliest time of the next one. -/
theorem notBefore_step (h : OwnInv q) {s : ℕ} {gap d : ℤ} (hnb : NotBefore q s gap d) {act : Act}
    (hquiet : ∀ f, q.fires act = some f → f.timer.sequence_ ≠ s) :
    NotBefore (q.step act) s gap d := by
  by_cases hfinish : act = .finish
  · rw [hfinish]
    exact notBefore_finish hnb
  · refine ⟨hnb.created.trans (numCreated_le_step q act), fun a t ht hs => ?_⟩
    rcases heap_step q act hfinish ht with hsame | ⟨-, _, _, _, _, -, rfl⟩
    · exact ⟨(hnb.live a t hsame hs).1, hnb.place h hfinish hquiet hsame hs⟩
    · -- a new timer has a new number
      exact absurd hnb.created (by rw [← hs]; exact Nat.not_succ_le_self _)

/-! ### Whole runs -/

/-- The clock readings at the callbacks of one timer. -/
def readings (q : TimerQueue) (s : ℕ) (run : List Act) : List ℤ :=
  ((firings q run).filter fun f => f.timer.sequence_ = s).map Firing.now

theorem spaced_readings {s : ℕ} {gap : ℤ} (run : List Act) (h : SoundInv q) (hdue : DueInv q)
    {d : ℤ} (hnb : NotBefore q s gap d) : Spaced gap d (readings q s run) := by
  induction run generalizing q d with
  | nil => trivial
  | cons act run ih =>
      have h' := soundInv_step h act
      have hdue' := dueInv_step h hdue act
      show Spaced gap d
        ((((q.fires act).toList ++ firings (q.step act) run).filter _).map Firing.now)
      cases hf : q.fires act with
      | none =>
          have hquiet : ∀ f, q.fires act = some f → f.timer.sequence_ ≠ s := by
            intro f hf'
            cases hf.symm.trans hf'
          exact ih h' hdue' (notBefore_step h.own hnb hquiet)
      | some f =>
          by_cases hs : f.timer.sequence_ = s
          · obtain ⟨hd, hgap⟩ := hnb.le_now h.own hdue hf hs
            have hnext := notBefore_fires h.own hf
            rw [hs, hgap] at hnext
            rw [Option.toList_some, List.singleton_append,
              List.filter_cons_of_pos (by simpa using hs)]
            exact ⟨hd, ih h' hdue' hnext⟩
          · have hquiet : ∀ g, q.fires act = some g → g.timer.sequence_ ≠ s := by
              intro g hg
              obtain rfl := Option.some.inj (hf.symm.trans hg)
              exact hs
            rw [Option.toList_some, List.singleton_append,
              List.filter_cons_of_neg (by simpa using hs)]
            exact ih h' hdue' (notBefore_step h.own hnb hquiet)

/-- **A repeating timer keeps its distance.**  In every run, from any state in which a timer is live
and its turn in a batch is not behind it: its `k`-th callback after that is not started before `k`
intervals after its expiration, and between two of its callbacks lie as many intervals as there are
callbacks from one to the other. -/
theorem callbacks_spaced (before after : List Act) (a : ℕ) (t : Timer)
    (ht : (exec step new before).heap a = some t)
    (hturn : a ∉ (ranOf (exec step new before).batch).map Entry.timer) :
    let times := readings (exec step new before) t.sequence_ after
    (∀ (k : ℕ) now, times[k]? = some now → t.expiration_ + k * t.interval_ ≤ now) ∧
    ∀ (i k : ℕ) now now', times[i]? = some now → times[i + k]? = some now' →
      now + k * t.interval_ ≤ now' := by
  intro times
  obtain ⟨h, hdue⟩ := dueInv_exec before
  have hnb : NotBefore (exec step new before) t.sequence_ t.interval_ t.expiration_ := by
    refine ⟨h.own.own.fresh a t ht, fun b u hu hs => ?_⟩
    obtain rfl : b = a := h.own.own.unique _ _ _ _ hu ht hs
    obtain rfl : u = t := Option.some.inj (hu.symm.trans ht)
    exact ⟨rfl, Or.inl ⟨hturn, le_rfl⟩⟩
  have hspaced : Spaced t.interval_ t.expiration_ times := spaced_readings after h hdue hnb
  refine ⟨fun k now hk => hspaced.getElem hk, fun i k now now' hi hk => ?_⟩
  refine (hspaced.drop hi).getElem ?_
  rw [List.getElem?_drop]
  exact hk

/-- The timer is added for 10, every 5 microseconds; the first batch comes late, at 14. -/
def lateBatch : List Act :=
  [.handleRead 14, .run, .return_, .finish, .handleRead 19, .run, .return_, .finish]

theorem callbacks_spaced_late :
    readings (exec step new [.addTimer true 2 10 5 true]) 1 lateBatch = [14, 19] ∧
    (14 : ℤ) + 1 * 5 ≤ 19 := by
  have htimes : readings (exec step new [.addTimer true 2 10 5 true]) 1 lateBatch = [14, 19] := by
    decide +kernel
  refine ⟨htimes, ?_⟩
  exact (callbacks_spaced [.addTimer true 2 10 5 true] lateBatch 2 ⟨10, 5, true, 1⟩
    (by decide +kernel) (by decide +kernel)).2 0 1 14 19 (by rw [htimes]; rfl) (by rw [htimes]; rfl)

end TimerQueue

end Muduo.Net
