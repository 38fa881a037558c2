import Muduo.Base.ThreadPool

/-!
# `ThreadPool::stop`

`stop` wakes the workers that wait for a task, but not the threads that wait in `run` for a
free place; these depend on a `take` that finds a task, and a worker calls `take` only as
long as `_running` is set.

* `rescuers` — how many notifications of `_not_full` are still certain once `_running` is cleared:
  those about to be made, and one for each worker inside `take`, as long as there are tasks;
* `Rescued` — nobody waits in `run` without a rescuer; kept by every step but two, which clear
  `_running` and begin to wait; `relieved` — the condition for these;
* `Stranded` — the workers are gone and a thread waits in `run`; `stop_strands_nobody` — this is not
  reached in a run of relieved steps; `stop_strands` — a run that reaches it.
-/

namespace Muduo.Base

open Muduo.Lib

namespace PoolPhase

variable {α : Type*}

theorem wakeUp_le (p : PoolPhase α) : p.wakeUp.waitsPlace ≤ p.waitsPlace ∧
    p.notifiesPlace ≤ p.wakeUp.notifiesPlace ∧ p.inTake ≤ p.wakeUp.inTake := by
  unfold wakeUp
  split
  · exact ⟨Bool.false_le _, le_rfl, le_rfl⟩
  · exact ⟨le_rfl, le_rfl, le_rfl⟩
  · exact ⟨le_rfl, le_rfl, le_rfl⟩

theorem locked_le {p p' : PoolPhase α} (h : p.locked = some p') : p'.waitsPlace ≤ p.waitsPlace ∧
    p.notifiesPlace ≤ p'.notifiesPlace ∧ p.inTake ≤ p'.inTake := by
  unfold locked at h
  split at h <;> cases h <;> exact ⟨le_rfl, le_rfl, le_rfl⟩

theorem works_of_inTake {p : PoolPhase α} (h : p.inTake = true) : p.works = true := by
  unfold inTake at h
  split at h
  all_goals first | rfl | cases h

theorem not_inTake_of_gone {p : PoolPhase α} (h : p.gone = true) : ¬ p.inTake = true := by
  unfold gone at h
  split at h
  · exact nofun
  · cases h

theorem waitsPlace_wakeWorker (p : PoolPhase α) : p.wakeWorker.waitsPlace = p.waitsPlace := by
  unfold wakeWorker
  split <;> rfl

theorem notifiesPlace_wakeWorker (p : PoolPhase α) :
    p.wakeWorker.notifiesPlace = p.notifiesPlace := by
  unfold wakeWorker
  split <;> rfl

theorem inTake_wakeWorker (p : PoolPhase α) : p.wakeWorker.inTake = p.inTake := by
  unfold wakeWorker
  split <;> rfl

end PoolPhase

namespace ThreadPool

variable {α ω τ : Type*}

/-! ### Who rescues the threads that wait for a place -/

section Rescue

variable [Fintype ω] [Fintype τ]

/-- How many notifications of `_not_full` are certain to come when `_running` is cleared and there
are `q` tasks in the queue. -/
def rescuers (q : ℕ) (phase : ω ⊕ τ → PoolPhase α) : ℕ :=
  count PoolPhase.notifiesPlace phase + min (count PoolPhase.inTake phase) q

def Rescued (q : ℕ) (phase : ω ⊕ τ → PoolPhase α) : Prop :=
  count PoolPhase.waitsPlace phase ≤ rescuers q phase

/-- There are enough rescuers at the step that clears `_running`, and later at every step at which a
call of `run` finds the queue full and begins to wait. -/
def relieved (s : ThreadPool α ω τ) : PoolLabel α ω τ → Bool
  | .advance t =>
      match s.phase t with
      | .stop .clearing => count PoolPhase.waitsPlace s.phase ≤ rescuers s._queue.length s.phase
      | .run _ .testing =>
          !s.isFull || s._running || count PoolPhase.waitsPlace s.phase <
            rescuers s._queue.length s.phase
      | _ => true
  | _ => true

/-- `stop` has made its notification, every worker has left `runInThread`, and a thread waits in
`run` for a notification that nobody is about to make. -/
def Stranded (s : ThreadPool α ω τ) : Prop :=
  s.stopped = true ∧ (∀ w, (s.phase (.inl w)).gone = true) ∧ (∃ t, (s.phase t).waitsPlace = true) ∧
    ∀ t, (s.phase t).notifiesPlace = false

theorem Rescued.mono {q q' : ℕ} {phase : ω ⊕ τ → PoolPhase α} (h : Rescued q phase) (hq : q ≤ q') :
    Rescued q' phase := by
  unfold Rescued rescuers at *
  omega

/-- When the workers are gone, nobody is left to be counted on. -/
theorem Guarded.rescuers_eq_zero {s : ThreadPool α ω τ} (h : Guarded s)
    (hgone : ∀ w, (s.phase (.inl w)).gone = true) (hquiet : ∀ t, (s.phase t).notifiesPlace = false)
    (q : ℕ) :
    rescuers q s.phase = 0 := by
  have htake : count PoolPhase.inTake s.phase = 0 := by
    refine (count_eq_zero_iff _ _).mpr fun t => Bool.eq_false_of_not_eq_true fun ht => ?_
    have hworker := (h.fits t).worker (PoolPhase.works_of_inTake ht)
    obtain ⟨w, rfl⟩ := Sum.isLeft_iff.mp hworker
    exact PoolPhase.not_inTake_of_gone (hgone w) ht
  rw [rescuers, (count_eq_zero_iff _ _).mpr hquiet, htake, Nat.zero_min]

variable [DecidableEq ω] [DecidableEq τ]

/-- Nobody waits for a place. -/
theorem Rescued.of_none {q : ℕ} {phase : ω ⊕ τ → PoolPhase α} {t : ω ⊕ τ} {p : PoolPhase α}
    (h : ∀ u, (phase u).waitsPlace = false) (hp : p.waitsPlace = false) :
    Rescued q (Function.update phase t p) := by
  have hnone : ∀ u, (Function.update phase t p u).waitsPlace = false :=
    (Function.forall_update_iff phase fun _ x => x.waitsPlace = false).mpr ⟨hp, fun u _ => h u⟩
  unfold Rescued
  rw [(count_eq_zero_iff _ _).mpr hnone]
  exact Nat.zero_le _

/-- One thread moves that does not begin to wait; what it has promised it still promises. -/
theorem Rescued.update {q : ℕ} {phase : ω ⊕ τ → PoolPhase α} (h : Rescued q phase) {t : ω ⊕ τ}
    {p p' : PoolPhase α} (hp : phase t = p) (hwait : p'.waitsPlace ≤ p.waitsPlace)
    (hnotify : p.notifiesPlace ≤ p'.notifiesPlace) (htake : p.inTake ≤ p'.inTake ∨ q = 0) :
    Rescued q (Function.update phase t p') := by
  subst hp
  have hw := count_update PoolPhase.waitsPlace phase t p'
  have hn := count_update PoolPhase.notifiesPlace phase t p'
  have ht := count_update PoolPhase.inTake phase t p'
  have hwait' := Bool.toNat_le_toNat hwait
  have hnotify' := Bool.toNat_le_toNat hnotify
  unfold Rescued rescuers at *
  rcases htake with htake | rfl
  · have htake' := Bool.toNat_le_toNat htake
    omega
  · omega

theorem Rescued.inner {s : ThreadPool α ω τ} {q : ℕ} (h : Rescued q s.phase)
    (hq : q = s._queue.length)
    {t : ω ⊕ τ} {p p' : PoolPhase α} (hp : s.phase t = p) (hi : Inner s t p p') :
    Rescued q (Function.update s.phase t p') := by
  cases hi with
  | unheardPlace hnone => exact .of_none hnone rfl
  | miss hempty =>
      refine h.update hp le_rfl le_rfl (.inr ?_)
      rw [hq, hempty, List.length_nil]
  | enter => exact h.update hp le_rfl le_rfl (.inl (Bool.false_le _))
  | wakeUp =>
      obtain ⟨hwait, hnotify, htake⟩ := p.wakeUp_le
      exact h.update hp hwait hnotify (.inl htake)
  | _ => exact h.update hp le_rfl le_rfl (.inl le_rfl)

theorem Rescued.pop {s : ThreadPool α ω τ} (hg : Guarded s) (h : Rescued s._queue.length s.phase)
    {t : ω ⊕ τ}
    {task : α} {rest : List α} (hp : s.phase t = .take .ready) (hqueue : s._queue = task :: rest) :
    Rescued rest.length (s.pop t rest).phase := by
  by_cases hcap : 0 < s._queue_capacity
  · -- one worker less in `take`, one task less, and one notification more
    show Rescued rest.length (Function.update s.phase t (if 0 < s._queue_capacity then _ else _))
    rw [if_pos hcap]
    have hw := count_update PoolPhase.waitsPlace s.phase t (.take .notifying)
    have hn := count_update PoolPhase.notifiesPlace s.phase t (.take .notifying)
    have ht := count_update PoolPhase.inTake s.phase t (.take .notifying)
    simp only [hp, PoolPhase.waitsPlace, PoolPhase.notifiesPlace, PoolPhase.inTake, Bool.toNat_true,
      Bool.toNat_false] at hw hn ht
    unfold Rescued rescuers at *
    rw [hqueue, List.length_cons] at h
    omega
  · -- without a bound nobody waits for a place
    have hnone : ∀ u, (s.phase u).waitsPlace = false := fun u =>
      Bool.eq_false_of_not_eq_true fun hu => hcap ((hg.fits u).bounded hu)
    show Rescued rest.length (Function.update s.phase t (if 0 < s._queue_capacity then _ else _))
    rw [if_neg hcap]
    exact .of_none hnone rfl

theorem Rescued.notifyAll {s : ThreadPool α ω τ} {q : ℕ} (h : Rescued q s.phase) {t : ω ⊕ τ}
    (hp : s.phase t = .stop .notifying) : Rescued q (s.notifyAll t).phase := by
  -- the workers are woken up inside `take`
  have hwait :
      PoolPhase.waitsPlace ∘ PoolPhase.wakeWorker = (PoolPhase.waitsPlace : PoolPhase α → Bool) :=
    funext PoolPhase.waitsPlace_wakeWorker
  have hnotify :
      PoolPhase.notifiesPlace ∘ PoolPhase.wakeWorker =
        (PoolPhase.notifiesPlace : PoolPhase α → Bool) :=
    funext PoolPhase.notifiesPlace_wakeWorker
  have htake : PoolPhase.inTake ∘ PoolPhase.wakeWorker = (PoolPhase.inTake : PoolPhase α → Bool) :=
    funext PoolPhase.inTake_wakeWorker
  have hwoken : Rescued q (PoolPhase.wakeWorker ∘ s.phase) := by
    show count (PoolPhase.waitsPlace ∘ PoolPhase.wakeWorker) s.phase ≤
      count (PoolPhase.notifiesPlace ∘ PoolPhase.wakeWorker) s.phase +
        min (count (PoolPhase.inTake ∘ PoolPhase.wakeWorker) s.phase) q
    rw [hwait, hnotify, htake]
    exact h
  have hphase : (PoolPhase.wakeWorker ∘ s.phase) t = .stop .notifying := by
    rw [Function.comp_apply, hp]
    rfl
  exact hwoken.update hphase le_rfl le_rfl (.inl le_rfl)

/-- **A notification of `_not_full` that is heard**: a waiter less, and a notification less. -/
theorem Rescued.heardPlace {s : ThreadPool α ω τ} {q : ℕ} (h : Rescued q s.phase) {t u : ω ⊕ τ}
    (hp : s.phase t = .take .notifying) (hu : (s.phase u).waitsPlace = true) :
    Rescued q ((s.setPhase u (s.phase u).wakeUp).setPhase t (.take .leaving)).phase := by
  obtain ⟨task, hwaiting⟩ : ∃ task, s.phase u = .run task .waiting := by
    unfold PoolPhase.waitsPlace at hu
    split at hu
    · rename_i task hwaiting
      exact ⟨task, hwaiting⟩
    · cases hu
  have htu : t ≠ u := by
    rintro rfl
    rw [hp] at hu
    cases hu
  have hphase : Function.update s.phase u (.run task .woken) t = .take .notifying := by
    rw [Function.update_of_ne htu, hp]
  show Rescued q (Function.update (Function.update s.phase u (s.phase u).wakeUp) t (.take .leaving))
  have counts (f : PoolPhase α → Bool) := And.intro (count_update f s.phase u (.run task .woken))
    (count_update f (Function.update s.phase u (.run task .woken)) t (.take .leaving))
  have hw := counts PoolPhase.waitsPlace
  have hn := counts PoolPhase.notifiesPlace
  have ht := counts PoolPhase.inTake
  simp only [hwaiting, hphase, PoolPhase.waitsPlace, PoolPhase.notifiesPlace, PoolPhase.inTake,
    Bool.toNat_true, Bool.toNat_false] at hw hn ht
  rw [hwaiting, PoolPhase.wakeUp]
  unfold Rescued rescuers at *
  omega

theorem Rescued.heardTask {s : ThreadPool α ω τ} {q : ℕ} (h : Rescued q s.phase)
    {t u : ω ⊕ τ} {task : α}
    (hp : s.phase t = .run task .notifying) (hu : (s.phase u).waitsTask = true) :
    Rescued q ((s.setPhase u (s.phase u).wakeUp).setPhase t (.run task .leaving)).phase := by
  have htu : t ≠ u := by
    rintro rfl
    rw [hp] at hu
    cases hu
  have hphase : Function.update s.phase u (s.phase u).wakeUp t = .run task .notifying := by
    rw [Function.update_of_ne htu, hp]
  obtain ⟨hwait, hnotify, htake⟩ := (s.phase u).wakeUp_le
  exact (h.update rfl hwait hnotify (.inl htake)).update hphase le_rfl le_rfl (.inl le_rfl)

/-- A thread begins to wait in `run`. -/
theorem Rescued.waitPlace {q : ℕ} {phase : ω ⊕ τ → PoolPhase α} {t : ω ⊕ τ} {task : α}
    (hp : phase t = .run task .testing) (h : count PoolPhase.waitsPlace phase < rescuers q phase) :
    Rescued q (Function.update phase t (.run task .waiting)) := by
  have hw := count_update PoolPhase.waitsPlace phase t (.run task .waiting)
  have hn := count_update PoolPhase.notifiesPlace phase t (.run task .waiting)
  have ht := count_update PoolPhase.inTake phase t (.run task .waiting)
  simp only [hp, PoolPhase.waitsPlace, PoolPhase.notifiesPlace, PoolPhase.inTake, Bool.toNat_true,
    Bool.toNat_false] at hw hn ht
  unfold Rescued rescuers at *
  omega

/-- Steps that give the mutex back. -/
theorem Rescued.release {s : ThreadPool α ω τ} (h : s._running = false →
    Rescued s._queue.length s.phase)
    {t : ω ⊕ τ} {p p' : PoolPhase α} (hp : s.phase t = p) (hr : Release s p p')
    (hl : s.relieved (.advance t) = true) (hrun : s._running = false) :
    Rescued s._queue.length (Function.update s.phase t p') := by
  cases hr with
  | waitPlace task hfull =>
      refine .waitPlace hp ?_
      simpa only [relieved, hp, hfull, hrun, Bool.not_true, Bool.false_or,
        decide_eq_true_eq] using hl
  | waitTask hrunning =>
      rw [hrun] at hrunning
      cases hrunning
  | _ => exact (h hrun).update hp le_rfl le_rfl (.inl le_rfl)

theorem rescued_trans {s s' : ThreadPool α ω τ} {l : PoolLabel α ω τ} (hg : Guarded s)
    (h : s._running = false → Rescued s._queue.length s.phase) (hl : s.relieved l = true)
    (ht : PoolTrans s l s') (hrun : s'._running = false) : Rescued s'._queue.length s'.phase := by
  cases ht with
  | stay => exact h hrun
  | inner hi => exact (h hrun).inner rfl rfl hi
  | release hadvance hr =>
      subst hadvance
      exact .release h rfl hr hl hrun
  | @lock t p hp hfree =>
      obtain ⟨hwait, hnotify, htake⟩ := PoolPhase.locked_le hp
      exact (h hrun).update rfl hwait hnotify (.inl htake)
  | @push t task hp =>
      have hq : s._queue.length ≤ (s._queue ++ [task]).length := by
        rw [List.length_append]
        exact Nat.le_add_right _ _
      exact ((h hrun).mono hq).update hp le_rfl le_rfl (.inl le_rfl)
  | pop hp hqueue => exact (h hrun).pop hg hp hqueue
  | clear hadvance hp =>
      subst hadvance
      have hclear : Rescued s._queue.length s.phase := by
        simp only [relieved, hp, decide_eq_true_eq] at hl
        exact hl
      exact hclear.update hp le_rfl le_rfl (.inl le_rfl)
  | notifyAll hp => exact (h hrun).notifyAll hp
  | heardTask hp hu => exact (h hrun).heardTask hp hu
  | heardPlace hp hu => exact (h hrun).heardPlace hp hu

/-- **`stop` strands nobody** in any run in which there were enough rescuers whenever `stop` cleared
`_running` and whenever, after that, a call of `run` began to wait. -/
theorem stop_strands_nobody (capacity : ℕ) (run : List (PoolLabel α ω τ))
    (h : Along step (fun s l => s.relieved l = true) (started capacity) run) :
    ¬ Stranded (exec step (started capacity) run) := by
  rintro ⟨hstopped, hgone, hwaits, hquiet⟩
  have hinv := along_invariant
    (fun s : ThreadPool α ω τ => Guarded s ∧ (s._running = false → Rescued s._queue.length s.phase))
    (fun s l hs hl => ⟨guarded_trans hs.1 (trans_step s l),
      rescued_trans hs.1 hs.2 hl (trans_step s l)⟩)
    ⟨guarded_started capacity, nofun⟩ h
  obtain ⟨hg, hrescued⟩ := hinv
  have hle := hrescued (hg.stopped hstopped)
  rw [Rescued, hg.rescuers_eq_zero hgone hquiet] at hle
  have hpos := (count_pos_iff _ _).mpr hwaits
  omega

end Rescue

/-! ### A run that strands a thread

The queue holds one task.  The worker is in user code; a thread hands over two tasks, so that the
second call of `run` waits; then another thread calls `stop`. -/

/-- Two calls of `run` while the worker is busy. -/
def twoTasks : List (PoolLabel Unit Unit Bool) :=
  [.run (.inr false) (), .lock (.inr false), .advance (.inr false), .advance (.inr false),
    .notify (.inr false) (.inl ()), .advance (.inr false),
    .run (.inr false) (), .lock (.inr false), .advance (.inr false)]

/-- A call of `stop` up to the loop over the threads. -/
def stopCall : List (PoolLabel Unit Unit Bool) :=
  [.stop true, .lock (.inr true), .advance (.inr true), .advance (.inr true), .advance (.inr true)]

/-- The worker comes back from user code and looks at `_running`. -/
def workerLooks : List (PoolLabel Unit Unit Bool) := [.finish (), .advance (.inl ())]

/-- The worker, inside `take`, takes a task, does it and looks at `_running`. -/
def workerTakes : List (PoolLabel Unit Unit Bool) :=
  [.lock (.inl ()), .advance (.inl ()), .advance (.inl ()), .notify (.inl ()) (.inr false),
    .advance (.inl ()), .finish (), .advance (.inl ())]

/-- The worker looks at `_running` after `stop` has cleared it and does not call `take` any more. -/
theorem stop_strands : Stranded (exec step (started 1) (twoTasks ++ stopCall ++ workerLooks)) := by
  refine ⟨rfl, fun _ => rfl, ⟨.inr false, rfl⟩, ?_⟩
  decide

/-- The worker has looked at `_running` before; it takes a task and wakes up the
thread that waits. -/
theorem stop_rescues :
    ¬ Stranded (exec step (started 1) (twoTasks ++ workerLooks ++ stopCall ++ workerTakes)) :=
  stop_strands_nobody 1 _ (by decide)

end ThreadPool

end Muduo.Base
