import Muduo.Net.EventLoop

/-!
# When the loop is woken up

`queueInloop` wakes the loop if it is called from a foreign thread or while
`_calling_pending_functors` is set.  Two questions about the moment at which the loop thread is
about to enter `poll`:

* `no_lost_wakeup` — as long as the loop thread itself queues functors only inside channel callbacks
  and functor bodies, a non-empty queue always comes with a positive eventfd counter or a write that
  is still to come from the foreign thread that pushed;
* `poll_not_stalled_iff` — functors queued by the loop thread in the two remaining places, outside
  `loop()` and in the destructor of a finished batch, are not covered: the next `poll` blocks over
  them unless somebody else has written or writes to the eventfd.

`ModeInv` ties the flag to the program counter and holds in every run; `Covered` is the invariant of
the first result.
-/

namespace Muduo.Net

open Muduo.Lib

namespace EventLoop

variable {F : Type*}

/-! ### The flag and the program counter -/

/-- The points of `doPendingFunctors` between its two writes of the flag. -/
def callingPc : LoopPc F → Bool
  | .swap | .functors _ | .body _ => true
  | _ => false

structure ModeInv (s : EventLoop F) : Prop where
  calling : s._calling_pending_functors = callingPc s.pc
  waking : s.waking = true → s._calling_pending_functors = true

theorem modeInv_new : ModeInv (new : EventLoop F) := ⟨rfl, by simp [new]⟩

theorem calling_advance {s : EventLoop F} (h : s._calling_pending_functors = callingPc s.pc)
    (active : List Source) :
    (s.advance active)._calling_pending_functors = callingPc (s.advance active).pc := by
  unfold advance
  split <;> rename_i hpc <;> rw [hpc] at h
  case h_2 =>
    dsimp only
    rw [h]
    split <;> rfl
  all_goals first | exact h | rfl

theorem modeInv_step {s : EventLoop F} (h : ModeInv s) (m : Move F) : ModeInv (s.step m) := by
  unfold step
  split
  · rename_i hen
    cases m with
    | advance active =>
        have hidle : s.waking = false := by simpa [enabled] using hen
        refine ⟨calling_advance h.calling active, fun hw => ?_⟩
        have : (s.advance active).waking = s.waking := by
          unfold advance
          split <;> rfl
        simp [perform, this, hidle] at hw
    | push f => exact ⟨h.calling, id⟩
    | wakeup => exact ⟨h.calling, by simp [perform]⟩
    | quit => exact ⟨h.calling, h.waking⟩
    | foreignPush t f => exact ⟨h.calling, h.waking⟩
    | foreignWakeup t => exact ⟨h.calling, h.waking⟩
    | foreignQuit t => exact ⟨h.calling, h.waking⟩
  · exact h

theorem modeInv_exec (run : List (Move F)) : ModeInv (exec step (new : EventLoop F) run) :=
  exec_invariant ModeInv (fun _ m hs => modeInv_step hs m) run modeInv_new

theorem counter_writeEventfd_pos (s : EventLoop F) : 0 < s.writeEventfd.counter := by
  show 0 < if s.counter < eventfdMax then s.counter + 1 else s.counter
  split
  · exact Nat.succ_pos _
  · rename_i hmax
    have : 0 < eventfdMax := by decide
    omega

/-! ### No wakeup is lost -/

/-- The loop thread will swap the queue out before the next `poll`. -/
def beforeSwap : LoopPc F → Bool
  | .handling _ | .callback _ | .swap => true
  | _ => false

/-- Somebody has woken the loop or is about to. -/
def Awake (s : EventLoop F) : Prop :=
  0 < s.counter ∨ (∃ t, s.foreign t = .pushed) ∨ s.waking = true

/-- A queue that will not be swapped out before the next `poll` has woken the loop. -/
def Covered (s : EventLoop F) : Prop :=
  beforeSwap s.pc = false → s._pending_functors ≠ [] → Awake s

/-- The loop thread queues functors from channel callbacks and functor bodies only. -/
def inScope (s : EventLoop F) : Move F → Bool
  | .push _ =>
      match s.pc with
      | .callback _ | .body _ => true
      | _ => false
  | _ => true

theorem covered_new : Covered (new : EventLoop F) := fun _ h => absurd rfl h

theorem covered_advance {s : EventLoop F} (h : Covered s) (active : List Source) :
    Covered (s.advance active) := by
  unfold advance
  split <;> rename_i hpc
  case h_2 => exact fun _ => h (by rw [hpc]; rfl)
  case h_8 => exact fun _ hne => absurd rfl hne
  all_goals first
    | exact fun hb => absurd (show true = false from hb) (by decide)
    | exact fun _ => h (by rw [hpc]; rfl)

theorem covered_step {s : EventLoop F} (hmode : ModeInv s) (h : Covered s) {m : Move F}
    (hscope : s.inScope m = true) : Covered (s.step m) := by
  unfold step
  split
  swap
  · exact h
  rename_i hen
  cases m with
  | advance active => exact covered_advance h active
  | quit => exact h
  | push f =>
      -- in a functor's body the flag is set; in a channel callback the swap is still to come
      cases hpc : s.pc with
      | callback rest => exact fun hb => by simp [perform, pushBack, hpc, beforeSwap] at hb
      | body rest =>
          refine fun _ _ => Or.inr (Or.inr ?_)
          show s._calling_pending_functors = true
          rw [hmode.calling, hpc]
          rfl
      | _ => simp [inScope, hpc] at hscope
  | wakeup => exact fun _ _ => Or.inl (counter_writeEventfd_pos s)
  | foreignPush t f =>
      exact fun _ _ => Or.inr (Or.inl ⟨t, Function.update_self ..⟩)
  | foreignWakeup t => exact fun _ _ => Or.inl (counter_writeEventfd_pos s)
  | foreignQuit t =>
      intro hb hne
      have hidle : s.foreign t = .idle := by simpa [enabled] using hen
      rcases h hb hne with hc | ⟨u, hu⟩ | hw
      · exact Or.inl hc
      · have hut : u ≠ t := by
          rintro rfl
          simp [hidle] at hu
        exact Or.inr (Or.inl ⟨u, (Function.update_of_ne hut ..).trans hu⟩)
      · exact Or.inr (Or.inr hw)

/-- **No lost wakeup.**  Whenever the loop thread is about to enter `poll` with functors pending,
the eventfd counter is positive or a foreign thread that has pushed is still to write. -/
theorem no_lost_wakeup (run : List (Move F))
    (hscope : Along step (fun s m => s.inScope m = true) (new : EventLoop F) run) :
    let s := exec step (new : EventLoop F) run
    s.pc = .poll → s._pending_functors ≠ [] → 0 < s.counter ∨ ∃ t, s.foreign t = .pushed := by
  have h : ModeInv (exec step (new : EventLoop F) run) ∧
      Covered (exec step (new : EventLoop F) run) :=
    along_invariant (fun s => ModeInv s ∧ Covered s)
      (fun _ m hs hq => ⟨modeInv_step hs.1 m, covered_step hs.1 hs.2 hq⟩)
      ⟨modeInv_new, covered_new⟩ hscope
  obtain ⟨hmode, hcov⟩ := h
  intro s hpc hne
  have hawake : Awake s := hcov (show beforeSwap s.pc = false by rw [hpc]; rfl) hne
  rcases hawake with hc | hf | hw
  · exact Or.inl hc
  · exact Or.inr hf
  · -- the loop thread does not stop between its push and its write
    have hcall := hmode.waking hw
    rw [hmode.calling] at hcall
    exact absurd (show callingPc s.pc = true from hcall) (by rw [hpc]; simp [callingPc])

/-- A foreign push that meets the loop about to enter `poll`. -/
theorem no_lost_wakeup_foreign :
    let s := exec step (new : EventLoop ℕ) [.advance [], .advance [], .foreignPush 3 7]
    0 < s.counter ∨ ∃ t, s.foreign t = .pushed :=
  no_lost_wakeup [.advance [], .advance [], .foreignPush 3 7] (by decide) rfl (by decide)

/-! ### Functors queued outside callbacks -/

/-- The two places in which user code runs on the loop thread outside callbacks and bodies. -/
def window : LoopPc F → Bool
  | .outside | .destroy => true
  | _ => false

/-- The points from such a place to the next `poll`. -/
def toPoll : LoopPc F → Bool
  | .outside | .destroy | .test | .poll => true
  | _ => false

def atPoll : LoopPc F → Bool
  | .poll => true
  | _ => false

def isForeign : Move F → Bool
  | .foreignPush _ _ | .foreignWakeup _ | .foreignQuit _ => true
  | _ => false

/-- Threads make moves they can make, and the loop thread stops at the next `poll`. -/
def upToPoll (s : EventLoop F) (m : Move F) : Bool :=
  s.enabled m && (!atPoll s.pc || isForeign m)

/-- The functors pushed by a sequence of moves, by any thread. -/
def pushes (run : List (Move F)) : List F := run.filterMap fun
  | .push f | .foreignPush _ f => some f
  | _ => none

/-- A foreign thread writes to the eventfd. -/
def wakes (run : List (Move F)) : Bool := run.any fun
  | .foreignWakeup _ => true
  | _ => false

/-- On the way to `poll` the queue grows by the pushes, and only foreign writes
raise the counter. -/
theorem window_step {s : EventLoop F} (hmode : ModeInv s) (hpc : toPoll s.pc = true) {m : Move F}
    (hm : s.upToPoll m = true) :
    toPoll (s.step m).pc = true ∧
    ((s.step m)._pending_functors = [] ↔ s._pending_functors = [] ∧ pushes [m] = []) ∧
    ((s.step m).counter = 0 ↔ s.counter = 0 ∧ wakes [m] = false) := by
  simp only [upToPoll, Bool.and_eq_true, Bool.or_eq_true, Bool.not_eq_true'] at hm
  obtain ⟨hen, hpoll⟩ := hm
  rw [step, if_pos hen]
  cases m with
  | advance active =>
      simp only [isForeign, Bool.false_eq_true, or_false] at hpoll
      simp only [perform, advance, pushes, wakes, List.filterMap_cons, List.filterMap_nil,
        List.any_cons, List.any_nil, Bool.or_false, and_true]
      cases hp : s.pc with
      | outside => exact ⟨rfl, Iff.rfl, Iff.rfl⟩
      | destroy => exact ⟨rfl, Iff.rfl, Iff.rfl⟩
      | test =>
          refine ⟨?_, Iff.rfl, Iff.rfl⟩
          dsimp only
          split <;> rfl
      | poll => simp [hp, atPoll] at hpoll
      | _ => simp [hp, toPoll] at hpc
  | push f => exact ⟨hpc, by simp [perform, pushBack, pushes], by simp [perform, pushBack, wakes]⟩
  | wakeup =>
      -- the flag is clear here, so the loop thread owes no write
      have hcall := hmode.waking hen
      rw [hmode.calling] at hcall
      cases hp : s.pc <;> simp [hp, toPoll, callingPc] at hpc hcall
  | quit => exact ⟨hpc, by simp [perform, pushes], by simp [perform, wakes]⟩
  | foreignPush t f =>
      exact ⟨hpc, by simp [perform, pushBack, setForeign, pushes],
        by simp [perform, pushBack, setForeign, wakes]⟩
  | foreignWakeup t =>
      have hpos := counter_writeEventfd_pos s
      refine ⟨hpc, by simp [perform, writeEventfd, setForeign, pushes], ?_⟩
      simp only [perform, setForeign, wakes, List.any_cons, Bool.true_or, Bool.true_eq_false,
        and_false, iff_false]
      exact hpos.ne'
  | foreignQuit t =>
      exact ⟨hpc, by simp [perform, setForeign, pushes], by simp [perform, setForeign, wakes]⟩

theorem window_run {s : EventLoop F} (hmode : ModeInv s) (hpc : toPoll s.pc = true)
    {run : List (Move F)} (hrun : Along step (fun s m => s.upToPoll m = true) s run) :
    ((exec step s run)._pending_functors = [] ↔ s._pending_functors = [] ∧ pushes run = []) ∧
    ((exec step s run).counter = 0 ↔ s.counter = 0 ∧ wakes run = false) := by
  induction run generalizing s with
  | nil => simp [pushes, wakes]
  | cons m run ih =>
      obtain ⟨hm, hrest⟩ := hrun
      obtain ⟨hpc', hpend, hcount⟩ := window_step hmode hpc hm
      obtain ⟨ihpend, ihcount⟩ := ih (modeInv_step hmode m) hpc' hrest
      have hpush : pushes (m :: run) = pushes [m] ++ pushes run := by
        simp [pushes, List.filterMap_cons]
        split <;> simp
      have hwake : wakes (m :: run) = (wakes [m] || wakes run) := by
        simp [wakes]
      rw [exec_cons, ihpend, ihcount, hpend, hcount, hpush, hwake]
      simp only [List.append_eq_nil_iff, Bool.or_eq_false_iff, and_assoc, and_self]

/-- **When the loop blocks over functors queued outside callbacks.**  From any point before `loop()`
or in the destructor of a finished batch, for all moves of all threads up to the next `poll`: that
`poll` does not start with functors pending and the counter zero if and only if the counter was
positive already, a foreign thread writes before it, or nothing was pending and nothing is pushed.
The pushes of the loop thread itself never help. -/
theorem poll_not_stalled_iff (before run : List (Move F))
    (hwindow : window (exec step (new : EventLoop F) before).pc = true)
    (hrun : Along step (fun s m => s.upToPoll m = true) (exec step (new : EventLoop F) before)
      run) :
    let s := exec step (new : EventLoop F) before
    let s' := exec step s run
    ¬ (s'._pending_functors ≠ [] ∧ s'.counter = 0) ↔
      0 < s.counter ∨ wakes run = true ∨ (s._pending_functors = [] ∧ pushes run = []) := by
  have hpc : toPoll (exec step (new : EventLoop F) before).pc = true := by
    revert hwindow
    cases (exec step (new : EventLoop F) before).pc <;> simp [window, toPoll]
  obtain ⟨hpend, hcount⟩ := window_run (modeInv_exec before) hpc hrun
  intro s s'
  rw [Ne, hpend, hcount, Nat.pos_iff_ne_zero, not_and_or, not_not, not_and_or, Bool.not_eq_false,
    or_comm, or_assoc]

/-- A foreign thread pushes and wakes the loop before `loop()` is entered. -/
theorem poll_not_stalled_foreign :
    let s := exec step (new : EventLoop ℕ)
      [.push 1, .foreignPush 3 7, .foreignWakeup 3, .advance [], .advance []]
    ¬ (s._pending_functors ≠ [] ∧ s.counter = 0) :=
  (poll_not_stalled_iff ([] : List (Move ℕ))
    [.push 1, .foreignPush 3 7, .foreignWakeup 3, .advance [], .advance []] (by decide)
    (by decide)).mpr (by decide)

/-- A functor queued before `loop()`, and one queued by the destructor of an executed functor: the
loop enters `poll` with the functor pending and nothing to wake it. -/
theorem poll_stalls :
    let s := exec step (new : EventLoop ℕ) [.push 1, .advance [], .advance []]
    let t := exec step (new : EventLoop ℕ)
      [.foreignPush 3 7, .foreignWakeup 3, .advance [], .advance [], .advance [.wakeup],
        .advance [],
        .advance [], .advance [], .advance [], .advance [], .advance [], .push 1, .advance [],
        .advance []]
    (s.pc = .poll ∧ s._pending_functors ≠ [] ∧ s.counter = 0) ∧
    (t.pc = .poll ∧ t._pending_functors ≠ [] ∧ t.counter = 0) := by
  decide

end EventLoop

end Muduo.Net
