import Muduo.Net.EventLoop

/-!
# Functors run once and in order

Three sequences move at the same time: the functors that have run, the rest of the batch that
`doPendingFunctors` swapped out, and `_pending_functors`.  Their concatenation is always the
sequence of the pushes that the threads have made, whatever they do.

* `pushOf`, `swapOf` — the push and the swap that a move makes, read off the moves, not the queue;
* `QueueInv` — the invariant, with the batch numbers that keep a functor out of the batch
  during which it was pushed;
* `queueInv_advance`, `queueInv_pushBack` — the two kinds of move that touch the sequences;
* `functors_run_once_in_order` — the result for whole runs.
-/

namespace Muduo.Net

open Muduo.Lib

namespace EventLoop

variable {F : Type*}

/-- The push that a move makes, with the number of swaps before it. -/
def pushOf (s : EventLoop F) (m : Move F) : Option (Pushed F) :=
  if s.enabled m then m.functor.map fun f => ⟨f, s.batch⟩ else none

/-- The loop thread swaps `_pending_functors` out. -/
def swapOf (s : EventLoop F) (m : Move F) : Option Unit :=
  match s.pc, m with
  | .swap, .advance active => if s.enabled (.advance active) then some () else none
  | _, _ => none

/-- `pushed` are the pushes so far. -/
structure QueueInv (pushed : List (Pushed F)) (s : EventLoop F) : Prop where
  fifo : s.executed.map Prod.fst ++ unstarted s.pc ++ s._pending_functors = pushed
  waiting : ∀ p ∈ s._pending_functors, p.swaps ≤ s.batch
  taken : ∀ p ∈ unstarted s.pc, p.swaps < s.batch
  ran : ∀ e ∈ s.executed, e.1.swaps < e.2

variable {pushed : List (Pushed F)}

/-- The invariant reads only the three sequences and the batch number. -/
theorem QueueInv.congr {s t : EventLoop F} (h : QueueInv pushed s)
    (hpend : t._pending_functors = s._pending_functors) (hpc : unstarted t.pc = unstarted s.pc)
    (hexec : t.executed = s.executed) (hbatch : t.batch = s.batch) : QueueInv pushed t where
  fifo := by rw [hexec, hpc, hpend, h.fifo]
  waiting := by rw [hpend, hbatch]; exact h.waiting
  taken := by rw [hpc, hbatch]; exact h.taken
  ran := by rw [hexec]; exact h.ran

/-- Nothing is pushed. -/
theorem QueueInv.quiet {s : EventLoop F} (h : QueueInv pushed s) : QueueInv (pushed ++ []) s := by
  rwa [List.append_nil]

theorem queueInv_new : QueueInv [] (new : EventLoop F) where
  fifo := rfl
  waiting := by simp [new]
  taken := by simp [new, unstarted]
  ran := by simp [new]

theorem queueInv_pushBack {s : EventLoop F} (h : QueueInv pushed s) (f : F) :
    QueueInv (pushed ++ [⟨f, s.batch⟩]) (s.pushBack f) where
  fifo := by
    show _ ++ (s._pending_functors ++ [_]) = pushed ++ [_]
    rw [← List.append_assoc]
    exact congrArg (· ++ [_]) h.fifo
  waiting := by
    intro p hp
    rcases List.mem_append.mp hp with hp | hp
    · exact h.waiting p hp
    · rw [List.mem_singleton.mp hp]
      exact le_rfl
  taken := h.taken
  ran := h.ran

/-- The swap moves the whole queue into the batch; starting a functor moves it to the history. -/
theorem queueInv_advance {s : EventLoop F} (h : QueueInv pushed s) (active : List Source) :
    QueueInv pushed (s.advance active) := by
  unfold advance
  split
  case h_8 hpc =>
    -- the swap: the rest of the previous batch was empty
    have hnone : unstarted s.pc = [] := by
      rw [hpc]
      rfl
    refine ⟨?_, by simp, fun p hp => Nat.lt_succ_of_le (h.waiting p hp), h.ran⟩
    have hfifo := h.fifo
    rw [hnone, List.append_nil] at hfifo
    simpa [unstarted] using hfifo
  case h_9 f rest hpc =>
    have hrest : unstarted s.pc = f :: rest := by
      rw [hpc]
      rfl
    have hfifo := h.fifo
    have htaken := h.taken
    rw [hrest] at hfifo htaken
    refine ⟨?_, h.waiting, fun p hp => htaken p (List.mem_cons_of_mem f hp), ?_⟩
    · simpa [unstarted] using hfifo
    · intro e he
      rcases List.mem_append.mp he with he | he
      · exact h.ran e he
      · rw [List.mem_singleton.mp he]
        exact htaken f List.mem_cons_self
  case h_2 hpc =>
    refine h.congr rfl ?_ rfl rfl
    rw [hpc]
    dsimp only
    split <;> rfl
  all_goals
    rename_i hpc
    refine h.congr rfl ?_ rfl rfl
    rw [hpc]
    rfl

theorem queueInv_step {s : EventLoop F} (h : QueueInv pushed s) (m : Move F) :
    QueueInv (pushed ++ (s.pushOf m).toList) (s.step m) := by
  unfold step pushOf
  split
  · cases m with
    | push f => exact (queueInv_pushBack h f).congr rfl rfl rfl rfl
    | foreignPush t f => exact (queueInv_pushBack h f).congr rfl rfl rfl rfl
    | advance active => exact (queueInv_advance h active).quiet
    | wakeup | quit | foreignWakeup t | foreignQuit t => exact h.quiet.congr rfl rfl rfl rfl
  · exact h.quiet

/-- Only the loop thread swaps. -/
theorem swapOf_of_ne (s : EventLoop F) {m : Move F} (hm : ∀ active, m ≠ .advance active) :
    s.swapOf m = none := by
  unfold swapOf
  split
  · exact absurd rfl (hm _)
  · rfl

theorem batch_step (s : EventLoop F) (m : Move F) :
    (s.step m).batch = s.batch + (s.swapOf m).toList.length := by
  unfold step
  split
  · rename_i hen
    cases m with
    | advance active =>
        cases hpc : s.pc with
        | swap => simp [perform, advance, swapOf, hpc, hen]
        | handling rest =>
            rcases rest with _ | ⟨_ | _, rest⟩ <;> simp [perform, advance, swapOf, hpc]
        | functors rest => cases rest <;> simp [perform, advance, swapOf, hpc]
        | _ => simp [perform, advance, swapOf, hpc]
    | _ =>
        rw [swapOf_of_ne s (by simp)]
        rfl
  · rename_i hen
    have hnone : s.swapOf m = none := by
      unfold swapOf
      split
      · exact if_neg hen
      · rfl
    rw [hnone]
    rfl

/-- **Functors run exactly once and in FIFO order.**  At every point of every interleaving, the
functors that have run, the rest of the swapped-out batch and `_pending_functors` are together
the pushes that the moves of the run have made, in the order in which they had the mutex.
Batches are numbered by the swaps of the run, and a functor pushed after the swap of batch `k`
runs in a later batch. -/
theorem functors_run_once_in_order (run : List (Move F)) :
    let s := exec step (new : EventLoop F) run
    s.executed.map Prod.fst ++ unstarted s.pc ++ s._pending_functors = outputs step pushOf new run ∧
    s.batch = (outputs step swapOf (new : EventLoop F) run).length ∧
    ∀ p k, (p, k) ∈ s.executed → p.swaps < k := by
  intro s
  have h : QueueInv (outputs step pushOf new run) s :=
    exec_outputs QueueInv (fun _ _ m h => queueInv_step h m) queueInv_new run
  have hbatch : s.batch = (outputs step swapOf (new : EventLoop F) run).length := by
    refine exec_outputs (fun swaps (s : EventLoop F) => s.batch = swaps.length)
      (fun swaps s m hs => ?_) rfl run
    rw [batch_step, hs, List.length_append]
  exact ⟨h.fifo, hbatch, fun p k hp => h.ran (p, k) hp⟩

/-- A foreign thread pushes a functor and wakes the loop; while it runs, it queues itself again. -/
def requeued : List (Move ℕ) :=
  [.foreignPush 0 7, .foreignWakeup 0, .advance [], .advance [], .advance [.wakeup], .advance [],
    .advance [], .advance [], .advance [], .push 7, .wakeup, .foreignPush 1 8]

/-- The functor runs once, and waits for the next batch when it is pushed again. -/
theorem functors_run_once_in_order_requeued :
    (exec step new requeued).executed = [(⟨7, 0⟩, 1)] ∧
    (exec step new requeued)._pending_functors = [⟨7, 1⟩, ⟨8, 1⟩] ∧
    outputs step pushOf new requeued = [⟨7, 0⟩, ⟨7, 1⟩, ⟨8, 1⟩] :=
  ⟨by decide, by decide, (functors_run_once_in_order requeued).1.symm.trans (by decide)⟩

end EventLoop

end Muduo.Net
