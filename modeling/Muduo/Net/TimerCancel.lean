import Muduo.Net.TimerOwnership

/-!
# When a cancelled timer stays silent

`cancelInLoop` has three mechanisms: a timer in the sets is deleted; one whose callback has started
in the current batch is remembered in `cancelingTimers_` and not re-armed by `reset`; for any other
timer nothing happens.  Two kinds of live timers fall through: those in the rest of the batch, which
are remembered but run anyway, and those still waiting in a queued `addTimerInLoop`.

* `stillToRun q id` — the timer is in one of these two places;
* `CancelledIn part q s` — the timers with sequence number `s` are in this part of the batch and
  will not be re-armed; `cancelledIn_effect`;
* `Settled q s` — no timer with sequence number `s` can be started any more; `settled_effect`;
* `cancel_final_iff` — after `cancelInLoop(id)` the callback is never started again, whatever
  happens later, if and only if the timer was not still to run.
-/

namespace Muduo.Net

open Muduo.Lib

namespace TimerQueue

def ranOf : Option Batch → List Entry
  | none => []
  | some b => b.ran

def restOf : Option Batch → List Entry
  | none => []
  | some b => b.rest

/-- The identifier for which a move executes `cancelInLoop`. -/
def executesCancel (q : TimerQueue) : Act → Option TimerId
  | .cancel true id => if q.userCode then some id else none
  | .functor =>
      match q.batch, q.functors with
      | none, .cancelInLoop id :: _ => some id
      | _, _ => none
  | _ => none

/-- The timer is live and waits in a queued `addTimerInLoop` or in the rest of the batch. -/
def stillToRun (q : TimerQueue) (id : TimerId) : Bool :=
  match q.heap id.timer_ with
  | none => false
  | some t => t.sequence_ == id.sequence_ &&
      (id.timer_ ∈ queued q.functors || id.timer_ ∈ (restOf q.batch).map Entry.timer)

/-- A part of the batch that no entry leaves while the batch runs. -/
structure BatchPart (part : Option Batch → List Entry) : Prop where
  none : part none = []
  run : ∀ now ran e rest, part (some ⟨now, ran, e :: rest, false⟩) ⊆
    part (some ⟨now, ran ++ [e], rest, true⟩)
  return_ : ∀ b : Batch, part (some b) ⊆ part (some { b with inside := false })
  finish : ∀ now ran, part (some ⟨now, ran, [], false⟩) ⊆ ran

theorem batchPart_ranOf : BatchPart ranOf where
  none := rfl
  run _ ran e _ := List.subset_append_left ran [e]
  return_ _ := List.Subset.refl _
  finish _ _ := List.Subset.refl _

/-- A timer with sequence number `s` is dead, or in this part of the batch and will
not be re-armed. -/
def CancelledIn (part : Option Batch → List Entry) (q : TimerQueue) (s : ℕ) : Prop :=
  ∀ a t, q.heap a = some t → t.sequence_ = s →
    a ∈ (part q.batch).map Entry.timer ∧ toLex (a, s) ∈ q.cancelingTimers_

/-- A timer with sequence number `s` is dead, or has run in this batch and will not be re-armed. -/
def Settled (q : TimerQueue) (s : ℕ) : Prop := CancelledIn ranOf q s

section Cancelled

variable {q : TimerQueue} {s : ℕ} {part : Option Batch → List Entry}

/-- Timers may die, the part may grow, and more may be cancelled. -/
theorem CancelledIn.mono (h : CancelledIn part q s) {q' : TimerQueue}
    (hheap : ∀ a t, q'.heap a = some t → t.sequence_ = s → q.heap a = some t)
    (hpart : part q.batch ⊆ part q'.batch)
    (hcancel : ∀ x ∈ q.cancelingTimers_, x ∈ q'.cancelingTimers_) : CancelledIn part q' s := by
  intro a t ht hs
  obtain ⟨hr, hc⟩ := h a t (hheap a t ht hs) hs
  exact ⟨List.map_subset _ hpart hr, hcancel _ hc⟩

theorem heap_insert (q : TimerQueue) (a : ℕ) (t : Timer) : (q.insert a t).heap = q.heap := by
  simp [insert]

theorem canceling_insert (q : TimerQueue) (a : ℕ) (t : Timer) :
    (q.insert a t).cancelingTimers_ = q.cancelingTimers_ := by
  simp [insert]

theorem heap_addTimerInLoop (q : TimerQueue) (a : ℕ) : (q.addTimerInLoop a).heap = q.heap := by
  unfold addTimerInLoop
  split
  · simp
  · dsimp only
    split <;> simp [insert, resetTimerfd]

theorem canceling_addTimerInLoop (q : TimerQueue) (a : ℕ) :
    (q.addTimerInLoop a).cancelingTimers_ = q.cancelingTimers_ := by
  unfold addTimerInLoop
  split
  · simp
  · dsimp only
    split <;> simp [insert, resetTimerfd]

/-- Cancelling deletes timers and remembers identifiers. -/
theorem cancelInLoop_mono (q : TimerQueue) (id : TimerId) :
    (∀ a t, (q.cancelInLoop id).heap a = some t → q.heap a = some t) ∧
    ∀ x ∈ q.cancelingTimers_, x ∈ (q.cancelInLoop id).cancelingTimers_ := by
  unfold cancelInLoop
  dsimp only
  simp only [assert_heap, assert_cancelingTimers_]
  split
  · split
    · simp
    · refine ⟨fun a t ht => ?_, by simp [delete]⟩
      by_cases ha : a = id.timer_
      · subst ha
        simp [delete] at ht
      · simpa [delete, heap_of_ne _ ha] using ht
  · split
    · exact ⟨by simp, fun x hx => by simp [hx]⟩
    · simp

theorem batch_of_frame {q q' : TimerQueue} (h : q'.frame = q.frame) : q'.batch = q.batch :=
  congrArg Prod.fst h

theorem cancelledIn_addTimerInLoop (h : CancelledIn part q s) (a : ℕ) :
    CancelledIn part (q.addTimerInLoop a) s := by
  refine h.mono ?_ ?_ ?_
  · rw [heap_addTimerInLoop]
    exact fun _ _ ht _ => ht
  · rw [batch_of_frame (frame_addTimerInLoop q a)]
    exact fun _ hx => hx
  · rw [canceling_addTimerInLoop]
    exact fun _ hx => hx

theorem cancelledIn_cancelInLoop (h : CancelledIn part q s) (id : TimerId) :
    CancelledIn part (q.cancelInLoop id) s := by
  obtain ⟨hheap, hcancel⟩ := cancelInLoop_mono q id
  refine h.mono (fun a t ht _ => hheap a t ht) ?_ hcancel
  rw [batch_of_frame (frame_cancelInLoop q id)]
  exact fun _ hx => hx

theorem canceling_rearm (q : TimerQueue) (now : Timestamp) (e : Entry) :
    (q.rearm now e).cancelingTimers_ = q.cancelingTimers_ := by
  unfold rearm
  split
  · exact assert_cancelingTimers_ ..
  · split
    · exact canceling_insert ..
    · rfl

/-- What `reset` makes of the timer at this address, if it is in the batch. -/
def rearmed (q : TimerQueue) (now : Timestamp) (a : ℕ) : Option Timer :=
  match q.heap a with
  | none => none
  | some t =>
      if t.repeat_ ∧ toLex (a, t.sequence_) ∉ q.cancelingTimers_ then some (t.restart now) else none

theorem rearmed_eq_some {now : Timestamp} {a : ℕ} {t : Timer} : q.rearmed now a = some t ↔
    ∃ u, q.heap a = some u ∧ u.repeat_ = true ∧ toLex (a, u.sequence_) ∉ q.cancelingTimers_ ∧
      t = u.restart now := by
  unfold rearmed
  cases q.heap a with
  | none => simp
  | some u =>
      simp only [Option.ite_none_right_eq_some, Option.some.injEq, exists_eq_left', and_assoc]
      exact and_congr_right fun _ => and_congr_right fun _ => eq_comm

theorem heap_rearm (q : TimerQueue) (now : Timestamp) (e : Entry) :
    (q.rearm now e).heap = Function.update q.heap e.timer (q.rearmed now e.timer) := by
  unfold rearm rearmed
  cases hheap : q.heap e.timer with
  | none =>
      dsimp only
      rw [assert_heap, ← hheap, Function.update_eq_self]
  | some t =>
      dsimp only
      split
      · exact heap_insert ..
      · rfl

/-- A timer that is restarted twice is as if it was restarted once, so an address may be
in the batch twice. -/
theorem rearmed_rearm (q : TimerQueue) (now : Timestamp) (e : Entry) (a : ℕ) :
    (q.rearm now e).rearmed now a = q.rearmed now a := by
  refine Option.ext fun t => ?_
  rw [rearmed_eq_some, heap_rearm, canceling_rearm]
  by_cases ha : a = e.timer
  · subst ha
    simp only [Function.update_self, rearmed_eq_some]
    constructor
    · rintro ⟨_, ⟨u, hu, hrep, hc, rfl⟩, -, -, rfl⟩
      exact ⟨u, hu, hrep, hc, rfl⟩
    · rintro ⟨u, hu, hrep, hc, rfl⟩
      exact ⟨u.restart now, ⟨u, hu, hrep, hc, rfl⟩, hrep, hc, rfl⟩
  · rw [heap_of_ne q ha, rearmed_eq_some]

/-- **What `reset` does to the timers.** -/
theorem heap_reset (q : TimerQueue) (es : List Entry) (now : Timestamp) (a : ℕ) :
    (q.reset es now).heap a = if a ∈ es.map Entry.timer then q.rearmed now a else q.heap a := by
  obtain ⟨al, fs, heq⟩ := reset_eq q es now
  rw [heq]
  show (es.foldl (fun q e => q.rearm now e) q).heap a = _
  clear heq
  induction es generalizing q with
  | nil => rfl
  | cons e es ih =>
      rw [List.foldl_cons, ih, rearmed_rearm, heap_rearm, List.map_cons]
      by_cases hin : a ∈ es.map Entry.timer
      · rw [if_pos hin, if_pos (List.mem_cons_of_mem _ hin)]
      · rw [if_neg hin]
        by_cases ha : a = e.timer
        · rw [ha, Function.update_self, if_pos List.mem_cons_self]
        · rw [heap_of_ne q ha, if_neg (List.not_mem_cons_of_ne_of_not_mem ha hin)]

/-- After `reset` a cancelled timer of the batch is dead. -/
theorem reset_cancelled {es : List Entry} {now : Timestamp}
    (h : ∀ a t, q.heap a = some t → t.sequence_ = s →
      a ∈ es.map Entry.timer ∧ toLex (a, s) ∈ q.cancelingTimers_) :
    ∀ a t, (q.reset es now).heap a = some t → t.sequence_ ≠ s := by
  intro a t ht hs
  rw [heap_reset] at ht
  split at ht
  · obtain ⟨u, hu, -, hc, rfl⟩ := rearmed_eq_some.mp ht
    exact hc (hs ▸ (h a u hu hs).2)
  · rename_i hout
    exact hout (h a t ht hs).1

/-! ### One step -/

theorem cancelledIn_create (h : CancelledIn part q s) (hs : s ≤ q.numCreated) (a : ℕ)
    (when_ : Timestamp) (interval : ℤ) (repeats : Bool) :
    CancelledIn part (q.create a when_ interval repeats) s := by
  refine h.mono (fun b t ht hts => ?_) (fun _ hx => hx) (fun _ hx => hx)
  by_cases hb : b = a
  · -- the new sequence number is larger
    subst hb
    rw [show (q.create b when_ interval repeats).heap b =
      some ⟨when_, interval, repeats, q.numCreated + 1⟩ from Function.update_self ..] at ht
    rw [← Option.some.inj ht] at hts
    simp only at hts
    omega
  · rwa [show (q.create a when_ interval repeats).heap b = q.heap b from q.heap_of_ne hb _] at ht

theorem CancelledIn.setFunctors (h : CancelledIn part q s) (fs : List TimerFunctor) :
    CancelledIn part { q with functors := fs } s :=
  h.mono (fun _ _ ht _ => ht) (fun _ hx => hx) (fun _ hx => hx)

/-- **A cancelled sequence number stays cancelled.** -/
theorem cancelledIn_effect (hpart : BatchPart part) (h : CancelledIn part q s)
    (hs : s ≤ q.numCreated) {q' : TimerQueue} (he : Effect q q') : CancelledIn part q' s := by
  cases he with
  | idle => exact h
  | queueAdd a when_ interval repeats _ =>
      exact (cancelledIn_create h hs a when_ interval repeats).setFunctors _
  | add a when_ interval repeats _ =>
      exact cancelledIn_addTimerInLoop (cancelledIn_create h hs a when_ interval repeats) a
  | queueCancel id => exact h.setFunctors _
  | cancel id => exact cancelledIn_cancelInLoop h id
  | functor f rest hf =>
      cases f with
      | addTimerInLoop a => exact cancelledIn_addTimerInLoop (h.setFunctors rest) a
      | cancelInLoop id => exact cancelledIn_cancelInLoop (h.setFunctors rest) id
  | handleRead now hb =>
      -- between batches a cancelled number has no live timer
      intro a t ht hts
      replace ht : (q.getExpired now).1.heap a = some t := ht
      rw [heap_getExpired] at ht
      have hin := (h a t ht hts).1
      rw [hb, hpart.none] at hin
      exact absurd hin List.not_mem_nil
  | dead => exact h.mono (fun _ _ ht _ => by simpa using ht) (by simp) (by simp)
  | run now ran e rest t hb ht =>
      refine h.mono (fun _ _ ht _ => ht) ?_ (fun _ hx => hx)
      rw [hb]
      exact hpart.run now ran e rest
  | return_ b hb =>
      refine h.mono (fun _ _ ht _ => ht) ?_ (fun _ hx => hx)
      rw [hb]
      exact hpart.return_ b
  | finish now ran hb =>
      -- the batch ends, and `reset` deletes what was cancelled
      intro a t ht hts
      refine absurd hts (reset_cancelled (q := { q with callingExpiredTimers_ := false }) ?_ a t ht)
      intro b u hu hus
      obtain ⟨hin, hcancel⟩ := h b u hu hus
      rw [hb] at hin
      exact ⟨List.map_subset _ (hpart.finish now ran) hin, hcancel⟩

end Cancelled

/-- **A settled sequence number stays settled.** -/
theorem settled_effect {q q' : TimerQueue} {s : ℕ} (h : Settled q s) (hs : s ≤ q.numCreated)
    (he : Effect q q') : Settled q' s := cancelledIn_effect batchPart_ranOf h hs he

/-! ### Which callbacks a step starts -/

theorem started_of_frame {q q' : TimerQueue} (h : q'.frame = q.frame) : q'.started = q.started :=
  congrArg (fun f => f.2.2.1) h

theorem functors_of_frame {q q' : TimerQueue} (h : q'.frame = q.frame) : q'.functors = q.functors :=
  congrArg (fun f => f.2.2.2.1) h

theorem issued_of_frame {q q' : TimerQueue} (h : q'.frame = q.frame) : q'.issued = q.issued :=
  congrArg (fun f => f.2.2.2.2) h

/-- Only `run` starts a callback, that of the first entry of the rest; identifiers stay issued. -/
theorem history_effect {q q' : TimerQueue} (he : Effect q q') :
    (∀ id ∈ q.issued, id ∈ q'.issued) ∧ (q'.started = q.started ∨
      ∃ now ran e rest t, q.batch = some ⟨now, ran, e :: rest, false⟩ ∧ q.heap e.timer = some t ∧
        q'.started = q.started ++ [t.sequence_]) := by
  have hframe : ∀ {p p' : TimerQueue}, p'.frame = p.frame → (∀ id ∈ q.issued, id ∈ p.issued) →
      p.started = q.started → (∀ id ∈ q.issued, id ∈ p'.issued) ∧ (p'.started = q.started ∨
        ∃ now ran e rest t, q.batch = some ⟨now, ran, e :: rest, false⟩ ∧ q.heap e.timer = some t ∧
          p'.started = q.started ++ [t.sequence_]) := by
    intro p p' hp hissued hstarted
    exact ⟨issued_of_frame hp ▸ hissued, Or.inl ((started_of_frame hp).trans hstarted)⟩
  cases he with
  | idle => exact hframe (p := q) rfl (fun _ hid => hid) rfl
  | queueAdd a when_ interval repeats _ =>
      exact ⟨fun _ hid => List.mem_append_left _ hid, Or.inl rfl⟩
  | add a when_ interval repeats _ =>
      exact hframe (frame_addTimerInLoop (q.create a when_ interval repeats) a)
        (fun _ hid => List.mem_append_left _ hid) rfl
  | queueCancel id => exact ⟨fun _ hid => hid, Or.inl rfl⟩
  | cancel id => exact hframe (frame_cancelInLoop q id) (fun _ hid => hid) rfl
  | functor f rest _ =>
      exact hframe (frame_runFunctor { q with functors := rest } f) (fun _ hid => hid) rfl
  | handleRead now _ =>
      have hread := hframe (frame_getExpired q now) (fun _ hid => hid) rfl
      exact hread
  | dead => exact hframe (frame_assert q false .deadTimer) (fun _ hid => hid) rfl
  | run now ran e rest t hb ht =>
      exact ⟨fun _ hid => hid, Or.inr ⟨now, ran, e, rest, t, hb, ht, rfl⟩⟩
  | return_ b _ => exact ⟨fun _ hid => hid, Or.inl rfl⟩
  | finish now ran _ =>
      have hreset := hframe (frame_reset { q with callingExpiredTimers_ := false } ran now)
        (fun _ hid => hid) rfl
      exact hreset

/-- A timer whose turn it is has no turn behind it. -/
theorem OwnInv.turn_notMem_ran {q : TimerQueue} (h : OwnInv q) {now : Timestamp}
    {ran rest : List Entry}
    {e : Entry} {inside : Bool} (hb : q.batch = some ⟨now, ran, e :: rest, inside⟩) :
    e.timer ∉ ran.map Entry.timer := by
  intro hran
  have hnd := h.own.nodup
  rw [hb] at hnd
  have hheld : ((ran ++ e :: rest).map Entry.timer).Nodup := (List.nodup_append.mp hnd).2.1
  rw [List.map_append, List.nodup_append] at hheld
  exact hheld.2.2 _ hran _ List.mem_cons_self rfl

/-- **No step starts a settled timer**: it would have to be in the rest of the batch as well. -/
theorem settled_not_started {q : TimerQueue} {s : ℕ} (h : OwnInv q) (hset : Settled q s)
    (act : Act) :
    (q.step act).started.count s = q.started.count s := by
  obtain heq | ⟨now, ran, e, rest, t, hb, ht, heq⟩ := (history_effect (step_effect q act)).2
  · rw [heq]
  · rw [heq, List.count_append, List.count_singleton]
    have hne : t.sequence_ ≠ s := by
      intro hts
      have hran := (hset e.timer t ht hts).1
      rw [hb] at hran
      exact h.turn_notMem_ran hb hran
    simp [hne]

/-! ### The moment of the cancellation -/

/-- A cancellation deletes the timer if its entry is active. -/
theorem heap_cancelInLoop_eq {q : TimerQueue} {held : List ℕ} (h : Own q held) (id : TimerId) :
    (q.cancelInLoop id).heap =
      if toLex (id.timer_, id.sequence_) ∈ q.activeTimers_ then
        Function.update q.heap id.timer_ none
      else q.heap := by
  unfold cancelInLoop
  dsimp only
  rw [assert_heap, assert_activeTimers_]
  split
  · rename_i hact
    obtain ⟨t, ht, -, -⟩ := (h.active id.timer_ id.sequence_).mp hact
    rw [assert_heap, ht]
    simp [delete]
  · split <;> simp

/-- A timer outside the sets is not deleted by a cancellation. -/
theorem heap_cancelInLoop {q : TimerQueue} {held : List ℕ} (h : Own q held) (id : TimerId) {a : ℕ}
    (ha : a ∉ q.timers_.toList.map Entry.timer) : (q.cancelInLoop id).heap a = q.heap a := by
  rw [heap_cancelInLoop_eq h]
  split
  · rename_i hact
    obtain ⟨t, ht, -, hmem⟩ := (h.active id.timer_ id.sequence_).mp hact
    have hne : a ≠ id.timer_ := fun hai => ha (hai ▸ List.mem_map_of_mem hmem)
    exact heap_of_ne q hne none
  · rfl

/-- A move that executes `cancelInLoop` does nothing else, except for removing it from the queue. -/
theorem step_of_executesCancel {q : TimerQueue} {act : Act} {id : TimerId}
    (h : q.executesCancel act = some id) :
    ∃ fs, queued fs = queued q.functors ∧
    q.step act = { q with functors := fs }.cancelInLoop id := by
  cases act with
  | cancel inLoopThread id' =>
      cases inLoopThread with
      | false => cases h
      | true =>
          simp only [executesCancel] at h
          split at h
          · rename_i huser
            obtain rfl := Option.some.inj h
            exact ⟨q.functors, rfl, by simp [step, huser]⟩
          · cases h
  | functor =>
      simp only [executesCancel] at h
      split at h
      · rename_i id' rest hb hf
        obtain rfl := Option.some.inj h
        exact ⟨rest, by rw [hf]; rfl, by simp [step, hb, hf, runFunctor]⟩
      · cases h
  | addTimer inLoopThread address when_ interval repeats => cases h
  | handleRead now => cases h
  | run => cases h
  | return_ => cases h
  | finish => cases h

theorem mem_heldBy {a : ℕ} {b : Option Batch} :
    a ∈ heldBy b ↔ a ∈ (ranOf b).map Entry.timer ∨ a ∈ (restOf b).map Entry.timer := by
  cases b with
  | none => simp [heldBy, ranOf, restOf]
  | some b => rw [heldBy, List.map_append, List.mem_append]; rfl

/-- Where a live timer is. -/
theorem OwnInv.place {q : TimerQueue} (h : OwnInv q) {a : ℕ} {t : Timer} (ht : q.heap a = some t) :
    a ∈ queued q.functors ∨ toLex (a, t.sequence_) ∈ q.activeTimers_ ∨
      a ∈ (ranOf q.batch).map Entry.timer ∨ a ∈ (restOf q.batch).map Entry.timer := by
  have howned := (h.own.live a).mp ⟨t, ht⟩
  rw [owned, List.mem_append, List.mem_append, mem_heldBy] at howned
  rcases howned with (hq | hin) | hheld
  · exact Or.inl hq
  · obtain ⟨e, he, rfl⟩ := List.mem_map.mp hin
    obtain ⟨u, hu, hexp⟩ := h.own.entry e he
    obtain rfl : t = u := Option.some.inj (ht.symm.trans hu)
    refine Or.inr (Or.inl ((h.own.active _ _).mpr ⟨t, ht, rfl, ?_⟩))
    rw [hexp]
    exact he
  · exact Or.inr (Or.inr hheld)

theorem stillToRun_iff {q : TimerQueue} {id : TimerId} :
    q.stillToRun id = true ↔ ∃ t, q.heap id.timer_ = some t ∧ t.sequence_ = id.sequence_ ∧
      (id.timer_ ∈ queued q.functors ∨ id.timer_ ∈ (restOf q.batch).map Entry.timer) := by
  unfold stillToRun
  cases q.heap id.timer_ with
  | none => simp
  | some t => simp

/-- A timer outside the sets that is cancelled during its batch is remembered. -/
theorem canceling_of_heldBy {q : TimerQueue} (h : OwnInv q) {id : TimerId}
    (hact : toLex (id.timer_, id.sequence_) ∉ q.activeTimers_)
    (hheld : id.timer_ ∈ heldBy q.batch) :
    toLex (id.timer_, id.sequence_) ∈ (q.cancelInLoop id).cancelingTimers_ := by
  have hcalling : q.callingExpiredTimers_ = true := by
    rw [h.calling]
    cases hb : q.batch with
    | none => rw [hb] at hheld; exact absurd hheld List.not_mem_nil
    | some b => rfl
  unfold cancelInLoop
  simp [hact, hcalling]

/-- **A cancelled timer that is not still to run is settled.** -/
theorem settled_of_cancelInLoop {q : TimerQueue} (h : OwnInv q) {id : TimerId} (hid : id ∈ q.issued)
    (hnot : q.stillToRun id = false) : Settled (q.cancelInLoop id) id.sequence_ := by
  intro a t ht hs
  have hq := (cancelInLoop_mono q id).1 a t ht
  obtain rfl := (h.own.issued id hid).2 a t hq hs
  have hnot' :
      ¬ (id.timer_ ∈ queued q.functors ∨ id.timer_ ∈ (restOf q.batch).map Entry.timer) := by
    intro hplace
    rw [stillToRun_iff.mpr ⟨t, hq, hs, hplace⟩] at hnot
    cases hnot
  by_cases hact : toLex (id.timer_, id.sequence_) ∈ q.activeTimers_
  · -- it was in the sets, so it is deleted
    exfalso
    unfold cancelInLoop at ht
    simp [hact, hq, delete] at ht
  · have hran : id.timer_ ∈ (ranOf q.batch).map Entry.timer := by
      rcases h.place hq with hplace | hplace | hplace | hplace
      · exact absurd (Or.inl hplace) hnot'
      · exact absurd (hs ▸ hplace) hact
      · exact hplace
      · exact absurd (Or.inr hplace) hnot'
    refine ⟨?_, canceling_of_heldBy h hact (mem_heldBy.mpr (Or.inl hran))⟩
    rwa [batch_of_frame (frame_cancelInLoop q id)]

/-! ### A timer that is still to run can be started -/

theorem started_count_mono (q : TimerQueue) (s : ℕ) (run : List Act) :
    q.started.count s ≤ (exec step q run).started.count s := by
  refine exec_invariant (fun q' : TimerQueue => q.started.count s ≤ q'.started.count s) ?_ run
    le_rfl
  intro q' act hle
  obtain heq | ⟨_, _, _, _, t, -, -, heq⟩ := (history_effect (step_effect q' act)).2
  · rwa [heq]
  · rw [heq, List.count_append]
    exact hle.trans (Nat.le_add_right _ _)

/-- The loop of `handleRead` goes on to its next entry. -/
theorem exec_return_run {q : TimerQueue} {b : Batch} {e : Entry} {rest : List Entry} {t : Timer}
    (hb : q.batch = some b) (hrest : b.rest = e :: rest) (ht : q.heap e.timer = some t) :
    exec step q [.return_, .run] = { q with
      started := q.started ++ [t.sequence_]
      batch := some ⟨b.now, b.ran ++ [e], rest, true⟩ } := by
  obtain ⟨now, ran, rest', inside⟩ := b
  obtain rfl : rest' = e :: rest := hrest
  simp [exec, step, hb, ht]

theorem OwnInv.rest_live {q : TimerQueue} (h : OwnInv q) {b : Batch} (hb : q.batch = some b)
    {e : Entry} (he : e ∈ b.rest) : ∃ t, q.heap e.timer = some t := by
  refine (h.own.live e.timer).mpr (List.mem_append_right _ ?_)
  rw [hb]
  exact List.mem_map_of_mem (List.mem_append_right _ he)

/-- Every timer in the rest of the batch gets its turn. -/
theorem starts_rest {rest : List Entry} {q : TimerQueue} (h : OwnInv q) {b : Batch}
    (hb : q.batch = some b) (hrest : b.rest = rest) {a : ℕ} {t : Timer} (ht : q.heap a = some t)
    (ha : a ∈ rest.map Entry.timer) :
    ∃ run, q.started.count t.sequence_ < (exec step q run).started.count t.sequence_ := by
  induction rest generalizing q b with
  | nil => exact absurd ha List.not_mem_nil
  | cons e rest ih =>
      obtain ⟨u, hu⟩ := h.rest_live hb (hrest ▸ List.mem_cons_self)
      have hnext := exec_return_run hb hrest hu
      by_cases hea : e.timer = a
      · obtain rfl : t = u := Option.some.inj (ht.symm.trans (hea ▸ hu))
        refine ⟨[.return_, .run], ?_⟩
        rw [hnext]
        simp
      · have ha' : a ∈ rest.map Entry.timer := by
          rw [List.map_cons, List.mem_cons] at ha
          exact ha.resolve_left (fun hae => hea hae.symm)
        have hinv : OwnInv (exec step q [.return_, .run]) :=
          exec_invariant OwnInv (fun _ act hq => ownInv_step hq act) _ h
        obtain ⟨run, hrun⟩ := ih hinv (by rw [hnext]) rfl (by rw [hnext]; exact ht) ha'
        refine ⟨[Act.return_, Act.run] ++ run, ?_⟩
        rw [exec_append]
        exact (started_count_mono q _ _).trans_lt hrun

/-- The current batch can be brought to its end, and the queued timers are untouched. -/
theorem exists_finished {rest : List Entry} {q : TimerQueue} (h : OwnInv q)
    (hrest : restOf q.batch = rest) :
    ∃ run, (exec step q run).batch = none ∧ (exec step q run).functors = q.functors ∧
      ∀ a ∈ queued q.functors, (exec step q run).heap a = q.heap a := by
  cases hb : q.batch with
  | none => exact ⟨[], hb, rfl, fun _ _ => rfl⟩
  | some b =>
      rw [hb] at hrest
      induction rest generalizing q b with
      | nil =>
          obtain ⟨now, ran, rest', inside⟩ := b
          obtain rfl : rest' = [] := hrest
          refine ⟨[.return_, .finish], ?_⟩
          have hlast : exec step q [.return_, .finish] =
              { { q with
                  callingExpiredTimers_ := false
                  batch := some ⟨now, ran, [], false⟩ }.reset ran now with batch := none } := by
            simp [exec, step, hb]
          rw [hlast]
          refine ⟨rfl, ?_, fun a ha => (heap_reset ..).trans (if_neg ?_)⟩
          · exact (functors_of_frame (frame_reset ..)).trans rfl
          · -- a timer in the queue is not in the batch
            intro hran
            have hnd := h.own.nodup
            rw [hb, owned, List.append_assoc, List.nodup_append] at hnd
            refine hnd.2.2 a ha a (List.mem_append_right _ ?_) rfl
            rw [heldBy, List.map_append]
            exact List.mem_append_left _ hran
      | cons e rest ih =>
          replace hrest : b.rest = e :: rest := hrest
          obtain ⟨t, ht⟩ := h.rest_live hb (hrest ▸ List.mem_cons_self)
          have hnext := exec_return_run hb hrest ht
          have hinv : OwnInv (exec step q [.return_, .run]) :=
            exec_invariant OwnInv (fun _ act hq => ownInv_step hq act) _ h
          obtain ⟨run, hbatch, hfun, hheap⟩ :=
            ih hinv ⟨b.now, b.ran ++ [e], rest, true⟩ rfl (by rw [hnext])
          refine ⟨[Act.return_, Act.run] ++ run, ?_⟩
          rw [exec_append]
          rw [hnext] at hbatch hfun hheap ⊢
          exact ⟨hbatch, hfun, hheap⟩

theorem mem_timers_addTimerInLoop {q : TimerQueue} {a : ℕ} {t : Timer} (ht : q.heap a = some t) :
    toLex (t.expiration_, a) ∈ (q.addTimerInLoop a).timers_ := by
  unfold addTimerInLoop
  rw [ht]
  dsimp only
  split <;> simp [insert, resetTimerfd]

/-- The loop gets to every queued `addTimerInLoop`. -/
theorem exists_added {fs : List TimerFunctor} {q : TimerQueue} (h : OwnInv q) (hb : q.batch = none)
    (hfs : q.functors = fs) {a : ℕ} {t : Timer} (ht : q.heap a = some t) (ha : a ∈ queued fs) :
    ∃ run, (exec step q run).batch = none ∧ (exec step q run).heap a = some t ∧
      toLex (t.expiration_, a) ∈ (exec step q run).timers_ := by
  induction fs generalizing q with
  | nil => exact absurd ha List.not_mem_nil
  | cons f fs ih =>
      have hstep : q.step .functor = { q with functors := fs }.runFunctor f := by
        simp [step, hb, hfs]
      have hframe := frame_runFunctor { q with functors := fs } f
      have hnotin : a ∉ q.timers_.toList.map Entry.timer := by
        intro hin
        have hnd := h.own.nodup
        rw [owned, hfs, List.append_assoc, List.nodup_append] at hnd
        exact hnd.2.2 a ha a (List.mem_append_left _ hin) rfl
      -- the first functor leaves the timer alone, unless it is the one that adds it
      have hgo : ({ q with functors := fs }.runFunctor f).heap a = some t → a ∈ queued fs →
          ∃ run, (exec step q run).batch = none ∧ (exec step q run).heap a = some t ∧
            toLex (t.expiration_, a) ∈ (exec step q run).timers_ := by
        intro hheap hmem
        obtain ⟨run, hrun⟩ := ih (q := q.step .functor) (ownInv_step h _)
          (by rw [hstep, batch_of_frame hframe]; exact hb)
          (by rw [hstep, functors_of_frame hframe]) (by rw [hstep]; exact hheap) hmem
        exact ⟨.functor :: run, hrun⟩
      cases f with
      | addTimerInLoop c =>
          have hheap : ({ q with functors := fs }.addTimerInLoop c).heap a = some t := by
            rw [heap_addTimerInLoop]
            exact ht
          by_cases hca : c = a
          · subst hca
            refine ⟨[.functor], ?_⟩
            rw [exec_cons, exec_nil, hstep]
            exact ⟨(batch_of_frame hframe).trans hb, hheap, mem_timers_addTimerInLoop ht⟩
          · exact hgo hheap ((List.mem_cons.mp ha).resolve_left (fun hac => hca hac.symm))
      | cancelInLoop id =>
          refine hgo ?_ ha
          have hpop : Own { q with functors := fs } (heldBy q.batch) := by
            refine (h.setFunctors ?_).own
            rw [hfs]
            rfl
          exact (heap_cancelInLoop hpop id hnotin).trans ht

/-- **Nothing stops a timer that is still to run.** -/
theorem stillToRun_starts {q : TimerQueue} (h : OwnInv q) {id : TimerId}
    (hstill : q.stillToRun id = true) :
    ∃ run, q.started.count id.sequence_ < (exec step q run).started.count id.sequence_ := by
  have hinv : ∀ run, OwnInv (exec step q run) := fun run =>
    exec_invariant OwnInv (fun _ act hq => ownInv_step hq act) run h
  obtain ⟨t, ht, hseq, hqueued | hrest⟩ := stillToRun_iff.mp hstill
  · -- finish the batch, run the functors, and let the clock pass the expiration
    obtain ⟨run₁, hb₁, hf₁, hheap₁⟩ := exists_finished h rfl
    obtain ⟨run₂, hb₂, hheap₂, hmem₂⟩ := exists_added (hinv run₁) hb₁ hf₁
      ((hheap₁ _ hqueued).trans ht) hqueued
    rw [← exec_append] at hb₂ hheap₂ hmem₂
    set q₂ := exec step q (run₁ ++ run₂) with hq₂
    have hread : q₂.step (.handleRead (t.expiration_ + 1)) =
        { (q₂.getExpired (t.expiration_ + 1)).1 with
        callingExpiredTimers_ := true
        cancelingTimers_ := .empty
        batch := some ⟨t.expiration_ + 1, [], (q₂.getExpired (t.expiration_ + 1)).2, false⟩ } := by
      simp [step, hb₂]
    have hexpired : toLex (t.expiration_, id.timer_) ∈ (q₂.getExpired (t.expiration_ + 1)).2 := by
      rw [expired_eq, OrderedSet.mem_below]
      exact ⟨hmem₂, Prod.Lex.toLex_lt_toLex.mpr (Or.inl (by simp))⟩
    obtain ⟨run₃, hrun₃⟩ := starts_rest (ownInv_step (hinv _) (.handleRead (t.expiration_ + 1)))
      (by rw [← hq₂, hread]) rfl (t := t) (a := id.timer_)
      (by rw [← hq₂, hread]; exact (congrFun (heap_getExpired _ _) _).trans hheap₂)
      (List.mem_map_of_mem hexpired)
    rw [hseq] at hrun₃
    refine ⟨run₁ ++ run₂ ++ Act.handleRead (t.expiration_ + 1) :: run₃, ?_⟩
    rw [exec_append, exec_cons]
    refine lt_of_le_of_lt ?_ hrun₃
    exact (started_count_mono q _ (run₁ ++ run₂)).trans
      (started_count_mono q₂ _ [.handleRead (t.expiration_ + 1)])
  · cases hb : q.batch with
    | none => rw [hb] at hrest; exact absurd hrest List.not_mem_nil
    | some b =>
        rw [hb] at hrest
        exact hseq ▸ starts_rest h hb rfl ht hrest

/-- A cancellation does not change whether the timer is still to run. -/
theorem stillToRun_cancelInLoop {q : TimerQueue} (h : OwnInv q) {id : TimerId}
    (hstill : q.stillToRun id = true) : (q.cancelInLoop id).stillToRun id = true := by
  obtain ⟨t, ht, hseq, hplace⟩ := stillToRun_iff.mp hstill
  have hframe := frame_cancelInLoop q id
  have hnotin : id.timer_ ∉ q.timers_.toList.map Entry.timer := by
    intro hin
    have hnd := h.own.nodup
    rw [owned, List.append_assoc, List.nodup_append, List.nodup_append] at hnd
    rcases hplace with hqueued | hrest
    · exact hnd.2.2 _ hqueued _ (List.mem_append_left _ hin) rfl
    · exact hnd.2.1.2.2 _ hin _ (mem_heldBy.mpr (Or.inr hrest)) rfl
  refine stillToRun_iff.mpr ⟨t, ?_, hseq, ?_⟩
  · rw [heap_cancelInLoop h.own id hnotin, ht]
  · rwa [functors_of_frame hframe, batch_of_frame hframe]

/-! ### The result -/

/-- **When a cancellation is final.**  After `cancelInLoop(id)` has executed for an identifier
that `addTimer` returned, the callback is never started again, in any continuation, if and
only if the timer was neither waiting in a queued `addTimerInLoop` nor in the part of the
batch that had not run. -/
theorem cancel_final_iff (before : List Act) (act : Act) (id : TimerId)
    (hexec : executesCancel (exec step new before) act = some id)
    (hid : id ∈ (exec step new before).issued) :
    (∀ after, (exec step new (before ++ act :: after)).started.count id.sequence_ =
      (exec step new before).started.count id.sequence_) ↔
    stillToRun (exec step new before) id = false := by
  have hown := ownInv_exec before
  simp only [exec_append, exec_cons]
  set q := exec step new before with hq
  obtain ⟨fs, hfs, hstep⟩ := step_of_executesCancel hexec
  have hown' := hown.setFunctors hfs
  have hstill : stillToRun { q with functors := fs } id = stillToRun q id := by
    unfold stillToRun
    rw [hfs]
  have hstarted : (q.step act).started = q.started := by
    rw [hstep]
    exact (started_of_frame (frame_cancelInLoop ..)).trans rfl
  rw [← hstarted]
  constructor
  · intro hfinal
    by_contra hne
    rw [Bool.not_eq_false, ← hstill] at hne
    have hstill' : (q.step act).stillToRun id = true := by
      rw [hstep]
      exact stillToRun_cancelInLoop hown' hne
    obtain ⟨run, hrun⟩ := stillToRun_starts (ownInv_step hown act) hstill'
    exact hrun.ne' (hfinal run)
  · intro hnot after
    have hsettled : Settled (q.step act) id.sequence_ := by
      rw [hstep]
      exact settled_of_cancelInLoop hown' hid (hstill.trans hnot)
    -- along the continuation: ownership, the number was issued, it stays settled, nothing started
    let Kept : TimerQueue → Prop := fun q' =>
      OwnInv q' ∧ id ∈ q'.issued ∧ Settled q' id.sequence_ ∧
        q'.started.count id.sequence_ = (q.step act).started.count id.sequence_
    have hkept : ∀ q' a', Kept q' → Kept (q'.step a') := fun q' a' ⟨ho, hi, hs, hc⟩ =>
      ⟨ownInv_step ho a', (history_effect (step_effect q' a')).1 id hi,
        settled_effect hs (ho.own.issued id hi).1 (step_effect q' a'),
        (settled_not_started ho hs a').trans hc⟩
    have hrun : Kept (exec step (q.step act) after) :=
      exec_invariant Kept hkept after
        ⟨ownInv_step hown act, (history_effect (step_effect q act)).1 id hid, hsettled, rfl⟩
    exact hrun.2.2.2

/-- A repeating timer that cancels itself from its own callback is silent from then on. -/
theorem cancel_final_self :
    stillToRun (exec step new [.addTimer true 1 10 5 true, .handleRead 11, .run]) ⟨1, 1⟩ = false ∧
    ∀ after, (exec step new ([.addTimer true 1 10 5 true, .handleRead 11, .run] ++
      .cancel true ⟨1, 1⟩ :: after)).started.count 1 = 1 :=
  ⟨by decide +kernel,
    fun after => ((cancel_final_iff [.addTimer true 1 10 5 true, .handleRead 11, .run]
    (.cancel true ⟨1, 1⟩) ⟨1, 1⟩ (by decide +kernel) (by decide +kernel)).mpr (by decide +kernel)
      after).trans (by decide +kernel)⟩

/-- Two timers expire together; the first callback cancels the second timer, which runs all the
same. -/
theorem cancelled_timer_runs :
    (exec step new [.addTimer true 1 10 0 false, .addTimer true 2 10 0 false,
      .handleRead 11, .run]).started = [1] ∧
    executesCancel (exec step new [.addTimer true 1 10 0 false, .addTimer true 2 10 0 false,
      .handleRead 11, .run]) (.cancel true ⟨2, 2⟩) = some ⟨2, 2⟩ ∧
    ⟨2, 2⟩ ∈ (exec step new [.addTimer true 1 10 0 false, .addTimer true 2 10 0 false,
      .handleRead 11, .run]).issued ∧
    (exec step new [.addTimer true 1 10 0 false, .addTimer true 2 10 0 false, .handleRead 11, .run,
      .cancel true ⟨2, 2⟩, .return_, .run]).started = [1, 2] := by
  decide +kernel

end TimerQueue

end Muduo.Net
