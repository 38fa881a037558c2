import Muduo.Net.TimerRepresentation

/-!
# The identifier that `addTimer` returns

A call of `TimerQueue::addTimer` by a thread other than the loop's is three steps: it makes the
timer, it queues `addTimerInLoop`, and then it reads `timer->sequence()` for the identifier that it
returns.  From the second step on the timer belongs to the loop thread, which deletes a timer that
does not repeat at the end of the batch in which it has run.

Each call in progress is known by the timer it has made, so any number of threads may be in
`addTimer`.

* `AddCalls`, `CallAct`, `AddCalls.step` — the calls and the queue; a timer is cancelled only with
  an identifier that some call has returned;
* `survives_step` — a step of the queue deletes a timer only if it is being cancelled, or if it does
  not repeat and its batch ends;
* `settled` — the condition: when a batch ends, no timer in it that does not repeat is still to be
  read;
* `addTimer_identity` — under it every call returns the identity of its own timer; `addTimer_stale`
  — a run in which one does not.
-/

namespace Muduo.Net

open Muduo.Lib

namespace TimerQueue

variable {q : TimerQueue}

/-! ### What a step deletes -/

/-- A cancellation is queued, or remembered for the end of the batch. -/
def Cancelling (q : TimerQueue) (id : TimerId) : Prop :=
  .cancelInLoop id ∈ q.functors ∨ toLex (id.timer_, id.sequence_) ∈ q.cancelingTimers_

theorem canceling_cancelInLoop (q : TimerQueue) (id : TimerId) {x : ActiveTimer}
    (hx : x ∈ (q.cancelInLoop id).cancelingTimers_) :
    x ∈ q.cancelingTimers_ ∨ x = toLex (id.timer_, id.sequence_) := by
  unfold cancelInLoop at hx
  dsimp only at hx
  rw [assert_cancelingTimers_] at hx
  split at hx
  · split at hx
    · exact Or.inl (by simpa using hx)
    · exact Or.inl (by simpa [delete] using hx)
  · split at hx
    · rcases OrderedSet.mem_insert.mp hx with rfl | hx
      · exact Or.inr rfl
      · exact Or.inl (by simpa using hx)
    · exact Or.inl (by simpa using hx)

theorem canceling_reset (q : TimerQueue) (es : List Entry) (now : Timestamp) :
    (q.reset es now).cancelingTimers_ = q.cancelingTimers_ :=
  reset_keeps cancelingTimers_ canceling_rearm (fun _ _ _ => rfl) q es now

theorem cancelling_cancelInLoop {id id' : TimerId} (h : Cancelling (q.cancelInLoop id') id) :
    Cancelling q id ∨ id = id' := by
  rcases h with hf | hc
  · rw [functors_of_frame (frame_cancelInLoop q id')] at hf
    exact Or.inl (Or.inl hf)
  · rcases canceling_cancelInLoop q id' hc with hc | hc
    · exact Or.inl (Or.inr hc)
    · obtain ⟨htimer, hseq⟩ := Prod.mk.inj (toLex.injective hc)
      refine Or.inr ?_
      rw [TimerId.mk.injEq]
      exact ⟨htimer, hseq⟩

theorem cancelling_addTimerInLoop {id : TimerId} {a : ℕ} (h : Cancelling (q.addTimerInLoop a) id) :
    Cancelling q id := by
  rcases h with hf | hc
  · rw [functors_of_frame (frame_addTimerInLoop q a)] at hf
    exact Or.inl hf
  · rw [canceling_addTimerInLoop] at hc
    exact Or.inr hc

/-- **A cancellation begins with a call of `cancel`.** -/
theorem cancelling_step (q : TimerQueue) (act : Act) (id : TimerId) :
    Cancelling (q.step act) id → Cancelling q id ∨ ∃ inLoopThread,
    act = .cancel inLoopThread id := by
  refine step_cases q ?idle ?queueAdd ?add ?queueCancel ?cancel ?functor ?handleRead
    ?dead ?run ?return_ ?finish act
  case idle => exact fun _ h => Or.inl h
  case queueAdd =>
    rintro _ a _ _ _ _ _ (hf | hc)
    · exact Or.inl (Or.inl (by simpa using hf))
    · exact Or.inl (Or.inr hc)
  case add =>
    intro _ a when_ interval repeats _ _ h
    exact Or.inl (cancelling_addTimerInLoop (q := q.create a when_ interval repeats) h)
  case queueCancel =>
    rintro inLoopThread id' (hf | hc)
    · rcases List.mem_append.mp hf with hf | hf
      · exact Or.inl (Or.inl hf)
      · cases List.mem_singleton.mp hf
        exact Or.inr ⟨inLoopThread, rfl⟩
    · exact Or.inl (Or.inr hc)
  case cancel =>
    intro inLoopThread id' h
    rcases cancelling_cancelInLoop h with h | rfl
    · exact Or.inl h
    · exact Or.inr ⟨inLoopThread, rfl⟩
  case functor =>
    intro f rest _ hfunctors h
    have hrest : ∀ g ∈ rest, g ∈ q.functors := fun g hg => hfunctors ▸ List.mem_cons_of_mem _ hg
    refine Or.inl ?_
    cases f with
    | addTimerInLoop a =>
        rcases cancelling_addTimerInLoop h with hf | hc
        · exact Or.inl (hrest _ hf)
        · exact Or.inr hc
    | cancelInLoop id' =>
        rcases cancelling_cancelInLoop h with (hf | hc) | rfl
        · exact Or.inl (hrest _ hf)
        · exact Or.inr hc
        · exact Or.inl (hfunctors ▸ List.mem_cons_self)
  case handleRead =>
    rintro now _ (hf | hc)
    · have hfun : (q.getExpired now).1.functors = q.functors :=
        functors_of_frame (frame_getExpired q now)
      exact Or.inl (Or.inl (hfun ▸ hf))
    · exact absurd hc (by simp [OrderedSet.empty, OrderedSet.mem_def])
  case dead =>
    rintro _ _ _ _ _ _ (hf | hc)
    · exact Or.inl (Or.inl (by simpa using hf))
    · exact Or.inl (Or.inr (by simpa using hc))
  case run => exact fun _ _ _ _ _ _ _ h => Or.inl h
  case return_ => exact fun _ _ h => Or.inl h
  case finish =>
    rintro now ran _ (hf | hc)
    · have hfun := functors_of_frame (frame_reset { q with callingExpiredTimers_ := false } ran now)
      exact Or.inl (Or.inl (hfun ▸ hf))
    · have hcan := canceling_reset { q with callingExpiredTimers_ := false } ran now
      exact Or.inl (Or.inr (hcan ▸ hc))

/-- Only its own identifier cancels a timer. -/
theorem live_cancelInLoop {held : List ℕ} (h : Own q held) {id id' : TimerId} (hne : id' ≠ id)
    (hlive : q.Live id) : (q.cancelInLoop id').Live id := by
  obtain ⟨t, ht, hs⟩ := hlive
  refine ⟨t, ?_, hs⟩
  rw [heap_cancelInLoop_eq h]
  split
  · rename_i hact
    obtain ⟨u, hu, hus, -⟩ := (h.active id'.timer_ id'.sequence_).mp hact
    have haddr : id.timer_ ≠ id'.timer_ := by
      intro haddr
      obtain rfl : t = u := Option.some.inj (ht.symm.trans (haddr ▸ hu))
      apply hne
      rw [TimerId.mk.injEq]
      exact ⟨haddr.symm, hus.symm.trans hs⟩
    exact (heap_of_ne q haddr none).trans ht
  · exact ht

/-- In `reset` a timer is spared that repeats and is not being cancelled. -/
theorem live_reset {id : TimerId} {es : List Entry} {now : Timestamp}
    (hc : toLex (id.timer_, id.sequence_) ∉ q.cancelingTimers_) {t : Timer}
    (ht : q.heap id.timer_ = some t)
    (hs : t.sequence_ = id.sequence_) (hrep : id.timer_ ∈ es.map Entry.timer → t.repeat_ = true) :
    (q.reset es now).Live id := by
  rw [Live, heap_reset]
  split
  · rename_i hin
    exact ⟨t.restart now, rearmed_eq_some.mpr ⟨t, ht, hrep hin, hs ▸ hc, rfl⟩, hs⟩
  · exact ⟨t, ht, hs⟩

/-- A timer of the batch that does not repeat is deleted. -/
theorem dead_reset {es : List Entry} {now : Timestamp} {a : ℕ} (ha : a ∈ es.map Entry.timer)
    (hrep : ∀ t, q.heap a = some t → t.repeat_ = false) : (q.reset es now).heap a = none := by
  rw [heap_reset, if_pos ha]
  refine Option.eq_none_iff_forall_ne_some.mpr fun t ht => ?_
  obtain ⟨u, hu, hrepeat, -, -⟩ := rearmed_eq_some.mp ht
  exact Bool.false_ne_true ((hrep u hu).symm.trans hrepeat)

theorem live_create {id : TimerId} (hlive : q.Live id) {a : ℕ} (hfree : q.heap a = none)
    (when_ : Timestamp)
    (interval : ℤ) (repeats : Bool) : (q.create a when_ interval repeats).Live id := by
  obtain ⟨t, ht, hs⟩ := hlive
  have ha : id.timer_ ≠ a := by
    rintro rfl
    rw [hfree] at ht
    cases ht
  exact ⟨t, (heap_of_ne q ha _).trans ht, hs⟩

/-- When this step ends the batch, a timer of the batch with this identity repeats. -/
def Spares (q : TimerQueue) (act : Act) (id : TimerId) : Prop :=
  ∀ now ran, act = .finish → q.batch = some ⟨now, ran, [], false⟩ →
  id.timer_ ∈ ran.map Entry.timer →
    ∀ t, q.heap id.timer_ = some t → t.repeat_ = true

/-- **A live timer stays live** if it is not being cancelled and is spared at the end
of the batch. -/
theorem survives_step {held : List ℕ} (h : Own q held) {id : TimerId} (hlive : q.Live id)
    (hc : ¬ Cancelling q id) (act : Act) :
    (∀ inLoopThread, act ≠ .cancel inLoopThread id) → Spares q act id → (q.step act).Live id := by
  have hheap : ∀ {q' : TimerQueue}, q'.heap = q.heap → q'.Live id := by
    intro q' hq'
    rw [Live, hq']
    exact hlive
  refine step_cases q ?idle ?queueAdd ?add ?queueCancel ?cancel ?functor ?handleRead
    ?dead ?run ?return_ ?finish act
  case idle => exact fun _ _ _ => hlive
  case queueAdd =>
    exact fun _ a when_ interval repeats hfree _ _ _ =>
      live_create hlive hfree when_ interval repeats
  case add =>
    intro _ a when_ interval repeats hfree _ _ _
    rw [Live, heap_addTimerInLoop]
    exact live_create hlive hfree when_ interval repeats
  case queueCancel => exact fun _ _ _ _ => hlive
  case cancel =>
    intro inLoopThread id' hact _
    exact live_cancelInLoop h (fun heq => hact inLoopThread (by rw [heq])) hlive
  case functor =>
    intro f rest _ hfunctors _ _
    cases f with
    | addTimerInLoop a => exact hheap (heap_addTimerInLoop { q with functors := rest } a)
    | cancelInLoop id' =>
        have hne : id' ≠ id := by
          rintro rfl
          exact hc (Or.inl (hfunctors ▸ List.mem_cons_self))
        exact live_cancelInLoop (h.setFunctors (by rw [hfunctors]; rfl)) hne hlive
  case handleRead => exact fun now _ _ _ => hheap (heap_getExpired q now)
  case dead => exact fun _ _ _ _ _ _ _ _ => hheap (assert_heap ..)
  case run => exact fun _ _ _ _ _ _ _ _ _ => hlive
  case return_ => exact fun _ _ _ _ => hlive
  case finish =>
    intro now ran hb _ hspares
    obtain ⟨t, ht, hs⟩ := hlive
    exact live_reset (q := { q with callingExpiredTimers_ := false }) (fun hx => hc (Or.inr hx)) ht
      hs (fun hmem => hspares now ran rfl hb hmem t ht)

end TimerQueue

/-! ### The calls of `addTimer` -/

/-- The calls in progress are listed by the identities of the timers they have made. -/
structure AddCalls where
  queue : TimerQueue
  /-- Calls before `runInLoop`. -/
  made : List TimerId
  /-- Calls that have queued `addTimerInLoop` and are to read `timer->sequence()`. -/
  pushed : List TimerId
  /-- The calls that have returned: the timer each has made, and the identifier it has returned. -/
  returned : List (TimerId × TimerId)
  /-- The timers whose sequence number was read when nothing was at their address any more. -/
  deadReads : List TimerId

inductive CallAct where
  /-- `new Timer(cb, when, interval)` by another thread, at the address the allocator picks. -/
  | make (address : ℕ) (when_ : Timestamp) (interval : ℤ) (repeats : Bool)
  /-- `queueInloop` by another thread. -/
  | push (id : TimerId)
  /-- The other thread reads the sequence number; `stale` is what it finds in memory
  that has been freed. -/
  | read (id : TimerId) (stale : ℕ)
  /-- A call of `addTimer` on the loop thread. -/
  | addTimer (address : ℕ) (when_ : Timestamp) (interval : ℤ) (repeats : Bool) (stale : ℕ)
  /-- Any other move: a call of `cancel`, or a move of the loop. -/
  | move (act : TimerQueue.Act)

namespace AddCalls

def new : AddCalls where
  queue := .new
  made := []
  pushed := []
  returned := []
  deadReads := []

/-- `return TimerId(timer, timer->sequence())`. -/
def readSequence (s : AddCalls) (id : TimerId) (stale : ℕ) : AddCalls :=
  match s.queue.heap id.timer_ with
  | some t => { s with returned := s.returned ++ [(id, ⟨id.timer_, t.sequence_⟩)] }
  | none => { s with
      returned := s.returned ++ [(id, ⟨id.timer_, stale⟩)]
      deadReads := s.deadReads ++ [id] }

def step (s : AddCalls) : CallAct → AddCalls
  | .make address when_ interval repeats =>
      if s.queue.heap address = none ∧ address < uintptrMax then
        { s with
          queue := s.queue.create address when_ interval repeats
          made := ⟨address, s.queue.numCreated + 1⟩ :: s.made }
      else s
  | .push id =>
      if id ∈ s.made then
        { s with
          queue := { s.queue with functors := s.queue.functors ++ [.addTimerInLoop id.timer_] }
          made := s.made.erase id
          pushed := id :: s.pushed }
      else s
  | .read id stale =>
      if id ∈ s.pushed then { s with pushed := s.pushed.erase id }.readSequence id stale else s
  | .addTimer address when_ interval repeats stale =>
      if s.queue.heap address = none ∧ address < uintptrMax ∧ s.queue.userCode then
        { s with
          queue := (s.queue.create address when_ interval repeats).addTimerInLoop address
        }.readSequence ⟨address, s.queue.numCreated + 1⟩ stale
      else s
  | .move act =>
      match act with
      -- a call of `addTimer` is one of the labels above
      | .addTimer .. => s
      | .cancel inLoopThread id =>
          if id ∈ s.returned.map Prod.snd then
            { s with queue := s.queue.step (.cancel inLoopThread id) }
          else s
      | act => { s with queue := s.queue.step act }

/-- When a batch ends, a timer in it that is still to be read repeats. -/
def settled (s : AddCalls) : CallAct → Bool
  | .move .finish =>
      match s.queue.batch with
      | some ⟨_, ran, [], false⟩ => s.pushed.all fun id =>
          id.timer_ ∉ ran.map Entry.timer || (s.queue.heap id.timer_).any Timer.repeat_
      | _ => true
  | _ => true

/-! ### The invariant -/

structure CallsInv (s : AddCalls) : Prop where
  own : s.queue.Own (TimerQueue.heldBy s.queue.batch ++ s.made.map TimerId.timer_)
  nodup : (s.made ++ s.pushed).Nodup
  /-- The timers that calls are about to read are live. -/
  live : ∀ id ∈ s.made ++ s.pushed, s.queue.Live id ∧ id ∈ s.queue.issued
  /-- They are not known outside. -/
  secret : ∀ r ∈ s.returned, r.2 ∈ s.queue.issued ∧ r.2 ∉ s.made ++ s.pushed
  cancels : ∀ id, s.queue.Cancelling id → id ∈ s.returned.map Prod.snd
  right : ∀ r ∈ s.returned, r.2 = r.1
  alive : s.deadReads = []

theorem callsInv_new : CallsInv new where
  own := TimerQueue.ownInv_new.own
  nodup := List.nodup_nil
  live := by simp [new]
  secret := by simp [new]
  cancels id h := by
    rcases h with h | h
    · exact absurd h List.not_mem_nil
    · exact absurd h (by simp [new, TimerQueue.new, OrderedSet.empty, OrderedSet.mem_def])
  right := by simp [new]
  alive := rfl

variable {s : AddCalls}

/-- A call returns what it reads: the sequence number of its own timer. -/
theorem readSequence_live {id : TimerId} (h : s.queue.Live id) (stale : ℕ) :
    s.readSequence id stale = { s with returned := s.returned ++ [(id, id)] } := by
  obtain ⟨t, ht, hs⟩ := h
  unfold readSequence
  rw [ht]
  dsimp only
  rw [hs]

/-- The new timer has a number above all that are known. -/
theorem CallsInv.unknown (h : CallsInv s) (a : ℕ) :
    ⟨a, s.queue.numCreated + 1⟩ ∉ s.made ++ s.pushed ∧
      ∀ r ∈ s.returned, r.2 ≠ ⟨a, s.queue.numCreated + 1⟩ := by
  constructor
  · intro hmem
    obtain ⟨⟨t, ht, hs⟩, -⟩ := h.live _ hmem
    have hle := h.own.fresh _ t ht
    simp only at hs
    omega
  · intro r hr heq
    have hle := (h.own.issued r.2 (h.secret r hr).1).1
    rw [heq] at hle
    simp only at hle
    omega

/-- Another thread makes a timer. -/
theorem CallsInv.make (h : CallsInv s) {a : ℕ} (hfree : s.queue.heap a = none) (when_ : Timestamp)
    (interval : ℤ) (repeats : Bool) :
    CallsInv { s with
      queue := s.queue.create a when_ interval repeats
      made := ⟨a, s.queue.numCreated + 1⟩ :: s.made } := by
  obtain ⟨hnew, hunknown⟩ := h.unknown a
  refine ⟨?_, List.nodup_cons.mpr ⟨hnew, h.nodup⟩, fun id hid => ?_, fun r hr => ?_,
    h.cancels, h.right, h.alive⟩
  · exact (TimerQueue.own_create h.own hfree when_ interval repeats).perm_held List.perm_middle
  · rcases List.mem_cons.mp hid with rfl | hid
    · exact ⟨⟨_, Function.update_self .., rfl⟩, List.mem_append_right _ List.mem_cons_self⟩
    · obtain ⟨hlive, hissued⟩ := h.live id hid
      exact ⟨TimerQueue.live_create hlive hfree when_ interval repeats,
        List.mem_append_left _ hissued⟩
  · obtain ⟨hissued, hnot⟩ := h.secret r hr
    refine ⟨List.mem_append_left _ hissued, fun hmem => ?_⟩
    rcases List.mem_cons.mp hmem with heq | hmem
    · exact hunknown r hr heq
    · exact hnot hmem

/-- It hands the timer to the loop. -/
theorem CallsInv.push (h : CallsInv s) {id : TimerId} (hid : id ∈ s.made) :
    CallsInv { s with
      queue := { s.queue with functors := s.queue.functors ++ [.addTimerInLoop id.timer_] }
      made := s.made.erase id
      pushed := id :: s.pushed } := by
  have hmade := List.perm_cons_erase hid
  have hcalls : (s.made.erase id ++ id :: s.pushed).Perm (s.made ++ s.pushed) :=
    List.perm_middle.trans (hmade.symm.append_right s.pushed)
  refine ⟨TimerQueue.own_queueAdd (h.own.perm_held ?_), hcalls.nodup_iff.mpr h.nodup,
    fun id' hid' => h.live id' (hcalls.mem_iff.mp hid'),
    fun r hr => ⟨(h.secret r hr).1, fun hmem => (h.secret r hr).2 (hcalls.mem_iff.mp hmem)⟩,
    fun id' hc => h.cancels id' ?_, h.right, h.alive⟩
  · have hheld := (hmade.map TimerId.timer_).append_left (TimerQueue.heldBy s.queue.batch)
    exact (hheld.trans List.perm_middle).symm
  · rcases hc with hf | hc
    · exact Or.inl (by simpa using hf)
    · exact Or.inr hc

/-- A call returns: its timer is known from now on. -/
theorem CallsInv.return_ (h : CallsInv s) {id : TimerId} (hlive : s.queue.Live id)
    (hissued : id ∈ s.queue.issued) (hnot : id ∉ s.made ++ s.pushed) (stale : ℕ) :
    CallsInv (s.readSequence id stale) := by
  rw [readSequence_live hlive]
  refine ⟨h.own, h.nodup, h.live, fun r hr => ?_, fun id' hc => ?_, fun r hr => ?_, h.alive⟩
  · rcases List.mem_append.mp hr with hr | hr
    · exact h.secret r hr
    · rw [List.mem_singleton.mp hr]
      exact ⟨hissued, hnot⟩
  · rw [List.map_append]
    exact List.mem_append_left _ (h.cancels id' hc)
  · rcases List.mem_append.mp hr with hr | hr
    · exact h.right r hr
    · rw [List.mem_singleton.mp hr]

/-- Another thread reads the sequence number of its timer. -/
theorem CallsInv.read (h : CallsInv s) {id : TimerId} (hid : id ∈ s.pushed) (stale : ℕ) :
    CallsInv ({ s with pushed := s.pushed.erase id }.readSequence id stale) := by
  have hcalls : (s.made ++ s.pushed).Perm (id :: (s.made ++ s.pushed.erase id)) :=
    ((List.perm_cons_erase hid).append_left s.made).trans List.perm_middle
  have hnd := List.nodup_cons.mp (hcalls.nodup_iff.mp h.nodup)
  have hsub : ∀ id' ∈ s.made ++ s.pushed.erase id, id' ∈ s.made ++ s.pushed :=
    fun id' hid' => hcalls.mem_iff.mpr (List.mem_cons_of_mem _ hid')
  have hrest : CallsInv { s with pushed := s.pushed.erase id } :=
    ⟨h.own, hnd.2, fun id' hid' => h.live id' (hsub id' hid'),
      fun r hr => ⟨(h.secret r hr).1, fun hmem => (h.secret r hr).2 (hsub r.2 hmem)⟩,
      h.cancels, h.right, h.alive⟩
  obtain ⟨hlive, hissued⟩ := h.live id (List.mem_append_right _ hid)
  exact hrest.return_ hlive hissued hnd.1 stale

/-- **A move of the queue**: it cancels only what is known, and it spares what is still
to be read. -/
theorem CallsInv.queue (h : CallsInv s) (act : TimerQueue.Act)
    (hcancel : ∀ inLoopThread id, act = .cancel inLoopThread id → id ∈ s.returned.map Prod.snd)
    (hspares : ∀ id ∈ s.made ++ s.pushed, s.queue.Spares act id) :
    CallsInv { s with queue := s.queue.step act } := by
  have hissued := (TimerQueue.history_effect (TimerQueue.step_effect s.queue act)).1
  have hunknown : ∀ id ∈ s.made ++ s.pushed, id ∉ s.returned.map Prod.snd := by
    intro id hid hmem
    obtain ⟨r, hr, rfl⟩ := List.mem_map.mp hmem
    exact (h.secret r hr).2 hid
  refine ⟨TimerQueue.own_effect h.own (TimerQueue.step_effect s.queue act), h.nodup,
    fun id hid => ⟨?_, ?_⟩,
    fun r hr => ⟨hissued _ (h.secret r hr).1, (h.secret r hr).2⟩, fun id hc => ?_, h.right, h.alive⟩
  · refine TimerQueue.survives_step h.own (h.live id hid).1 (fun hc => ?_) act (fun b hact => ?_)
      (hspares id hid)
    · exact hunknown id hid (h.cancels id hc)
    · exact hunknown id hid (hcancel b id hact)
  · exact hissued id (h.live id hid).2
  · rcases TimerQueue.cancelling_step s.queue act id hc with hc | ⟨b, hact⟩
    · exact h.cancels id hc
    · exact hcancel b id hact

/-- A timer that is not yet handed to the loop is in no batch. -/
theorem CallsInv.spares_made (h : CallsInv s) {id : TimerId} (hid : id ∈ s.made)
    (act : TimerQueue.Act) :
    s.queue.Spares act id := by
  intro now ran _ hb hran
  have hnd := h.own.nodup
  rw [hb, TimerQueue.owned] at hnd
  have hheld := (List.nodup_append.mp (List.nodup_append.mp hnd).2.1).2.2
  refine absurd rfl (hheld id.timer_ ?_ id.timer_ (List.mem_map_of_mem hid))
  rw [TimerQueue.heldBy, List.append_nil]
  exact hran

theorem CallsInv.spares (h : CallsInv s) {act : TimerQueue.Act}
    (hset : s.settled (.move act) = true) :
    ∀ id ∈ s.made ++ s.pushed, s.queue.Spares act id := by
  intro id hid
  rcases List.mem_append.mp hid with hid | hid
  · exact h.spares_made hid act
  · rintro now ran rfl hb hran t ht
    simp only [settled, hb, List.all_eq_true] at hset
    simpa [hran, ht] using hset id hid

/-- A call of `addTimer` on the loop thread. -/
theorem CallsInv.addTimer (h : CallsInv s) {a : ℕ}
    (hguard : s.queue.heap a = none ∧ a < uintptrMax ∧ s.queue.userCode) (when_ : Timestamp)
    (interval : ℤ) (repeats : Bool) (stale : ℕ) :
    CallsInv ({ s with
      queue := (s.queue.create a when_ interval repeats).addTimerInLoop a }.readSequence
      ⟨a, s.queue.numCreated + 1⟩ stale) := by
  have hstep : s.queue.step (.addTimer true a when_ interval repeats) =
      (s.queue.create a when_ interval repeats).addTimerInLoop a := by
    simp [TimerQueue.step, hguard.1, hguard.2.1, hguard.2.2]
  have hqueue := h.queue (.addTimer true a when_ interval repeats) (by rintro _ _ ⟨⟩)
    (by rintro _ _ _ _ ⟨⟩)
  rw [hstep] at hqueue
  refine hqueue.return_ ⟨⟨when_, interval, repeats, s.queue.numCreated + 1⟩, ?_, rfl⟩ ?_
    (h.unknown a).1 stale
  · rw [TimerQueue.heap_addTimerInLoop]
    exact Function.update_self ..
  · rw [TimerQueue.issued_of_frame (TimerQueue.frame_addTimerInLoop ..)]
    exact List.mem_append_right _ List.mem_cons_self

theorem callsInv_step (h : CallsInv s) (act : CallAct) (hset : s.settled act = true) :
    CallsInv (s.step act) := by
  cases act with
  | make a when_ interval repeats =>
      simp only [step]
      split
      · rename_i hfree
        exact h.make hfree.1 when_ interval repeats
      · exact h
  | push id =>
      simp only [step]
      split
      · rename_i hid
        exact h.push hid
      · exact h
  | read id stale =>
      simp only [step]
      split
      · rename_i hid
        exact h.read hid stale
      · exact h
  | addTimer a when_ interval repeats stale =>
      simp only [step]
      split
      · rename_i hguard
        exact h.addTimer hguard when_ interval repeats stale
      · exact h
  | move act =>
      simp only [step]
      split
      · exact h
      · split
        · rename_i id hid
          refine h.queue _ (fun b id' heq => ?_) (h.spares hset)
          cases heq
          exact hid
        · exact h
      · rename_i hcancel
        exact h.queue act (fun b id heq => absurd heq (hcancel b id)) (h.spares hset)

/-- **`addTimer` returns the identity of the timer it has made**, in every run in which, whenever
a batch of `handleRead` ends, no timer of the batch that does not repeat is still to be read by
the call that made it. -/
theorem addTimer_identity (run : List CallAct)
    (h : Along step (fun s act => s.settled act = true) new run) :
    (exec step new run).deadReads = [] ∧ ∀ r ∈ (exec step new run).returned, r.2 = r.1 := by
  have hinv :=
    along_invariant CallsInv (fun s act hs hset => callsInv_step hs act hset) callsInv_new h
  exact ⟨hinv.alive, hinv.right⟩

/-! ### A timer that is deleted before it is read -/

/-- **Where the condition fails, a timer that is still to be read is deleted.** -/
theorem dead_of_not_settled {act : CallAct} (hset : s.settled act = false) :
    ∃ id ∈ (s.step act).pushed, ¬ (s.step act).queue.Live id := by
  unfold settled at hset
  split at hset
  · split at hset
    · rename_i now ran hb
      obtain ⟨id, hid, hran⟩ := List.all_eq_false.mp hset
      simp only [Bool.or_eq_true, decide_eq_true_eq, not_or, not_not] at hran
      obtain ⟨hmem, hrep⟩ := hran
      refine ⟨id, hid, ?_⟩
      rintro ⟨t, ht, -⟩
      have hdead : (s.queue.step .finish).heap id.timer_ = none := by
        rw [TimerQueue.step, hb]
        refine TimerQueue.dead_reset hmem fun u hu => ?_
        replace hu : s.queue.heap id.timer_ = some u := hu
        simpa [hu] using hrep
      exact Option.some_ne_none t (ht.symm.trans hdead)
    · cases hset
  · cases hset

/-- Another thread makes a timer that does not repeat and hands it to the loop, which runs it
and ends the batch. -/
def runsOut : List CallAct :=
  [.make 1 5 0 false, .push ⟨1, 1⟩, .move .functor, .move (.handleRead 5),
    .move .run, .move .return_, .move .finish]

/-- The same with a timer that repeats. -/
def runsOn : List CallAct :=
  [.make 1 5 3 true, .push ⟨1, 1⟩, .move .functor, .move (.handleRead 5),
    .move .run, .move .return_, .move .finish]

/-- The other thread reads memory that has been freed.  If the loop thread has made a second
timer at the same address in the meantime, the identifier that is returned for the first timer is
that of the second. -/
theorem addTimer_stale :
    (exec step new (runsOut ++ [.read ⟨1, 1⟩ 77])).deadReads = [⟨1, 1⟩] ∧
    (⟨1, 1⟩, ⟨1, 2⟩) ∈
    (exec step new (runsOut ++ [.addTimer 1 9 0 false 0, .read ⟨1, 1⟩ 77])).returned := by
  decide

theorem addTimer_identity_repeats :
    (exec step new (runsOn ++ [.read ⟨1, 1⟩ 77])).deadReads = [] ∧
      ∀ r ∈ (exec step new (runsOn ++ [.read ⟨1, 1⟩ 77])).returned, r.2 = r.1 :=
  addTimer_identity _ (by decide)

end AddCalls

end Muduo.Net
