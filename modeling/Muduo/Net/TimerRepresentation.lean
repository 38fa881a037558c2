import Muduo.Net.TimerCancel

/-!
# The representation of the timer queue

The two sets of a `TimerQueue` hold the same timers under different keys, one of which, the
expiration, changes when a timer is restarted.  This file draws the consequences of the ownership
invariant: no assertion of the queue fails, no pointer to a deleted timer is followed, and a timer
is in one place at a time from its creation to its deletion.

* `SetInv.sizesAgree` — the two sets have the same size;
* `faults_insert`, `faults_cancelInLoop`, `faults_getExpired`, `faults_reset` — no function of the
  queue records a fault, and `faults_step` for every move;
* `Place`, `At` — where the timer of an identifier is; `exists_unique_place`;
* `timerQueue_representation` — all of it, for whole runs.
-/

namespace Muduo.Net

open Muduo.Lib

namespace TimerQueue

/-! ### The sizes of the two sets -/

section Sizes

variable {q : TimerQueue} {held : List ℕ} {a : ℕ} {t : Timer}

/-- The key of `activeTimers_` for an entry of `timers_`. -/
def activeKey (q : TimerQueue) (e : Entry) : ActiveTimer :=
  toLex (e.timer, ((q.heap e.timer).map Timer.sequence_).getD 0)

/-- A timer has one entry only, under its expiration. -/
theorem SetInv.nodup_timers (h : SetInv q) : (q.timers_.toList.map Entry.timer).Nodup := by
  refine q.timers_.nodup.map_on fun e he f hf hsame => ?_
  obtain ⟨t, ht, hte⟩ := h.entry e he
  obtain ⟨u, hu, huf⟩ := h.entry f hf
  obtain rfl : t = u := Option.some.inj (ht.symm.trans (hsame ▸ hu))
  rw [← Entry.toLex_time_timer e, ← Entry.toLex_time_timer f, ← hte, ← huf, hsame]

/-- **`activeTimers_` is `timers_` under the other key.** -/
theorem SetInv.perm_active (h : SetInv q) :
    q.activeTimers_.toList.Perm (q.timers_.toList.map q.activeKey) := by
  have hnd : (q.timers_.toList.map q.activeKey).Nodup := by
    refine List.Nodup.of_map (fun x => (ofLex x).1) ?_
    rw [List.map_map]
    exact h.nodup_timers
  refine (List.perm_ext_iff_of_nodup q.activeTimers_.nodup hnd).mpr fun x => ?_
  obtain ⟨a, s, rfl⟩ : ∃ a s, x = toLex (a, s) := ⟨(ofLex x).1, (ofLex x).2, rfl⟩
  rw [← OrderedSet.mem_def, h.active, List.mem_map]
  constructor
  · rintro ⟨t, ht, rfl, hmem⟩
    exact ⟨_, hmem, by simp [activeKey, ht]⟩
  · rintro ⟨e, he, hkey⟩
    obtain ⟨t, ht, hexp⟩ := h.entry e he
    rw [activeKey, ht] at hkey
    obtain ⟨rfl, rfl⟩ := Prod.mk.inj (toLex.injective hkey)
    refine ⟨t, ht, rfl, ?_⟩
    rw [hexp]
    exact he

theorem SetInv.sizesAgree (h : SetInv q) : q.sizesAgree = true := by
  have hlen := h.perm_active.length_eq
  rw [List.length_map] at hlen
  simp [TimerQueue.sizesAgree, OrderedSet.size, hlen]

theorem Own.sizesAgree (h : Own q held) : q.sizesAgree = true := h.setInv.sizesAgree

end Sizes

/-! ### No function records a fault -/

section Faults

variable {q : TimerQueue} {held : List ℕ} {a : ℕ} {t : Timer}

theorem faults_assert {p : Bool} (hp : p = true) (f : TimerFault) :
    (q.assert p f).faults = q.faults := by
  rw [hp]
  rfl

@[simp] theorem sizesAgree_assert (q : TimerQueue) (p : Bool) (f : TimerFault) :
    (q.assert p f).sizesAgree = q.sizesAgree := by
  simp [sizesAgree]

theorem faults_insert (h : Own q (a :: held)) (ht : q.heap a = some t) :
    (q.insert a t).faults = q.faults := by
  have hafter := (own_insert h ht).sizesAgree
  unfold insert at hafter ⊢
  rw [sizesAgree_assert] at hafter
  rw [faults_assert hafter]
  show (((q.assert _ _).assert _ _).assert _ _).faults = q.faults
  rw [faults_assert (by simpa using h.notMem_active t.sequence_),
    faults_assert (by simpa using h.notMem_timers t.expiration_), faults_assert h.sizesAgree]

theorem faults_addTimerInLoop (h : Own q (a :: held)) : (q.addTimerInLoop a).faults = q.faults := by
  obtain ⟨t, ht⟩ := (h.live a).mpr (List.mem_append_right _ List.mem_cons_self)
  unfold addTimerInLoop
  rw [ht]
  dsimp only
  split
  · exact faults_insert h ht
  · exact faults_insert h ht

theorem faults_cancelInLoop (h : Own q held) (id : TimerId) :
    (q.cancelInLoop id).faults = q.faults := by
  have hafter := (own_cancelInLoop h id).sizesAgree
  unfold cancelInLoop at hafter ⊢
  dsimp only at hafter ⊢
  rw [sizesAgree_assert] at hafter
  rw [faults_assert hafter]
  rw [assert_activeTimers_, assert_heap, assert_timers_, assert_callingExpiredTimers_]
  split
  · rename_i hact
    obtain ⟨t, ht, -, hmem⟩ := (h.active id.timer_ id.sequence_).mp hact
    rw [ht]
    show ((q.assert _ _).assert _ _).faults = q.faults
    rw [faults_assert (by simpa using hmem), faults_assert h.sizesAgree]
  · split
    · exact faults_assert h.sizesAgree _
    · exact faults_assert h.sizesAgree _

/-- The expired timers are live and in `activeTimers_`, each under its own key. -/
theorem faults_deactivate {es : List Entry} {q : TimerQueue} (hnd : (es.map Entry.timer).Nodup)
    (hin : ∀ e ∈ es, ∃ t, q.heap e.timer = some t ∧
      toLex (e.timer, t.sequence_) ∈ q.activeTimers_) :
    (q.deactivate es).faults = q.faults := by
  induction es generalizing q with
  | nil => rfl
  | cons e es ih =>
      obtain ⟨t, ht, hact⟩ := hin e List.mem_cons_self
      rw [List.map_cons, List.nodup_cons] at hnd
      unfold deactivate
      rw [ht]
      dsimp only
      rw [ih hnd.2]
      · exact faults_assert (by simpa using hact) _
      · intro e' he'
        obtain ⟨u, hu, hact'⟩ := hin e' (List.mem_cons_of_mem e he')
        refine ⟨u, by simpa using hu, ?_⟩
        rw [assert_activeTimers_, OrderedSet.mem_erase]
        refine ⟨fun heq => hnd.1 ?_, hact'⟩
        obtain ⟨hsame, -⟩ := Prod.mk.inj (toLex.injective heq)
        exact hsame ▸ List.mem_map_of_mem he'

/-- No timer sits at the address of the sentry, so the sentry separates by the time alone. -/
theorem sentry_le_iff {e : Entry} (he : e.timer < uintptrMax) (now : Timestamp) :
    toLex (now, uintptrMax) ≤ e ↔ now < e.time := by
  rw [← Entry.toLex_time_timer e, Prod.Lex.toLex_le_toLex]
  constructor
  · rintro (hlt | ⟨-, hle⟩)
    · exact hlt
    · exact absurd he (not_lt_of_ge hle)
  · exact Or.inl

/-- Nothing expired stays behind. -/
theorem earlierThanFirst_dropBelow (hbound : ∀ e ∈ q.timers_, e.timer < uintptrMax)
    (now : Timestamp) :
    earlierThanFirst now (q.timers_.dropBelow (toLex (now, uintptrMax))) = true := by
  unfold earlierThanFirst
  split
  · rfl
  · rename_i e es hl
    have he : e ∈ q.timers_.dropBelow (toLex (now, uintptrMax)) := by
      rw [OrderedSet.mem_def, hl]
      exact List.mem_cons_self
    obtain ⟨hmem, hle⟩ := OrderedSet.mem_dropBelow.mp he
    exact decide_eq_true ((sentry_le_iff (hbound e hmem) now).mp hle)

theorem faults_getExpired (h : SetInv q) (hbound : ∀ e ∈ q.timers_, e.timer < uintptrMax)
    (now : Timestamp) : (q.getExpired now).1.faults = q.faults := by
  have hafter := (setInv_getExpired h now).sizesAgree
  unfold getExpired at hafter ⊢
  dsimp only at hafter ⊢
  rw [sizesAgree_assert] at hafter
  rw [faults_assert hafter, faults_deactivate]
  · rw [assert_timers_, faults_assert (earlierThanFirst_dropBelow hbound now)]
    exact faults_assert h.sizesAgree _
  · rw [assert_timers_]
    have hsub : (q.timers_.below (toLex (now, uintptrMax))).Sublist q.timers_.toList :=
      List.takeWhile_sublist _
    exact h.nodup_timers.sublist (hsub.map _)
  · intro e he
    rw [assert_timers_, OrderedSet.mem_below] at he
    obtain ⟨t, ht, hexp⟩ := h.entry e he.1
    refine ⟨t, by simpa using ht, ?_⟩
    rw [assert_activeTimers_]
    show _ ∈ (q.assert _ _).activeTimers_
    rw [assert_activeTimers_, h.active]
    exact ⟨t, ht, rfl, hexp ▸ he.1⟩

theorem faults_rearm {e : Entry} (h : Own q (e.timer :: held)) (now : Timestamp) :
    (q.rearm now e).faults = q.faults := by
  obtain ⟨t, ht⟩ := (h.live e.timer).mpr (List.mem_append_right _ List.mem_cons_self)
  unfold rearm
  rw [ht]
  dsimp only
  split
  · exact faults_insert (own_restart h ht rfl) (Function.update_self ..)
  · rfl

theorem faults_reset {es : List Entry} (h : Own q (es.map Entry.timer ++ held)) (now : Timestamp) :
    (q.reset es now).faults = q.faults := by
  have hfold : (es.foldl (fun q e => q.rearm now e) q).faults = q.faults ∧
      Own (es.foldl (fun q e => q.rearm now e) q) held := by
    induction es generalizing q with
    | nil => exact ⟨rfl, h⟩
    | cons e es ih =>
        obtain ⟨hf, ho⟩ := ih (own_rearm h now)
        exact ⟨hf.trans (faults_rearm h now), ho⟩
  unfold reset
  dsimp only
  split
  · exact hfold.1
  · rename_i e es' hl
    -- the first entry is that of a live timer
    obtain ⟨t, ht, -⟩ := hfold.2.entry e (by rw [OrderedSet.mem_def, hl]; exact List.mem_cons_self)
    rw [ht]
    dsimp only
    split
    · exact hfold.1
    · exact hfold.1

end Faults

/-! ### Which timers a move can bring to life -/

section Heap

variable {q : TimerQueue} {a : ℕ} {t : Timer}

/-- A timer with the same constant members is live here. -/
def WasLive (q : TimerQueue) (a : ℕ) (t : Timer) : Prop :=
  ∃ u, q.heap a = some u ∧ u.constants = t.constants

/-- The move creates this timer. -/
def CreatedBy (q : TimerQueue) (act : Act) (a : ℕ) (t : Timer) : Prop :=
  a < uintptrMax ∧ ∃ inLoopThread when_ interval repeats,
    act = .addTimer inLoopThread a when_ interval repeats ∧
      t = ⟨when_, interval, repeats, q.numCreated + 1⟩

theorem live_of_rearmed {now : Timestamp} (ht : q.rearmed now a = some t) : q.WasLive a t := by
  obtain ⟨u, hu, -, -, rfl⟩ := rearmed_eq_some.mp ht
  exact ⟨u, hu, rfl⟩

theorem live_of_rearm {e : Entry} {now : Timestamp} (ht : (q.rearm now e).heap a = some t) :
    q.WasLive a t := by
  rw [heap_rearm] at ht
  by_cases ha : a = e.timer
  · rw [ha, Function.update_self] at ht
    exact ha ▸ live_of_rearmed ht
  · exact ⟨t, (heap_of_ne q ha _).symm.trans ht, rfl⟩

theorem live_of_reset {es : List Entry} {now : Timestamp} (ht : (q.reset es now).heap a = some t) :
    q.WasLive a t := by
  rw [heap_reset] at ht
  split at ht
  · exact live_of_rearmed ht
  · exact ⟨t, ht, rfl⟩

theorem live_of_create {address : ℕ} {when_ : Timestamp} {interval : ℤ} {repeats : Bool}
    (haddress : address < uintptrMax) (inLoopThread : Bool)
    (ht : (q.create address when_ interval repeats).heap a = some t) :
    q.WasLive a t ∨ q.CreatedBy (.addTimer inLoopThread address when_ interval repeats) a t := by
  by_cases ha : a = address
  · subst ha
    rw [show (q.create a when_ interval repeats).heap a = _ from Function.update_self ..] at ht
    exact Or.inr ⟨haddress, _, _, _, _, rfl, (Option.some.inj ht).symm⟩
  · rw [show (q.create address when_ interval repeats).heap a = q.heap a from
      heap_of_ne q ha _] at ht
    exact Or.inl ⟨t, ht, rfl⟩

/-- **A live timer was live before, or was created by this very move.** -/
theorem live_step (q : TimerQueue) (act : Act) :
    (q.step act).heap a = some t → q.WasLive a t ∨ q.CreatedBy act a t := by
  have hsame : ∀ {act : Act}, q.heap a = some t → q.WasLive a t ∨ q.CreatedBy act a t :=
    fun ht => Or.inl ⟨t, ht, rfl⟩
  refine step_cases q ?idle ?queueAdd ?add ?queueCancel ?cancel ?functor ?handleRead
    ?dead ?run ?return_ ?finish act
  case idle => exact fun _ => hsame
  case queueAdd => exact fun inLoopThread _ _ _ _ _ haddress => live_of_create haddress inLoopThread
  case add =>
    intro inLoopThread address when_ interval repeats _ haddress ht
    rw [heap_addTimerInLoop] at ht
    exact live_of_create haddress inLoopThread ht
  case queueCancel => exact fun _ _ => hsame
  case cancel => exact fun _ id ht => hsame ((cancelInLoop_mono q id).1 a t ht)
  case functor =>
    intro f rest _ _ ht
    cases f with
    | addTimerInLoop b =>
        rw [runFunctor, heap_addTimerInLoop] at ht
        exact hsame ht
    | cancelInLoop id => exact hsame ((cancelInLoop_mono { q with functors := rest } id).1 a t ht)
  case handleRead =>
    intro now _ ht
    replace ht : (q.getExpired now).1.heap a = some t := ht
    rw [heap_getExpired] at ht
    exact hsame ht
  case dead =>
    intro _ _ _ _ _ _ ht
    rw [assert_heap] at ht
    exact hsame ht
  case run => exact fun _ _ _ _ _ _ _ => hsame
  case return_ => exact fun _ _ => hsame
  case finish =>
    exact fun _ _ _ ht => Or.inl (live_of_reset (q := { q with callingExpiredTimers_ := false }) ht)

end Heap

/-- The time of the batch is the one `handleRead` read. -/
theorem now_step (q : TimerQueue) (act : Act) {b : Batch} : (q.step act).batch = some b →
    (∃ b₀, q.batch = some b₀ ∧ b₀.now = b.now) ∨ act = .handleRead b.now := by
  have hsame : ∀ {act : Act}, q.batch = some b →
      (∃ b₀, q.batch = some b₀ ∧ b₀.now = b.now) ∨ act = .handleRead b.now :=
    fun hb => Or.inl ⟨b, hb, rfl⟩
  refine step_cases q ?idle ?queueAdd ?add ?queueCancel ?cancel ?functor ?handleRead
    ?dead ?run ?return_ ?finish act
  case idle => exact fun _ => hsame
  case queueAdd => exact fun _ _ _ _ _ _ _ => hsame
  case add =>
    intro _ _ _ _ _ _ _ hb
    rw [batch_of_frame (frame_addTimerInLoop ..)] at hb
    exact hsame hb
  case queueCancel => exact fun _ _ => hsame
  case cancel =>
    intro _ id hb
    rw [batch_of_frame (frame_cancelInLoop q id)] at hb
    exact hsame hb
  case functor =>
    intro _ _ _ _ hb
    rw [batch_of_frame (frame_runFunctor ..)] at hb
    exact hsame hb
  case handleRead =>
    intro now _ hb
    rw [← Option.some.inj hb]
    exact Or.inr rfl
  case dead =>
    intro _ _ _ _ _ _ hb
    rw [assert_batch] at hb
    exact hsame hb
  case run => exact fun _ _ _ _ _ hb₀ _ hb => Or.inl ⟨_, hb₀, by rw [← Option.some.inj hb]⟩
  case return_ => exact fun b₀ hb₀ hb => Or.inl ⟨b₀, hb₀, by rw [← Option.some.inj hb]⟩
  case finish => exact fun _ _ _ hb => nomatch hb

/-- Ownership, addresses below the sentry's, and no fault so far. -/
structure SoundInv (q : TimerQueue) : Prop where
  own : OwnInv q
  bound : ∀ a t, q.heap a = some t → a < uintptrMax
  faults : q.faults = []

theorem faults_step {q : TimerQueue} (h : OwnInv q)
    (hbound : ∀ a t, q.heap a = some t → a < uintptrMax)
    (act : Act) : (q.step act).faults = q.faults := by
  refine step_cases (motive := fun _ q' => q'.faults = q.faults) q ?idle ?queueAdd ?add
    ?queueCancel ?cancel ?functor ?handleRead ?dead ?run ?return_ ?finish act
  case idle => exact fun _ => rfl
  case queueAdd => exact fun _ _ _ _ _ _ _ => rfl
  case add =>
    exact fun _ _ when_ interval repeats hfree _ =>
      faults_addTimerInLoop (own_create h.own hfree when_ interval repeats)
  case queueCancel => exact fun _ _ => rfl
  case cancel => exact fun _ id => faults_cancelInLoop h.own id
  case functor =>
    intro f rest _ hf
    cases f with
    | addTimerInLoop a => exact faults_addTimerInLoop (own_popAdd h.own hf)
    | cancelInLoop id => exact faults_cancelInLoop (h.setFunctors (by rw [hf]; rfl)).own id
  case handleRead =>
    refine fun now _ => faults_getExpired h.own.setInv (fun e he => ?_) now
    obtain ⟨t, ht, -⟩ := h.own.entry e he
    exact hbound _ t ht
  case dead =>
    -- the timers of the batch are live
    intro now ran e rest hb hdead
    obtain ⟨t, ht⟩ := h.rest_live hb List.mem_cons_self
    cases hdead.symm.trans ht
  case run => exact fun _ _ _ _ _ _ _ => rfl
  case return_ => exact fun _ _ => rfl
  case finish => exact fun now _ hb => faults_reset (h.ran hb) now

theorem soundInv_step {q : TimerQueue} (h : SoundInv q) (act : Act) : SoundInv (q.step act) where
  own := ownInv_step h.own act
  bound a t ht := by
    rcases live_step q act ht with ⟨u, hu, -⟩ | ⟨ha, -⟩
    · exact h.bound a u hu
    · exact ha
  faults := (faults_step h.own h.bound act).trans h.faults

theorem soundInv_exec (run : List Act) : SoundInv (exec step new run) :=
  exec_invariant SoundInv (fun _ act hq => soundInv_step hq act) run
    ⟨ownInv_new, fun _ _ ht => by simp [new] at ht, rfl⟩

/-! ### Where a timer is -/

inductive Place where
  /-- In a queued `addTimerInLoop`. -/
  | waiting
  | inSets
  /-- In the batch of `handleRead`. -/
  | inBatch
  | deleted
  deriving DecidableEq

/-- The timer the identifier was issued for is live. -/
def Live (q : TimerQueue) (id : TimerId) : Prop :=
  ∃ t, q.heap id.timer_ = some t ∧ t.sequence_ = id.sequence_

def At (q : TimerQueue) (id : TimerId) : Place → Prop
  | .waiting => q.Live id ∧ id.timer_ ∈ queued q.functors
  | .inSets => ∃ t, q.heap id.timer_ = some t ∧ t.sequence_ = id.sequence_ ∧
      toLex (t.expiration_, id.timer_) ∈ q.timers_ ∧
      toLex (id.timer_, id.sequence_) ∈ q.activeTimers_
  | .inBatch => q.Live id ∧ id.timer_ ∈ heldBy q.batch
  | .deleted => ∀ a t, q.heap a = some t → t.sequence_ ≠ id.sequence_

/-- The place, computed from the heap, the queued functors and the batch. -/
def placeOf (q : TimerQueue) (id : TimerId) : Place :=
  match q.heap id.timer_ with
  | none => .deleted
  | some t =>
      if t.sequence_ ≠ id.sequence_ then .deleted
      else if id.timer_ ∈ queued q.functors then .waiting
      else if id.timer_ ∈ heldBy q.batch then .inBatch
      else .inSets

section Places

variable {q : TimerQueue} {held : List ℕ} {id : TimerId} {p : Place}

theorem Own.notMem_held (h : Own q held) {a : ℕ} (ha : a ∈ queued q.functors) : a ∉ held := by
  intro hheld
  have hnd := h.nodup
  rw [owned, List.append_assoc] at hnd
  exact (List.nodup_append.mp hnd).2.2 a ha a (List.mem_append_right _ hheld) rfl

theorem Own.notMem_of_timers (h : Own q held) {e : Entry} (he : e ∈ q.timers_) :
    e.timer ∉ queued q.functors ∧ e.timer ∉ held := by
  have hin : e.timer ∈ q.timers_.toList.map Entry.timer := List.mem_map_of_mem he
  have hnd := List.nodup_append.mp h.nodup
  constructor
  · intro hq
    exact (List.nodup_append.mp hnd.1).2.2 _ hq _ hin rfl
  · intro hheld
    exact hnd.2.2 _ (List.mem_append_right _ hin) _ hheld rfl

/-- The places exclude each other. -/
theorem placeOf_of_at (h : OwnInv q) (hat : At q id p) : p = q.placeOf id := by
  cases p with
  | waiting =>
      obtain ⟨⟨t, ht, hs⟩, hq⟩ := hat
      simp [placeOf, ht, hs, hq]
  | inSets =>
      obtain ⟨t, ht, hs, hmem, -⟩ := hat
      obtain ⟨hq, hheld⟩ := h.own.notMem_of_timers hmem
      rw [Entry.timer_toLex] at hq hheld
      simp [placeOf, ht, hs, hq, hheld]
  | inBatch =>
      obtain ⟨⟨t, ht, hs⟩, hheld⟩ := hat
      have hq : id.timer_ ∉ queued q.functors := fun hq => h.own.notMem_held hq hheld
      simp [placeOf, ht, hs, hq, hheld]
  | deleted =>
      unfold placeOf
      split
      · rfl
      · rename_i t ht
        rw [if_pos (hat _ t ht)]

/-- A live timer that is neither waiting nor in the batch is in both sets. -/
theorem at_inSets (h : OwnInv q) {t : Timer} (ht : q.heap id.timer_ = some t)
    (hs : t.sequence_ = id.sequence_) (hq : id.timer_ ∉ queued q.functors)
    (hheld : id.timer_ ∉ heldBy q.batch) : At q id .inSets := by
  have hact : toLex (id.timer_, t.sequence_) ∈ q.activeTimers_ := by
    rcases h.place ht with hin | hin | hin | hin
    · exact absurd hin hq
    · exact hin
    · exact absurd (mem_heldBy.mpr (Or.inl hin)) hheld
    · exact absurd (mem_heldBy.mpr (Or.inr hin)) hheld
  obtain ⟨u, hu, -, hmem⟩ := (h.own.active _ _).mp hact
  obtain rfl : t = u := Option.some.inj (ht.symm.trans hu)
  exact ⟨t, ht, hs, hmem, hs ▸ hact⟩

/-- There is no other place. -/
theorem at_placeOf (h : OwnInv q) (hid : id ∈ q.issued) : At q id (q.placeOf id) := by
  unfold placeOf
  split
  · -- a timer with this number would have this address
    rename_i hnone
    intro a t ht hs
    rw [(h.own.issued id hid).2 a t ht hs, hnone] at ht
    cases ht
  · rename_i t ht
    split
    · rename_i hne
      intro a u hu hs
      rw [(h.own.issued id hid).2 a u hu hs, ht] at hu
      exact hne (Option.some.inj hu ▸ hs)
    · rename_i hs
      rw [not_not] at hs
      split
      · rename_i hq
        exact ⟨⟨t, ht, hs⟩, hq⟩
      · rename_i hq
        split
        · rename_i hheld
          exact ⟨⟨t, ht, hs⟩, hheld⟩
        · rename_i hheld
          exact at_inSets h ht hs hq hheld

theorem at_iff (h : OwnInv q) (hid : id ∈ q.issued) : At q id p ↔ p = q.placeOf id :=
  ⟨placeOf_of_at h, fun hp => hp ▸ at_placeOf h hid⟩

theorem exists_unique_place (h : OwnInv q) (hid : id ∈ q.issued) : ∃! p, At q id p :=
  ⟨q.placeOf id, (at_iff h hid).mpr rfl, fun _ hp => (at_iff h hid).mp hp⟩

/-- The sets hold the live timers that are neither waiting nor in the batch. -/
def Resident (q : TimerQueue) (a : ℕ) (t : Timer) : Prop :=
  q.heap a = some t ∧ a ∉ queued q.functors ∧ a ∉ heldBy q.batch

theorem mem_timers_iff (h : OwnInv q) (e : Entry) :
    e ∈ q.timers_ ↔ ∃ a t, Resident q a t ∧ e = toLex (t.expiration_, a) := by
  constructor
  · intro he
    obtain ⟨t, ht, hexp⟩ := h.own.entry e he
    refine ⟨e.timer, t, ⟨ht, h.own.notMem_of_timers he⟩, ?_⟩
    rw [hexp, Entry.toLex_time_timer]
  · rintro ⟨a, t, ⟨ht, hq, hheld⟩, rfl⟩
    have howned := (h.own.live a).mp ⟨t, ht⟩
    rw [owned, List.mem_append, List.mem_append] at howned
    obtain ⟨e, he, rfl⟩ := List.mem_map.mp ((howned.resolve_right hheld).resolve_left hq)
    obtain ⟨u, hu, hexp⟩ := h.own.entry e he
    obtain rfl : t = u := Option.some.inj (ht.symm.trans hu)
    rw [hexp]
    exact he

theorem mem_activeTimers_iff (h : OwnInv q) (x : ActiveTimer) :
    x ∈ q.activeTimers_ ↔ ∃ a t, Resident q a t ∧ x = toLex (a, t.sequence_) := by
  obtain ⟨a, s, rfl⟩ : ∃ a s, x = toLex (a, s) := ⟨(ofLex x).1, (ofLex x).2, rfl⟩
  rw [h.own.active]
  constructor
  · rintro ⟨t, ht, rfl, hmem⟩
    exact ⟨a, t, ⟨ht, h.own.notMem_of_timers hmem⟩, rfl⟩
  · rintro ⟨b, t, hres, heq⟩
    obtain ⟨rfl, rfl⟩ : a = b ∧ s = t.sequence_ := Prod.mk.injEq .. ▸ toLex.injective heq
    exact ⟨t, hres.1, rfl, (mem_timers_iff h _).mpr ⟨a, t, hres, rfl⟩⟩

end Places

/-! ### Deletion and cancellation -/

section Fate

variable {q : TimerQueue} {id : TimerId}

/-- A sequence number is used once, so a deleted timer does not come back. -/
theorem deleted_step (h : OwnInv q) (hid : id ∈ q.issued) (hdel : At q id .deleted) (act : Act) :
    At (q.step act) id .deleted := by
  intro a t ht hs
  rcases live_step q act ht with ⟨u, hu, hus⟩ | ⟨-, _, _, _, _, -, ht⟩
  · have hseq : u.sequence_ = t.sequence_ := congrArg (fun c => c.2.2) hus
    exact hdel a u hu (hseq.trans hs)
  · -- a new timer has a number above all that were issued
    have hle := (h.own.issued id hid).1
    have hnew : t.sequence_ = q.numCreated + 1 := by rw [ht]
    omega

theorem deleted_exec (h : OwnInv q) (hid : id ∈ q.issued) (hdel : At q id .deleted)
    (after : List Act) :
    At (exec step q after) id .deleted := by
  let Gone : TimerQueue → Prop := fun q' => OwnInv q' ∧ id ∈ q'.issued ∧ At q' id .deleted
  have hgone : ∀ q' act, Gone q' → Gone (q'.step act) := fun q' act ⟨ho, hi, hd⟩ =>
    ⟨ownInv_step ho act, (history_effect (step_effect q' act)).1 id hi, deleted_step ho hi hd act⟩
  have hrun : Gone (exec step q after) := exec_invariant Gone hgone after ⟨h, hid, hdel⟩
  exact hrun.2.2

/-- `cancelInLoop(id)` leaves every other timer where it is, also one at the same address. -/
theorem placeOf_cancelInLoop {held : List ℕ} (h : Own q held) {other : TimerId} (hne : other ≠ id) :
    (q.cancelInLoop id).placeOf other = q.placeOf other := by
  have hframe := frame_cancelInLoop q id
  have hplace : (q.cancelInLoop id).heap other.timer_ = q.heap other.timer_ →
      (q.cancelInLoop id).placeOf other = q.placeOf other := by
    intro hheap
    unfold placeOf
    rw [hheap, batch_of_frame hframe, functors_of_frame hframe]
  by_cases hact : toLex (id.timer_, id.sequence_) ∈ q.activeTimers_
  · obtain ⟨t, ht, hs, hmem⟩ := (h.active _ _).mp hact
    have hcancel : (q.cancelInLoop id).heap = Function.update q.heap id.timer_ none :=
      (heap_cancelInLoop_eq h id).trans (if_pos hact)
    by_cases ha : other.timer_ = id.timer_
    · -- the address has been reused: the other timer is dead before and after
      have hseq : t.sequence_ ≠ other.sequence_ := by
        intro heq
        apply hne
        rw [TimerId.mk.injEq]
        exact ⟨ha, heq.symm.trans hs⟩
      simp [placeOf, hcancel, ha, ht, hseq]
    · refine hplace ?_
      rw [hcancel]
      exact heap_of_ne q ha none
  · refine hplace ?_
    rw [heap_cancelInLoop_eq h, if_neg hact]

theorem at_of_executesCancel (h : OwnInv q) {act : Act} (hexec : q.executesCancel act = some id)
    {other : TimerId} (hother : other ∈ q.issued) (hne : other ≠ id) {p : Place}
    (hp : At q other p) :
    At (q.step act) other p := by
  rw [at_iff (ownInv_step h act) ((history_effect (step_effect q act)).1 other hother)]
  rw [at_iff h hother] at hp
  obtain ⟨fs, hfs, hstep⟩ := step_of_executesCancel hexec
  rw [hp, hstep, placeOf_cancelInLoop (h.setFunctors hfs).own hne]
  simp only [placeOf, hfs]

/-- The whole batch. -/
def allOf (b : Option Batch) : List Entry := ranOf b ++ restOf b

theorem batchPart_allOf : BatchPart allOf where
  none := rfl
  run now ran e rest := by simp [allOf, ranOf, restOf]
  return_ _ := List.Subset.refl _
  finish now ran := by simp [allOf, ranOf, restOf]

theorem mem_allOf {a : ℕ} {b : Option Batch} : a ∈ (allOf b).map Entry.timer ↔ a ∈ heldBy b := by
  rw [allOf, List.map_append, List.mem_append, mem_heldBy]

theorem cancelledIn_of_inBatch (h : OwnInv q) (hid : id ∈ q.issued) (hat : At q id .inBatch) :
    CancelledIn allOf (q.cancelInLoop id) id.sequence_ := by
  obtain ⟨-, hheld⟩ := hat
  have hact : toLex (id.timer_, id.sequence_) ∉ q.activeTimers_ := by
    intro hact
    obtain ⟨t, -, -, hmem⟩ := (h.own.active _ _).mp hact
    exact (h.own.notMem_of_timers hmem).2 hheld
  intro a t ht hs
  obtain rfl := (h.own.issued id hid).2 a t ((cancelInLoop_mono q id).1 a t ht) hs
  refine ⟨?_, canceling_of_heldBy h hact hheld⟩
  rw [mem_allOf, batch_of_frame (frame_cancelInLoop q id)]
  exact hheld

/-- **A timer cancelled during its batch is not re-armed**: it stays in the batch until it is
deleted. -/
theorem notRearmed_exec (h : OwnInv q) (hid : id ∈ q.issued) {act : Act}
    (hexec : q.executesCancel act = some id) (hat : At q id .inBatch) (after : List Act) :
    At (exec step (q.step act) after) id .inBatch ∨
    At (exec step (q.step act) after) id .deleted := by
  obtain ⟨fs, hfs, hstep⟩ := step_of_executesCancel hexec
  have hcancelled : CancelledIn allOf (q.step act) id.sequence_ := by
    rw [hstep]
    exact cancelledIn_of_inBatch (h.setFunctors hfs) hid hat
  let Kept : TimerQueue → Prop := fun q' =>
    OwnInv q' ∧ id ∈ q'.issued ∧ CancelledIn allOf q' id.sequence_
  have hkept : ∀ q' a', Kept q' → Kept (q'.step a') := fun q' a' ⟨ho, hi, hc⟩ =>
    ⟨ownInv_step ho a', (history_effect (step_effect q' a')).1 id hi,
      cancelledIn_effect batchPart_allOf hc (ho.own.issued id hi).1 (step_effect q' a')⟩
  obtain ⟨ho, hi, hc⟩ : Kept (exec step (q.step act) after) := exec_invariant Kept hkept after
    ⟨ownInv_step h act, (history_effect (step_effect q act)).1 id hid, hcancelled⟩
  by_cases hlive : (exec step (q.step act) after).Live id
  · obtain ⟨t, ht, hs⟩ := hlive
    exact Or.inl ⟨⟨t, ht, hs⟩, mem_allOf.mp (hc _ t ht hs).1⟩
  · refine Or.inr fun a t ht hs => hlive ⟨t, ?_, hs⟩
    rw [← (ho.own.issued id hi).2 a t ht hs]
    exact ht

end Fate

/-- **The representation of the queue in every run.**  After any moves: no assertion has failed and
no dead timer was used; the two sets hold the same live timers, those neither waiting nor in the
batch, under their expirations and their sequence numbers; the timer of every identifier is in
exactly one place; a deleted one never comes back; executing `cancelInLoop(id)` moves no other
timer; and a timer cancelled while in the batch is never put back into the sets. -/
theorem timerQueue_representation (run : List Act) :
    let q := exec step new run
    q.faults = [] ∧
    (∀ e, e ∈ q.timers_ ↔ ∃ a t, Resident q a t ∧ e = toLex (t.expiration_, a)) ∧
    (∀ x, x ∈ q.activeTimers_ ↔ ∃ a t, Resident q a t ∧ x = toLex (a, t.sequence_)) ∧
    (∀ id ∈ q.issued, ∃! p, At q id p) ∧
    (∀ id ∈ q.issued, At q id .deleted → ∀ after, At (exec step q after) id .deleted) ∧
    (∀ act id, q.executesCancel act = some id → ∀ other ∈ q.issued, other ≠ id →
      ∀ p, At q other p → At (q.step act) other p) ∧
    (∀ act, ∀ id ∈ q.issued, q.executesCancel act = some id → At q id .inBatch →
      ∀ after, At (exec step (q.step act) after) id .inBatch ∨
        At (exec step (q.step act) after) id .deleted) := by
  intro q
  have hsound : SoundInv q := soundInv_exec run
  have hown := hsound.own
  exact ⟨hsound.faults, mem_timers_iff hown, mem_activeTimers_iff hown,
    fun _ hid => exists_unique_place hown hid,
    fun _ hid hdel after => deleted_exec hown hid hdel after,
    fun _ _ hexec _ hother hne _ hp => at_of_executesCancel hown hexec hother hne hp,
    fun _ _ hid hexec hat after => notRearmed_exec hown hid hexec hat after⟩

/-- A repeating timer cancels itself from its callback: it is deleted when the batch ends. -/
example :
    (exec step new [.addTimer true 1 10 5 true, .handleRead 11, .run, .cancel true ⟨1, 1⟩]).placeOf
      ⟨1, 1⟩ = .inBatch ∧
    (exec step new [.addTimer true 1 10 5 true, .handleRead 11, .run, .cancel true ⟨1, 1⟩, .return_,
      .finish]).placeOf ⟨1, 1⟩ = .deleted := by
  decide +kernel

end TimerQueue

end Muduo.Net
