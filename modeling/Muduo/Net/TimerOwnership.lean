import Muduo.Net.TimerQueue

/-!
# Who owns a timer

Every live timer has exactly one owner: a queued `addTimerInLoop`, the two sets, or the batch of
`handleRead`.  `Own q held` states this with the batch given as a list of addresses, so that the
loops of `getExpired` and `reset`, which move timers one by one, are inductions on that list.

* `own_create`, `own_delete`, `own_insert`, `own_remove`, `own_restart` — a timer comes to life or
  dies while `held`, and moves between `held` and the sets;
* `SetInv` — the part of it that concerns the two sets only, and `setInv_getExpired`;
* `own_getExpired`, `own_reset` — the two loops of `handleRead`;
* `own_effect` — every move keeps the ownership, and `ownInv_step` — the invariant of all runs.
-/

namespace Muduo.Net

open Muduo.Lib

namespace TimerQueue

/-- The timers waiting in a queued `addTimerInLoop`. -/
def queued (fs : List TimerFunctor) : List ℕ := fs.filterMap fun
  | .addTimerInLoop timer => some timer
  | .cancelInLoop _ => none

/-- The owners of all timers, when `held` are in a batch. -/
def owned (q : TimerQueue) (held : List ℕ) : List ℕ :=
  queued q.functors ++ q.timers_.toList.map Entry.timer ++ held

structure Own (q : TimerQueue) (held : List ℕ) : Prop where
  nodup : (q.owned held).Nodup
  live : ∀ a, (∃ t, q.heap a = some t) ↔ a ∈ q.owned held
  entry : ∀ e ∈ q.timers_, ∃ t, q.heap e.timer = some t ∧ t.expiration_ = e.time
  active : ∀ a s, toLex (a, s) ∈ q.activeTimers_ ↔
    ∃ t, q.heap a = some t ∧ t.sequence_ = s ∧ toLex (t.expiration_, a) ∈ q.timers_
  fresh : ∀ a t, q.heap a = some t → t.sequence_ ≤ q.numCreated
  unique : ∀ a b t u, q.heap a = some t → q.heap b = some u → t.sequence_ = u.sequence_ → a = b
  issued : ∀ id ∈ q.issued, id.sequence_ ≤ q.numCreated ∧
    ∀ a t, q.heap a = some t → t.sequence_ = id.sequence_ → a = id.timer_

/-- The two sets hold the same live timers, under their expirations and under their sequence
numbers. -/
structure SetInv (q : TimerQueue) : Prop where
  entry : ∀ e ∈ q.timers_, ∃ t, q.heap e.timer = some t ∧ t.expiration_ = e.time
  active : ∀ a s, toLex (a, s) ∈ q.activeTimers_ ↔
    ∃ t, q.heap a = some t ∧ t.sequence_ = s ∧ toLex (t.expiration_, a) ∈ q.timers_

section Moves

variable {q : TimerQueue} {held : List ℕ} {a : ℕ} {t : Timer}

theorem Own.setInv (h : Own q held) : SetInv q := ⟨h.entry, h.active⟩

theorem Own.perm (h : Own q held) {q' : TimerQueue} {held' : List ℕ}
    (hperm : (q'.owned held').Perm (q.owned held)) (hheap : q'.heap = q.heap)
    (htimers : q'.timers_ = q.timers_) (hactive : q'.activeTimers_ = q.activeTimers_)
    (hnum : q'.numCreated = q.numCreated) (hissued : q'.issued = q.issued) : Own q' held' where
  nodup := hperm.nodup_iff.mpr h.nodup
  live a := by rw [hheap, hperm.mem_iff, h.live]
  entry := by rw [htimers, hheap]; exact h.entry
  active := by rw [htimers, hheap, hactive]; exact h.active
  fresh := by rw [hheap, hnum]; exact h.fresh
  unique := by rw [hheap]; exact h.unique
  issued := by rw [hissued, hheap, hnum]; exact h.issued

theorem Own.perm_held (h : Own q held) {held' : List ℕ} (hperm : held'.Perm held) : Own q held' :=
  h.perm (hperm.append_left _) rfl rfl rfl rfl rfl

/-- A timer in a batch is not in the sets. -/
theorem Own.notMem_timers (h : Own q (a :: held)) (e : Timestamp) : toLex (e, a) ∉ q.timers_ := by
  intro hmem
  have hnd := h.nodup
  rw [owned, List.nodup_append] at hnd
  exact hnd.2.2 a (List.mem_append_right _ (List.mem_map_of_mem hmem)) a List.mem_cons_self rfl

theorem Own.notMem_active (h : Own q (a :: held)) (s : ℕ) : toLex (a, s) ∉ q.activeTimers_ := by
  rw [h.active]
  rintro ⟨t, -, -, hmem⟩
  exact h.notMem_timers _ hmem

theorem own_insert (h : Own q (a :: held)) (ht : q.heap a = some t) : Own (q.insert a t) held := by
  have hnew := h.notMem_timers t.expiration_
  have htimers : (q.insert a t).timers_ = q.timers_.insert (toLex (t.expiration_, a)) := by
    simp [insert]
  have hactive :
      (q.insert a t).activeTimers_ = q.activeTimers_.insert (toLex (a, t.sequence_)) := by
    simp [insert]
  have hheap : (q.insert a t).heap = q.heap := by simp [insert]
  have hperm : ((q.insert a t).owned held).Perm (q.owned (a :: held)) := by
    rw [owned, owned, htimers, show (q.insert a t).functors = q.functors by simp [insert]]
    rw [List.append_assoc, List.append_assoc]
    refine List.Perm.append_left _ ?_
    have := ((OrderedSet.perm_insert hnew).map Entry.timer).append_right held
    refine this.trans ?_
    rw [List.map_cons, Entry.timer_toLex, List.cons_append]
    exact List.perm_middle.symm
  refine ⟨hperm.nodup_iff.mpr h.nodup, ?_, ?_, ?_, ?_, ?_, ?_⟩
  · intro b
    rw [hheap, hperm.mem_iff, h.live]
  · intro e he
    rw [htimers, OrderedSet.mem_insert] at he
    rw [hheap]
    rcases he with rfl | he
    · exact ⟨t, ht, rfl⟩
    · exact h.entry e he
  · intro b s
    rw [hactive, htimers, hheap, OrderedSet.mem_insert, h.active]
    constructor
    · rintro (heq | ⟨u, hu, hs, hmem⟩)
      · obtain ⟨rfl, rfl⟩ := Prod.mk.inj (toLex.injective heq)
        exact ⟨t, ht, rfl, OrderedSet.mem_insert.mpr (Or.inl rfl)⟩
      · exact ⟨u, hu, hs, OrderedSet.mem_insert.mpr (Or.inr hmem)⟩
    · rintro ⟨u, hu, hs, hmem⟩
      rcases OrderedSet.mem_insert.mp hmem with heq | hmem
      · obtain ⟨-, rfl⟩ := Prod.mk.inj (toLex.injective heq)
        obtain rfl : t = u := Option.some.inj (ht.symm.trans hu)
        exact Or.inl (by rw [hs])
      · exact Or.inr ⟨u, hu, hs, hmem⟩
  · rw [hheap, show (q.insert a t).numCreated = q.numCreated by simp [insert]]
    exact h.fresh
  · rw [hheap]
    exact h.unique
  · rw [hheap, show (q.insert a t).numCreated = q.numCreated by simp [insert],
      show (q.insert a t).issued = q.issued by simp [insert]]
    exact h.issued

/-- The heap at other addresses than `a`. -/
theorem heap_of_ne (q : TimerQueue) {a b : ℕ} (h : b ≠ a) (v : Option Timer) :
    Function.update q.heap a v b = q.heap b := Function.update_of_ne h ..

/-- A change of the heap at an address that is not in the sets does not concern the sets. -/
theorem Own.entry_update (h : Own q held) (hout : ∀ e ∈ q.timers_, e.timer ≠ a) (v : Option Timer) :
    ∀ e ∈ q.timers_, ∃ t, Function.update q.heap a v e.timer = some t ∧ t.expiration_ = e.time := by
  intro e he
  rw [q.heap_of_ne (hout e he)]
  exact h.entry e he

theorem Own.active_update (h : Own q held) (hout : ∀ e ∈ q.timers_, e.timer ≠ a) (v : Option Timer)
    (b s : ℕ) : toLex (b, s) ∈ q.activeTimers_ ↔
      ∃ t, Function.update q.heap a v b = some t ∧ t.sequence_ = s ∧
      toLex (t.expiration_, b) ∈ q.timers_ := by
  by_cases hb : b = a
  · subst hb
    refine iff_of_false ?_ ?_
    · intro hmem
      obtain ⟨t, -, -, hin⟩ := (h.active b s).mp hmem
      exact hout _ hin rfl
    · rintro ⟨t, -, -, hin⟩
      exact hout _ hin rfl
  · rw [q.heap_of_ne hb]
    exact h.active b s

theorem Own.timer_ne (h : Own q (a :: held)) : ∀ e ∈ q.timers_, e.timer ≠ a :=
  fun e he hea => h.notMem_timers e.time (hea ▸ he)

/-- The new timer has the new sequence number, which is larger than all others. -/
theorem Own.create_cases (h : Own q held) {when_ : Timestamp} {interval : ℤ} {repeats : Bool}
    {b : ℕ} (ht : (q.create a when_ interval repeats).heap b = some t) :
    b = a ∧ t.sequence_ = q.numCreated + 1 ∨ q.heap b = some t ∧ t.sequence_ ≤ q.numCreated := by
  by_cases hb : b = a
  · subst hb
    have hself : (q.create b when_ interval repeats).heap b =
        some ⟨when_, interval, repeats, q.numCreated + 1⟩ := Function.update_self ..
    rw [hself] at ht
    exact Or.inl ⟨rfl, by rw [← Option.some.inj ht]⟩
  · have hold := (q.heap_of_ne hb _).symm.trans ht
    exact Or.inr ⟨hold, h.fresh b t hold⟩

theorem own_create (h : Own q held) (hfree : q.heap a = none) (when_ : Timestamp) (interval : ℤ)
    (repeats : Bool) : Own (q.create a when_ interval repeats) (a :: held) := by
  have hnot : a ∉ q.owned held := fun hm => by
    obtain ⟨t, ht⟩ := (h.live a).mpr hm
    simp [hfree] at ht
  have hperm : ((q.create a when_ interval repeats).owned (a :: held)).Perm (a :: q.owned held) :=
    List.perm_middle
  have hout : ∀ e ∈ q.timers_, e.timer ≠ a := fun e he hea => by
    obtain ⟨t, ht, -⟩ := h.entry e he
    simp [hea, hfree] at ht
  refine ⟨hperm.nodup_iff.mpr (List.nodup_cons.mpr ⟨hnot, h.nodup⟩), ?_, h.entry_update hout _,
    h.active_update hout _, ?_, ?_, ?_⟩
  · intro b
    rw [hperm.mem_iff, List.mem_cons, ← h.live]
    by_cases hb : b = a
    · subst hb
      simp [create]
    · simp [create, hb]
  · intro b t ht
    show t.sequence_ ≤ q.numCreated + 1
    rcases h.create_cases ht with ⟨-, hs⟩ | ⟨-, hle⟩ <;> omega
  · intro b c t u ht hu hs
    rcases h.create_cases ht with ⟨rfl, hnew⟩ | ⟨ht', hle⟩
    · rcases h.create_cases hu with ⟨rfl, -⟩ | ⟨-, hle⟩
      · rfl
      · omega
    · rcases h.create_cases hu with ⟨-, hnew⟩ | ⟨hu', -⟩
      · omega
      · exact h.unique b c t u ht' hu' hs
  · intro id hid
    show id.sequence_ ≤ q.numCreated + 1 ∧ _
    rcases List.mem_append.mp hid with hid | hid
    · obtain ⟨hle, haddr⟩ := h.issued id hid
      refine ⟨hle.trans (Nat.le_succ _), fun b t ht hs => ?_⟩
      rcases h.create_cases ht with ⟨-, hnew⟩ | ⟨hold, -⟩
      · omega
      · exact haddr b t hold hs
    · obtain rfl := List.mem_singleton.mp hid
      refine ⟨le_rfl, fun b t ht hs => ?_⟩
      rcases h.create_cases ht with ⟨hb, -⟩ | ⟨-, hle⟩
      · exact hb
      · simp only at hs
        omega

/-- A held timer may be deleted. -/
theorem own_delete (h : Own q (a :: held)) : Own (q.delete a) held := by
  have hself : (q.delete a).heap a = none := Function.update_self ..
  have hperm : (q.owned (a :: held)).Perm (a :: (q.delete a).owned held) := List.perm_middle
  have hnd := hperm.nodup_iff.mp h.nodup
  rw [List.nodup_cons] at hnd
  have hsub : ∀ {b t}, (q.delete a).heap b = some t → q.heap b = some t := by
    intro b t ht
    have hb : b ≠ a := by
      rintro rfl
      rw [hself] at ht
      cases ht
    exact (q.heap_of_ne hb _).symm.trans ht
  refine ⟨hnd.2, ?_, h.entry_update h.timer_ne _, h.active_update h.timer_ne _, ?_, ?_, ?_⟩
  · intro b
    by_cases hb : b = a
    · subst hb
      simp [hself, hnd.1]
    · rw [show (q.delete a).heap b = q.heap b from q.heap_of_ne hb _, h.live,
        hperm.mem_iff, List.mem_cons]
      simp [hb]
  · exact fun b t ht => h.fresh b t (hsub ht)
  · exact fun b c t u ht hu => h.unique b c t u (hsub ht) (hsub hu)
  · exact fun id hid => ⟨(h.issued id hid).1, fun b t ht => (h.issued id hid).2 b t (hsub ht)⟩

/-- A held timer may get another expiration. -/
theorem own_restart (h : Own q (a :: held)) (ht : q.heap a = some t) {t' : Timer}
    (hseq : t'.sequence_ = t.sequence_) :
    Own { q with heap := Function.update q.heap a (some t') } (a :: held) := by
  have hsub : ∀ {b u}, Function.update q.heap a (some t') b = some u →
      ∃ v, q.heap b = some v ∧ u.sequence_ = v.sequence_ := by
    intro b u hu
    by_cases hb : b = a
    · subst hb
      rw [Function.update_self] at hu
      exact ⟨t, ht, by rw [← Option.some.inj hu, hseq]⟩
    · rw [q.heap_of_ne hb] at hu
      exact ⟨u, hu, rfl⟩
  refine ⟨h.nodup, ?_, h.entry_update h.timer_ne _, h.active_update h.timer_ne _, ?_, ?_, ?_⟩
  · intro b
    show (∃ u, Function.update q.heap a (some t') b = some u) ↔ b ∈ q.owned (a :: held)
    rw [← h.live]
    by_cases hb : b = a
    · subst hb
      simp [ht]
    · rw [q.heap_of_ne hb]
  · intro b u hu
    obtain ⟨v, hv, hs⟩ := hsub hu
    exact hs ▸ h.fresh b v hv
  · intro b c u w hu hw hs
    obtain ⟨u', hu', hsu⟩ := hsub hu
    obtain ⟨w', hw', hsw⟩ := hsub hw
    exact h.unique b c u' w' hu' hw' (hsu ▸ hsw ▸ hs)
  · intro id hid
    refine ⟨(h.issued id hid).1, fun b u hu hs => ?_⟩
    obtain ⟨v, hv, hsv⟩ := hsub hu
    exact (h.issued id hid).2 b v hv (hsv ▸ hs)

/-- A timer is taken out of both sets. -/
theorem own_remove (h : Own q held) (ht : q.heap a = some t)
    (hmem : toLex (t.expiration_, a) ∈ q.timers_) :
    Own { q with
      timers_ := q.timers_.erase (toLex (t.expiration_, a))
      activeTimers_ := q.activeTimers_.erase (toLex (a, t.sequence_)) } (a :: held) := by
  have hperm : ({ q with
      timers_ := q.timers_.erase (toLex (t.expiration_, a))
      activeTimers_ := q.activeTimers_.erase (toLex (a, t.sequence_)) }.owned (a :: held)).Perm
      (q.owned held) := by
    rw [owned, owned, List.append_assoc, List.append_assoc]
    refine List.Perm.append_left _ (List.perm_middle.trans ?_)
    exact ((OrderedSet.perm_erase hmem).map Entry.timer).symm.append_right held
  refine ⟨hperm.nodup_iff.mpr h.nodup, fun b => ?_, fun e he => ?_, fun b s => ?_,
    h.fresh, h.unique, h.issued⟩
  · rw [hperm.mem_iff, ← h.live]
  · exact h.entry e (OrderedSet.mem_erase.mp he).2
  · show toLex (b, s) ∈ q.activeTimers_.erase _ ↔
      ∃ u, q.heap b = some u ∧ u.sequence_ = s ∧ toLex (u.expiration_, b) ∈ q.timers_.erase _
    simp only [OrderedSet.mem_erase]
    rw [h.active]
    constructor
    · rintro ⟨hne, u, hu, hs, hm⟩
      refine ⟨u, hu, hs, fun heq => hne ?_, hm⟩
      obtain ⟨-, rfl⟩ := Prod.mk.inj (toLex.injective heq)
      obtain rfl : t = u := Option.some.inj (ht.symm.trans hu)
      rw [hs]
    · rintro ⟨u, hu, hs, hne, hm⟩
      refine ⟨fun heq => hne ?_, u, hu, hs, hm⟩
      obtain ⟨rfl, -⟩ := Prod.mk.inj (toLex.injective heq)
      obtain rfl : t = u := Option.some.inj (ht.symm.trans hu)
      rfl

/-- Only the sets, the heap, the functors and the counters matter. -/
theorem Own.congr (h : Own q held) {q' : TimerQueue} (hheap : q'.heap = q.heap)
    (htimers : q'.timers_ = q.timers_) (hactive : q'.activeTimers_ = q.activeTimers_)
    (hfunctors : q'.functors = q.functors) (hnum : q'.numCreated = q.numCreated)
    (hissued : q'.issued = q.issued) : Own q' held :=
  h.perm (by rw [owned, owned, hfunctors, htimers]) hheap htimers hactive hnum hissued

theorem Own.assert (h : Own q held) (p : Bool) (f : TimerFault) : Own (q.assert p f) held :=
  h.congr (by simp) (by simp) (by simp) (by simp) (by simp) (by simp)

theorem Own.resetTimerfd (h : Own q held) (expiration : Timestamp) :
    Own (q.resetTimerfd expiration) held := h.congr rfl rfl rfl rfl rfl rfl

theorem own_cancelInLoop (h : Own q held) (id : TimerId) : Own (q.cancelInLoop id) held := by
  unfold cancelInLoop
  refine Own.assert ?_ _ _
  have h₁ := h.assert q.sizesAgree .sizesDiffer
  split
  · rename_i hact
    obtain ⟨t, ht, hs, hmem⟩ := (h₁.active id.timer_ id.sequence_).mp hact
    rw [ht, ← hs]
    dsimp only
    exact own_delete (own_remove (h₁.assert _ _) (by simpa using ht) (by simpa using hmem))
  · split
    · exact h₁.congr rfl rfl rfl rfl rfl rfl
    · exact h₁

/-- Adding a held timer to the sets. -/
theorem own_addTimerInLoop (h : Own q (a :: held)) : Own (q.addTimerInLoop a) held := by
  obtain ⟨t, ht⟩ := (h.live a).mpr (List.mem_append_right _ List.mem_cons_self)
  have hins := own_insert h ht
  unfold addTimerInLoop
  rw [ht]
  dsimp only
  split
  · exact hins.resetTimerfd _
  · exact hins

/-! ### The two loops of `handleRead` -/

theorem assert_eq (q : TimerQueue) (p : Bool) (f : TimerFault) :
    q.assert p f = { q with faults := (q.assert p f).faults } := by
  unfold TimerQueue.assert
  split <;> rfl

/-- `deactivate` touches `activeTimers_` only. -/
theorem deactivate_eq (es : List Entry) (q : TimerQueue) :
    ∃ act fs, q.deactivate es = { q with activeTimers_ := act, faults := fs } := by
  induction es generalizing q with
  | nil => exact ⟨_, _, rfl⟩
  | cons e es ih =>
      unfold deactivate
      split
      · obtain ⟨act, fs, h⟩ := ih (q.assert false .deadTimer)
        exact ⟨act, fs, by rw [h, assert_eq]⟩
      · rename_i t _
        obtain ⟨act, fs, h⟩ := ih { q.assert (toLex (e.timer, t.sequence_) ∈ q.activeTimers_)
          .eraseCount with activeTimers_ :=
          (q.assert (toLex (e.timer, t.sequence_) ∈ q.activeTimers_)
          .eraseCount).activeTimers_.erase (toLex (e.timer, t.sequence_)) }
        exact ⟨act, fs, by rw [h, assert_eq]⟩

theorem mem_deactivate {es : List Entry} {q : TimerQueue} {x : ActiveTimer} :
    x ∈ (q.deactivate es).activeTimers_ ↔ x ∈ q.activeTimers_ ∧
      ∀ e ∈ es, ∀ t, q.heap e.timer = some t → x ≠ toLex (e.timer, t.sequence_) := by
  induction es generalizing q with
  | nil => simp [deactivate]
  | cons e es ih =>
      unfold deactivate
      split
      · rename_i hdead
        rw [ih]
        simp [hdead]
      · rename_i t ht
        rw [ih]
        simp only [assert_activeTimers_, assert_heap, OrderedSet.mem_erase, List.mem_cons,
          forall_eq_or_imp, ht, Option.some.injEq, forall_eq', and_assoc]
        exact and_left_comm

/-- `getExpired` touches the two sets only. -/
theorem getExpired_eq (q : TimerQueue) (now : Timestamp) :
    ∃ act fs, (q.getExpired now).1 = { q with
      timers_ := q.timers_.dropBelow (toLex (now, uintptrMax)), activeTimers_ :=
        act, faults := fs } := by
  have hassert : ∀ (q : TimerQueue) (p : Bool) (f : TimerFault), ∃ fs, q.assert p f =
      { q with faults := fs } := fun q p f => ⟨_, assert_eq q p f⟩
  obtain ⟨fs₁, h₁⟩ := hassert q q.sizesAgree .sizesDiffer
  simp only [getExpired, h₁]
  obtain ⟨fs₂, h₂⟩ := hassert { q with
    timers_ := q.timers_.dropBelow (toLex (now, uintptrMax)), faults := fs₁ }
    (earlierThanFirst now (q.timers_.dropBelow (toLex (now, uintptrMax)))) .expiredLeft
  rw [h₂]
  obtain ⟨act, fs₃, h₃⟩ := deactivate_eq (q.timers_.below (toLex (now, uintptrMax))) { q with
    timers_ := q.timers_.dropBelow (toLex (now, uintptrMax)), faults := fs₂ }
  rw [h₃]
  obtain ⟨fs₄, h₄⟩ := hassert { q with
    timers_ := q.timers_.dropBelow (toLex (now, uintptrMax)), activeTimers_ := act, faults := fs₃ }
    (sizesAgree { q with
      timers_ := q.timers_.dropBelow (toLex (now, uintptrMax)), activeTimers_ :=
        act, faults := fs₃ })
    .sizesDiffer
  exact ⟨act, fs₄, h₄⟩

theorem mem_active_getExpired {q : TimerQueue} {now : Timestamp} {x : ActiveTimer} :
    x ∈ (q.getExpired now).1.activeTimers_ ↔ x ∈ q.activeTimers_ ∧
      ∀ e ∈ (q.getExpired now).2, ∀ t, q.heap e.timer = some t →
      x ≠ toLex (e.timer, t.sequence_) := by
  simp only [getExpired, assert_activeTimers_, assert_heap, assert_timers_, mem_deactivate]

theorem expired_eq (q : TimerQueue) (now : Timestamp) :
    (q.getExpired now).2 = q.timers_.below (toLex (now, uintptrMax)) := by
  simp only [getExpired, assert_timers_]

theorem timers_getExpired (q : TimerQueue) (now : Timestamp) :
    (q.getExpired now).1.timers_ = q.timers_.dropBelow (toLex (now, uintptrMax)) := by
  obtain ⟨act, fs, heq⟩ := getExpired_eq q now
  rw [heq]

theorem heap_getExpired (q : TimerQueue) (now : Timestamp) :
    (q.getExpired now).1.heap = q.heap := by
  obtain ⟨act, fs, heq⟩ := getExpired_eq q now
  rw [heq]

/-- Expired timers leave both sets. -/
theorem setInv_getExpired (h : SetInv q) (now : Timestamp) : SetInv (q.getExpired now).1 where
  entry e he := by
    rw [timers_getExpired, OrderedSet.mem_dropBelow] at he
    rw [heap_getExpired]
    exact h.entry e he.1
  active b s := by
    rw [mem_active_getExpired, expired_eq, heap_getExpired, timers_getExpired, h.active]
    constructor
    · rintro ⟨⟨t, ht, hts, hin⟩, hno⟩
      refine ⟨t, ht, hts, OrderedSet.mem_dropBelow.mpr ⟨hin, ?_⟩⟩
      by_contra hlt
      exact hno _ (OrderedSet.mem_below.mpr ⟨hin, lt_of_not_ge hlt⟩) t ht (by rw [← hts]; rfl)
    · rintro ⟨t, ht, hts, hin⟩
      obtain ⟨hin, hle⟩ := OrderedSet.mem_dropBelow.mp hin
      refine ⟨⟨t, ht, hts, hin⟩, fun e he u hu hsame => ?_⟩
      -- an expired entry of the same timer would be this very entry
      obtain ⟨he, hlt⟩ := OrderedSet.mem_below.mp he
      obtain ⟨rfl, -⟩ := Prod.mk.inj (toLex.injective hsame)
      obtain ⟨v, hv, hexp⟩ := h.entry e he
      obtain rfl : t = v := Option.some.inj (ht.symm.trans hv)
      rw [hexp, Entry.toLex_time_timer] at hle
      exact not_le_of_gt hlt hle

/-- **Expired timers move from the sets into the batch.** -/
theorem own_getExpired (h : Own q held) (now : Timestamp) :
    Own (q.getExpired now).1 ((q.getExpired now).2.map Entry.timer ++ held) := by
  have hsets := setInv_getExpired h.setInv now
  obtain ⟨act, fs, heq⟩ := getExpired_eq q now
  rw [expired_eq]
  rw [heq] at hsets ⊢
  generalize (toLex (now, uintptrMax) : Entry) = sentry at hsets ⊢
  have hperm : (queued q.functors ++ (q.timers_.dropBelow sentry).toList.map Entry.timer ++
      ((q.timers_.below sentry).map Entry.timer ++ held)).Perm (q.owned held) := by
    rw [owned, ← q.timers_.below_append_dropBelow sentry, List.map_append, List.append_assoc,
      List.append_assoc]
    refine List.Perm.append_left _ ?_
    rw [← List.append_assoc]
    exact List.perm_append_comm.append_right held
  exact ⟨hperm.nodup_iff.mpr h.nodup, fun b => (h.live b).trans hperm.mem_iff.symm, hsets.entry,
    hsets.active, h.fresh, h.unique, h.issued⟩

theorem own_rearm {e : Entry} (h : Own q (e.timer :: held)) (now : Timestamp) :
    Own (q.rearm now e) held := by
  obtain ⟨t, ht⟩ := (h.live e.timer).mpr (List.mem_append_right _ List.mem_cons_self)
  unfold rearm
  rw [ht]
  dsimp only
  split
  · exact own_insert (own_restart h ht rfl) (Function.update_self ..)
  · exact own_delete h

theorem own_rearmAll {es : List Entry} (h : Own q (es.map Entry.timer ++ held)) (now : Timestamp) :
    Own (es.foldl (fun q e => q.rearm now e) q) held := by
  induction es generalizing q with
  | nil => exact h
  | cons e es ih => exact ih (own_rearm h now)

/-- After its loop, `reset` sets the alarm and nothing else. -/
theorem reset_eq (q : TimerQueue) (es : List Entry) (now : Timestamp) :
    ∃ al fs, q.reset es now =
      { es.foldl (fun q e => q.rearm now e) q with alarms := al, faults := fs } := by
  unfold reset
  dsimp only
  split
  · exact ⟨_, _, rfl⟩
  · split
    · exact ⟨_, _, assert_eq ..⟩
    · split
      · exact ⟨_, _, rfl⟩
      · exact ⟨_, _, rfl⟩

/-- **The batch goes back into the sets or is deleted.** -/
theorem own_reset {es : List Entry} (h : Own q (es.map Entry.timer ++ held)) (now : Timestamp) :
    Own (q.reset es now) held := by
  obtain ⟨al, fs, heq⟩ := reset_eq q es now
  rw [heq]
  exact (own_rearmAll h now).congr rfl rfl rfl rfl rfl rfl

end Moves

/-! ### What the functions leave alone -/

/-- The fields no set operation writes. -/
def frame (q : TimerQueue) : Option Batch × Bool × List ℕ × List TimerFunctor × List TimerId :=
  (q.batch, q.callingExpiredTimers_, q.started, q.functors, q.issued)

@[simp] theorem frame_assert (q : TimerQueue) (p : Bool) (f : TimerFault) :
    (q.assert p f).frame = q.frame := by
  simp [frame]

@[simp] theorem frame_resetTimerfd (q : TimerQueue) (expiration : Timestamp) :
    (q.resetTimerfd expiration).frame = q.frame := rfl

theorem frame_insert (q : TimerQueue) (a : ℕ) (t : Timer) : (q.insert a t).frame = q.frame := by
  simp [frame, insert]

theorem frame_addTimerInLoop (q : TimerQueue) (a : ℕ) : (q.addTimerInLoop a).frame = q.frame := by
  unfold addTimerInLoop
  split
  · exact frame_assert ..
  · dsimp only
    split
    · rw [frame_resetTimerfd, frame_insert]
    · exact frame_insert ..

theorem frame_cancelInLoop (q : TimerQueue) (id : TimerId) :
    (q.cancelInLoop id).frame = q.frame := by
  unfold cancelInLoop
  dsimp only
  rw [frame_assert]
  split
  · split
    · simp
    · simp [frame, delete]
  · split
    · simp [frame]
    · simp

theorem frame_runFunctor (q : TimerQueue) (f : TimerFunctor) :
    (q.runFunctor f).frame = q.frame := by
  cases f with
  | addTimerInLoop a => exact frame_addTimerInLoop q a
  | cancelInLoop id => exact frame_cancelInLoop q id

theorem frame_getExpired (q : TimerQueue) (now : Timestamp) :
    (q.getExpired now).1.frame = q.frame := by
  obtain ⟨act, fs, h⟩ := getExpired_eq q now
  rw [h]
  rfl

theorem frame_rearm (q : TimerQueue) (now : Timestamp) (e : Entry) :
    (q.rearm now e).frame = q.frame := by
  unfold rearm
  split
  · exact frame_assert ..
  · split
    · exact frame_insert ..
    · rfl

/-- What neither one turn of the loop in `reset` nor the alarm changes. -/
theorem reset_keeps {β : Type*} (φ : TimerQueue → β)
    (hrearm : ∀ (q : TimerQueue) now e, φ (q.rearm now e) = φ q)
    (halarm : ∀ (q : TimerQueue) al fs, φ { q with alarms := al, faults := fs } = φ q)
    (q : TimerQueue) (es : List Entry) (now : Timestamp) : φ (q.reset es now) = φ q := by
  have hfold : φ (es.foldl (fun q e => q.rearm now e) q) = φ q := by
    induction es generalizing q with
    | nil => rfl
    | cons e es ih => exact (ih _).trans (hrearm q now e)
  obtain ⟨al, fs, heq⟩ := reset_eq q es now
  rw [heq, halarm, hfold]

theorem frame_reset (q : TimerQueue) (es : List Entry) (now : Timestamp) :
    (q.reset es now).frame = q.frame :=
  reset_keeps frame frame_rearm (fun _ _ _ => rfl) q es now

/-! ### The invariant of all runs -/

/-- The timers in the batch of `handleRead`. -/
def heldBy : Option Batch → List ℕ
  | none => []
  | some b => (b.ran ++ b.rest).map Entry.timer

structure OwnInv (q : TimerQueue) : Prop where
  own : Own q (heldBy q.batch)
  calling : q.callingExpiredTimers_ = q.batch.isSome

theorem ownInv_new : OwnInv new where
  own := by
    constructor <;> simp [new, owned, queued, heldBy, OrderedSet.empty, OrderedSet.mem_def]
  calling := rfl

/-- The functor owns the timer it is to add. -/
theorem own_queueAdd {q : TimerQueue} {held : List ℕ} {a : ℕ} (h : Own q (a :: held)) :
    Own { q with functors := q.functors ++ [.addTimerInLoop a] } held := by
  refine h.perm ?_ rfl rfl rfl rfl rfl
  show (queued (q.functors ++ [.addTimerInLoop a]) ++ q.timers_.toList.map Entry.timer ++ held).Perm
    (queued q.functors ++ q.timers_.toList.map Entry.timer ++ a :: held)
  rw [show queued (q.functors ++ [.addTimerInLoop a]) = queued q.functors ++ [a] from
    List.filterMap_append, List.append_assoc, List.append_assoc, List.append_assoc]
  exact List.Perm.append_left _ (by simpa using List.perm_middle.symm)

theorem own_popAdd {q : TimerQueue} {held : List ℕ} {a : ℕ} {rest : List TimerFunctor}
    (h : Own q held)
    (hf : q.functors = .addTimerInLoop a :: rest) : Own { q with functors := rest }
    (a :: held) := by
  refine h.perm ?_ rfl rfl rfl rfl rfl
  show (queued rest ++ q.timers_.toList.map Entry.timer ++ a :: held).Perm
    (queued q.functors ++ q.timers_.toList.map Entry.timer ++ held)
  rw [hf]
  exact List.perm_middle

/-- The queued `addTimerInLoop`s are all that ownership needs of the functors. -/
theorem Own.setFunctors {q : TimerQueue} {held : List ℕ} (h : Own q held) {fs : List TimerFunctor}
    (hfs : queued fs = queued q.functors) : Own { q with functors := fs } held := by
  refine h.perm ?_ rfl rfl rfl rfl rfl
  show (queued fs ++ _ ++ _).Perm (queued q.functors ++ _ ++ _)
  rw [hfs]

theorem OwnInv.setFunctors {q : TimerQueue} (h : OwnInv q) {fs : List TimerFunctor}
    (hfs : queued fs = queued q.functors) : OwnInv { q with functors := fs } :=
  ⟨h.own.setFunctors hfs, h.calling⟩

/-- When all callbacks of the batch have returned, `reset` owns it. -/
theorem Own.ran {q : TimerQueue} {others : List ℕ} (h : Own q (heldBy q.batch ++ others))
    {now : Timestamp} {ran : List Entry} (hb : q.batch = some ⟨now, ran, [], false⟩) :
    Own { q with callingExpiredTimers_ := false } (ran.map Entry.timer ++ others) := by
  rw [hb] at h
  refine h.perm ?_ rfl rfl rfl rfl rfl
  show (_ ++ _ ++ (ran.map Entry.timer ++ _)).Perm (_ ++ _ ++ ((ran ++ []).map Entry.timer ++ _))
  rw [List.append_nil]

theorem OwnInv.ran {q : TimerQueue} (h : OwnInv q) {now : Timestamp} {ran : List Entry}
    (hb : q.batch = some ⟨now, ran, [], false⟩) :
    Own { q with callingExpiredTimers_ := false } (ran.map Entry.timer ++ []) :=
  Own.ran (by rw [List.append_nil]; exact h.own) hb

/-- **Every effect keeps the ownership**, also when some timers, the `others`, have been created and
are not yet handed to the loop. -/
theorem own_effect {q q' : TimerQueue} {others : List ℕ} (h : Own q (heldBy q.batch ++ others))
    (he : Effect q q') : Own q' (heldBy q'.batch ++ others) := by
  -- a function that keeps the frame keeps the batch
  have hkeep : ∀ {p p' : TimerQueue}, p'.frame = p.frame → Own p' (heldBy p.batch ++ others) →
      Own p' (heldBy p'.batch ++ others) := by
    intro p p' hframe hown
    rw [show p'.batch = p.batch from congrArg Prod.fst hframe]
    exact hown
  cases he with
  | idle => exact h
  | queueAdd a when_ interval repeats hfree =>
      exact own_queueAdd (own_create h hfree when_ interval repeats)
  | add a when_ interval repeats hfree =>
      exact hkeep (p := q.create a when_ interval repeats) (frame_addTimerInLoop ..)
        (own_addTimerInLoop (own_create h hfree when_ interval repeats))
  | queueCancel id =>
      refine h.setFunctors ?_
      rw [show queued (q.functors ++ [.cancelInLoop id]) = queued q.functors ++ [] from
        List.filterMap_append, List.append_nil]
  | cancel id => exact hkeep (frame_cancelInLoop q id) (own_cancelInLoop h id)
  | functor f rest hf =>
      cases f with
      | addTimerInLoop a =>
          exact hkeep (p := { q with functors := rest }) (frame_addTimerInLoop ..)
            (own_addTimerInLoop (own_popAdd h hf))
      | cancelInLoop id =>
          exact hkeep (p := { q with functors := rest }) (frame_cancelInLoop ..)
            (own_cancelInLoop (h.setFunctors (by rw [hf]; rfl)) id)
  | handleRead now hb =>
      have hown := own_getExpired h now
      rw [hb] at hown
      exact hown.congr rfl rfl rfl rfl rfl rfl
  | dead => exact hkeep (frame_assert ..) (h.assert _ _)
  | run now ran e rest t hb ht =>
      rw [hb] at h
      refine h.perm ?_ rfl rfl rfl rfl rfl
      show (_ ++ _ ++ (List.map Entry.timer (ran ++ [e] ++ rest) ++ _)).Perm
        (_ ++ _ ++ (List.map Entry.timer (ran ++ e :: rest) ++ _))
      rw [show ran ++ [e] ++ rest = ran ++ e :: rest by simp]
  | return_ b hb =>
      rw [hb] at h
      exact h.congr rfl rfl rfl rfl rfl rfl
  | finish now ran hb => exact (own_reset (h.ran hb) now).congr rfl rfl rfl rfl rfl rfl

/-- `callingExpiredTimers_` is set while there is a batch. -/
theorem calling_effect {q q' : TimerQueue} (h : q.callingExpiredTimers_ = q.batch.isSome)
    (he : Effect q q') : q'.callingExpiredTimers_ = q'.batch.isSome := by
  have hkeep :
      ∀ {p p' : TimerQueue}, p'.frame = p.frame → p.callingExpiredTimers_ = p.batch.isSome →
        p'.callingExpiredTimers_ = p'.batch.isSome := by
    intro p p' hframe hp
    simp only [frame, Prod.mk.injEq] at hframe
    rw [hframe.1, hframe.2.1, hp]
  cases he with
  | idle => exact h
  | queueAdd | queueCancel => exact h
  | add a when_ interval repeats _ =>
      exact hkeep (p := q.create a when_ interval repeats) (frame_addTimerInLoop ..) h
  | cancel id => exact hkeep (frame_cancelInLoop q id) h
  | functor f rest _ => exact hkeep (p := { q with functors := rest }) (frame_runFunctor ..) h
  | handleRead => rfl
  | dead => exact hkeep (frame_assert ..) h
  | run now ran e rest t hb ht => simpa [hb] using h
  | return_ b hb => simpa [hb] using h
  | finish now ran hb =>
      have hframe := frame_reset { q with callingExpiredTimers_ := false } ran now
      simp only [frame, Prod.mk.injEq] at hframe
      exact hframe.2.1

theorem ownInv_effect {q q' : TimerQueue} (h : OwnInv q) (he : Effect q q') : OwnInv q' := by
  have hown : Own q' (heldBy q'.batch ++ []) := own_effect (by rw [List.append_nil]; exact h.own) he
  rw [List.append_nil] at hown
  exact ⟨hown, calling_effect h.calling he⟩

/-- **Every move keeps the ownership invariant.** -/
theorem ownInv_step {q : TimerQueue} (h : OwnInv q) (act : Act) : OwnInv (q.step act) :=
  ownInv_effect h (step_effect q act)

theorem ownInv_exec (run : List Act) : OwnInv (exec step new run) :=
  exec_invariant OwnInv (fun _ act hq => ownInv_step hq act) run ownInv_new

end TimerQueue

end Muduo.Net
