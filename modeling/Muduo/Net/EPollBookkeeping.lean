import Muduo.Net.PollerAgreement

/-!
# `EPollPoller` and the kernel

Descriptors are used again: a channel may be given the descriptor of one that was removed.  What the
poller needs is only that channels registered at the same time have distinct descriptors.

* `ctl` — the `epoll_ctl` call a channel operation makes; `interest_apply` — it is the one the code
  makes;
* `fillActiveChannels` — from the events `epoll_wait` reports to the list of active channels;
* `Bookkept` — map, index and interest list describe the same registrations;
  `bookkept_step` — every operation keeps it and fails no assertion;
* `epoll_bookkeeping` — all sequences of operations.
-/

namespace Muduo.Net

open Muduo.Lib Muduo.Net.World

variable {ι : Type*} [DecidableEq ι]

namespace EPollPoller

/-- One call on a channel. -/
def step (w : Loop ι) (call : ι × ChannelOp) : Loop ι := call.2.apply impl w call.1

/-- An update needs that no other registered channel has the descriptor; `remove` is called on a
registered channel without events. -/
def Allowed (w : Loop ι) (call : ι × ChannelOp) : Prop :=
  (call.2 = .remove →
    (w.chan call.1).addedToLoop_ = true ∧ (w.chan call.1).events_ = kNoneEvent) ∧
  (call.2 ≠ .remove →
    ∀ d, d ≠ call.1 → (w.chan d).addedToLoop_ = true → (w.chan d).fd_ ≠ (w.chan call.1).fd_)

/-- The `epoll_ctl` call of an operation, if there is one: the command and the mask. -/
def ctl (w : Loop ι) (c : ι) (op : ChannelOp) : Option (EpollOp × Mask) :=
  let idx := (w.chan c).index_
  let ev := op.mask (w.chan c).events_
  if op = .remove then if idx = kAdded then some (.del, ev) else none
  else if idx = kNew ∨ idx = kDeleted then some (.add, ev)
  else if ev = kNoneEvent then some (.del, ev)
  else some (.mod, ev)

/-- The body of the loop of `fillActiveChannels`. -/
def activate (r : Loop ι × List ι) (event : EpollEvent ι) : Loop ι × List ι :=
  let (w, activeChannels) := r
  let channel := event.ptr
  let it := w.poller.channels_.get? (w.chan channel).fd_
  let w₁ := (w.assert it.isSome .channelNotInMap).assert (it == some channel) .channelNotInMap
  (w₁.modify channel (·.set_revents event.events), activeChannels ++ [channel])

/-- `fillActiveChannels` on the events that `epoll_wait` wrote to the front of `events_`. -/
def fillActiveChannels (w : Loop ι) (events : List (EpollEvent ι)) : Loop ι × List ι :=
  events.foldl activate (w, [])

/-- Every reported event carries the pointer of an entry of the interest list. -/
def Reported (w : Loop ι) (events : List (EpollEvent ι)) : Prop :=
  ∀ event ∈ events, ∃ fd entry, w.poller.interest.get? fd = some entry ∧ entry.ptr = event.ptr

/-! ### The call to `epoll_ctl` -/

omit [DecidableEq ι] in
theorem interest_update (w : Loop ι) (op : EpollOp) (c : ι) :
    (update w op c).poller.interest =
      (epollCtl w.poller.interest op (w.chan c).fd_ ⟨(w.chan c).events_, c⟩).getD
      w.poller.interest := by
  unfold update
  split
  · rename_i k hk
    rw [hk]
    rfl
  · rename_i hk
    rw [hk, assert_poller]
    rfl

/-- **`ctl` is the call the code makes**, whatever the state. -/
theorem interest_apply (w : Loop ι) (c : ι) (op : ChannelOp) :
    (op.apply impl w c).poller.interest =
      match ctl w c op with
      | some (o, ev) => (epollCtl w.poller.interest o (w.chan c).fd_ ⟨ev, c⟩).getD w.poller.interest
      | none => w.poller.interest := by
  by_cases hrem : op = .remove
  · subst hrem
    by_cases hidx : (w.chan c).index_ = kAdded
    · simp [ctl, ChannelOp.apply, Channel.remove, impl, removeChannel, interest_update, hidx,
        ChannelOp.mask]
    · simp [ctl, ChannelOp.apply, Channel.remove, impl, removeChannel, hidx]
  · rw [ChannelOp.apply_eq_updateTo _ _ _ hrem]
    by_cases hnew : (w.chan c).index_ = kNew
    · simp [ctl, hrem, hnew, Channel.updateTo, Channel.update, impl, updateChannel, interest_update,
        modify_chan, Channel.setEvents, Channel.set_index]
    · by_cases hdel : (w.chan c).index_ = kDeleted
      · simp [ctl, hrem, hdel, Channel.updateTo, Channel.update, impl, updateChannel,
          interest_update, Channel.setEvents, Channel.set_index, kNew, kDeleted]
      · by_cases hev : op.mask (w.chan c).events_ = kNoneEvent
        all_goals
          simp [ctl, hrem, hnew, hdel, hev, Channel.updateTo, Channel.update, impl, updateChannel,
            interest_update, Channel.setEvents, Channel.isNoneEvent]

/-! ### The invariant -/

structure Bookkept (w : Loop ι) : Prop where
  index : ∀ c, (w.chan c).index_ = kNew ∨ (w.chan c).index_ = kAdded ∨ (w.chan c).index_ = kDeleted
  added : ∀ c, (w.chan c).addedToLoop_ = true ↔ (w.chan c).index_ ≠ kNew
  distinct : ∀ c d, (w.chan c).index_ ≠ kNew → (w.chan d).index_ ≠ kNew →
    (w.chan c).fd_ = (w.chan d).fd_ → c = d
  map : Registers w.poller.channels_ (fun c => (w.chan c).fd_) fun c => mapEntry c (w.chan c)
  kernel : Registers w.poller.interest (fun c => (w.chan c).fd_) fun c => interestEntry c (w.chan c)
  failed : w.failed = []

omit [DecidableEq ι] in
theorem bookkept_initial (fds : ι → ℕ) : Bookkept (initial fds) where
  index _ := Or.inl rfl
  added _ := by simp [initial, Channel.new, kNew]
  distinct c d hc := absurd rfl hc
  map := by simpa [initial, mapEntry, Channel.new, kNew] using Registers.empty fds
  kernel := by simpa [initial, interestEntry, Channel.new, kAdded] using Registers.empty fds
  failed := rfl

/-- No other channel is registered under the descriptor of `c`. -/
def Alone (w : Loop ι) (c : ι) : Prop :=
  ∀ d, d ≠ c → (w.chan d).fd_ = (w.chan c).fd_ → (w.chan d).index_ = kNew

section Steps

variable {w : Loop ι}

omit [DecidableEq ι] in
theorem Alone.mapEntry {c : ι} (h : Alone w c) (d : ι) (hd : d ≠ c)
    (hfd : (w.chan d).fd_ = (w.chan c).fd_) : mapEntry d (w.chan d) = none := if_pos (h d hd hfd)

omit [DecidableEq ι] in
theorem Alone.interestEntry {c : ι} (h : Alone w c) (d : ι) (hd : d ≠ c)
    (hfd : (w.chan d).fd_ = (w.chan c).fd_) : interestEntry d (w.chan d) = none := by
  refine if_neg ?_
  rw [h d hd hfd]
  decide

omit [DecidableEq ι] in
theorem Bookkept.at (h : Bookkept w) {c : ι} (halone : Alone w c) : EPollAt w c :=
  ⟨h.index c, h.map.get halone.mapEntry, h.kernel.get halone.interestEntry⟩

omit [DecidableEq ι] in
/-- A call finds its channel alone under its descriptor. -/
theorem Bookkept.alone (h : Bookkept w) {call : ι × ChannelOp} (hcall : Allowed w call) :
    Alone w call.1 := by
  intro d hd hfd
  by_contra hreg
  by_cases hop : call.2 = .remove
  · exact hd (h.distinct d call.1 hreg ((h.added call.1).mp (hcall.1 hop).1) hfd)
  · exact hcall.2 hop d hd ((h.added d).mpr hreg) hfd

/-- The clauses about single channels, when only `c` changes and stays alone
under its descriptor. -/
theorem bookkept_of_update (h : Bookkept w) {c : ι} (halone : Alone w c) {ch : Channel}
    (hfd : ch.fd_ = (w.chan c).fd_)
    (hindex : ch.index_ = kNew ∨ ch.index_ = kAdded ∨ ch.index_ = kDeleted)
    (hadded : ch.addedToLoop_ = true ↔ ch.index_ ≠ kNew) {p : EPollPoller ι}
    (hmap : Registers p.channels_ (fun d => (w.chan d).fd_)
      (Function.update (fun d => mapEntry d (w.chan d)) c (mapEntry c ch)))
    (hkernel : Registers p.interest (fun d => (w.chan d).fd_)
      (Function.update (fun d => interestEntry d (w.chan d)) c (interestEntry c ch))) :
    Bookkept (⟨Function.update w.chan c ch, p, w.failed⟩ : Loop ι) := by
  have hfds := fd_update w c hfd
  refine ⟨fun d => ?_, fun d => ?_, fun d e hd he hde => ?_, ?_, ?_, h.failed⟩
  · by_cases hdc : d = c
    · simpa [hdc] using hindex
    · simpa [hdc] using h.index d
  · by_cases hdc : d = c
    · simpa [hdc] using hadded
    · simpa [hdc] using h.added d
  · dsimp only at hd he
    have hde' : (w.chan d).fd_ = (w.chan e).fd_ :=
      (congrFun hfds d).symm.trans (hde.trans (congrFun hfds e))
    by_cases hdc : d = c
    · by_contra hne
      subst hdc
      rw [Function.update_of_ne (Ne.symm hne)] at he
      exact he (halone e (Ne.symm hne) hde'.symm)
    · rw [Function.update_of_ne hdc] at hd
      by_cases hec : e = c
      · subst hec
        exact absurd (halone d hdc hde') hd
      · rw [Function.update_of_ne hec] at he
        exact h.distinct d e hd he hde'
  · show Registers _ (fun d => (Function.update w.chan c ch d).fd_) _
    rw [hfds, map_update Net.mapEntry]
    exact hmap
  · show Registers _ (fun d => (Function.update w.chan c ch d).fd_) _
    rw [hfds, map_update Net.interestEntry]
    exact hkernel

theorem bookkept_updateTo (h : Bookkept w) {c : ι} (halone : Alone w c) (ev : Mask) :
    Bookkept (Channel.updateTo impl w c ev) := by
  rw [epollAt_updateTo (h.at halone)]
  have hidx :
      nextIndex (w.chan c).index_ ev = kAdded ∨ nextIndex (w.chan c).index_ ev = kDeleted := by
    unfold nextIndex
    split
    · exact Or.inr rfl
    · exact Or.inl rfl
  have hnew : nextIndex (w.chan c).index_ ev ≠ kNew := by
    rcases hidx with hi | hi <;> rw [hi] <;> decide
  refine bookkept_of_update h halone (show (updated (w.chan c) ev).fd_ = (w.chan c).fd_ from rfl)
    (Or.inr hidx) ⟨fun _ => hnew, fun _ => rfl⟩ ?_ ?_
  · rw [show mapEntry c (updated (w.chan c) ev) = some c from if_neg hnew]
    exact h.map.insert halone.mapEntry c
  · unfold nextInterest
    split
    · rename_i hdel
      rw [show interestEntry c (updated (w.chan c) ev) = none from by
        simp [Net.interestEntry, updated, nextIndex, hdel, kDeleted, kAdded]]
      exact h.kernel.erase halone.interestEntry
    · rename_i hadd
      rw [show interestEntry c (updated (w.chan c) ev) = some ⟨ev, c⟩ from by
        simp [Net.interestEntry, updated, nextIndex, hadd]]
      exact h.kernel.insert halone.interestEntry ⟨ev, c⟩

theorem bookkept_remove (h : Bookkept w) {c : ι} (halone : Alone w c)
    (hreg : (w.chan c).addedToLoop_ = true) (hev : (w.chan c).events_ = kNoneEvent) :
    Bookkept (Channel.remove impl w c) := by
  rw [epollAt_remove (h.at halone) ((h.added c).mp hreg) hev]
  refine bookkept_of_update h halone (show (removed (w.chan c)).fd_ = (w.chan c).fd_ from rfl)
    (Or.inl rfl) (by simp [removed]) ?_ ?_
  · exact h.map.erase halone.mapEntry
  · dsimp only
    split
    · exact h.kernel.erase halone.interestEntry
    · rename_i hi
      -- not in the kernel before, so nothing to delete
      rw [show interestEntry c (removed (w.chan c)) = interestEntry c (w.chan c) from
        (if_neg hi).symm, Function.update_eq_self]
      exact h.kernel

/-- **One call** keeps the books. -/
theorem bookkept_step (w : Loop ι) (call : ι × ChannelOp) (h : Bookkept w)
    (hcall : Allowed w call) :
    Bookkept (step w call) := by
  have halone := h.alone hcall
  rw [step]
  by_cases hop : call.2 = .remove
  · obtain ⟨hreg, hev⟩ := hcall.1 hop
    rw [hop]
    exact bookkept_remove h halone hreg hev
  · rw [ChannelOp.apply_eq_updateTo _ _ _ hop]
    exact bookkept_updateTo h halone _

omit [DecidableEq ι] in
/-- Every call to `epoll_ctl` succeeds. -/
theorem Bookkept.ctl_isSome (h : Bookkept w) {c : ι} {op : ChannelOp} (hcall : Allowed w (c, op))
    {o : EpollOp} {ev : Mask} (hctl : ctl w c op = some (o, ev)) :
    (epollCtl w.poller.interest o (w.chan c).fd_ ⟨ev, c⟩).isSome := by
  have hk := (h.at (h.alone hcall)).kernel
  rcases h.index c with hi | hi | hi
  · -- not in the kernel, and `remove` is not called
    have hop : op ≠ .remove := by
      rintro rfl
      exact (h.added c).mp (hcall.1 rfl).1 hi
    simp only [ctl, if_neg hop, hi, true_or, if_true, Option.some.injEq, Prod.mk.injEq] at hctl
    rw [← hctl.1]
    simp [epollCtl, hk, Net.interestEntry, hi, kNew, kAdded]
  · -- in the kernel, so it is not added
    have hin : (w.poller.interest.get? (w.chan c).fd_).isSome = true := by
      rw [hk, Net.interestEntry, if_pos hi]
      rfl
    have hne : ¬ (kAdded = kNew ∨ kAdded = kDeleted) := by decide
    simp only [ctl, hi, if_neg hne, if_true] at hctl
    split_ifs at hctl <;> (cases hctl; simp [epollCtl, hin])
  · -- not in the kernel; `remove` makes no call
    have hne : ¬ kDeleted = kAdded := by decide
    simp only [ctl, hi, or_true, if_true, if_neg hne] at hctl
    split_ifs at hctl
    cases hctl
    simp [epollCtl, hk, Net.interestEntry, hi, hne]

end Steps

/-! ### The active channels -/

section Active

variable {w : Loop ι}

/-- The lookups of the loop succeed for channels that are in the map under their descriptor. -/
theorem foldl_activate {events : List (EpollEvent ι)} (active : List ι)
    (h : ∀ event ∈ events, w.poller.channels_.get? (w.chan event.ptr).fd_ = some event.ptr) :
    (events.foldl activate (w, active)).1.failed = w.failed ∧
    (events.foldl activate (w, active)).2 = active ++ events.map EpollEvent.ptr := by
  induction events generalizing w active with
  | nil => exact ⟨rfl, (List.append_nil active).symm⟩
  | cons event events ih =>
      have hone : activate (w, active) event =
          (w.modify event.ptr (·.set_revents event.events), active ++ [event.ptr]) := by
        simp [activate, h event List.mem_cons_self]
      -- only `revents_` changes, so the later lookups are the same
      have hrest :
          ∀ e ∈ events, (w.modify event.ptr (·.set_revents event.events)).poller.channels_.get?
            ((w.modify event.ptr (·.set_revents event.events)).chan e.ptr).fd_ = some e.ptr := by
        intro e he
        have hfd := congrFun (fd_update w event.ptr
          (show ((w.chan event.ptr).set_revents event.events).fd_ =
            (w.chan event.ptr).fd_ from rfl)) e.ptr
        rw [modify_poller, modify_chan, hfd]
        exact h e (List.mem_cons_of_mem event he)
      obtain ⟨hfailed, hactive⟩ := ih (active ++ [event.ptr]) hrest
      rw [List.foldl_cons, hone]
      exact ⟨hfailed, by rw [hactive, List.append_assoc, List.map_cons, List.singleton_append]⟩

theorem Bookkept.fillActiveChannels (h : Bookkept w) {events : List (EpollEvent ι)}
    (hrep : Reported w events) : (EPollPoller.fillActiveChannels w events).1.failed = [] ∧
      (EPollPoller.fillActiveChannels w events).2 = events.map EpollEvent.ptr := by
  have hmap : ∀ event ∈ events,
      w.poller.channels_.get? (w.chan event.ptr).fd_ = some event.ptr := by
    intro event hevent
    obtain ⟨fd, entry, hentry, hptr⟩ := hrep event hevent
    obtain ⟨c, -, hc⟩ := (h.kernel fd entry).mp hentry
    simp only [Net.interestEntry] at hc
    split at hc
    · rename_i hi
      cases hc
      rw [← hptr, h.map]
      exact ⟨c, rfl, if_neg (by rw [hi]; decide)⟩
    · cases hc
  obtain ⟨hfailed, hactive⟩ := foldl_activate [] hmap
  exact ⟨hfailed.trans h.failed, hactive⟩

end Active

instance [Fintype ι] (w : Loop ι) (call : ι × ChannelOp) : Decidable (Allowed w call) :=
  inferInstanceAs (Decidable ((_ → _) ∧ (_ → _)))

end EPollPoller

section Runs

open EPollPoller

/-- **The bookkeeping of `EPollPoller` matches the kernel.**  After every sequence of channel
operations in which channels registered at the same time have distinct descriptors and `remove` is
called on registered channels without events: the map holds the channels with index `kAdded` or
`kDeleted`, the interest list those with index `kAdded`, with their mask and pointer; no assertion
has failed; the next operation's call to `epoll_ctl` succeeds; and so do the lookups for whatever
`epoll_wait` reports. -/
theorem epoll_bookkeeping (fds : ι → ℕ) (calls : List (ι × ChannelOp))
    (hcalls : Along step Allowed (initial fds) calls) :
    let w := exec step (initial fds) calls
    (∀ fd c, w.poller.channels_.get? fd = some c ↔
      (w.chan c).fd_ = fd ∧ ((w.chan c).index_ = kAdded ∨ (w.chan c).index_ = kDeleted)) ∧
    (∀ fd entry, w.poller.interest.get? fd = some entry ↔
      (w.chan entry.ptr).fd_ = fd ∧ (w.chan entry.ptr).index_ = kAdded ∧
        entry.events = (w.chan entry.ptr).events_) ∧
    w.failed = [] ∧
    (∀ c op o ev, Allowed w (c, op) → ctl w c op = some (o, ev) →
      (epollCtl w.poller.interest o (w.chan c).fd_ ⟨ev, c⟩).isSome) ∧
    (∀ events, Reported w events → (fillActiveChannels w events).1.failed = [] ∧
      (fillActiveChannels w events).2 = events.map EpollEvent.ptr) := by
  intro w
  have h : Bookkept w := along_invariant Bookkept bookkept_step (bookkept_initial fds) hcalls
  refine ⟨fun fd c => ?_, fun fd entry => ?_, h.failed, fun c op o ev hcall hctl =>
    h.ctl_isSome hcall hctl, fun events hrep => h.fillActiveChannels hrep⟩
  · rw [h.map]
    constructor
    · rintro ⟨d, hfd, hd⟩
      simp only [mapEntry] at hd
      split at hd
      · cases hd
      · rename_i hnew
        cases hd
        exact ⟨hfd, (h.index c).resolve_left hnew⟩
    · rintro ⟨hfd, hidx⟩
      refine ⟨c, hfd, if_neg ?_⟩
      rcases hidx with hi | hi <;> rw [hi] <;> decide
  · rw [h.kernel]
    constructor
    · rintro ⟨d, hfd, hd⟩
      simp only [interestEntry] at hd
      split at hd
      · rename_i hi
        cases hd
        exact ⟨hfd, hi, rfl⟩
      · cases hd
    · rintro ⟨hfd, hi, hev⟩
      refine ⟨entry.ptr, hfd, (if_pos hi).trans ?_⟩
      rw [← hev]

/-- A descriptor that is used again by another channel. -/
theorem epoll_bookkeeping_reused :
    let calls : List (Bool × ChannelOp) :=
      [(false, .enableReading), (false, .disableAll), (false, .remove), (true, .enableWriting)]
    Along step Allowed (initial fun _ => 3) calls ∧
      (exec step (initial fun _ => 3) calls).poller.channels_.get? 3 = some true := by
  have hcalls : Along step Allowed (initial fun _ : Bool => 3)
      [(false, .enableReading), (false, .disableAll), (false, .remove),
        (true, .enableWriting)] := by
    decide +kernel
  exact ⟨hcalls, ((epoll_bookkeeping (fun _ => 3) _ hcalls).1 3 true).mpr
    ⟨by decide +kernel, by decide +kernel⟩⟩

end Runs

end Muduo.Net
