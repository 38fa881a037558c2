import Muduo.Net.PollerAgreement

/-!
# The positions of the channels in `pollfds_`

`pollfds_`, `channels_` and the `index_` of the channels describe one bijection, which
`removeChannel` repairs after it has moved the last entry.  The channel that is removed keeps its
`index_`; an update of it would take the branch for registered channels and write over an entry that
now belongs to another one.

* `Bijection` — sizes, positions, encodings;
* `Indexed`, `indexed_step` — the invariant, kept by every call but an update of a removed channel,
  also when an assertion of `removeChannel` fails;
* `registration_remove` — a removal changes nothing for the other channels;
* `index_bijection`, `index_bijection_stale` — all sequences of calls, and the call that breaks it.
-/

namespace Muduo.Net

open Muduo.Lib Muduo.Net.World

variable {ι : Type*} [DecidableEq ι]

namespace PollPoller

/-- One call on a channel. -/
def step (w : Loop ι) (call : ι × ChannelOp) : Loop ι := call.2.apply impl w call.1

/-- `remove` is called on a registered channel. -/
def Allowed (w : Loop ι) (call : ι × ChannelOp) : Prop :=
  call.2 = .remove → (w.chan call.1).addedToLoop_ = true

/-- The channel that is updated is registered or has never been. -/
def NotRemoved (w : Loop ι) (call : ι × ChannelOp) : Prop :=
  call.2 ≠ .remove → (w.chan call.1).addedToLoop_ = true ∨ (w.chan call.1).index_ = -1

instance (w : Loop ι) (call : ι × ChannelOp) : Decidable (Allowed w call) :=
  inferInstanceAs (Decidable (_ → _))

instance (w : Loop ι) (call : ι × ChannelOp) : Decidable (NotRemoved w call) :=
  inferInstanceAs (Decidable (_ → _))

structure Bijection (w : Loop ι) : Prop where
  size : w.poller.channels_.size = w.poller.pollfds_.length
  entry : ∀ fd c, w.poller.channels_.get? fd = some c →
    ∃ i : ℕ, (w.chan c).index_ = i ∧ ∃ p, w.poller.pollfds_[i]? = some p ∧
      (p.fd = fd ∨ p.fd = -fd - 1) ∧ p.events.signExtend 32 = (w.chan c).events_
  distinct : ∀ fd fd' c c', w.poller.channels_.get? fd = some c →
    w.poller.channels_.get? fd' = some c' →
    c ≠ c' → (w.chan c).index_ ≠ (w.chan c').index_

/-- What the poller holds for a channel: its entry in the map and its entry in the array. -/
def registration (w : Loop ι) (c : ι) : Option ι × Option PollFd :=
  (w.poller.channels_.get? (w.chan c).fd_, w.poller.pollfds_[(w.chan c).index_.toNat]?)

/-! ### The invariant -/

/-- An entry shows its descriptor or hides it. -/
def shownOrHidden : EntryRel where
  rel fd ev p := (p.fd = fd ∨ p.fd = -fd - 1) ∧ p.events = ev.setWidth 16
  decode h := h.1
  stored fd ev := by
    refine ⟨?_, rfl⟩
    unfold storedFd
    split
    · exact Or.inr rfl
    · exact Or.inl rfl

structure Indexed (w : Loop ι) : Prop where
  table : PollTable shownOrHidden w
  masks : ∀ c, LegalMask (w.chan c).events_
  size : w.poller.channels_.size = w.poller.pollfds_.length

omit [DecidableEq ι] in
theorem indexed_initial {fds : ι → ℕ} (h : Function.Injective fds) : Indexed (initial fds) where
  table := pollTable_initial shownOrHidden h
  masks _ := Or.inl rfl
  size := rfl

section Steps

variable {w : Loop ι}

omit [DecidableEq ι] in
theorem get?_iff (h : PollTable shownOrHidden w) (fd : ℕ) (c : ι) :
    w.poller.channels_.get? fd = some c ↔ (w.chan c).fd_ = fd ∧ (w.chan c).addedToLoop_ = true := by
  rw [h.map.get?_iff]
  simp only [pollEntry]
  constructor
  · rintro ⟨d, hfd, hd⟩
    split at hd
    · rename_i hadd
      cases hd
      exact ⟨hfd, hadd⟩
    · cases hd
  · rintro ⟨hfd, hadd⟩
    exact ⟨c, hfd, if_pos hadd⟩

theorem size_updateTo (h : Indexed w) {c : ι}
    (hlife : (w.chan c).addedToLoop_ = true ∨ (w.chan c).index_ = -1) (ev : Mask) :
    (Channel.updateTo impl w c ev).poller.channels_.size =
      (Channel.updateTo impl w c ev).poller.pollfds_.length := by
  cases hadd : (w.chan c).addedToLoop_ with
  | true =>
      obtain ⟨i, hi, -⟩ := h.table.entry c hadd
      rw [poll_updateTo_old h.table hadd hi, List.length_set, h.size]
  | false =>
      have hnone : w.poller.channels_.get? (w.chan c).fd_ = none := by
        rw [h.table.map.get c, pollEntry, hadd]
        rfl
      rw [poll_updateTo_new h.table hadd (hlife.resolve_left (by simp [hadd])),
        Map.size_insert hnone, h.size, List.length_append, List.length_singleton]

theorem size_remove (h : Indexed w) {c : ι} (hadd : (w.chan c).addedToLoop_ = true) :
    (Channel.remove impl w c).poller.channels_.size =
      (Channel.remove impl w c).poller.pollfds_.length := by
  obtain ⟨i, hi, -⟩ := h.table.entry c hadd
  obtain ⟨l, failed, hl, hlen, -⟩ := pollTable_removed h.table hadd hi
  have hsome := (get?_iff h.table (w.chan c).fd_ c).mpr ⟨rfl, hadd⟩
  rw [hl, Map.size_erase hsome, h.size, hlen]

/-- The masks stay those the calls produce. -/
theorem masks_step (h : ∀ c, LegalMask (w.chan c).events_) (call : ι × ChannelOp) (d : ι) :
    LegalMask ((step w call).chan d).events_ := by
  rw [step, ChannelOp.events_apply]
  split
  · exact legalMask_mask call.2 (h call.1)
  · exact h d

/-- **One call** keeps the bijection. -/
theorem indexed_step (w : Loop ι) (call : ι × ChannelOp) (h : Indexed w)
    (hcall : Allowed w call ∧ NotRemoved w call) : Indexed (step w call) := by
  refine ⟨?_, masks_step h.masks call, ?_⟩
  · by_cases hop : call.2 = .remove
    · rw [step, hop]
      exact pollTable_remove h.table (hcall.1 hop)
    · rw [step, ChannelOp.apply_eq_updateTo _ _ _ hop]
      exact (pollTable_updateTo h.table (hcall.2 hop) fun _ => ⟨Or.inl rfl, rfl⟩).1
  · by_cases hop : call.2 = .remove
    · rw [step, hop]
      exact size_remove h (hcall.1 hop)
    · rw [step, ChannelOp.apply_eq_updateTo _ _ _ hop]
      exact size_updateTo h (hcall.2 hop) _

omit [DecidableEq ι] in
theorem Indexed.bijection (h : Indexed w) : Bijection w where
  size := h.size
  entry fd c hc := by
    obtain ⟨rfl, hadd⟩ := (get?_iff h.table fd c).mp hc
    obtain ⟨i, hi, p, hp, hfd, hev⟩ := h.table.entry c hadd
    refine ⟨i, hi, p, hp, hfd, ?_⟩
    rw [hev, signExtend_setWidth (h.masks c)]
  distinct fd fd' c c' hc hc' hne he :=
    hne (h.table.index_inj ((get?_iff h.table fd c).mp hc).2 ((get?_iff h.table fd' c').mp hc').2
      he)

/-- **A removal changes no other channel's registration.** -/
theorem registration_remove (h : Indexed w) {c d : ι} (hc : (w.chan c).addedToLoop_ = true)
    (hd : (w.chan d).addedToLoop_ = true) (hdc : d ≠ c) :
    registration (Channel.remove impl w c) d = registration w d := by
  obtain ⟨i, hi, p, hp, -⟩ := h.table.entry c hc
  obtain ⟨k, hk, q, hq, -⟩ := h.table.entry d hd
  obtain ⟨l, failed, hl, -, hget, -⟩ := pollTable_removed h.table hc hi
  have hki : k ≠ i := by
    rintro rfl
    exact hdc (h.table.index_inj hd hc (by rw [hk, hi]))
  have hkn := (List.getElem?_eq_some_iff.mp hq).1
  have hin := (List.getElem?_eq_some_iff.mp hp).1
  have hfd : (afterRemove w c i d).fd_ = (w.chan d).fd_ := congrFun (fd_afterRemove w c i) d
  have hne : (w.chan d).fd_ ≠ (w.chan c).fd_ := fun he => hdc (h.table.distinct he)
  rw [registration, registration, hl]
  dsimp only
  rw [hfd, Map.get?_erase, if_neg hne, hk, index_afterRemove hdc hd hk]
  congr 1
  by_cases hlast : k = w.poller.pollfds_.length - 1
  · -- it was last and now stands where `c` was
    rw [if_pos hlast, Int.toNat_natCast, Int.toNat_natCast, hget, if_pos ⟨rfl, by omega⟩, hlast]
  · rw [if_neg hlast, Int.toNat_natCast, hget, if_neg fun hj => hki hj.1, if_pos (by omega)]

end Steps

end PollPoller

section Runs

open PollPoller

/-- **The index bijection of `PollPoller`.**  After every sequence of calls on channels with
distinct descriptors, in which `remove` is called on registered channels and no channel is
updated after it was removed: the sizes agree, every registered channel stands at its own
position, in the encoding of its descriptor and mask, and removing a channel changes nothing that
is held for another one. -/
theorem index_bijection (fds : ι → ℕ) (hfds : Function.Injective fds) (calls : List (ι × ChannelOp))
    (hcalls : Along step Allowed (initial fds) calls)
    (hlife : Along step NotRemoved (initial fds) calls) :
    let w := exec step (initial fds) calls
    Bijection w ∧ ∀ fd c fd' d, w.poller.channels_.get? fd = some c →
      w.poller.channels_.get? fd' = some d → d ≠ c →
        registration (Channel.remove impl w c) d = registration w d := by
  intro w
  have h : Indexed w := along_invariant Indexed indexed_step (indexed_initial hfds)
    (hcalls.and hlife)
  refine ⟨h.bijection, fun fd c fd' d hc hd hdc => ?_⟩
  exact registration_remove h ((get?_iff h.table fd c).mp hc).2 ((get?_iff h.table fd' d).mp hd).2
    hdc

/-- Two channels, for the descriptors 3 and 4. -/
def twoFds : Bool → ℕ := fun b => if b then 4 else 3

/-- Both channels are registered, and the first one is removed: the second one moves. -/
theorem index_bijection_moved :
    let calls : List (Bool × ChannelOp) :=
      [(false, .enableReading), (true, .enableReading), (false, .disableAll), (false, .remove)]
    Bijection (exec step (initial twoFds) calls) ∧
      ((exec step (initial twoFds) calls).chan true).index_ = 0 :=
  ⟨(index_bijection twoFds (by decide) _ (by decide +kernel) (by decide +kernel)).1,
    by decide +kernel⟩

/-- The first channel is used again: its entry is written where the second one's stands. -/
theorem index_bijection_stale :
    let calls : List (Bool × ChannelOp) := [(false, .enableReading), (true, .enableReading),
      (false, .disableAll), (false, .remove), (false, .enableReading)]
    Along step Allowed (initial twoFds) calls ∧ ¬ Bijection (exec step (initial twoFds) calls) := by
  intro calls
  refine ⟨by decide +kernel, fun h => ?_⟩
  obtain ⟨i, hi, p, hp, hfd, -⟩ := h.entry 4 true (by decide +kernel)
  have hidx : ((exec step (initial twoFds) calls).chan true).index_ = 0 := by decide +kernel
  obtain rfl : i = 0 := by omega
  have hentry : (exec step (initial twoFds) calls).poller.pollfds_[0]?.map PollFd.fd = some 3 := by
    decide +kernel
  rw [hp, Option.map_some, Option.some.injEq] at hentry
  omega

end Runs

end Muduo.Net
