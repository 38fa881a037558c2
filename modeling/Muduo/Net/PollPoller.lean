import Muduo.Lib.Arrays
import Muduo.Lib.Map
import Muduo.Net.Channel

/-!
# `PollPoller`

The poller keeps the array `pollfds_` it hands to `poll(2)`; a channel's `index_` is its position
there.  A channel without events is not taken out of the array but hidden: its descriptor is stored
as `-fd-1`, which `poll(2)` ignores.  `removeChannel` swaps an entry with the last one and repairs
the index stored in the channel that was last.

* `PollInv` — `channels_`, the indices and the array describe the same registrations, up to an entry
  relation `EntryRel` that says how an entry encodes its channel;
* `poll_updateTo_new`, `poll_updateTo_old`, `pollTable_removed` — each operation in closed form;
* `pollTable_updateTo`, `pollTable_remove` — they keep the data structures consistent, `PollTable`;
* `pollInv_updateTo`, `poll_remove` — and fail no assertion.

`removeChannel` leaves the removed channel's `index_` as it is, so the invariant speaks about
registered channels only, and an update needs a channel that is registered or was never registered.
-/

namespace Muduo.Net

open Muduo.Lib Muduo.Net.World

structure PollFd where
  fd : ℤ
  events : BitVec 16
  revents : BitVec 16
  deriving DecidableEq, Inhabited

structure PollPoller (ι : Type*) where
  channels_ : Map ℕ ι
  pollfds_ : List PollFd

variable {ι : Type*} [DecidableEq ι]

namespace PollPoller

abbrev Loop (ι : Type*) := World (PollPoller ι) ι

def updateChannel (w : Loop ι) (c : ι) : Loop ι :=
  let ch := w.chan c
  if ch.index_ < 0 then
    -- a new one, add to pollfds_
    let w₁ := w.assert (w.poller.channels_.get? ch.fd_).isNone .newChannelInMap
    let pollfds := w₁.poller.pollfds_ ++ [⟨ch.fd_, ch.events_.setWidth 16, 0⟩]
    let w₂ := w₁.modify c (·.set_index (pollfds.length - 1))
    { w₂ with poller := ⟨w₂.poller.channels_.insert ch.fd_ c, pollfds⟩ }
  else
    let idx := ch.index_
    let pfd := w.poller.pollfds_.getD idx.toNat default
    let w₁ := ((w.assert (w.poller.channels_.get? ch.fd_ == some c) .channelNotInMap).assert
      (0 ≤ idx && idx < w.poller.pollfds_.length) .badIndex).assert
      (pfd.fd == ch.fd_ || pfd.fd == -ch.fd_ - 1) .pollfdForeign
    let fd : ℤ := if ch.isNoneEvent then -ch.fd_ - 1 else ch.fd_
    { w₁ with poller := { w₁.poller with
        pollfds_ := w₁.poller.pollfds_.set idx.toNat ⟨fd, ch.events_.setWidth 16, 0⟩ } }

def removeChannel (w : Loop ι) (c : ι) : Loop ι :=
  let ch := w.chan c
  let idx := ch.index_
  let pollfds := w.poller.pollfds_
  let pfd := pollfds.getD idx.toNat default
  let w₁ := (((w.assert (w.poller.channels_.get? ch.fd_ == some c) .channelNotInMap).assert
    ch.isNoneEvent .removeHasEvents).assert (0 ≤ idx && idx < pollfds.length) .badIndex).assert
    (pfd.fd == -ch.fd_ - 1 && pfd.events.signExtend 32 == ch.events_) .pollfdNotIgnored
  let w₂ := w₁.assert (w₁.poller.channels_.get? ch.fd_).isSome .eraseCount
  let channels := w₂.poller.channels_.erase ch.fd_
  if idx.toNat = pollfds.length - 1 then
    { w₂ with poller := ⟨channels, pollfds.dropLast⟩ }
  else
    let last := (pollfds.getLastD default).fd
    let channelAtEnd := if last < 0 then -last - 1 else last
    let w₃ := match channels.get? channelAtEnd.toNat with
      | some d => w₂.modify d (·.set_index idx)
      | none => w₂
    { w₃ with poller := ⟨channels, (iterSwap pollfds idx.toNat (pollfds.length - 1)).dropLast⟩ }

theorem events_updateChannel (w : Loop ι) (c d : ι) :
    ((updateChannel w c).chan d).events_ = (w.chan d).events_ := by
  unfold updateChannel
  dsimp only
  split_ifs <;> simp [events_modify, Channel.set_index]

theorem events_removeChannel (w : Loop ι) (c d : ι) :
    ((removeChannel w c).chan d).events_ = (w.chan d).events_ := by
  unfold removeChannel
  dsimp only
  split
  · simp
  · split <;> simp [events_modify, Channel.set_index]

def impl : Poller (PollPoller ι) ι :=
  ⟨updateChannel, removeChannel, events_updateChannel, events_removeChannel⟩

/-- A loop with a fresh `PollPoller` and a fresh channel on every descriptor `fds c`. -/
def initial (fds : ι → ℕ) : Loop ι := ⟨fun c => Channel.new (fds c), ⟨.empty, []⟩, []⟩

end PollPoller

open PollPoller

/-! ### The representation invariant -/

/-- The descriptor stored for a channel that asks for `ev`, once it has been updated in place. -/
def storedFd (fd : ℕ) (ev : Mask) : ℤ := if ev = kNoneEvent then -fd - 1 else fd

/-- How an array entry encodes the descriptor and the mask of its channel: it determines the
descriptor, and holds of the entry an in-place update writes. -/
structure EntryRel where
  rel : ℕ → Mask → PollFd → Prop
  decode : ∀ {fd ev p}, rel fd ev p → p.fd = fd ∨ p.fd = -fd - 1
  stored : ∀ fd ev, rel fd ev ⟨storedFd fd ev, ev.setWidth 16, 0⟩

/-- The registration of a channel in `channels_`. -/
def pollEntry (c : ι) (ch : Channel) : Option ι := if ch.addedToLoop_ then some c else none

/-- What the data structures have to do with each other, also after an assertion has failed. -/
structure PollTable (R : EntryRel) (w : Loop ι) : Prop where
  distinct : Function.Injective fun c => (w.chan c).fd_
  map : Tabulates w.poller.channels_ (fun c => (w.chan c).fd_) fun c => pollEntry c (w.chan c)
  entry : ∀ c, (w.chan c).addedToLoop_ = true → ∃ i : ℕ, (w.chan c).index_ = i ∧
    ∃ p, w.poller.pollfds_[i]? = some p ∧ R.rel (w.chan c).fd_ (w.chan c).events_ p
  owner : ∀ i < w.poller.pollfds_.length, ∃ c, (w.chan c).addedToLoop_ = true ∧
    (w.chan c).index_ = i

structure PollInv (R : EntryRel) (w : Loop ι) : Prop extends PollTable R w where
  failed : w.failed = []

omit [DecidableEq ι] in
theorem pollTable_initial (R : EntryRel) {fds : ι → ℕ} (h : Function.Injective fds) :
    PollTable R (initial fds) where
  distinct c d hcd := h hcd
  map := by simpa [initial, pollEntry, Channel.new] using Tabulates.empty fds
  entry c hc := by simp [initial, Channel.new] at hc
  owner i hi := by simp [initial] at hi

omit [DecidableEq ι] in
theorem pollInv_initial (R : EntryRel) {fds : ι → ℕ} (h : Function.Injective fds) :
    PollInv R (initial fds) := ⟨pollTable_initial R h, rfl⟩

section Operations

variable {R : EntryRel} {w : Loop ι}

omit [DecidableEq ι] in
/-- Distinct registered channels have distinct positions. -/
theorem PollTable.index_inj (h : PollTable R w) {c d : ι} (hc : (w.chan c).addedToLoop_ = true)
    (hd : (w.chan d).addedToLoop_ = true) (he : (w.chan c).index_ = (w.chan d).index_) : c = d := by
  obtain ⟨i, hi, p, hp, hcp⟩ := h.entry c hc
  obtain ⟨j, hj, q, hq, hdq⟩ := h.entry d hd
  have hij : i = j := by omega
  subst hij
  obtain rfl : p = q := Option.some.inj (hp.symm.trans hq)
  apply h.distinct
  show (w.chan c).fd_ = (w.chan d).fd_
  rcases R.decode hcp with h₁ | h₁ <;> rcases R.decode hdq with h₂ | h₂ <;> omega

/-- **First update** of a channel: a new entry at the end, shown whatever the mask. -/
theorem poll_updateTo_new (h : PollTable R w) {c : ι} (hadd : (w.chan c).addedToLoop_ = false)
    (hidx : (w.chan c).index_ = -1) (ev : Mask) :
    Channel.updateTo impl w c ev =
      { chan := Function.update w.chan c { w.chan c with
          events_ := ev, addedToLoop_ := true, index_ := w.poller.pollfds_.length }
        poller := ⟨w.poller.channels_.insert (w.chan c).fd_ c,
          w.poller.pollfds_ ++ [⟨(w.chan c).fd_, ev.setWidth 16, 0⟩]⟩
        failed := w.failed } := by
  have hm := h.map.get c
  simp [Channel.updateTo, Channel.update, impl, updateChannel, modify_chan, Channel.setEvents,
    Channel.set_index, hadd, hidx, hm, pollEntry]

/-- **Later updates**: the entry is overwritten in place and hidden when the mask is empty. -/
theorem poll_updateTo_old (h : PollTable R w) {c : ι} (hadd : (w.chan c).addedToLoop_ = true)
    {i : ℕ} (hidx : (w.chan c).index_ = i) (ev : Mask) :
    Channel.updateTo impl w c ev =
      { chan := Function.update w.chan c { w.chan c with events_ := ev, addedToLoop_ := true }
        poller := ⟨w.poller.channels_,
          w.poller.pollfds_.set i ⟨storedFd (w.chan c).fd_ ev, ev.setWidth 16, 0⟩⟩
        failed := w.failed } := by
  have hm := h.map.get c
  obtain ⟨j, hj, p, hp, hrel⟩ := h.entry c hadd
  obtain rfl : j = i := by omega
  obtain ⟨hlt, hget⟩ := List.getElem?_eq_some_iff.mp hp
  have hneg : ¬ (j : ℤ) < 0 := by omega
  have hfd := R.decode hrel
  simp [Channel.updateTo, Channel.update, impl, updateChannel, modify_chan, Channel.setEvents,
    Channel.isNoneEvent, hadd, hidx, hm, hlt, hget, hneg, hfd, pollEntry, storedFd]

/-- The registered channels other than `c`, after `c` left position `i`: the one that was last takes
that position. -/
def afterRemove (w : Loop ι) (c : ι) (i : ℕ) : ι → Channel := fun d =>
  if d = c then { w.chan c with addedToLoop_ := false }
  else if (w.chan d).addedToLoop_ = true ∧
    (w.chan d).index_ = (w.poller.pollfds_.length - 1 : ℕ) then
    (w.chan d).set_index i
  else w.chan d

theorem fd_afterRemove (w : Loop ι) (c : ι) (i : ℕ) :
    (fun d => (afterRemove w c i d).fd_) = fun d => (w.chan d).fd_ := by
  funext d
  unfold afterRemove Channel.set_index
  split_ifs with hd <;> simp [hd]

theorem events_afterRemove (w : Loop ι) (c : ι) (i : ℕ) (d : ι) :
    (afterRemove w c i d).events_ = (w.chan d).events_ := by
  unfold afterRemove Channel.set_index
  split_ifs with hd <;> simp [hd]

theorem added_afterRemove {c d : ι} {i : ℕ} :
    (afterRemove w c i d).addedToLoop_ = true ↔ d ≠ c ∧ (w.chan d).addedToLoop_ = true := by
  unfold afterRemove Channel.set_index
  split_ifs with hd <;> simp [hd]

/-- A registered channel keeps its position, unless it was the last one. -/
theorem index_afterRemove {c d : ι} (hdc : d ≠ c) (hda : (w.chan d).addedToLoop_ = true) {k : ℕ}
    (hk : (w.chan d).index_ = k) (i : ℕ) :
    (afterRemove w c i d).index_ = if k = w.poller.pollfds_.length - 1 then (i : ℤ) else k := by
  unfold afterRemove
  by_cases hlast : k = w.poller.pollfds_.length - 1
  · rw [if_neg hdc, if_pos ⟨hda, by rw [hk, hlast]⟩, if_pos hlast]
    rfl
  · rw [if_neg hdc, if_neg (by rw [hk]; omega), if_neg hlast, hk]

/-- If the channel was the last one, no other moves. -/
theorem afterRemove_last (h : PollTable R w) {c : ι} (hadd : (w.chan c).addedToLoop_ = true) {i : ℕ}
    (hidx : (w.chan c).index_ = i) (hlast : i = w.poller.pollfds_.length - 1) :
    afterRemove w c i = Function.update w.chan c { w.chan c with addedToLoop_ := false } := by
  funext d
  unfold afterRemove
  by_cases hd : d = c
  · subst hd
    simp
  · have hnot : ¬ ((w.chan d).addedToLoop_ = true ∧
        (w.chan d).index_ = (w.poller.pollfds_.length - 1 : ℕ)) := by
      rintro ⟨hda, hdi⟩
      exact hd (h.index_inj hda hadd (by rw [hdi, hidx, hlast]))
    simp [hd, hnot]

/-- If the last one is `d`, it is the only one that moves. -/
theorem afterRemove_moved (h : PollTable R w) {c d : ι} (hda : (w.chan d).addedToLoop_ = true)
    (hdi : (w.chan d).index_ = (w.poller.pollfds_.length - 1 : ℕ)) (hdc : d ≠ c) (i : ℕ) :
    afterRemove w c i = Function.update
      (Function.update w.chan c { w.chan c with addedToLoop_ := false }) d
      ((w.chan d).set_index i) := by
  funext e
  unfold afterRemove
  by_cases he : e = d
  · subst he
    simp [hdc, hda, hdi]
  · have hnot : ¬ ((w.chan e).addedToLoop_ = true ∧
        (w.chan e).index_ = (w.poller.pollfds_.length - 1 : ℕ)) := by
      rintro ⟨hea, hei⟩
      exact he (h.index_inj hea hda (by rw [hei, hdi]))
    by_cases hec : e = c
    · subst hec
      simp [he]
    · simp [he, hec, hnot]

/-- **The effect of a removal** of a registered channel at position `i`; the assertions hold if the
channel has no events and is hidden. -/
theorem pollTable_removed (h : PollTable R w) {c : ι} (hadd : (w.chan c).addedToLoop_ = true)
    {i : ℕ} (hidx : (w.chan c).index_ = i) :
    ∃ (l : List PollFd) (failed : List Assert),
      Channel.remove impl w c =
        ⟨afterRemove w c i, ⟨w.poller.channels_.erase (w.chan c).fd_, l⟩, failed⟩ ∧
      l.length = w.poller.pollfds_.length - 1 ∧
      (∀ j, l[j]? = if j = i ∧ i + 1 < w.poller.pollfds_.length then
          w.poller.pollfds_[w.poller.pollfds_.length - 1]?
        else if j + 1 < w.poller.pollfds_.length then w.poller.pollfds_[j]? else none) ∧
      ((w.chan c).events_ = kNoneEvent → (∀ p, w.poller.pollfds_[i]? = some p →
        p.fd = -(w.chan c).fd_ - 1 ∧ p.events.signExtend 32 = (w.chan c).events_) →
        failed = w.failed) := by
  have hm := h.map.get c
  obtain ⟨j, hj, p, hp, -⟩ := h.entry c hadd
  obtain rfl : j = i := by omega
  obtain ⟨hlt, hget⟩ := List.getElem?_eq_some_iff.mp hp
  by_cases hlast : j = w.poller.pollfds_.length - 1
  · -- the entry is the last one: pop it
    refine ⟨w.poller.pollfds_.dropLast, (Channel.remove impl w c).failed, ?_, List.length_dropLast,
      ?_, fun hev hidden => ?_⟩
    · rw [afterRemove_last h hadd hidx hlast]
      ext1
      · simp [Channel.remove, impl, removeChannel, modify_chan, hidx, ← hlast]
      · simp [Channel.remove, impl, removeChannel, hidx, ← hlast]
      · rfl
    · intro k
      rw [List.getElem?_dropLast]
      split_ifs <;> first | rfl | omega
    · obtain ⟨hpfd, hpev⟩ := hidden p hp
      rw [hev] at hpev
      simp [Channel.remove, impl, removeChannel, Channel.isNoneEvent, hadd, hidx,
        hm, hev, hget, hlt, hpfd, hpev, pollEntry, ← hlast]
  · -- another entry is the last one: its owner `d` moves to position `j`
    have hn : j + 1 < w.poller.pollfds_.length := by omega
    obtain ⟨d, hda, hdi⟩ := h.owner (w.poller.pollfds_.length - 1) (by omega)
    obtain ⟨k, hk, q, hq, hrel⟩ := h.entry d hda
    obtain rfl : k = w.poller.pollfds_.length - 1 := by omega
    have hdc : d ≠ c := by
      rintro rfl
      omega
    have hback : w.poller.pollfds_.getLast?.getD default = q := by
      rw [List.getLast?_eq_getElem?, hq]
      rfl
    have hat : (if q.fd < 0 then -q.fd - 1 else q.fd).toNat = (w.chan d).fd_ := by
      rcases R.decode hrel with hd | hd <;> rw [hd] <;> split <;> omega
    have hown : (w.poller.channels_.erase (w.chan c).fd_).get? (w.chan d).fd_ = some d := by
      rw [(h.map.erase h.distinct c).get d, Function.update_of_ne hdc, pollEntry, if_pos hda]
    refine ⟨(iterSwap w.poller.pollfds_ j (w.poller.pollfds_.length - 1)).dropLast,
      (Channel.remove impl w c).failed, ?_, by simp, ?_, fun hev hidden => ?_⟩
    · rw [afterRemove_moved h hda hdi hdc]
      ext1
      · simp [-Map.get?_erase, Channel.remove, impl, removeChannel, modify_chan, hidx,
          hlast, hback, hat, hown, hdc]
      · simp [-Map.get?_erase, Channel.remove, impl, removeChannel, modify_chan, hidx,
          hlast, hback, hat, hown, hdc]
      · rfl
    · intro k
      rw [getElem?_swap_dropLast _ hn]
      simp only [hn, and_true]
    · obtain ⟨hpfd, hpev⟩ := hidden p hp
      rw [hev] at hpev
      simp [-Map.get?_erase, Channel.remove, impl, removeChannel, Channel.isNoneEvent, hadd, hidx,
        hm, hev, hget, hlt, hpfd, hpev, pollEntry, hlast, hback, hat, hown]

theorem pollTable_remove (h : PollTable R w) {c : ι} (hadd : (w.chan c).addedToLoop_ = true) :
    PollTable R (Channel.remove impl w c) := by
  obtain ⟨i, hidx, p, hp, -⟩ := h.entry c hadd
  have hin := (List.getElem?_eq_some_iff.mp hp).1
  obtain ⟨l, failed, hl, hlen, hget, -⟩ := pollTable_removed h hadd hidx
  rw [hl]
  have hfd := fd_afterRemove w c i
  refine ⟨hfd ▸ h.distinct, ?_, ?_, ?_⟩
  · show Tabulates _ (fun d => (afterRemove w c i d).fd_) fun d => pollEntry d (afterRemove w c i d)
    have hval : (fun d => pollEntry d (afterRemove w c i d)) =
        Function.update (fun d => pollEntry d (w.chan d)) c none := by
      funext d
      by_cases hd : d = c
      · subst hd
        simp [pollEntry, added_afterRemove]
      · simp [pollEntry, added_afterRemove, hd]
    rw [hfd, hval]
    exact h.map.erase h.distinct c
  · intro d hd
    obtain ⟨hdc, hda⟩ := added_afterRemove.mp hd
    obtain ⟨k, hk, q, hq, hrel⟩ := h.entry d hda
    have hki : k ≠ i := by
      rintro rfl
      exact hdc (h.index_inj hda hadd (by rw [hk, hidx]))
    have hkn : k < w.poller.pollfds_.length := (List.getElem?_eq_some_iff.mp hq).1
    have hrel' : R.rel (afterRemove w c i d).fd_ (afterRemove w c i d).events_ q := by
      rw [events_afterRemove, congrFun hfd d]
      exact hrel
    by_cases hlast : k = w.poller.pollfds_.length - 1
    · -- the channel that was last now sits where `c` was
      refine ⟨i, ?_, q, ?_, hrel'⟩
      · rw [index_afterRemove hdc hda hk, if_pos hlast]
      · rw [hget, if_pos ⟨rfl, by omega⟩, ← hlast, hq]
    · refine ⟨k, ?_, q, ?_, hrel'⟩
      · rw [index_afterRemove hdc hda hk, if_neg hlast]
      · rw [hget, if_neg (fun hc => hki hc.1), if_pos (by omega), hq]
  · intro j hj
    show ∃ d, (afterRemove w c i d).addedToLoop_ = true ∧ (afterRemove w c i d).index_ = j
    replace hj : j < w.poller.pollfds_.length - 1 := hlen ▸ hj
    by_cases hji : j = i
    · -- position `i` is taken over by the channel that was last
      obtain ⟨d, hda, hdi⟩ := h.owner (w.poller.pollfds_.length - 1) (by omega)
      have hdc : d ≠ c := by
        rintro rfl
        omega
      refine ⟨d, added_afterRemove.mpr ⟨hdc, hda⟩, ?_⟩
      rw [index_afterRemove hdc hda hdi, if_pos rfl, hji]
    · obtain ⟨d, hda, hdi⟩ := h.owner j (by omega)
      have hdc : d ≠ c := by
        rintro rfl
        omega
      refine ⟨d, added_afterRemove.mpr ⟨hdc, hda⟩, ?_⟩
      rw [index_afterRemove hdc hda hdi, if_neg (by omega)]

/-- With the assertions: a removal of a registered, hidden channel. -/
theorem poll_remove (h : PollInv R w) {c : ι} (hadd : (w.chan c).addedToLoop_ = true)
    (hev : (w.chan c).events_ = kNoneEvent) {i : ℕ} (hidx : (w.chan c).index_ = i)
    (hidden : ∀ p, w.poller.pollfds_[i]? = some p →
      p.fd = -(w.chan c).fd_ - 1 ∧ p.events.signExtend 32 = (w.chan c).events_) :
    PollInv R (Channel.remove impl w c) ∧ (Channel.remove impl w c).chan = afterRemove w c i := by
  obtain ⟨l, failed, hl, -, -, hfailed⟩ := pollTable_removed h.toPollTable hadd hidx
  refine ⟨⟨pollTable_remove h.toPollTable hadd, ?_⟩, by rw [hl]⟩
  rw [hl, hfailed hev hidden, h.failed]

theorem pollTable_updateTo_old (h : PollTable R w) {c : ι} (hadd : (w.chan c).addedToLoop_ = true)
    (ev : Mask) : PollTable R (Channel.updateTo impl w c ev) := by
  obtain ⟨i, hi, p, hp, -⟩ := h.entry c hadd
  have hin := (List.getElem?_eq_some_iff.mp hp).1
  rw [poll_updateTo_old h hadd hi]
  have hfd : (fun d => (Function.update w.chan c
      { w.chan c with events_ := ev, addedToLoop_ := true } d).fd_) = fun d => (w.chan d).fd_ := by
    rw [map_update (fun _ => Channel.fd_), Function.update_eq_self]
  refine ⟨hfd ▸ h.distinct, ?_, ?_, ?_⟩
  · show Tabulates _ (fun d => (Function.update w.chan c
      { w.chan c with events_ := ev, addedToLoop_ := true } d).fd_) _
    have hsame : pollEntry c { w.chan c with events_ := ev, addedToLoop_ := true } =
        pollEntry c (w.chan c) := by
      simp [pollEntry, hadd]
    rw [hfd, map_update pollEntry, hsame, Function.update_eq_self]
    exact h.map
  · intro d hd
    by_cases hdc : d = c
    · subst hdc
      refine ⟨i, by simpa using hi, _, List.getElem?_set_self hin, ?_⟩
      simpa using R.stored _ ev
    · dsimp only at hd ⊢
      rw [Function.update_of_ne hdc] at hd ⊢
      obtain ⟨k, hk, q, hq, hrel⟩ := h.entry d hd
      have hki : i ≠ k := by
        rintro rfl
        exact hdc (h.index_inj hd hadd (by rw [hk, hi]))
      exact ⟨k, hk, q, (List.getElem?_set_ne hki).trans hq, hrel⟩
  · intro j hj
    obtain ⟨d, hda, hdi⟩ := h.owner j (by simpa using hj)
    by_cases hdc : d = c
    · subst hdc
      exact ⟨d, by simp, by simpa using hdi⟩
    · exact ⟨d, by simpa [hdc] using hda, by simpa [hdc] using hdi⟩

/-- On the first update the entry, which goes to the end of the array, must already
encode the mask. -/
theorem pollTable_updateTo_new (h : PollTable R w) {c : ι} {ev : Mask}
    (hadd : (w.chan c).addedToLoop_ = false) (hidx : (w.chan c).index_ = -1)
    (hfresh : R.rel (w.chan c).fd_ ev ⟨(w.chan c).fd_, ev.setWidth 16, 0⟩) :
    PollTable R (Channel.updateTo impl w c ev) := by
  rw [poll_updateTo_new h hadd hidx]
  set ch : Channel := { w.chan c with
    events_ := ev, addedToLoop_ := true, index_ := w.poller.pollfds_.length } with hch
  have hfd : (fun d => (Function.update w.chan c ch d).fd_) = fun d => (w.chan d).fd_ := by
    rw [map_update (fun _ => Channel.fd_), hch, Function.update_eq_self]
  refine ⟨hfd ▸ h.distinct, ?_, ?_, ?_⟩
  · show Tabulates _ (fun d => (Function.update w.chan c ch d).fd_) _
    rw [hfd, map_update pollEntry]
    exact h.map.insert h.distinct c c
  · intro d hd
    by_cases hdc : d = c
    · subst hdc
      refine ⟨w.poller.pollfds_.length, by simp [hch], _, List.getElem?_concat_length, ?_⟩
      simpa [hch] using hfresh
    · dsimp only at hd ⊢
      rw [Function.update_of_ne hdc] at hd ⊢
      obtain ⟨k, hk, q, hq, hrel⟩ := h.entry d hd
      have hkn := (List.getElem?_eq_some_iff.mp hq).1
      exact ⟨k, hk, q, (List.getElem?_append_left hkn).trans hq, hrel⟩
  · intro j hj
    rw [List.length_append, List.length_singleton] at hj
    rcases Nat.lt_or_ge j w.poller.pollfds_.length with hlt | hge
    · obtain ⟨d, hda, hdi⟩ := h.owner j hlt
      have hdc : d ≠ c := by
        rintro rfl
        simp [hadd] at hda
      exact ⟨d, by simpa [hdc] using hda, by simpa [hdc] using hdi⟩
    · refine ⟨c, by simp [hch], ?_⟩
      have : j = w.poller.pollfds_.length := by omega
      simp [hch, this]

theorem pollTable_updateTo (h : PollTable R w) {c : ι} {ev : Mask}
    (hlife : (w.chan c).addedToLoop_ = true ∨ (w.chan c).index_ = -1)
    (hfresh : (w.chan c).addedToLoop_ = false →
      R.rel (w.chan c).fd_ ev ⟨(w.chan c).fd_, ev.setWidth 16, 0⟩) :
    PollTable R (Channel.updateTo impl w c ev) ∧
      (Channel.updateTo impl w c ev).failed = w.failed := by
  cases hadd : (w.chan c).addedToLoop_ with
  | true =>
      obtain ⟨i, hi, -⟩ := h.entry c hadd
      exact ⟨pollTable_updateTo_old h hadd ev, by rw [poll_updateTo_old h hadd hi]⟩
  | false =>
      have hidx := hlife.resolve_left (by simp [hadd])
      exact ⟨pollTable_updateTo_new h hadd hidx (hfresh hadd),
        by rw [poll_updateTo_new h hadd hidx]⟩

theorem pollInv_updateTo (h : PollInv R w) {c : ι} {ev : Mask}
    (hlife : (w.chan c).addedToLoop_ = true ∨ (w.chan c).index_ = -1)
    (hfresh : (w.chan c).addedToLoop_ = false →
      R.rel (w.chan c).fd_ ev ⟨(w.chan c).fd_, ev.setWidth 16, 0⟩) :
    PollInv R (Channel.updateTo impl w c ev) := by
  obtain ⟨htable, hfailed⟩ := pollTable_updateTo h.toPollTable hlife hfresh
  exact ⟨htable, hfailed.trans h.failed⟩

end Operations

end Muduo.Net
