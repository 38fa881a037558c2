import Muduo.Lib.Map
import Muduo.Net.Channel

/-!
# `EPollPoller`

The poller keeps a map `channels_` from descriptor to channel and, in the channel's `index_`, one of
`kNew`, `kAdded`, `kDeleted`.  The kernel's interest list behind `epollfd_` is part of the state;
`epoll_ctl` succeeds exactly when it adds an absent descriptor or modifies or deletes a present one.

* `EPollInv` — map, index and interest list describe the same registrations;
* `epollInv_updateTo`, `epollInv_remove` — every channel operation keeps it and fails no assertion.

Note what the invariant does *not* say: an `EPOLL_CTL_ADD` is issued for a `kNew` or `kDeleted`
channel whatever its mask is, so a registered descriptor can have an empty mask.
-/

namespace Muduo.Net

open Muduo.Lib Muduo.Net.World

def kNew : ℤ := -1
def kAdded : ℤ := 1
def kDeleted : ℤ := 2

/-- `struct epoll_event`: the mask and `data.ptr`. -/
structure EpollEvent (ι : Type*) where
  events : Mask
  ptr : ι
  deriving DecidableEq

inductive EpollOp where
  | add
  | mod
  | del
  deriving DecidableEq

abbrev InterestList (ι : Type*) := Map ℕ (EpollEvent ι)

structure EPollPoller (ι : Type*) where
  channels_ : Map ℕ ι
  interest : InterestList ι

variable {ι : Type*} [DecidableEq ι]

/-- `epoll_ctl(2)`: `EEXIST` on adding a present descriptor, `ENOENT` on the other two for an absent
one. -/
def epollCtl (k : InterestList ι) : EpollOp → ℕ → EpollEvent ι → Option (InterestList ι)
  | .add, fd, ev => if (k.get? fd).isSome then none else some (k.insert fd ev)
  | .mod, fd, ev => if (k.get? fd).isSome then some (k.insert fd ev) else none
  | .del, fd, _ => if (k.get? fd).isSome then some (k.erase fd) else none

namespace EPollPoller

abbrev Loop (ι : Type*) := World (EPollPoller ι) ι

/-- `update(operation, channel)`: a failed deletion is only logged, the others are fatal. -/
def update (w : Loop ι) (op : EpollOp) (c : ι) : Loop ι :=
  match epollCtl w.poller.interest op (w.chan c).fd_ ⟨(w.chan c).events_, c⟩ with
  | some k => { w with poller := { w.poller with interest := k } }
  | none => w.assert (op == .del) .epollCtlFatal

def updateChannel (w : Loop ι) (c : ι) : Loop ι :=
  let ch := w.chan c
  let known := w.poller.channels_.get? ch.fd_ == some c
  if ch.index_ = kNew ∨ ch.index_ = kDeleted then
    let w₁ : Loop ι :=
      if ch.index_ = kNew then
        let w₀ := w.assert (w.poller.channels_.get? ch.fd_).isNone .newChannelInMap
        { w₀ with poller := { w₀.poller with channels_ := w₀.poller.channels_.insert ch.fd_ c } }
      else w.assert known .channelNotInMap
    update (w₁.modify c (·.set_index kAdded)) .add c
  else
    let w₁ := (w.assert known .channelNotInMap).assert (ch.index_ == kAdded) .badIndex
    if ch.isNoneEvent then (update w₁ .del c).modify c (·.set_index kDeleted)
    else update w₁ .mod c

def removeChannel (w : Loop ι) (c : ι) : Loop ι :=
  let ch := w.chan c
  let known := w.poller.channels_.get? ch.fd_ == some c
  let w₁ := ((w.assert known .channelNotInMap).assert ch.isNoneEvent .removeHasEvents).assert
    (ch.index_ == kAdded || ch.index_ == kDeleted) .badIndex
  let w₂ := w₁.assert (w₁.poller.channels_.get? ch.fd_).isSome .eraseCount
  let w₃ : Loop ι :=
    { w₂ with poller := { w₂.poller with channels_ := w₂.poller.channels_.erase ch.fd_ } }
  let w₄ := if ch.index_ = kAdded then update w₃ .del c else w₃
  w₄.modify c (·.set_index kNew)

def hasChannel (w : Loop ι) (c : ι) : Bool := w.poller.channels_.get? (w.chan c).fd_ == some c

omit [DecidableEq ι] in
theorem update_chan (w : Loop ι) (op : EpollOp) (c : ι) : (update w op c).chan = w.chan := by
  unfold update
  split
  · rfl
  · exact assert_chan ..

theorem events_updateChannel (w : Loop ι) (c d : ι) :
    ((updateChannel w c).chan d).events_ = (w.chan d).events_ := by
  unfold updateChannel
  dsimp only
  split_ifs <;> simp [update_chan, events_modify, Channel.set_index]

theorem events_removeChannel (w : Loop ι) (c d : ι) :
    ((removeChannel w c).chan d).events_ = (w.chan d).events_ := by
  unfold removeChannel
  dsimp only
  split_ifs <;> simp [update_chan, events_modify, Channel.set_index]

def impl : Poller (EPollPoller ι) ι :=
  ⟨updateChannel, removeChannel, events_updateChannel, events_removeChannel⟩

/-- A loop with a fresh `EPollPoller` and a fresh channel on every descriptor `fds c`. -/
def initial (fds : ι → ℕ) : Loop ι := ⟨fun c => Channel.new (fds c), ⟨.empty, .empty⟩, []⟩

end EPollPoller

/-! ### The representation invariant -/

open EPollPoller

/-- The registration a channel's index stands for. -/
def mapEntry (c : ι) (ch : Channel) : Option ι := if ch.index_ = kNew then none else some c

/-- The kernel entry a channel's index stands for. -/
def interestEntry (c : ι) (ch : Channel) : Option (EpollEvent ι) :=
  if ch.index_ = kAdded then some ⟨ch.events_, c⟩ else none

structure EPollInv (w : Loop ι) : Prop where
  distinct : Function.Injective fun c => (w.chan c).fd_
  index : ∀ c, (w.chan c).index_ = kNew ∨ (w.chan c).index_ = kAdded ∨ (w.chan c).index_ = kDeleted
  added : ∀ c, (w.chan c).addedToLoop_ = true ↔ (w.chan c).index_ ≠ kNew
  map : Tabulates w.poller.channels_ (fun c => (w.chan c).fd_) fun c => mapEntry c (w.chan c)
  kernel : Tabulates w.poller.interest (fun c => (w.chan c).fd_) fun c => interestEntry c (w.chan c)
  failed : w.failed = []

omit [DecidableEq ι] in
theorem epollInv_initial {fds : ι → ℕ} (h : Function.Injective fds) : EPollInv (initial fds) where
  distinct c d hcd := h hcd
  index _ := Or.inl rfl
  added _ := by simp [initial, Channel.new, kNew]
  map := by simpa [initial, mapEntry, Channel.new, kNew] using Tabulates.empty fds
  kernel := by simpa [initial, interestEntry, Channel.new, kAdded] using Tabulates.empty fds
  failed := rfl

/-! ### What an operation does -/

/-- The index an update leaves behind: only an emptied, registered channel becomes `kDeleted`. -/
def nextIndex (idx : ℤ) (ev : Mask) : ℤ :=
  if idx = kAdded ∧ ev = kNoneEvent then kDeleted else kAdded

/-- The channel an update leaves behind. -/
def updated (ch : Channel) (ev : Mask) : Channel :=
  { ch with events_ := ev, addedToLoop_ := true, index_ := nextIndex ch.index_ ev }

/-- The interest list an update leaves behind. -/
def nextInterest (w : Loop ι) (c : ι) (ev : Mask) : InterestList ι :=
  if (w.chan c).index_ = kAdded ∧ ev = kNoneEvent then w.poller.interest.erase (w.chan c).fd_
  else w.poller.interest.insert (w.chan c).fd_ ⟨ev, c⟩

section Operations

variable {w : Loop ι}

/-- The map and the kernel hold under a channel's descriptor what its index stands for. -/
structure EPollAt (w : Loop ι) (c : ι) : Prop where
  index : (w.chan c).index_ = kNew ∨ (w.chan c).index_ = kAdded ∨ (w.chan c).index_ = kDeleted
  map : w.poller.channels_.get? (w.chan c).fd_ = mapEntry c (w.chan c)
  kernel : w.poller.interest.get? (w.chan c).fd_ = interestEntry c (w.chan c)

omit [DecidableEq ι] in
theorem EPollInv.at (h : EPollInv w) (c : ι) :
    EPollAt w c := ⟨h.index c, h.map.get c, h.kernel.get c⟩

/-- **The effect of one update**, whatever the mask: registration, index and interest list in closed
form, with no assertion failed. -/
theorem epollAt_updateTo {c : ι} (h : EPollAt w c) (ev : Mask) :
    Channel.updateTo impl w c ev =
      { chan := Function.update w.chan c (updated (w.chan c) ev)
        poller := ⟨w.poller.channels_.insert (w.chan c).fd_ c, nextInterest w c ev⟩
        failed := w.failed } := by
  have hk := h.kernel
  have hm := h.map
  rcases h.index with hi | hi | hi
  · -- `kNew`: enters the map and is added
    simp [Channel.updateTo, Channel.update, impl, updateChannel, EPollPoller.update, epollCtl,
      modify_chan, Channel.setEvents, Channel.set_index, hi, hk, hm, mapEntry, interestEntry,
      updated, nextIndex, nextInterest, kNew, kAdded]
  · -- `kAdded`: modified, or deleted when the mask is empty
    have hins := Map.insert_of_get? (hm.trans (if_neg (by rw [hi]; decide)))
    by_cases hev : ev = kNoneEvent
    all_goals
      simp [Channel.updateTo, Channel.update, impl, updateChannel, EPollPoller.update, epollCtl,
        World.modify, Channel.setEvents, Channel.set_index, Channel.isNoneEvent, hi, hk, hm, hev,
        hins, mapEntry, interestEntry, updated, nextIndex, nextInterest, kNew, kAdded, kDeleted]
  · -- `kDeleted`: still in the map, added again whatever the mask
    have hins := Map.insert_of_get? (hm.trans (if_neg (by rw [hi]; decide)))
    simp [Channel.updateTo, Channel.update, impl, updateChannel, EPollPoller.update, epollCtl,
      modify_chan, Channel.setEvents, Channel.set_index, hi, hk, hm, hins, mapEntry,
      interestEntry, updated, nextIndex, nextInterest, kNew, kAdded, kDeleted]

theorem epoll_updateTo (h : EPollInv w) (c : ι) (ev : Mask) :
    Channel.updateTo impl w c ev =
      { chan := Function.update w.chan c (updated (w.chan c) ev)
        poller := ⟨w.poller.channels_.insert (w.chan c).fd_ c, nextInterest w c ev⟩
        failed := [] } := by
  rw [epollAt_updateTo (h.at c), h.failed]

theorem fd_update (w : Loop ι) (c : ι) {ch : Channel} (h : ch.fd_ = (w.chan c).fd_) :
    (fun d => (Function.update w.chan c ch d).fd_) = fun d => (w.chan d).fd_ := by
  rw [map_update (fun _ => Channel.fd_), h, Function.update_eq_self]

theorem epollInv_updateTo (h : EPollInv w) (c : ι) (ev : Mask) :
    EPollInv (Channel.updateTo impl w c ev) := by
  rw [epoll_updateTo h]
  have hfd := @fd_update _ _ w c (updated (w.chan c) ev) rfl
  have hnew : nextIndex (w.chan c).index_ ev ≠ kNew := by
    unfold nextIndex
    split <;> decide
  refine ⟨hfd ▸ h.distinct, ?_, ?_, ?_, ?_, rfl⟩
  · intro d
    by_cases hd : d = c
    · subst hd
      simp only [Function.update_self, updated, nextIndex]
      split <;> simp
    · simpa [Function.update_of_ne hd] using h.index d
  · intro d
    by_cases hd : d = c
    · subst hd
      simpa [updated] using hnew
    · simpa [Function.update_of_ne hd] using h.added d
  · show Tabulates _ (fun d => (Function.update w.chan c (updated (w.chan c) ev) d).fd_) _
    rw [hfd, map_update mapEntry, show mapEntry c (updated (w.chan c) ev) = some c from if_neg hnew]
    exact h.map.insert h.distinct c c
  · show Tabulates (nextInterest w c ev)
      (fun d => (Function.update w.chan c (updated (w.chan c) ev) d).fd_) _
    rw [hfd, map_update interestEntry]
    unfold nextInterest
    split
    · rename_i hdel
      rw [show interestEntry c (updated (w.chan c) ev) = none from by
        simp [interestEntry, updated, nextIndex, hdel, kDeleted, kAdded]]
      exact h.kernel.erase h.distinct c
    · rename_i hadd
      rw [show interestEntry c (updated (w.chan c) ev) = some ⟨ev, c⟩ from by
        simp [interestEntry, updated, nextIndex, hadd]]
      exact h.kernel.insert h.distinct c ⟨ev, c⟩

/-- Fields of a channel that no poller reads may change freely. -/
theorem epollInv_modify (h : EPollInv w) (c : ι) {f : Channel → Channel}
    (hf : ∀ ch, (f ch).fd_ = ch.fd_ ∧ (f ch).index_ = ch.index_ ∧ (f ch).events_ = ch.events_ ∧
      (f ch).addedToLoop_ = ch.addedToLoop_) : EPollInv (w.modify c f) := by
  have hsame : ∀ d, ((w.modify c f).chan d).fd_ = (w.chan d).fd_ ∧
      ((w.modify c f).chan d).index_ = (w.chan d).index_ ∧
      ((w.modify c f).chan d).events_ = (w.chan d).events_ ∧
      ((w.modify c f).chan d).addedToLoop_ = (w.chan d).addedToLoop_ := by
    intro d
    by_cases hd : d = c
    · subst hd
      rw [modify_chan_self]
      exact hf _
    · rw [modify_chan_of_ne w f hd]
      exact ⟨rfl, rfl, rfl, rfl⟩
  constructor
  · simpa only [hsame] using h.distinct
  · simpa only [hsame] using h.index
  · simpa only [hsame] using h.added
  · simpa only [mapEntry, modify_poller, hsame] using h.map
  · simpa only [interestEntry, modify_poller, hsame] using h.kernel
  · exact h.failed

/-- The channel a removal leaves behind. -/
def removed (ch : Channel) : Channel := { ch with addedToLoop_ := false, index_ := kNew }

/-- **The effect of a removal** of a registered channel without events. -/
theorem epollAt_remove {c : ι} (h : EPollAt w c) (hreg : (w.chan c).index_ ≠ kNew)
    (hev : (w.chan c).events_ = kNoneEvent) :
    Channel.remove impl w c =
      { chan := Function.update w.chan c (removed (w.chan c))
        poller := ⟨w.poller.channels_.erase (w.chan c).fd_,
          if (w.chan c).index_ = kAdded then w.poller.interest.erase (w.chan c).fd_
          else w.poller.interest⟩
        failed := w.failed } := by
  have hk := h.kernel
  have hm := h.map
  rcases h.index with hi | hi | hi
  · exact absurd hi hreg
  · simp [Channel.remove, impl, removeChannel, EPollPoller.update, epollCtl, World.modify,
      Channel.set_index, Channel.isNoneEvent, hi, hk, hm, hev, mapEntry, interestEntry, removed,
      kNew, kAdded, kDeleted]
  · simp [Channel.remove, impl, removeChannel, World.modify, Channel.set_index, Channel.isNoneEvent,
      hi, hm, hev, mapEntry, removed, kNew, kAdded, kDeleted]

theorem epoll_remove (h : EPollInv w) (c : ι) (hreg : (w.chan c).addedToLoop_ = true)
    (hev : (w.chan c).events_ = kNoneEvent) :
    Channel.remove impl w c =
      { chan := Function.update w.chan c (removed (w.chan c))
        poller := ⟨w.poller.channels_.erase (w.chan c).fd_,
          if (w.chan c).index_ = kAdded then w.poller.interest.erase (w.chan c).fd_
          else w.poller.interest⟩
        failed := [] } := by
  rw [epollAt_remove (h.at c) ((h.added c).mp hreg) hev, h.failed]

theorem epollInv_remove (h : EPollInv w) (c : ι) (hreg : (w.chan c).addedToLoop_ = true)
    (hev : (w.chan c).events_ = kNoneEvent) : EPollInv (Channel.remove impl w c) := by
  rw [epoll_remove h c hreg hev]
  have hfd := @fd_update _ _ w c (removed (w.chan c)) rfl
  have hgone : interestEntry c (removed (w.chan c)) = none := rfl
  refine ⟨hfd ▸ h.distinct, ?_, ?_, ?_, ?_, rfl⟩
  · intro d
    by_cases hd : d = c
    · subst hd
      exact Or.inl (by simp [removed])
    · simpa [Function.update_of_ne hd] using h.index d
  · intro d
    by_cases hd : d = c
    · subst hd
      simp [removed]
    · simpa [Function.update_of_ne hd] using h.added d
  · show Tabulates _ (fun d => (Function.update w.chan c (removed (w.chan c)) d).fd_) _
    rw [hfd, map_update mapEntry, show mapEntry c (removed (w.chan c)) = none from rfl]
    exact h.map.erase h.distinct c
  · show Tabulates _ (fun d => (Function.update w.chan c (removed (w.chan c)) d).fd_) _
    rw [hfd, map_update interestEntry, hgone]
    split
    · exact h.kernel.erase h.distinct c
    · rename_i hi
      -- not in the kernel before, so nothing to delete
      have hnone : interestEntry c (w.chan c) = none := if_neg hi
      rw [← hnone, Function.update_eq_self]
      exact h.kernel

/-- A channel that was removed is neither in the map nor in the kernel. -/
theorem unregistered_of_removed (h : EPollInv w) {c : ι}
    (ha : (w.chan c).addedToLoop_ = false) :
    hasChannel w c = false ∧ w.poller.interest.get? (w.chan c).fd_ = none := by
  have hi : (w.chan c).index_ = kNew := by
    by_contra hi
    simp [(h.added c).mpr hi] at ha
  have hm := h.map.get c
  have hk := h.kernel.get c
  simp only [mapEntry, interestEntry, hi] at hm hk
  rw [hasChannel, hm]
  exact ⟨rfl, hk⟩

/-- A failed assertion stays on record. -/
theorem mem_failed_removeChannel {w : Loop ι} {a : Assert} (h : a ∈ w.failed) (c : ι) :
    a ∈ (removeChannel w c).failed := by
  have hassert :
      ∀ {w : Loop ι} (p : Bool) (b : Assert), a ∈ w.failed → a ∈ (w.assert p b).failed := by
    intro w p b ha
    cases p <;> simp [ha]
  have hupdate : ∀ {w : Loop ι}, a ∈ w.failed → a ∈ (EPollPoller.update w .del c).failed := by
    intro w ha
    unfold EPollPoller.update
    split
    · exact ha
    · exact hassert _ _ ha
  simp only [removeChannel, modify_failed]
  split
  · exact hupdate (hassert _ _ (hassert _ _ (hassert _ _ (hassert _ _ h))))
  · exact hassert _ _ (hassert _ _ (hassert _ _ (hassert _ _ h)))

/-- Removing a channel that still has events fails the assertion of `Channel::remove`. -/
theorem removeHasEvents_of_events (w : Loop ι) {c : ι} (h : (w.chan c).isNoneEvent = false) :
    Assert.removeHasEvents ∈ (Channel.remove impl w c).failed := by
  apply mem_failed_removeChannel
  simp [h]

end Operations

end Muduo.Net
