import Mathlib

/-!
# `muduo::net::Channel` and the base class of the pollers

A channel holds the event mask the user asks for (`events_`), the mask the kernel reported
(`revents_`) and one integer, `index_`, that belongs to the poller.  Channels are referred to by
pointer; `World P ι` is the memory of one loop: a channel for every pointer of type `ι`, the poller
`P`, and the assertions that failed so far (execution goes on after a failed assertion, as it does
with `NDEBUG`, so that one run shows both the failure and what it leads to).

The two virtual functions of `Poller` are a record, so that `enableReading()` and its siblings are
written once and run over either implementation.
-/

namespace Muduo.Net

/-- An event mask, a C++ `int`. -/
abbrev Mask := BitVec 32

def POLLIN : Mask := 0x001#32
def POLLPRI : Mask := 0x002#32
def POLLOUT : Mask := 0x004#32
def POLLERR : Mask := 0x008#32
def POLLHUP : Mask := 0x010#32
def POLLNVAL : Mask := 0x020#32
def POLLRDHUP : Mask := 0x2000#32

def kNoneEvent : Mask := 0
def kReadEvent : Mask := POLLIN ||| POLLPRI
def kWriteEvent : Mask := POLLOUT

/-- `ev & bits` as a condition. -/
def Mask.has (ev bits : Mask) : Bool := ev &&& bits != 0

structure Channel where
  fd_ : ℕ
  events_ : Mask
  revents_ : Mask
  index_ : ℤ
  tied_ : Bool
  eventHandling_ : Bool
  addedToLoop_ : Bool
  deriving DecidableEq

/-- The constructor. -/
def Channel.new (fd : ℕ) : Channel where
  fd_ := fd
  events_ := 0
  revents_ := 0
  index_ := -1
  tied_ := false
  eventHandling_ := false
  addedToLoop_ := false

namespace Channel

def isNoneEvent (ch : Channel) : Bool := ch.events_ == kNoneEvent
def isWriting (ch : Channel) : Bool := ch.events_.has kWriteEvent
def isReading (ch : Channel) : Bool := ch.events_.has kReadEvent
def set_index (ch : Channel) (idx : ℤ) : Channel := { ch with index_ := idx }
def set_revents (ch : Channel) (revt : Mask) : Channel := { ch with revents_ := revt }
def setEvents (ch : Channel) (ev : Mask) : Channel := { ch with events_ := ev }

end Channel

/-- The assertions of `Channel`, `EPollPoller` and `PollPoller`, and the fatal log of
`EPollPoller::update`. -/
inductive Assert where
  | removeHasEvents
  | newChannelInMap
  | channelNotInMap
  | badIndex
  | eraseCount
  | pollfdForeign
  | pollfdNotIgnored
  | epollCtlFatal
  deriving DecidableEq

@[ext] structure World (P ι : Type*) where
  chan : ι → Channel
  poller : P
  failed : List Assert

namespace World

variable {P ι : Type*}

def assert (w : World P ι) (p : Bool) (a : Assert) : World P ι :=
  if p then w else { w with failed := w.failed ++ [a] }

section Store

variable [DecidableEq ι]

/-- Write through the channel pointer `c`. -/
def modify (w : World P ι) (c : ι) (f : Channel → Channel) : World P ι :=
  { w with chan := Function.update w.chan c (f (w.chan c)) }

theorem modify_chan (w : World P ι) (c : ι) (f : Channel → Channel) :
    (w.modify c f).chan = Function.update w.chan c (f (w.chan c)) := rfl

@[simp] theorem modify_chan_self (w : World P ι) (c : ι) (f : Channel → Channel) :
    (w.modify c f).chan c = f (w.chan c) := Function.update_self ..

theorem modify_chan_of_ne (w : World P ι) {c d : ι} (f : Channel → Channel) (h : d ≠ c) :
    (w.modify c f).chan d = w.chan d := Function.update_of_ne h ..

theorem events_modify (w : World P ι) (c d : ι) {f : Channel → Channel}
    (h : ∀ ch, (f ch).events_ = ch.events_) : ((w.modify c f).chan d).events_ =
    (w.chan d).events_ := by
  by_cases hd : d = c
  · subst hd
    rw [modify_chan_self, h]
  · rw [modify_chan_of_ne w f hd]

@[simp] theorem modify_poller (w : World P ι) (c : ι) (f : Channel → Channel) :
    (w.modify c f).poller = w.poller := rfl

@[simp] theorem modify_failed (w : World P ι) (c : ι) (f : Channel → Channel) :
    (w.modify c f).failed = w.failed := rfl

end Store

@[simp] theorem assert_chan (w : World P ι) (p : Bool) (a : Assert) :
    (w.assert p a).chan = w.chan := by
  unfold assert; split <;> rfl

@[simp] theorem assert_poller (w : World P ι) (p : Bool) (a : Assert) :
    (w.assert p a).poller = w.poller := by
  unfold assert; split <;> rfl

@[simp] theorem assert_true (w : World P ι) (a : Assert) : w.assert true a = w := rfl

@[simp] theorem assert_failed (w : World P ι) (p : Bool) (a : Assert) :
    (w.assert p a).failed = if p then w.failed else w.failed ++ [a] := by
  unfold assert; split <;> rfl

end World

/-- The virtual functions of the base class.  Every implementation leaves the masks of all channels
alone: `events_` belongs to the user. -/
structure Poller (P ι : Type*) where
  updateChannel : World P ι → ι → World P ι
  removeChannel : World P ι → ι → World P ι
  events_updateChannel : ∀ w c d, ((updateChannel w c).chan d).events_ = (w.chan d).events_
  events_removeChannel : ∀ w c d, ((removeChannel w c).chan d).events_ = (w.chan d).events_

namespace Channel

variable {P ι : Type*} [DecidableEq ι] (poller : Poller P ι) (w : World P ι) (c : ι)

def update : World P ι :=
  poller.updateChannel (w.modify c fun ch => { ch with addedToLoop_ := true }) c

/-- `events_ = ev; update();` -/
def updateTo (ev : Mask) : World P ι := update poller (w.modify c (·.setEvents ev)) c

def enableReading : World P ι := updateTo poller w c ((w.chan c).events_ ||| kReadEvent)
def disableReading : World P ι := updateTo poller w c ((w.chan c).events_ &&& ~~~kReadEvent)
def enableWriting : World P ι := updateTo poller w c ((w.chan c).events_ ||| kWriteEvent)
def disableWriting : World P ι := updateTo poller w c ((w.chan c).events_ &&& ~~~kWriteEvent)
def disableAll : World P ι := updateTo poller w c kNoneEvent

def remove : World P ι :=
  poller.removeChannel
    ((w.assert (w.chan c).isNoneEvent .removeHasEvents).modify c
      fun ch => { ch with addedToLoop_ := false }) c

@[simp] theorem events_updateTo (ev : Mask) : ((updateTo poller w c ev).chan c).events_ = ev := by
  rw [updateTo, update, poller.events_updateChannel, World.modify_chan_self, World.modify_chan_self]
  rfl

@[simp] theorem events_remove : ((remove poller w c).chan c).events_ = (w.chan c).events_ := by
  rw [remove, poller.events_removeChannel, World.modify_chan_self, World.assert_chan]

end Channel

/-! ### Bits of the event mask -/

namespace Mask

theorem has_or_disjoint {k k' : Mask} (h : k &&& k' = 0) (ev : Mask) :
    (ev ||| k).has k' = ev.has k' := by
  rw [has, has, BitVec.and_or_distrib_right, h]
  simp

theorem has_or_self {k : Mask} (hk : k ≠ 0) (ev : Mask) : (ev ||| k).has k = true := by
  have h : (ev ||| k) &&& k = k := by
    ext i
    simp only [BitVec.getElem_and, BitVec.getElem_or]
    cases ev[i] <;> cases k[i] <;> rfl
  rw [has, h]
  simpa using hk

theorem has_and_not_disjoint {k k' : Mask} (h : ~~~k &&& k' = k') (ev : Mask) :
    (ev &&& ~~~k).has k' = ev.has k' := by
  rw [has, has, BitVec.and_assoc, h]

theorem has_and_not_self {k : Mask} (h : ~~~k &&& k = 0) (ev : Mask) :
    (ev &&& ~~~k).has k = false := by
  rw [has, BitVec.and_assoc, h]
  simp

theorem ne_zero_of_has {ev k : Mask} (h : ev.has k = true) : ev ≠ 0 := by
  rintro rfl
  simp [has] at h

@[simp] theorem has_none (k : Mask) : kNoneEvent.has k = false := by
  simp [has, kNoneEvent]

@[simp] theorem has_write_enableReading (ev : Mask) :
    (ev ||| kReadEvent).has kWriteEvent = ev.has kWriteEvent :=
  has_or_disjoint (by decide) ev

@[simp] theorem has_write_disableReading (ev : Mask) :
    (ev &&& ~~~kReadEvent).has kWriteEvent = ev.has kWriteEvent :=
  has_and_not_disjoint (by decide) ev

@[simp] theorem has_write_enableWriting (ev : Mask) :
    (ev ||| kWriteEvent).has kWriteEvent = true :=
  has_or_self (by decide) ev

@[simp] theorem has_write_disableWriting (ev : Mask) :
    (ev &&& ~~~kWriteEvent).has kWriteEvent = false :=
  has_and_not_self (by decide) ev

@[simp] theorem has_read_enableWriting (ev : Mask) :
    (ev ||| kWriteEvent).has kReadEvent = ev.has kReadEvent :=
  has_or_disjoint (by decide) ev

@[simp] theorem has_read_disableWriting (ev : Mask) :
    (ev &&& ~~~kWriteEvent).has kReadEvent = ev.has kReadEvent :=
  has_and_not_disjoint (by decide) ev

end Mask

end Muduo.Net
