import Muduo.Lib.Runs
import Muduo.Net.EPollPoller
import Muduo.Net.PollPoller

/-!
# The two pollers watch the same descriptors

`Poller::newDefaultPoller` picks one of two implementations at run time, so a program must not be
able to tell them apart.  This file runs both over the same calls and compares what they hand to the
kernel with what the channels ask for.

* `Ask` is the abstract state of a channel: the mask it asks for and whether it has been registered
  or removed.  It is computed from the calls alone and never looks at a poller.
* `Agree` — both kernel-side sets are exactly the descriptors of the channels with events, with the
  channel's mask, and no assertion has failed.
* `Sound` — the calls on which the code does that: a channel that was removed is not used again, and
  nothing is disabled on a channel that has no events.

`agree_throughout_iff_sound` is the exact statement.  Both excluded kinds of call reach a defect: an
update with an empty mask registers a `kNew` or `kDeleted` channel with `EPOLL_CTL_ADD` (and gives a
new channel a visible `pollfd`), and `PollPoller::removeChannel` leaves a stale index behind.
-/

namespace Muduo.Net

open Muduo.Lib

/-- The calls a user makes on a channel. -/
inductive ChannelOp where
  | enableReading
  | disableReading
  | enableWriting
  | disableWriting
  | disableAll
  | remove
  deriving DecidableEq

namespace ChannelOp

/-- The mask a call leaves behind. -/
def mask : ChannelOp → Mask → Mask
  | .enableReading, ev => ev ||| kReadEvent
  | .disableReading, ev => ev &&& ~~~kReadEvent
  | .enableWriting, ev => ev ||| kWriteEvent
  | .disableWriting, ev => ev &&& ~~~kWriteEvent
  | .disableAll, _ => kNoneEvent
  | .remove, ev => ev

def disables : ChannelOp → Bool
  | .disableReading | .disableWriting | .disableAll => true
  | _ => false

def apply {P ι : Type*} [DecidableEq ι] (poller : Poller P ι) (w : World P ι) (c : ι) :
    ChannelOp → World P ι
  | .enableReading => Channel.enableReading poller w c
  | .disableReading => Channel.disableReading poller w c
  | .enableWriting => Channel.enableWriting poller w c
  | .disableWriting => Channel.disableWriting poller w c
  | .disableAll => Channel.disableAll poller w c
  | .remove => Channel.remove poller w c

theorem apply_eq_updateTo {P ι : Type*} [DecidableEq ι] (poller : Poller P ι)
    (w : World P ι) (c : ι) {op : ChannelOp} (h : op ≠ .remove) :
    op.apply poller w c = Channel.updateTo poller w c (op.mask (w.chan c).events_) := by
  cases op <;> first | rfl | exact absurd rfl h

/-- Whatever the poller: a call changes the mask of its own channel only. -/
theorem events_apply {P ι : Type*} [DecidableEq ι] (poller : Poller P ι) (w : World P ι) (c d : ι)
    (op : ChannelOp) : ((op.apply poller w c).chan d).events_ =
      if d = c then op.mask (w.chan c).events_ else (w.chan d).events_ := by
  by_cases hop : op = .remove
  · rw [hop, apply, Channel.remove, poller.events_removeChannel,
      World.events_modify _ _ _ (by simp), World.assert_chan]
    split
    · rename_i hd
      rw [hd]
      rfl
    · rfl
  · rw [apply_eq_updateTo _ _ _ hop]
    split
    · rename_i hd
      rw [hd, Channel.events_updateTo]
    · rename_i hd
      rw [Channel.updateTo, Channel.update, poller.events_updateChannel,
        World.modify_chan_of_ne _ _ hd, World.modify_chan_of_ne _ _ hd]

theorem mask_none_of_disables {op : ChannelOp} (h : op.disables = true) :
    op.mask kNoneEvent = kNoneEvent := by
  revert h
  cases op <;> decide

theorem mask_ne_none {op : ChannelOp} (hr : op ≠ .remove) (hd : op.disables = false) (ev : Mask) :
    op.mask ev ≠ kNoneEvent := by
  cases op <;> simp only [disables, Bool.true_eq_false] at hd
  · exact Mask.ne_zero_of_has (Mask.has_or_self (by decide) ev)
  · exact Mask.ne_zero_of_has (Mask.has_or_self (by decide) ev)
  · exact absurd rfl hr

end ChannelOp

/-! ### What the channels ask for -/

inductive Life where
  | fresh
  | registered
  | removed
  deriving DecidableEq

structure Ask where
  events : Mask
  life : Life
  deriving DecidableEq

def Ask.step (a : Ask) : ChannelOp → Ask
  | .remove => { a with life := .removed }
  | op => ⟨op.mask a.events, .registered⟩

/-- One program, run over both pollers. -/
structure Both (ι : Type*) where
  ask : ι → Ask
  epoll : EPollPoller.Loop ι
  poll : PollPoller.Loop ι

namespace Both

variable {ι : Type*}

def init (fds : ι → ℕ) : Both ι :=
  ⟨fun _ => ⟨kNoneEvent, .fresh⟩, EPollPoller.initial fds, PollPoller.initial fds⟩

def step [DecidableEq ι] (s : Both ι) (call : ι × ChannelOp) : Both ι where
  ask := Function.update s.ask call.1 ((s.ask call.1).step call.2)
  epoll := call.2.apply EPollPoller.impl s.epoll call.1
  poll := call.2.apply PollPoller.impl s.poll call.1

/-- `remove` is called on a registered channel with no events, as `Channel::remove` asserts. -/
def Allowed (s : Both ι) (call : ι × ChannelOp) : Prop :=
  call.2 = .remove → (s.ask call.1).life = .registered ∧ (s.ask call.1).events = kNoneEvent

/-- No channel is used again after `remove`, and nothing is disabled on a channel without events. -/
def Sound (s : Both ι) (call : ι × ChannelOp) : Prop :=
  call.2 ≠ .remove → (s.ask call.1).life ≠ .removed ∧
    (call.2.disables = true → (s.ask call.1).events ≠ kNoneEvent)

instance (s : Both ι) (call : ι × ChannelOp) : Decidable (Allowed s call) :=
  inferInstanceAs (Decidable (_ → _))

instance (s : Both ι) (call : ι × ChannelOp) : Decidable (Sound s call) :=
  inferInstanceAs (Decidable (_ → _))

end Both

/-- Some channel with descriptor `fd` asks for the mask `m`, and `m` is not empty. -/
def Wanted {ι : Type*} (chan : ι → Channel) (fd : ℕ) (m : Mask) : Prop :=
  ∃ c, (chan c).fd_ = fd ∧ (chan c).events_ = m ∧ m ≠ kNoneEvent

/-- The interest list behind `epollfd_` holds `fd` with mask `m`. -/
def EPollWatches {ι : Type*} (w : EPollPoller.Loop ι) (fd : ℕ) (m : Mask) : Prop :=
  ∃ ev, w.poller.interest.get? fd = some ev ∧ ev.events = m

/-- `pollfds_` has an entry for `fd` that `poll(2)` does not ignore, with mask `m`. -/
def PollWatches {ι : Type*} (w : PollPoller.Loop ι) (fd : ℕ) (m : Mask) : Prop :=
  ∃ p ∈ w.poller.pollfds_, p.fd = fd ∧ p.events.signExtend 32 = m

structure Agree {ι : Type*} (s : Both ι) : Prop where
  asked : ∀ c, (s.epoll.chan c).events_ = (s.ask c).events ∧
    (s.poll.chan c).events_ = (s.ask c).events
  epoll : ∀ fd m, EPollWatches s.epoll fd m ↔ Wanted s.epoll.chan fd m
  poll : ∀ fd m, PollWatches s.poll fd m ↔ Wanted s.poll.chan fd m
  asserts : s.epoll.failed = [] ∧ s.poll.failed = []

/-! ### The invariant of sound runs -/

/-- The masks the five calls can produce. -/
def LegalMask (ev : Mask) : Prop :=
  ev = kNoneEvent ∨ ev = kReadEvent ∨ ev = kWriteEvent ∨ ev = kReadEvent ||| kWriteEvent

theorem legalMask_mask (op : ChannelOp) {ev : Mask} (h : LegalMask ev) :
    LegalMask (op.mask ev) := by
  unfold LegalMask at h ⊢
  rcases h with rfl | rfl | rfl | rfl <;> cases op <;> decide

/-- A legal mask survives the `short` field of a `pollfd`. -/
theorem signExtend_setWidth {ev : Mask} (h : LegalMask ev) :
    (ev.setWidth 16).signExtend 32 = ev := by
  rcases h with rfl | rfl | rfl | rfl <;> decide

/-- The entry relation of sound runs: hidden exactly when the mask is empty. -/
def exactRel : EntryRel where
  rel fd ev p := p.fd = storedFd fd ev ∧ p.events = ev.setWidth 16
  decode {fd ev p} h := by
    rw [h.1, storedFd]
    split
    · exact Or.inr rfl
    · exact Or.inl rfl
  stored _ _ := ⟨rfl, rfl⟩

/-- What a channel of both loops looks like, given what has been asked of it. -/
structure Tracks (a : Ask) (e p : Channel) : Prop where
  mask : LegalMask a.events
  idle : a.life ≠ .registered → a.events = kNoneEvent
  eevents : e.events_ = a.events
  pevents : p.events_ = a.events
  eadded : e.addedToLoop_ = true ↔ a.life = .registered
  padded : p.addedToLoop_ = true ↔ a.life = .registered
  eindex : e.index_ = kAdded ↔ a.events ≠ kNoneEvent
  pfresh : a.life = .fresh → p.index_ = -1
  pstale : a.life = .removed → 0 ≤ p.index_

structure AgreeInv {ι : Type*} [DecidableEq ι] (s : Both ι) : Prop where
  epoll : EPollInv s.epoll
  poll : PollInv exactRel s.poll
  tracks : ∀ c, Tracks (s.ask c) (s.epoll.chan c) (s.poll.chan c)

section Steps

variable {ι : Type*} [DecidableEq ι] {s : Both ι}

theorem agreeInv_init {fds : ι → ℕ} (h : Function.Injective fds) : AgreeInv (Both.init fds) where
  epoll := epollInv_initial h
  poll := pollInv_initial exactRel h
  tracks c := by
    constructor <;>
      simp [Both.init, EPollPoller.initial, PollPoller.initial, Channel.new, LegalMask, kNoneEvent,
        kAdded]

theorem step_of_ne_remove (c : ι) {op : ChannelOp} (h : op ≠ .remove) :
    Both.step s (c, op) =
      { ask := Function.update s.ask c ⟨op.mask (s.ask c).events, .registered⟩
        epoll := Channel.updateTo EPollPoller.impl s.epoll c (op.mask (s.epoll.chan c).events_)
        poll := Channel.updateTo PollPoller.impl s.poll c (op.mask (s.poll.chan c).events_) } := by
  have hask : (s.ask c).step op = ⟨op.mask (s.ask c).events, .registered⟩ := by
    cases op <;> first | rfl | exact absurd rfl h
  simp only [Both.step, hask, ChannelOp.apply_eq_updateTo _ _ _ h]

/-- After an update of a usable channel, its position in `pollfds_` is not negative and the other
channels are as before. -/
theorem poll_updateTo_chan {w : PollPoller.Loop ι} (h : PollInv exactRel w) {c : ι}
    (hlife : (w.chan c).addedToLoop_ = true ∨ (w.chan c).index_ = -1) (ev : Mask) :
    ∃ i : ℕ, (Channel.updateTo PollPoller.impl w c ev).chan =
      Function.update w.chan c
        { w.chan c with events_ := ev, addedToLoop_ := true, index_ := i } := by
  by_cases hadd : (w.chan c).addedToLoop_ = true
  · obtain ⟨i, hi, -⟩ := h.entry c hadd
    refine ⟨i, ?_⟩
    rw [poll_updateTo_old h.toPollTable hadd hi, ← hi]
  · exact ⟨_, by rw [poll_updateTo_new h.toPollTable (by simpa using hadd)
      (hlife.resolve_left hadd)]⟩

theorem tracks_usable (h : AgreeInv s) {c : ι} (hlife : (s.ask c).life ≠ .removed) :
    (s.poll.chan c).addedToLoop_ = true ∨ (s.poll.chan c).index_ = -1 := by
  have ht := h.tracks c
  cases hl : (s.ask c).life with
  | fresh => exact Or.inr (ht.pfresh hl)
  | registered => exact Or.inl (ht.padded.mpr hl)
  | removed => exact absurd hl hlife

/-- The index `EPollPoller` leaves behind on a sound update. -/
theorem nextIndex_eq_kAdded {idx : ℤ} {old new : Mask} (hold : idx = kAdded ↔ old ≠ kNoneEvent)
    (hne : old = kNoneEvent → new ≠ kNoneEvent) :
    nextIndex idx new = kAdded ↔ new ≠ kNoneEvent := by
  unfold nextIndex
  by_cases hnew : new = kNoneEvent
  · have hidx : idx = kAdded := hold.mpr fun hz => hne hz hnew
    simp only [hidx, hnew, and_self, if_true, ne_eq, not_true_eq_false, iff_false]
    decide
  · simp [hnew]

/-- **A sound update keeps the invariant.** -/
theorem agreeInv_update (h : AgreeInv s) {c : ι} {op : ChannelOp} (hop : op ≠ .remove)
    (hs : Both.Sound s (c, op)) : AgreeInv (Both.step s (c, op)) := by
  obtain ⟨hlife, hdis⟩ := hs hop
  have ht := h.tracks c
  have huse := tracks_usable h hlife
  -- an update starts from a mask or leads to one
  have hne : (s.ask c).events = kNoneEvent → op.mask (s.ask c).events ≠ kNoneEvent := by
    intro hz
    cases hd : op.disables with
    | true => exact absurd hz (hdis hd)
    | false => exact ChannelOp.mask_ne_none hop hd _
  rw [step_of_ne_remove c hop, ht.eevents, ht.pevents]
  refine ⟨epollInv_updateTo h.epoll c _, pollInv_updateTo h.poll huse ?_, ?_⟩
  · intro hadd
    have hidle : (s.ask c).events = kNoneEvent := ht.idle fun hr => by
      simp [ht.padded.mpr hr] at hadd
    exact ⟨(if_neg (hne hidle)).symm, rfl⟩
  · obtain ⟨i, hi⟩ := poll_updateTo_chan h.poll huse (op.mask (s.ask c).events)
    intro d
    rw [epoll_updateTo h.epoll, hi]
    by_cases hd : d = c
    · subst hd
      simp only [Function.update_self]
      exact {
        mask := legalMask_mask op ht.mask
        idle := fun hr => absurd rfl hr
        eevents := rfl
        pevents := rfl
        eadded := ⟨fun _ => rfl, fun _ => rfl⟩
        padded := ⟨fun _ => rfl, fun _ => rfl⟩
        eindex := nextIndex_eq_kAdded ht.eindex hne
        pfresh := fun hf => by cases hf
        pstale := fun hf => by cases hf }
    · simpa only [Function.update_of_ne hd] using h.tracks d

theorem afterRemove_self (w : PollPoller.Loop ι) (c : ι) (i : ℕ) :
    afterRemove w c i c = { w.chan c with addedToLoop_ := false } := if_pos rfl

/-- Removing `c` changes nothing of another channel but, possibly, its position. -/
theorem afterRemove_of_ne (w : PollPoller.Loop ι) {c d : ι} (i : ℕ) (h : d ≠ c) :
    afterRemove w c i d = w.chan d ∨
      ((w.chan d).addedToLoop_ = true ∧ afterRemove w c i d = (w.chan d).set_index i) := by
  unfold afterRemove
  rw [if_neg h]
  split
  · exact Or.inr ⟨by tauto, rfl⟩
  · exact Or.inl rfl

/-- **A removal keeps the invariant.** -/
theorem agreeInv_remove (h : AgreeInv s) {c : ι} (ha : Both.Allowed s (c, .remove)) :
    AgreeInv (Both.step s (c, .remove)) := by
  obtain ⟨hreg, hev⟩ := ha rfl
  have ht := h.tracks c
  have hea := ht.eadded.mpr hreg
  have hpa := ht.padded.mpr hreg
  have hee : (s.epoll.chan c).events_ = kNoneEvent := ht.eevents.trans hev
  have hpe : (s.poll.chan c).events_ = kNoneEvent := ht.pevents.trans hev
  obtain ⟨i, hi, p, hp, hfd, hpm⟩ := h.poll.entry c hpa
  have hidden : ∀ q, s.poll.poller.pollfds_[i]? = some q →
      q.fd = -(s.poll.chan c).fd_ - 1 ∧ q.events.signExtend 32 = (s.poll.chan c).events_ := by
    intro q hq
    obtain rfl : p = q := Option.some.inj (hp.symm.trans hq)
    refine ⟨?_, ?_⟩
    · rw [hfd, storedFd, if_pos hpe]
    · rw [hpm, hpe, signExtend_setWidth (Or.inl rfl)]
  show AgreeInv ⟨Function.update s.ask c { s.ask c with life := .removed },
    Channel.remove EPollPoller.impl s.epoll c, Channel.remove PollPoller.impl s.poll c⟩
  obtain ⟨hpoll, hchan⟩ := poll_remove h.poll hpa hpe hi hidden
  refine ⟨epollInv_remove h.epoll c hea hee, hpoll, fun d => ?_⟩
  rw [epoll_remove h.epoll c hea hee, hchan]
  by_cases hd : d = c
  · subst hd
    simp only [Function.update_self, afterRemove_self]
    exact {
      mask := ht.mask
      idle := fun _ => hev
      eevents := ht.eevents
      pevents := ht.pevents
      eadded := by simp [removed]
      padded := by simp
      eindex := by simp [removed, hev, kNew, kAdded]
      pfresh := fun hf => by cases hf
      pstale := fun _ => by simp [hi] }
  · simp only [Function.update_of_ne hd]
    have hold := h.tracks d
    rcases afterRemove_of_ne s.poll i hd with hsame | ⟨hda, hmoved⟩
    · rw [hsame]
      exact hold
    · -- only a registered channel can have moved
      have hlife := hold.padded.mp hda
      rw [hmoved]
      exact { hold with
        pfresh := fun hf => by simp [hlife] at hf
        pstale := fun hf => by simp [hlife] at hf }

theorem agreeInv_step (h : AgreeInv s) (call : ι × ChannelOp) (ha : Both.Allowed s call)
    (hs : Both.Sound s call) : AgreeInv (Both.step s call) := by
  obtain ⟨c, op⟩ := call
  by_cases hop : op = .remove
  · subst hop
    exact agreeInv_remove h ha
  · exact agreeInv_update h hop hs

/-! ### The invariant says what the kernel sees -/

theorem epollWatches_iff (h : AgreeInv s) (fd : ℕ) (m : Mask) :
    EPollWatches s.epoll fd m ↔ Wanted s.epoll.chan fd m := by
  have hidx : ∀ c, (s.epoll.chan c).index_ = kAdded ↔ (s.epoll.chan c).events_ ≠ kNoneEvent := by
    intro c
    rw [(h.tracks c).eevents]
    exact (h.tracks c).eindex
  constructor
  · rintro ⟨ev, hev, rfl⟩
    obtain ⟨c, hc, hentry⟩ := (h.epoll.kernel.get?_iff _ _).mp hev
    unfold interestEntry at hentry
    split at hentry
    · rename_i hi
      obtain rfl : (⟨(s.epoll.chan c).events_, c⟩ : EpollEvent ι) = ev := Option.some.inj hentry
      exact ⟨c, hc, rfl, (hidx c).mp hi⟩
    · cases hentry
  · rintro ⟨c, rfl, rfl, hne⟩
    refine ⟨⟨(s.epoll.chan c).events_, c⟩, ?_, rfl⟩
    rw [h.epoll.kernel.get c, interestEntry, if_pos ((hidx c).mpr hne)]

theorem pollWatches_iff (h : AgreeInv s) (fd : ℕ) (m : Mask) :
    PollWatches s.poll fd m ↔ Wanted s.poll.chan fd m := by
  have hlegal : ∀ c, LegalMask (s.poll.chan c).events_ := fun c =>
    (h.tracks c).pevents ▸ (h.tracks c).mask
  constructor
  · rintro ⟨p, hp, hfd, rfl⟩
    obtain ⟨i, hi, rfl⟩ := List.getElem_of_mem hp
    obtain ⟨c, hca, hci⟩ := h.poll.owner i hi
    obtain ⟨j, hj, q, hq, hqfd, hqm⟩ := h.poll.entry c hca
    obtain rfl : i = j := by omega
    obtain rfl : _ = q := Option.some.inj ((List.getElem?_eq_getElem hi).symm.trans hq)
    rw [hqm, signExtend_setWidth (hlegal c)]
    rw [hqfd, storedFd] at hfd
    split at hfd
    · omega
    · exact ⟨c, by exact_mod_cast hfd, rfl, ‹_›⟩
  · rintro ⟨c, rfl, rfl, hne⟩
    have hreg : (s.ask c).life = .registered := by
      by_contra hl
      exact hne ((h.tracks c).pevents.trans ((h.tracks c).idle hl))
    obtain ⟨i, -, p, hp, hpfd, hpm⟩ := h.poll.entry c ((h.tracks c).padded.mpr hreg)
    refine ⟨p, List.mem_of_getElem? hp, ?_, ?_⟩
    · rw [hpfd, storedFd, if_neg hne]
    · rw [hpm, signExtend_setWidth (hlegal c)]

theorem agree_of_agreeInv (h : AgreeInv s) : Agree s where
  asked c := ⟨(h.tracks c).eevents, (h.tracks c).pevents⟩
  epoll := epollWatches_iff h
  poll := pollWatches_iff h
  asserts := ⟨h.epoll.failed, h.poll.failed⟩

/-! ### Every other call breaks the agreement -/

/-- Disabling something on a channel without events adds its descriptor to the interest list. -/
theorem not_agree_of_idle_disable (h : AgreeInv s) {c : ι} {op : ChannelOp}
    (hd : op.disables = true) (hev : (s.ask c).events = kNoneEvent) :
    ¬ Agree (Both.step s (c, op)) := by
  intro hagree
  have hop : op ≠ .remove := by
    rintro rfl
    cases hd
  have ht := h.tracks c
  have hidx : (s.epoll.chan c).index_ ≠ kAdded := fun hi => ht.eindex.mp hi hev
  have hwatch : EPollWatches (Both.step s (c, op)).epoll (s.epoll.chan c).fd_ kNoneEvent := by
    rw [step_of_ne_remove c hop, ht.eevents, hev, ChannelOp.mask_none_of_disables hd,
      epoll_updateTo h.epoll]
    exact ⟨⟨kNoneEvent, c⟩, by simp [nextInterest, hidx], rfl⟩
  obtain ⟨-, -, -, hne⟩ := (hagree.epoll _ _).mp hwatch
  exact hne rfl

/-- Updating a channel after `remove` fails an assertion of `PollPoller::updateChannel`. -/
theorem not_agree_of_removed_update (h : AgreeInv s) {c : ι} {op : ChannelOp} (hop : op ≠ .remove)
    (hl : (s.ask c).life = .removed) : ¬ Agree (Both.step s (c, op)) := by
  intro hagree
  have ht := h.tracks c
  have hadd : (s.poll.chan c).addedToLoop_ = false := by
    simpa [hl] using ht.padded
  have hm : s.poll.poller.channels_.get? (s.poll.chan c).fd_ = none := by
    rw [h.poll.map.get c, pollEntry, hadd]
    rfl
  have hidx : ¬ (s.poll.chan c).index_ < 0 := not_lt.mpr (ht.pstale hl)
  have hfail := hagree.asserts.2
  rw [step_of_ne_remove c hop] at hfail
  simp [Channel.updateTo, Channel.update, PollPoller.impl, PollPoller.updateChannel,
    Channel.setEvents, hidx, hm] at hfail
  split_ifs at hfail <;> simp at hfail

end Steps

/-! ### The exact condition -/

/-- **Both pollers watch exactly what the channels ask for, after every call, if and
only if every call is sound.**  For every assignment of distinct descriptors and every
allowed sequence of calls. -/
theorem agree_throughout_iff_sound {ι : Type*} [DecidableEq ι] (fds : ι → ℕ)
    (hfds : Function.Injective fds) (calls : List (ι × ChannelOp))
    (hallowed : Along Both.step Both.Allowed (Both.init fds) calls) :
    (∀ pre post, calls = pre ++ post → Agree (exec Both.step (Both.init fds) pre)) ↔
      Along Both.step Both.Sound (Both.init fds) calls := by
  have hinv : ∀ pre, Along Both.step Both.Allowed (Both.init fds) pre →
      Along Both.step Both.Sound (Both.init fds) pre →
      AgreeInv (exec Both.step (Both.init fds) pre) := fun pre ha hs =>
    along_invariant (Q := fun s call => Both.Allowed s call ∧ Both.Sound s call) AgreeInv
      (fun _ call hi hq => agreeInv_step hi call hq.1 hq.2) (agreeInv_init hfds) (ha.and hs)
  constructor
  · intro hagree
    by_contra hbad
    obtain ⟨pre, ⟨c, op⟩, post, rfl, hpre, hbreak⟩ := exists_first_break hbad
    have hi := hinv pre hallowed.left hpre
    have hafter := hagree (pre ++ [(c, op)]) post (by simp)
    rw [exec_concat] at hafter
    simp only [Both.Sound, Classical.not_imp, not_and_or, not_not] at hbreak
    obtain ⟨hop, hl | ⟨hd, hev⟩⟩ := hbreak
    · exact not_agree_of_removed_update hi hop hl hafter
    · exact not_agree_of_idle_disable hi hd hev hafter
  · rintro hsound pre post rfl
    exact agree_of_agreeInv (hinv pre hallowed.left hsound.left)

/-- A channel that reads, is emptied and removed. -/
theorem agree_throughout_read_remove :
    Agree (exec Both.step (Both.init fun c : ℕ => c)
      [(4, .enableReading), (4, .disableAll), (4, .remove)]) :=
  (agree_throughout_iff_sound (fun c : ℕ => c) (fun _ _ h => h)
    [(4, .enableReading), (4, .disableAll), (4, .remove)] (by decide)).mpr (by decide) _ [] rfl

/-- `disableAll()` on a channel that was never enabled, then `remove()`, as `~Acceptor` does when
`listen()` was not called: the epoll set holds descriptor 4 with an empty mask, and
`PollPoller::removeChannel` finds its entry visible. -/
theorem idle_disableAll_breaks_agreement :
    Along Both.step Both.Allowed (Both.init fun c : ℕ => c) [(4, .disableAll), (4, .remove)] ∧
    ((exec Both.step (Both.init fun c : ℕ => c) [(4, .disableAll)]).epoll.chan 4).events_ =
    kNoneEvent ∧
    EPollWatches (exec Both.step (Both.init fun c : ℕ => c) [(4, .disableAll)]).epoll 4 kNoneEvent ∧
    PollWatches (exec Both.step (Both.init fun c : ℕ => c) [(4, .disableAll)]).poll 4 kNoneEvent ∧
    (exec Both.step (Both.init fun c : ℕ => c) [(4, .disableAll), (4, .remove)]).poll.failed =
      [.pollfdNotIgnored] := by
  refine ⟨by decide, by decide, ⟨⟨kNoneEvent, 4⟩, by decide, rfl⟩,
    ⟨⟨4, 0, 0⟩, by decide, rfl, by decide⟩, by decide⟩

end Muduo.Net
