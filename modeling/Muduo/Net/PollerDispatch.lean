import Muduo.Net.ConnectionLoop
import Muduo.Net.EPollBookkeeping
import Muduo.Net.PollPollerIndex

/-!
# What the pollers hand to the event loop

`poll()` of both pollers, over one kernel: `ready fd` is what is pending on a descriptor.
`poll(2)` looks at every entry of `pollfds_`, `epoll_wait(2)` picks entries of its interest list
and reports no more of them than `events_` has room for.  Channels are registered, changed and
removed between two polls.

* `report` — what the kernel reports for a descriptor and a mask;
* `PollPoller.poll`, `EPollPoller.poll` — both implementations; `mark` — what they do to the
  channels;
* `Due` — the channels that have asked for something that is pending; it does not look at a poller;
* `pollers_dispatch_alike` — both pollers activate the channels that are due, with the same masks;
* `epoll_catches_up` — and `EPollPoller` does so after a few polls, however many there are.
-/

namespace Muduo.Net

open Muduo.Lib Muduo.Net.World

/-- What is pending on each descriptor, in the bits of `poll(2)`. -/
abbrev Ready := ℕ → BitVec 14

/-- What the kernel reports for a descriptor, asked for `ev`. -/
def report (ready : Ready) (fd : ℕ) (ev : Mask) : Mask :=
  (ready fd).setWidth 32 &&& (ev ||| POLLERR ||| POLLHUP)

variable {ι : Type*} [DecidableEq ι]

namespace PollPoller

/-- An entry after `poll(2)`; a negative descriptor is ignored. -/
def polled (ready : Ready) (p : PollFd) : PollFd :=
  { p with
    revents :=
      if p.fd < 0 then 0 else (report ready p.fd.toNat (p.events.signExtend 32)).setWidth 16 }

/-- `channels_.find(pfd->fd)`. -/
def findChannel (w : Loop ι) (p : PollFd) : Option ι :=
  if p.fd < 0 then none else w.poller.channels_.get? p.fd.toNat

/-- `fillActiveChannels`, from an entry on. -/
def fillActiveChannels (w : Loop ι) (active : List ι) : List PollFd → ℕ → Loop ι × List ι
  | [], _ => (w, active)
  | p :: pollfds, numEvents =>
      if numEvents = 0 then (w, active)
      else if 0 < p.revents.toInt then
        match findChannel w p with
        | some c =>
            let w₁ := w.assert ((w.chan c).fd_ == p.fd) .pollfdForeign
            fillActiveChannels (w₁.modify c (·.set_revents (p.revents.signExtend 32)))
              (active ++ [c]) pollfds (numEvents - 1)
        | none =>
            fillActiveChannels (w.assert false .channelNotInMap) active pollfds (numEvents - 1)
      else fillActiveChannels w active pollfds numEvents

def poll (w : Loop ι) (ready : Ready) : Loop ι × List ι :=
  let pollfds := w.poller.pollfds_.map (polled ready)
  fillActiveChannels { w with poller := { w.poller with pollfds_ := pollfds } } [] pollfds
    (pollfds.countP fun p => p.revents ≠ 0)

end PollPoller

namespace EPollPoller

/-- The events that `epoll_wait(2)` writes when it picks the descriptors `answer`. -/
def wait (w : Loop ι) (ready : Ready) (answer : List ℕ) : List (EpollEvent ι) :=
  answer.filterMap fun fd => (w.poller.interest.get? fd).map fun e =>
  ⟨report ready fd e.events, e.ptr⟩

/-- `epoll_wait(2)` picks descriptors that have something to report, no more than there is room for,
and all of them if there is room. -/
structure Answers (w : Loop ι) (size : ℕ) (ready : Ready) (answer : List ℕ) : Prop where
  nodup : answer.Nodup
  sound : ∀ fd ∈ answer, ∃ e, w.poller.interest.get? fd = some e ∧ report ready fd e.events ≠ 0
  room : answer.length ≤ size
  full : answer.length < size → ∀ fd e, w.poller.interest.get? fd = some e →
    report ready fd e.events ≠ 0 → fd ∈ answer

omit [DecidableEq ι] in
/-- An answer that leaves out nothing that is asked for, if it has room. -/
theorem answers_of_keys {w : Loop ι} {size : ℕ} {ready : Ready} {answer : List ℕ}
    (hnodup : answer.Nodup)
    (hsound : ∀ fd ∈ answer, (w.poller.interest.get? fd).any fun e => report ready fd e.events ≠ 0)
    (hroom : answer.length ≤ size)
    (hfull : answer.length < size → ∀ fd ∈ w.poller.interest.keys, fd ∈ answer) :
    Answers w size ready answer where
  nodup := hnodup
  sound fd hfd := by
    obtain ⟨e, he, hreport⟩ := (Option.any_eq_true _ _).mp (hsound fd hfd)
    exact ⟨e, he, of_decide_eq_true hreport⟩
  room := hroom
  full hlt fd e he _ := hfull hlt fd ((Map.mem_keys _ _).mpr (by rw [he]; rfl))

/-- `poll()`; the last component is `events_.size()` afterwards. -/
def poll (w : Loop ι) (size : ℕ) (ready : Ready) (answer : List ℕ) : (Loop ι × List ι) × ℕ :=
  let events := wait w ready answer
  (fillActiveChannels w events, if 0 < events.length ∧ events.length = size then size * 2 else size)

def kInitEventListSize : ℕ := 16

end EPollPoller

/-! ### What a poll does to the channels -/

/-- The masks are stored in the channels, one after the other. -/
def mark {P : Type*} (w : World P ι) : List (ι × Mask) → World P ι
  | [] => w
  | (c, m) :: l => mark (w.modify c (·.set_revents m)) l

section Mark

variable {P : Type*}

@[simp] theorem mark_poller (w : World P ι) (l : List (ι × Mask)) :
    (mark w l).poller = w.poller := by
  induction l generalizing w with
  | nil => rfl
  | cons e l ih => exact ih _

@[simp] theorem mark_failed (w : World P ι) (l : List (ι × Mask)) :
    (mark w l).failed = w.failed := by
  induction l generalizing w with
  | nil => rfl
  | cons e l ih => exact ih _

/-- Nothing but `revents_` changes. -/
theorem mark_chan (w : World P ι) (l : List (ι × Mask)) (c : ι) :
    ∃ m, (mark w l).chan c = (w.chan c).set_revents m := by
  induction l generalizing w with
  | nil => exact ⟨(w.chan c).revents_, rfl⟩
  | cons e l ih =>
      obtain ⟨m, hm⟩ := ih (w.modify e.1 (·.set_revents e.2))
      refine ⟨m, hm.trans ?_⟩
      by_cases hc : c = e.1
      · rw [hc, modify_chan_self]
        rfl
      · rw [modify_chan_of_ne w _ hc]

@[simp] theorem fd_mark (w : World P ι) (l : List (ι × Mask)) (c : ι) :
    ((mark w l).chan c).fd_ = (w.chan c).fd_ := by
  obtain ⟨m, hm⟩ := mark_chan w l c
  rw [hm]
  rfl

@[simp] theorem events_mark (w : World P ι) (l : List (ι × Mask)) (c : ι) :
    ((mark w l).chan c).events_ = (w.chan c).events_ := by
  obtain ⟨m, hm⟩ := mark_chan w l c
  rw [hm]
  rfl

@[simp] theorem index_mark (w : World P ι) (l : List (ι × Mask)) (c : ι) :
    ((mark w l).chan c).index_ = (w.chan c).index_ := by
  obtain ⟨m, hm⟩ := mark_chan w l c
  rw [hm]
  rfl

@[simp] theorem addedToLoop_mark (w : World P ι) (l : List (ι × Mask)) (c : ι) :
    ((mark w l).chan c).addedToLoop_ = (w.chan c).addedToLoop_ := by
  obtain ⟨m, hm⟩ := mark_chan w l c
  rw [hm]
  rfl

@[simp] theorem eventHandling_mark (w : World P ι) (l : List (ι × Mask)) (c : ι) :
    ((mark w l).chan c).eventHandling_ = (w.chan c).eventHandling_ := by
  obtain ⟨m, hm⟩ := mark_chan w l c
  rw [hm]
  rfl

theorem mark_chan_of_not_mem (w : World P ι) {l : List (ι × Mask)} {c : ι}
    (h : c ∉ l.map Prod.fst) :
    (mark w l).chan c = w.chan c := by
  induction l generalizing w with
  | nil => rfl
  | cons e l ih =>
      rw [List.map_cons, List.mem_cons, not_or] at h
      rw [mark, ih _ h.2, modify_chan_of_ne w _ h.1]

/-- Each channel has the mask that was reported for it. -/
theorem revents_mark (w : World P ι) {l : List (ι × Mask)} (hl : (l.map Prod.fst).Nodup)
    {c : ι} {m : Mask} (h : (c, m) ∈ l) : ((mark w l).chan c).revents_ = m := by
  induction l generalizing w with
  | nil => cases h
  | cons e l ih =>
      rw [List.map_cons, List.nodup_cons] at hl
      rcases List.mem_cons.mp h with rfl | hmem
      · rw [mark, mark_chan_of_not_mem _ hl.1, modify_chan_self]
        rfl
      · exact ih _ hl.2 hmem

end Mark

/-! ### Descriptors -/

theorem fd_modify {P : Type*} (w : World P ι) (c d : ι) {f : Channel → Channel}
    (h : ∀ ch, (f ch).fd_ = ch.fd_) : ((w.modify c f).chan d).fd_ = (w.chan d).fd_ := by
  by_cases hd : d = c
  · rw [hd, modify_chan_self, h]
  · rw [modify_chan_of_ne w f hd]

theorem EPollPoller.fd_updateChannel (w : EPollPoller.Loop ι) (c d : ι) :
    ((EPollPoller.updateChannel w c).chan d).fd_ = (w.chan d).fd_ := by
  unfold EPollPoller.updateChannel
  dsimp only
  split_ifs <;> simp [EPollPoller.update_chan, fd_modify, Channel.set_index]

theorem EPollPoller.fd_removeChannel (w : EPollPoller.Loop ι) (c d : ι) :
    ((EPollPoller.removeChannel w c).chan d).fd_ = (w.chan d).fd_ := by
  unfold EPollPoller.removeChannel
  dsimp only
  split_ifs <;> simp [EPollPoller.update_chan, fd_modify, Channel.set_index]

theorem PollPoller.fd_updateChannel (w : PollPoller.Loop ι) (c d : ι) :
    ((PollPoller.updateChannel w c).chan d).fd_ = (w.chan d).fd_ := by
  unfold PollPoller.updateChannel
  dsimp only
  split_ifs <;> simp [fd_modify, Channel.set_index]

theorem PollPoller.fd_removeChannel (w : PollPoller.Loop ι) (c d : ι) :
    ((PollPoller.removeChannel w c).chan d).fd_ = (w.chan d).fd_ := by
  unfold PollPoller.removeChannel
  dsimp only
  split
  · simp
  · split <;> simp [fd_modify, Channel.set_index]

/-- No call changes a descriptor. -/
theorem fd_apply {P : Type*} {poller : Poller P ι}
    (hupdate : ∀ w c d, ((poller.updateChannel w c).chan d).fd_ = (w.chan d).fd_)
    (hremove : ∀ w c d, ((poller.removeChannel w c).chan d).fd_ = (w.chan d).fd_)
    (w : World P ι) (c d : ι) (op : ChannelOp) :
    ((op.apply poller w c).chan d).fd_ = (w.chan d).fd_ := by
  by_cases hop : op = .remove
  · rw [hop, ChannelOp.apply, Channel.remove, hremove, fd_modify _ _ _ (by simp), assert_chan]
  · rw [ChannelOp.apply_eq_updateTo _ _ _ hop, Channel.updateTo, Channel.update, hupdate,
      fd_modify _ _ _ (by simp), fd_modify _ _ _ (by simp [Channel.setEvents])]

/-! ### Masks in a `short` -/

theorem toNat_report_lt (ready : Ready) (fd : ℕ) (ev : Mask) :
    (report ready fd ev).toNat < 2 ^ 14 := by
  rw [report, BitVec.toNat_and]
  refine lt_of_le_of_lt Nat.and_le_left ?_
  rw [BitVec.toNat_setWidth]
  exact lt_of_le_of_lt (Nat.mod_le _ _) (ready fd).isLt

theorem toNat_setWidth_report (ready : Ready) (fd : ℕ) (ev : Mask) :
    ((report ready fd ev).setWidth 16).toNat = (report ready fd ev).toNat := by
  have hlt := toNat_report_lt ready fd ev
  rw [BitVec.toNat_setWidth]
  exact Nat.mod_eq_of_lt (by omega)

/-- What is reported survives the `short` field of a `pollfd`. -/
theorem signExtend_report (ready : Ready) (fd : ℕ) (ev : Mask) :
    ((report ready fd ev).setWidth 16).signExtend 32 = report ready fd ev := by
  have hlt := toNat_report_lt ready fd ev
  have hsame := toNat_setWidth_report ready fd ev
  have hmsb : ((report ready fd ev).setWidth 16).msb = false := by
    rw [BitVec.msb_eq_false_iff_two_mul_lt, hsame]
    omega
  rw [BitVec.signExtend_eq_setWidth_of_msb_false hmsb]
  apply BitVec.eq_of_toNat_eq
  rw [BitVec.toNat_setWidth, hsame]
  exact Nat.mod_eq_of_lt (by omega)

/-- `pfd->revents > 0`. -/
theorem report_pos_iff (ready : Ready) (fd : ℕ) (ev : Mask) :
    0 < ((report ready fd ev).setWidth 16).toInt ↔ report ready fd ev ≠ 0 := by
  have hlt := toNat_report_lt ready fd ev
  have hsame := toNat_setWidth_report ready fd ev
  have hzero : report ready fd ev = 0 ↔ (report ready fd ev).toNat = 0 := by
    rw [← BitVec.toNat_inj]
    rfl
  rw [BitVec.toInt_eq_toNat_of_lt (by omega), hsame, ne_eq, hzero]
  omega

theorem setWidth_report_eq_zero_iff (ready : Ready) (fd : ℕ) (ev : Mask) :
    (report ready fd ev).setWidth 16 = 0 ↔ report ready fd ev = 0 := by
  rw [← BitVec.toNat_inj, toNat_setWidth_report, ← BitVec.toNat_inj]
  rfl

/-- Whatever is reported for a mask of a channel, `handleEventWithGuard` runs a callback. -/
theorem handled_of_report {ready : Ready} {fd : ℕ} {ev : Mask} (hev : LegalMask ev)
    (h : report ready fd ev ≠ 0) :
    hangup (report ready fd ev) = true ∨ handlersOf (report ready fd ev) ≠ [.done] := by
  have hlt : (report ready fd ev).toNat < 32 := by
    rw [report, BitVec.toNat_and]
    refine lt_of_le_of_lt Nat.and_le_right ?_
    rcases hev with rfl | rfl | rfl | rfl <;> decide
  have hall : ∀ k < 32, BitVec.ofNat 32 k ≠ 0 → hangup (BitVec.ofNat 32 k) = true ∨
      handlersOf (BitVec.ofNat 32 k) ≠ [.done] := by decide
  have hk := hall _ hlt
  rw [BitVec.ofNat_toNat, BitVec.setWidth_eq] at hk
  exact hk h

/-! ### `fillActiveChannels` of `PollPoller` -/

namespace PollPoller

variable {w : Loop ι} {ready : Ready}

/-- What the loop makes of an entry. -/
def hit (w : Loop ι) (ready : Ready) (p : PollFd) : Option (ι × Mask) :=
  if p.fd < 0 ∨ report ready p.fd.toNat (p.events.signExtend 32) = 0 then none
  else (w.poller.channels_.get? p.fd.toNat).map fun c =>
    (c, report ready p.fd.toNat (p.events.signExtend 32))

/-- An entry that is not hidden names a registered channel with its descriptor. -/
def Found (w : Loop ι) (p : PollFd) : Prop :=
  0 ≤ p.fd → ∃ c, w.poller.channels_.get? p.fd.toNat = some c ∧ ((w.chan c).fd_ : ℤ) = p.fd

theorem revents_polled_eq_zero_iff (p : PollFd) : (polled ready p).revents = 0 ↔
    p.fd < 0 ∨ report ready p.fd.toNat (p.events.signExtend 32) = 0 := by
  unfold polled
  by_cases hp : p.fd < 0
  · simp [hp]
  · simp only [hp, if_false, false_or]
    exact setWidth_report_eq_zero_iff _ _ _

theorem found_modify (c : ι) (m : Mask) {p : PollFd} (h : Found w p) :
    Found (w.modify c (·.set_revents m)) p := by
  intro hp
  obtain ⟨d, hd, hfd⟩ := h hp
  refine ⟨d, hd, ?_⟩
  rw [← hfd]
  by_cases hdc : d = c
  · rw [hdc, modify_chan_self]
    rfl
  · rw [modify_chan_of_ne w _ hdc]

theorem fillActiveChannels_zero (w : Loop ι) (active : List ι) (l : List PollFd) :
    fillActiveChannels w active l 0 = (w, active) := by
  cases l with
  | nil => rfl
  | cons p l => exact if_pos rfl

/-- An entry without events is passed over. -/
theorem fillActiveChannels_skip (w : Loop ι) (active : List ι) {p : PollFd} (hp : p.revents = 0)
    (l : List PollFd) (n : ℕ) :
    fillActiveChannels w active (p :: l) n = fillActiveChannels w active l n := by
  by_cases hn : n = 0
  · rw [hn, fillActiveChannels_zero, fillActiveChannels_zero]
  · rw [fillActiveChannels, if_neg hn, if_neg (by simp [hp])]

/-- An entry with events activates its channel. -/
theorem fillActiveChannels_hit {p : PollFd} (hp : Found w p) {c : ι} {m : Mask}
    (hc : hit w ready p = some (c, m)) (active : List ι) (l : List PollFd) (n : ℕ) :
    fillActiveChannels w active (polled ready p :: l) (n + 1) =
      fillActiveChannels (w.modify c (·.set_revents m)) (active ++ [c]) l n := by
  unfold hit at hc
  split at hc
  · cases hc
  · rename_i hreport
    rw [not_or, not_lt] at hreport
    obtain ⟨d, hd, hfd⟩ := hp hreport.1
    rw [hd, Option.map_some, Option.some.injEq, Prod.mk.injEq] at hc
    obtain ⟨rfl, rfl⟩ := hc
    have hrev : (polled ready p).revents =
        (report ready p.fd.toNat (p.events.signExtend 32)).setWidth 16 :=
        if_neg (not_lt.mpr hreport.1)
    have hfind : findChannel w (polled ready p) = some d :=
      (if_neg (not_lt.mpr hreport.1) : findChannel w (polled ready p) = _).trans hd
    have hsame : ((w.chan d).fd_ == (polled ready p).fd) = true := beq_iff_eq.mpr hfd
    rw [fillActiveChannels, if_neg (Nat.succ_ne_zero n), hrev,
      if_pos ((report_pos_iff _ _ _).mpr hreport.2), hfind]
    dsimp only
    rw [hsame, assert_true, signExtend_report, Nat.add_sub_cancel]

/-- **The loop of `fillActiveChannels`**, when it counts down from at least the number of
entries with events. -/
theorem fillActiveChannels_eq (l : List PollFd) (hl : ∀ p ∈ l, Found w p) (active : List ι) {n : ℕ}
    (hn : (l.map (polled ready)).countP (fun p => p.revents ≠ 0) ≤ n) :
    fillActiveChannels w active (l.map (polled ready)) n =
      (mark w (l.filterMap (hit w ready)), active ++ (l.filterMap (hit w ready)).map Prod.fst) := by
  induction l generalizing w active n with
  | nil => simp [fillActiveChannels, mark]
  | cons p l ih =>
      rw [List.forall_mem_cons] at hl
      rw [List.map_cons] at hn ⊢
      by_cases hzero : (polled ready p).revents = 0
      · have hnone : hit w ready p = none := if_pos ((revents_polled_eq_zero_iff p).mp hzero)
        rw [fillActiveChannels_skip w active hzero, List.filterMap_cons_none hnone]
        rw [List.countP_cons_of_neg (by simp [hzero])] at hn
        exact ih hl.2 active hn
      · have hreport := fun h => hzero ((revents_polled_eq_zero_iff p).mpr h)
        obtain ⟨c, hc, -⟩ := hl.1 (not_lt.mp fun h => hreport (Or.inl h))
        have hsome :
            hit w ready p = some (c, report ready p.fd.toNat (p.events.signExtend 32)) := by
          rw [hit, if_neg hreport, hc, Option.map_some]
        rw [List.countP_cons_of_pos (by exact decide_eq_true hzero)] at hn
        obtain ⟨k, rfl⟩ : ∃ k, n = k + 1 := Nat.exists_eq_succ_of_ne_zero (by omega)
        rw [fillActiveChannels_hit hl.1 hsome, List.filterMap_cons_some hsome, List.map_cons,
          ih (fun q hq => found_modify c _ (hl.2 q hq)) (active ++ [c]) (Nat.le_of_succ_le_succ hn),
          List.append_assoc]
        rfl

/-- The activations of a poll. -/
def hits (w : Loop ι) (ready : Ready) : List (ι × Mask) := w.poller.pollfds_.filterMap (hit w ready)

theorem poll_eq (h : ∀ p ∈ w.poller.pollfds_, Found w p) :
    poll w ready =
      (mark { w with poller := { w.poller with pollfds_ := w.poller.pollfds_.map (polled ready) } }
        (hits w ready), (hits w ready).map Prod.fst) :=
  fillActiveChannels_eq (w := { w with poller := { w.poller with
    pollfds_ := w.poller.pollfds_.map (polled ready) } }) w.poller.pollfds_ h [] le_rfl

omit [DecidableEq ι] in
/-- The entry at a position and the channel it stands for. -/
theorem exists_channel_at (h : PollInv exactRel w) {i : ℕ} {p : PollFd}
    (hp : w.poller.pollfds_[i]? = some p) : ∃ c, (w.chan c).addedToLoop_ = true ∧
    (w.chan c).index_ = i ∧
      p.fd = storedFd (w.chan c).fd_ (w.chan c).events_ ∧
      p.events = (w.chan c).events_.setWidth 16 := by
  obtain ⟨c, hadded, hindex⟩ := h.owner i (List.getElem?_eq_some_iff.mp hp).1
  obtain ⟨j, hj, q, hq, hrel⟩ := h.entry c hadded
  obtain rfl : i = j := by omega
  obtain rfl : p = q := Option.some.inj (hp.symm.trans hq)
  exact ⟨c, hadded, hindex, hrel⟩

omit [DecidableEq ι] in
/-- The channel of a visible entry. -/
theorem exists_channel_of_mem (h : PollInv exactRel w) {p : PollFd} (hp : p ∈ w.poller.pollfds_)
    (hfd : 0 ≤ p.fd) : ∃ c, w.poller.channels_.get? p.fd.toNat = some c ∧
    ((w.chan c).fd_ : ℤ) = p.fd ∧
      (w.chan c).events_ ≠ kNoneEvent ∧ p.events = (w.chan c).events_.setWidth 16 := by
  obtain ⟨i, hi⟩ := List.getElem?_of_mem hp
  obtain ⟨c, hadded, -, hstored, hevents⟩ := exists_channel_at h hi
  unfold storedFd at hstored
  split at hstored
  · omega
  · refine ⟨c, ?_, hstored.symm, ‹_›, hevents⟩
    rw [hstored, Int.toNat_natCast, h.map.get c, pollEntry, if_pos hadded]

omit [DecidableEq ι] in
theorem found_of_mem (h : PollInv exactRel w) : ∀ p ∈ w.poller.pollfds_, Found w p := by
  intro p hp hfd
  obtain ⟨c, hget, hsame, -⟩ := exists_channel_of_mem h hp hfd
  exact ⟨c, hget, hsame⟩

omit [DecidableEq ι] in
/-- No descriptor stands twice in the array. -/
theorem pairwise_fd (h : PollInv exactRel w) :
    w.poller.pollfds_.Pairwise fun p q => p.fd ≠ q.fd := by
  rw [List.pairwise_iff_getElem]
  intro i j hi hj hij heq
  obtain ⟨c, -, hci, hcfd, -⟩ := exists_channel_at h (List.getElem?_eq_getElem hi)
  obtain ⟨d, -, hdj, hdfd, -⟩ := exists_channel_at h (List.getElem?_eq_getElem hj)
  have hsame : (w.chan c).fd_ = (w.chan d).fd_ := by
    rw [hcfd, hdfd] at heq
    unfold storedFd at heq
    split_ifs at heq <;> omega
  rw [h.distinct hsame] at hci
  omega

omit [DecidableEq ι] in
theorem fst_hit {p : PollFd} (hp : Found w p) {e : ι × Mask} (he : hit w ready p = some e) :
    ((w.chan e.1).fd_ : ℤ) = p.fd := by
  unfold hit at he
  split at he
  · cases he
  · rename_i hreport
    obtain ⟨c, hc, hfd⟩ := hp (not_lt.mp fun hneg => hreport (Or.inl hneg))
    rw [hc, Option.map_some, Option.some.injEq] at he
    rw [← he]
    exact hfd

omit [DecidableEq ι] in
/-- No channel is activated twice. -/
theorem nodup_hits (h : PollInv exactRel w) : ((hits w ready).map Prod.fst).Nodup := by
  rw [List.Nodup, List.pairwise_map, hits, List.pairwise_filterMap]
  refine (pairwise_fd h).imp_of_mem fun {p q} hp hq hne e he e' he' hsame => hne ?_
  rw [← fst_hit (found_of_mem h p hp) he, ← fst_hit (found_of_mem h q hq) he', hsame]

omit [DecidableEq ι] in
/-- A poll activates the channels for which the kernel has something to report. -/
theorem mem_hits_iff (h : PollInv exactRel w) (hmask : ∀ c, LegalMask (w.chan c).events_)
    (hreg : ∀ c, (w.chan c).events_ ≠ kNoneEvent → (w.chan c).addedToLoop_ = true)
    (c : ι) (m : Mask) :
    (c, m) ∈ hits w ready ↔ (w.chan c).events_ ≠ kNoneEvent ∧
      report ready (w.chan c).fd_ (w.chan c).events_ = m ∧ m ≠ 0 := by
  rw [hits, List.mem_filterMap]
  constructor
  · rintro ⟨p, hp, hit⟩
    unfold PollPoller.hit at hit
    split at hit
    · cases hit
    · rename_i hreport
      rw [not_or, not_lt] at hreport
      obtain ⟨d, hget, hfd, hne, hev⟩ := exists_channel_of_mem h hp hreport.1
      rw [hget, Option.map_some, Option.some.injEq, Prod.mk.injEq, ← hfd, Int.toNat_natCast, hev,
        signExtend_setWidth (hmask d)] at hit
      obtain ⟨rfl, rfl⟩ := hit
      rw [← hfd, Int.toNat_natCast, hev, signExtend_setWidth (hmask d)] at hreport
      exact ⟨hne, rfl, hreport.2⟩
  · rintro ⟨hne, rfl, hm⟩
    obtain ⟨i, -, p, hp, hfd, hev⟩ := h.entry c (hreg c hne)
    refine ⟨p, List.mem_of_getElem? hp, ?_⟩
    rw [storedFd, if_neg hne] at hfd
    rw [hit, hfd, hev, signExtend_setWidth (hmask c), Int.toNat_natCast,
      if_neg (not_or.mpr ⟨by omega, hm⟩), h.map.get c, pollEntry, if_pos (hreg c hne),
      Option.map_some]

/-- A poll leaves the data structures as they are. -/
theorem pollInv_poll (h : PollInv exactRel w) : PollInv exactRel (poll w ready).1 := by
  rw [poll_eq (found_of_mem h)]
  refine ⟨⟨?_, ?_, ?_, ?_⟩, ?_⟩
  · simpa only [fd_mark] using h.distinct
  · simpa only [fd_mark, mark_poller, pollEntry, addedToLoop_mark] using h.map
  · intro c hc
    rw [addedToLoop_mark] at hc
    obtain ⟨i, hi, p, hp, hrel⟩ := h.entry c hc
    refine ⟨i, ?_, polled ready p, ?_, ?_⟩
    · rw [index_mark]
      exact hi
    · rw [mark_poller, List.getElem?_map, hp, Option.map_some]
    · rw [fd_mark, events_mark]
      exact hrel
  · simpa only [mark_poller, List.length_map, addedToLoop_mark, index_mark] using h.owner
  · rw [mark_failed]
    exact h.failed

end PollPoller

/-! ### `fillActiveChannels` of `EPollPoller` -/

namespace EPollPoller

variable {w : Loop ι} {ready : Ready} {answer : List ℕ}

/-- The activations that a list of events stands for. -/
def activations (events : List (EpollEvent ι)) : List (ι × Mask) := events.map fun e =>
    (e.ptr, e.events)

theorem foldl_activate_eq {events : List (EpollEvent ι)} (active : List ι)
    (h : ∀ event ∈ events, w.poller.channels_.get? (w.chan event.ptr).fd_ = some event.ptr) :
    events.foldl activate (w, active) =
      (mark w (activations events), active ++ (activations events).map Prod.fst) := by
  induction events generalizing w active with
  | nil => simp [activations, mark]
  | cons event events ih =>
      rw [List.forall_mem_cons] at h
      have hone : activate (w, active) event =
          (w.modify event.ptr (·.set_revents event.events), active ++ [event.ptr]) := by
        simp [activate, h.1]
      rw [List.foldl_cons, hone, ih, List.append_assoc]
      · rfl
      · -- only `revents_` changes, so the later lookups are the same
        intro e he
        rw [show w.modify event.ptr (·.set_revents event.events) =
          mark w [(event.ptr, event.events)] from rfl, mark_poller, fd_mark]
        exact h.2 e he

omit [DecidableEq ι] in
/-- Channels whose descriptors are never used again keep the books. -/
theorem bookkept_of_epollInv (h : EPollInv w) : Bookkept w where
  index := h.index
  added := h.added
  distinct _ _ _ _ hfd := h.distinct hfd
  map := h.map.get?_iff
  kernel := h.kernel.get?_iff
  failed := h.failed

omit [DecidableEq ι] in
/-- An entry of the interest list and the channel it stands for. -/
theorem interest_iff (h : Bookkept w) (fd : ℕ) (e : EpollEvent ι) :
    w.poller.interest.get? fd = some e ↔
      (w.chan e.ptr).fd_ = fd ∧ (w.chan e.ptr).index_ = kAdded ∧
      (w.chan e.ptr).events_ = e.events := by
  rw [h.kernel]
  simp only [interestEntry]
  constructor
  · rintro ⟨c, hfd, hc⟩
    split at hc
    · cases hc
      exact ⟨hfd, ‹_›, rfl⟩
    · cases hc
  · rintro ⟨hfd, hadded, hev⟩
    exact ⟨e.ptr, hfd, by rw [if_pos hadded, hev]⟩

section Picked

variable {size : ℕ} (h : Bookkept w)

omit [DecidableEq ι] in
include h in
theorem mem_activations_iff (c : ι) (m : Mask) : (c, m) ∈ activations (wait w ready answer) ↔
    (w.chan c).fd_ ∈ answer ∧ (w.chan c).index_ = kAdded ∧
      report ready (w.chan c).fd_ (w.chan c).events_ = m := by
  simp only [activations, wait, List.mem_map, List.mem_filterMap, Option.map_eq_some_iff]
  constructor
  · rintro ⟨-, ⟨fd, hfd, e, he, rfl⟩, hcm⟩
    obtain ⟨rfl, hadded, hev⟩ := (interest_iff h fd e).mp he
    cases hcm
    exact ⟨hfd, hadded, by rw [hev]⟩
  · rintro ⟨hfd, hadded, rfl⟩
    exact ⟨_, ⟨_, hfd, ⟨(w.chan c).events_, c⟩, (interest_iff h _ _).mpr ⟨rfl, hadded, rfl⟩, rfl⟩,
      rfl⟩

omit [DecidableEq ι] in
include h in
/-- Each descriptor stands for a channel of its own. -/
theorem nodup_activations (hnodup : answer.Nodup) :
    ((activations (wait w ready answer)).map Prod.fst).Nodup := by
  rw [activations, List.map_map, List.Nodup, List.pairwise_map, wait, List.pairwise_filterMap]
  refine hnodup.imp fun {fd fd'} hne e he e' he' hsame => hne ?_
  rw [Option.map_eq_some_iff] at he he'
  obtain ⟨i, hi, rfl⟩ := he
  obtain ⟨i', hi', rfl⟩ := he'
  rw [← ((interest_iff h fd i).mp hi).1, ← ((interest_iff h fd' i').mp hi').1]
  exact congrArg (fun c => (w.chan c).fd_) hsame

omit [DecidableEq ι] in
theorem length_wait (hans : Answers w size ready answer) :
    (wait w ready answer).length = answer.length := by
  rw [wait, List.filterMap_length_eq_length]
  intro fd hfd
  obtain ⟨e, he, -⟩ := hans.sound fd hfd
  rw [he]
  rfl

include h in
theorem poll_eq (hans : Answers w size ready answer) : poll w size ready answer =
    ((mark w (activations (wait w ready answer)), (activations (wait w ready answer)).map Prod.fst),
      if 0 < answer.length ∧ answer.length = size then size * 2 else size) := by
  have hmap : ∀ event ∈ wait w ready answer,
      w.poller.channels_.get? (w.chan event.ptr).fd_ = some event.ptr := by
    intro event hevent
    have hmem : (event.ptr, event.events) ∈ activations (wait w ready answer) :=
      List.mem_map_of_mem hevent
    obtain ⟨-, hadded, -⟩ := (mem_activations_iff h event.ptr event.events).mp hmem
    exact (h.map _ _).mpr ⟨event.ptr, rfl, if_neg (by rw [hadded]; decide)⟩
  rw [poll, fillActiveChannels, foldl_activate_eq [] hmap, length_wait hans, List.nil_append]

omit h in
/-- A poll leaves the data structures as they are. -/
theorem epollInv_mark (h : EPollInv w) (l : List (ι × Mask)) : EPollInv (mark w l) := by
  refine ⟨?_, ?_, ?_, ?_, ?_, ?_⟩
  · simpa only [fd_mark] using h.distinct
  · simpa only [index_mark] using h.index
  · simpa only [index_mark, addedToLoop_mark] using h.added
  · simpa only [fd_mark, mark_poller, mapEntry, index_mark] using h.map
  · simpa only [fd_mark, mark_poller, interestEntry, index_mark, events_mark] using h.kernel
  · rw [mark_failed]
    exact h.failed

end Picked

end EPollPoller

/-! ### A program over both pollers -/

/-- The program of `Both`, with its polls; `size` is `events_.size()`. -/
structure Dispatch (ι : Type*) where
  both : Both ι
  size : ℕ

namespace Dispatch

inductive Label (ι : Type*) where
  | call (c : ι) (op : ChannelOp)
  | poll (ready : Ready) (answer : List ℕ)

def init (fds : ι → ℕ) : Dispatch ι := ⟨Both.init fds, EPollPoller.kInitEventListSize⟩

def step (s : Dispatch ι) : Label ι → Dispatch ι
  | .call c op => { s with both := s.both.step (c, op) }
  | .poll ready answer =>
      let r := EPollPoller.poll s.both.epoll s.size ready answer
      ⟨⟨s.both.ask, r.1.1, (PollPoller.poll s.both.poll ready).1⟩, r.2⟩

/-- The calls on which the pollers agree, and the answers that the kernel can give. -/
def Proper (s : Dispatch ι) : Label ι → Prop
  | .call c op => Both.Allowed s.both (c, op) ∧ Both.Sound s.both (c, op)
  | .poll ready answer => EPollPoller.Answers s.both.epoll s.size ready answer

/-- Calls without polls. -/
theorem along_calls (s : Dispatch ι) (calls : List (ι × ChannelOp))
    (h : Along Both.step (fun s call => Both.Allowed s call ∧ Both.Sound s call) s.both calls) :
    Along step Proper s (calls.map fun call => .call call.1 call.2) := by
  induction calls generalizing s with
  | nil => trivial
  | cons call calls ih => exact ⟨h.1, ih _ h.2⟩

/-- What a channel asked for is pending on its descriptor. -/
def Due (fds : ι → ℕ) (ask : ι → Ask) (ready : Ready) (c : ι) : Prop :=
  (ask c).events ≠ kNoneEvent ∧ report ready (fds c) (ask c).events ≠ 0

/-- The channels of a list are due, and hold what was reported for them. -/
structure Delivers {P : Type*} (fds : ι → ℕ) (ask : ι → Ask) (ready : Ready) (w : World P ι)
    (active : List ι) : Prop where
  nodup : active.Nodup
  due : ∀ c ∈ active, Due fds ask ready c
  revents : ∀ c ∈ active, (w.chan c).revents_ = report ready (fds c) (ask c).events
  handled : ∀ c ∈ active, hangup (w.chan c).revents_ = true ∨
    handlersOf (w.chan c).revents_ ≠ [.done]
  asserts : w.failed = []

structure Inv (fds : ι → ℕ) (s : Dispatch ι) : Prop where
  agree : AgreeInv s.both
  efd : ∀ c, (s.both.epoll.chan c).fd_ = fds c
  pfd : ∀ c, (s.both.poll.chan c).fd_ = fds c
  room : 0 < s.size

variable {fds : ι → ℕ} {s : Dispatch ι}

theorem Inv.booked (h : Inv fds s) : EPollPoller.Bookkept s.both.epoll :=
  EPollPoller.bookkept_of_epollInv h.agree.epoll

theorem inv_init (h : Function.Injective fds) : Inv fds (init fds) :=
  ⟨agreeInv_init h, fun _ => rfl, fun _ => rfl, show 0 < EPollPoller.kInitEventListSize by decide⟩

/-- **A call** keeps the invariant. -/
theorem inv_call (h : Inv fds s) {c : ι} {op : ChannelOp} (hp : Proper s (.call c op)) :
    Inv fds (step s (.call c op)) where
  agree := agreeInv_step h.agree (c, op) hp.1 hp.2
  efd d := (fd_apply EPollPoller.fd_updateChannel EPollPoller.fd_removeChannel s.both.epoll c d
    op).trans (h.efd d)
  pfd d := (fd_apply PollPoller.fd_updateChannel PollPoller.fd_removeChannel
    s.both.poll c d op).trans (h.pfd d)
  room := h.room

/-- **A poll** keeps the invariant: nothing but `revents_` and the room in `events_` changes. -/
theorem inv_poll (h : Inv fds s) {ready : Ready} {answer : List ℕ}
    (hp : EPollPoller.Answers s.both.epoll s.size ready answer) :
    Inv fds (step s (.poll ready answer)) := by
  have hpoll : PollPoller.poll s.both.poll ready = _ :=
    PollPoller.poll_eq (PollPoller.found_of_mem h.agree.poll)
  have hepoll := EPollPoller.poll_eq h.booked hp
  refine ⟨⟨?_, PollPoller.pollInv_poll h.agree.poll, fun c => ?_⟩, fun c => ?_, fun c => ?_, ?_⟩
  · simp only [step, hepoll]
    exact EPollPoller.epollInv_mark h.agree.epoll _
  · have ht := h.agree.tracks c
    simp only [step, hepoll, hpoll]
    exact { ht with
      eevents := (events_mark _ _ _).trans ht.eevents
      pevents := (events_mark _ _ _).trans ht.pevents
      eadded := by simpa only [addedToLoop_mark] using ht.eadded
      padded := by simpa only [addedToLoop_mark] using ht.padded
      eindex := by simpa only [index_mark] using ht.eindex
      pfresh := by simpa only [index_mark] using ht.pfresh
      pstale := by simpa only [index_mark] using ht.pstale }
  · simp only [step, hepoll, fd_mark]
    exact h.efd c
  · simp only [step, hpoll, fd_mark]
    exact h.pfd c
  · simp only [step, hepoll]
    have hroom := h.room
    split <;> omega

theorem inv_step (s : Dispatch ι) (l : Label ι) (h : Inv fds s) (hp : Proper s l) :
    Inv fds (step s l) := by
  cases l with
  | call c op => exact inv_call h hp
  | poll ready answer => exact inv_poll h hp

theorem inv_exec (hfds : Function.Injective fds) {ls : List (Label ι)}
    (hls : Along step Proper (init fds) ls) : Inv fds (exec step (init fds) ls) :=
  along_invariant (Inv fds) inv_step (inv_init hfds) hls

/-! ### What the polls deliver -/

section Delivered

variable {ready : Ready} {answer : List ℕ} (h : Inv fds s)

include h

theorem mem_hits_iff_due (c : ι) (m : Mask) : (c, m) ∈ PollPoller.hits s.both.poll ready ↔
    Due fds s.both.ask ready c ∧ m = report ready (fds c) (s.both.ask c).events := by
  have hmask : ∀ c, LegalMask (s.both.poll.chan c).events_ := fun c =>
    (h.agree.tracks c).pevents ▸ (h.agree.tracks c).mask
  have hreg : ∀ c, (s.both.poll.chan c).events_ ≠ kNoneEvent →
      (s.both.poll.chan c).addedToLoop_ = true := by
    intro c hne
    rw [(h.agree.tracks c).pevents] at hne
    exact (h.agree.tracks c).padded.mpr (not_not.mp fun hl => hne ((h.agree.tracks c).idle hl))
  rw [PollPoller.mem_hits_iff h.agree.poll hmask hreg, h.pfd, (h.agree.tracks c).pevents, Due]
  constructor
  · rintro ⟨hne, rfl, hm⟩
    exact ⟨⟨hne, hm⟩, rfl⟩
  · rintro ⟨⟨hne, hm⟩, rfl⟩
    exact ⟨hne, rfl, hm⟩

theorem mem_activations_iff_due (hp : EPollPoller.Answers s.both.epoll s.size ready answer) (c : ι)
    (m : Mask) : (c, m) ∈ EPollPoller.activations (EPollPoller.wait s.both.epoll ready answer) ↔
      fds c ∈ answer ∧ Due fds s.both.ask ready c ∧
      m = report ready (fds c) (s.both.ask c).events := by
  rw [EPollPoller.mem_activations_iff h.booked, h.efd, (h.agree.tracks c).eevents,
    (h.agree.tracks c).eindex, Due]
  constructor
  · rintro ⟨hmem, hne, rfl⟩
    obtain ⟨e, he, hreport⟩ := hp.sound _ hmem
    obtain ⟨hfd, -, hev⟩ := (EPollPoller.interest_iff h.booked _ _).mp he
    have hptr : e.ptr = c := h.agree.epoll.distinct (by
      show (s.both.epoll.chan e.ptr).fd_ = (s.both.epoll.chan c).fd_
      rw [hfd, h.efd])
    rw [← hev, hptr, (h.agree.tracks c).eevents] at hreport
    exact ⟨hmem, ⟨hne, hreport⟩, rfl⟩
  · rintro ⟨hmem, ⟨hne, -⟩, rfl⟩
    exact ⟨hmem, hne, rfl⟩

/-- What is common to both pollers. -/
theorem delivers_mark {P : Type*} {w : World P ι} (hw : w.failed = []) {l : List (ι × Mask)}
    (hnodup : (l.map Prod.fst).Nodup)
    (hl : ∀ c m, (c, m) ∈ l → Due fds s.both.ask ready c ∧
      m = report ready (fds c) (s.both.ask c).events) :
    Delivers fds s.both.ask ready (mark w l) (l.map Prod.fst) := by
  have hrev : ∀ c ∈ l.map Prod.fst, Due fds s.both.ask ready c ∧
      ((mark w l).chan c).revents_ = report ready (fds c) (s.both.ask c).events := by
    intro c hc
    obtain ⟨⟨c, m⟩, hmem, rfl⟩ := List.mem_map.mp hc
    obtain ⟨hdue, hm⟩ := hl c m hmem
    exact ⟨hdue, (revents_mark w hnodup hmem).trans hm⟩
  refine ⟨hnodup, fun c hc => (hrev c hc).1, fun c hc => (hrev c hc).2, fun c hc => ?_, ?_⟩
  · rw [(hrev c hc).2]
    exact handled_of_report (h.agree.tracks c).mask (hrev c hc).1.2
  · rw [mark_failed, hw]

theorem poll_delivers : Delivers fds s.both.ask ready (PollPoller.poll s.both.poll ready).1
    (PollPoller.poll s.both.poll ready).2 := by
  rw [PollPoller.poll_eq (PollPoller.found_of_mem h.agree.poll)]
  apply delivers_mark h
  · exact h.agree.poll.failed
  · exact PollPoller.nodup_hits h.agree.poll
  · exact fun c m hmem => (mem_hits_iff_due h c m).mp hmem

theorem mem_poll_iff (c : ι) :
    c ∈ (PollPoller.poll s.both.poll ready).2 ↔ Due fds s.both.ask ready c := by
  rw [PollPoller.poll_eq (PollPoller.found_of_mem h.agree.poll), List.mem_map]
  constructor
  · rintro ⟨⟨d, m⟩, hmem, rfl⟩
    exact ((mem_hits_iff_due h d m).mp hmem).1
  · intro hdue
    exact ⟨(c, _), (mem_hits_iff_due h c _).mpr ⟨hdue, rfl⟩, rfl⟩

variable (hp : EPollPoller.Answers s.both.epoll s.size ready answer)

include hp

theorem epoll_delivers : Delivers fds s.both.ask ready
    (EPollPoller.poll s.both.epoll s.size ready answer).1.1
    (EPollPoller.poll s.both.epoll s.size ready answer).1.2 := by
  rw [EPollPoller.poll_eq h.booked hp]
  exact delivers_mark h h.agree.epoll.failed (EPollPoller.nodup_activations h.booked hp.nodup)
    fun c m hmem => ((mem_activations_iff_due h hp c m).mp hmem).2

theorem length_epoll :
    (EPollPoller.poll s.both.epoll s.size ready answer).1.2.length = answer.length := by
  rw [EPollPoller.poll_eq h.booked hp, List.length_map, EPollPoller.activations, List.length_map,
    EPollPoller.length_wait hp]

theorem epoll_perm_of_room (hroom : answer.length < s.size) :
    (EPollPoller.poll s.both.epoll s.size ready answer).1.2.Perm
    (PollPoller.poll s.both.poll ready).2 := by
  rw [List.perm_ext_iff_of_nodup (epoll_delivers h hp).nodup (poll_delivers h).nodup]
  intro c
  rw [mem_poll_iff h]
  refine ⟨(epoll_delivers h hp).due c, fun hdue => ?_⟩
  have hev := (h.agree.tracks c).eevents
  have hin : fds c ∈ answer := by
    refine hp.full hroom (fds c) ⟨(s.both.ask c).events, c⟩ ?_ hdue.2
    exact (EPollPoller.interest_iff h.booked _ _).mpr
      ⟨h.efd c, (h.agree.tracks c).eindex.mpr hdue.1, hev⟩
  rw [EPollPoller.poll_eq h.booked hp, List.mem_map]
  exact ⟨(c, _), (mem_activations_iff_due h hp c _).mpr ⟨hin, hdue, rfl⟩, rfl⟩

theorem length_answer_le : answer.length ≤ (PollPoller.poll s.both.poll ready).2.length := by
  rw [← length_epoll h hp]
  refine (List.subperm_of_subset (epoll_delivers h hp).nodup fun c hc => ?_).length_le
  exact (mem_poll_iff h c).mpr ((epoll_delivers h hp).due c hc)

/-- `events_` grows while it is too small, and never shrinks. -/
theorem size_poll :
    (PollPoller.poll s.both.poll ready).2.length < (step s (.poll ready answer)).size ∨
    (step s (.poll ready answer)).size = 2 * s.size := by
  have hsize : (step s (.poll ready answer)).size =
      if 0 < answer.length ∧ answer.length = s.size then s.size * 2 else s.size := by
    simp only [step, EPollPoller.poll_eq h.booked hp]
  have hroom := h.room
  rcases Nat.lt_or_ge answer.length s.size with hlt | hge
  · left
    rw [hsize, if_neg (by omega), ← (epoll_perm_of_room h hp hlt).length_eq, length_epoll h hp]
    exact hlt
  · right
    have hle := hp.room
    rw [hsize, if_pos (by omega), Nat.mul_comm]

omit hp in
/-- The same channels are due after polls. -/
theorem poll_perm {s' : Dispatch ι} (h' : Inv fds s') (hask : s'.both.ask = s.both.ask) :
    (PollPoller.poll s'.both.poll ready).2.Perm (PollPoller.poll s.both.poll ready).2 := by
  rw [List.perm_ext_iff_of_nodup (poll_delivers h').nodup (poll_delivers h).nodup]
  intro c
  rw [mem_poll_iff h', mem_poll_iff h, hask]

end Delivered

/-- **Polls with the same things pending**: the channels that are due stay the same, and there is
room for them or `events_` has doubled each time. -/
theorem polls_size (h : Inv fds s) (ready : Ready) (answers : List (List ℕ))
    (hp : Along step Proper s (answers.map (.poll ready))) :
    (exec step s (answers.map (.poll ready))).both.ask = s.both.ask ∧
    ((PollPoller.poll s.both.poll ready).2.length < (exec step s (answers.map (.poll ready))).size ∨
      (exec step s (answers.map (.poll ready))).size = 2 ^ answers.length * s.size) := by
  induction answers generalizing s with
  | nil => exact ⟨rfl, Or.inr (by simp [exec])⟩
  | cons answer answers ih =>
      have h₁ : Inv fds (step s (.poll ready answer)) := inv_step s _ h hp.1
      obtain ⟨hask, hsize⟩ := ih h₁ hp.2
      rw [(poll_perm h h₁ rfl).length_eq] at hsize
      rw [List.map_cons, exec_cons, List.length_cons, pow_succ, Nat.mul_assoc]
      refine ⟨hask, ?_⟩
      rcases hsize with hroom | hdoubled
      · exact Or.inl hroom
      · rcases size_poll h hp.1 with hroom | hdouble
        · left
          rw [hdoubled]
          exact lt_of_lt_of_le hroom (Nat.le_mul_of_pos_left _ (Nat.two_pow_pos _))
        · right
          rw [hdoubled, hdouble]

end Dispatch

/-! ### All runs -/

section Runs

open Dispatch

/-- **The pollers deliver the same events.**  After every run of sound calls and polls, the channels
that `PollPoller::poll` activates are those that are due, each of them once, with the mask the
kernel reports and a callback for it; the channels that `EPollPoller::poll` activates are such
channels, with the same masks, and if the answer leaves room in `events_` they are the same ones.
No assertion fails. -/
theorem pollers_dispatch_alike (fds : ι → ℕ) (hfds : Function.Injective fds) (ls : List (Label ι))
    (hls : Along step Proper (init fds) ls) (ready : Ready) (answer : List ℕ)
    (hanswer : EPollPoller.Answers (exec step (init fds) ls).both.epoll
      (exec step (init fds) ls).size ready answer) :
    let s := exec step (init fds) ls
    let polled := PollPoller.poll s.both.poll ready
    let waited := (EPollPoller.poll s.both.epoll s.size ready answer).1
    Delivers fds s.both.ask ready polled.1 polled.2 ∧
    Delivers fds s.both.ask ready waited.1 waited.2 ∧
    (∀ c, c ∈ polled.2 ↔ Due fds s.both.ask ready c) ∧
    (waited.2.length < s.size → waited.2.Perm polled.2) := by
  intro s polled waited
  have h : Inv fds s := inv_exec hfds hls
  refine ⟨poll_delivers h, epoll_delivers h hanswer, mem_poll_iff h, fun hroom => ?_⟩
  rw [length_epoll h hanswer] at hroom
  exact epoll_perm_of_room h hanswer hroom

/-- **No ready channel waits for long.**  However many channels are due, `EPollPoller` activates
all of them in one poll once it has polled `k` times, if they are fewer than `2 ^ k` times the room
that `events_` had. -/
theorem epoll_catches_up (fds : ι → ℕ) (hfds : Function.Injective fds) (ls : List (Label ι))
    (hls : Along step Proper (init fds) ls) (ready : Ready) (answers : List (List ℕ))
    (answer : List ℕ)
    (hanswers : Along step Proper (exec step (init fds) ls)
      ((answers ++ [answer]).map (.poll ready)))
    (hmany : (PollPoller.poll (exec step (init fds) ls).both.poll ready).2.length <
      2 ^ answers.length * (exec step (init fds) ls).size) :
    let s := exec step (init fds) ls
    let s' := exec step s (answers.map (.poll ready))
    (EPollPoller.poll s'.both.epoll s'.size ready answer).1.2.Perm
      (PollPoller.poll s.both.poll ready).2 := by
  intro s s'
  have h : Inv fds s := inv_exec hfds hls
  rw [List.map_append, along_append] at hanswers
  obtain ⟨hbefore, hanswer, -⟩ := hanswers
  have h' : Inv fds s' := along_invariant (Inv fds) inv_step h hbefore
  obtain ⟨hask, hsize⟩ := polls_size h ready answers hbefore
  have hperm : (PollPoller.poll s'.both.poll ready).2.Perm (PollPoller.poll s.both.poll ready).2 :=
    poll_perm h h' hask
  have hroom : (PollPoller.poll s.both.poll ready).2.length < s'.size := by
    rcases hsize with hroom | hdoubled
    · exact hroom
    · exact hdoubled ▸ hmany
  have hle := length_answer_le h' hanswer
  rw [hperm.length_eq] at hle
  exact (epoll_perm_of_room h' hanswer (lt_of_le_of_lt hle hroom)).trans hperm

/-- Data is there on descriptor 4. -/
def oneReady : Ready := fun fd => if fd = 4 then 1 else 0

/-- Both channels read. -/
def bothReading : List (Label Bool) := [.call false .enableReading, .call true .enableReading]

/-- And a poll has answered the second one. -/
def readingAnswered : List (Label Bool) := bothReading ++ [.poll oneReady [4]]

theorem answers_oneReady {w : EPollPoller.Loop Bool} (hw : w.poller.interest =
    (Map.empty.insert 3 ⟨kReadEvent, false⟩).insert 4 ⟨kReadEvent, true⟩) :
    EPollPoller.Answers w 16 oneReady [4] where
  nodup := by decide
  sound fd hfd := by
    rw [List.mem_singleton] at hfd
    exact ⟨⟨kReadEvent, true⟩, by simp [hw, hfd], by rw [hfd]; decide⟩
  room := by decide
  full _ fd e he hreport := by
    rw [List.mem_singleton]
    by_contra hne
    -- the other descriptor has nothing to report
    exact hreport (by simp [report, oneReady, hne])

theorem pollers_dispatch_alike_oneReady :
    (PollPoller.poll (exec step (init twoFds) readingAnswered).both.poll oneReady).2 = [true] ∧
    ∀ c, c ∈ (PollPoller.poll (exec step (init twoFds) readingAnswered).both.poll oneReady).2 ↔
      Due twoFds (exec step (init twoFds) readingAnswered).both.ask oneReady c :=
  ⟨by decide +kernel, (pollers_dispatch_alike twoFds (by decide) readingAnswered
    ⟨⟨by decide, by decide⟩, ⟨by decide, by decide⟩, answers_oneReady rfl, trivial⟩ oneReady [4]
    (answers_oneReady rfl)).2.2.1⟩

/-- Seventeen channels read, one more than `events_` has room for. -/
def manyReading : List (Fin 17 × ChannelOp) := (List.finRange 17).map (·, .enableReading)

def manyLabels : List (Label (Fin 17)) := manyReading.map fun call => .call call.1 call.2

def allReady : Ready := fun _ => 1

/-- The first answer fills `events_`, which doubles; the second one has all of them. -/
theorem epoll_catches_up_allReady :
    (exec step (init Fin.val) manyLabels).size = 16 ∧
    (exec step (exec step (init Fin.val) manyLabels) [.poll allReady (List.range 16)]).size = 32 ∧
    (PollPoller.poll (exec step (init Fin.val) manyLabels).both.poll allReady).2.length = 17 ∧
    (EPollPoller.poll
        (exec step (exec step (init Fin.val) manyLabels)
          [.poll allReady (List.range 16)]).both.epoll
        32 allReady (List.range 17)).1.2.Perm
      (PollPoller.poll (exec step (init Fin.val) manyLabels).both.poll allReady).2 := by
  refine ⟨by decide +kernel, by decide +kernel, by decide +kernel, ?_⟩
  refine epoll_catches_up Fin.val Fin.val_injective manyLabels
    (along_calls _ manyReading (by decide +kernel)) allReady [List.range 16] (List.range 17)
    ⟨?_, ?_, trivial⟩ (by decide +kernel)
  · exact EPollPoller.answers_of_keys (by decide) (by decide +kernel) (by decide)
      (by decide +kernel)
  · exact EPollPoller.answers_of_keys (by decide) (by decide +kernel) (by decide +kernel)
      (by decide +kernel)

end Runs

end Muduo.Net
