import Muduo.Net.PollerDispatch

/-!
# The loop over the active channels

`EventLoop::loop` keeps raw pointers to the channels that a poll has activated and calls
`handleEvent` on one after the other.  The callbacks that run in between may register, remove and
destroy channels.  Two assertions stand against a pointer that outlives its channel:
`EventLoop::removeChannel` refuses a channel that may still be waiting in the list, and `~Channel`
refuses one that is registered or is handling an event.

* `EventDispatch` — the loop thread: the poller, the list, the position in it, and which channels
  exist;
* `Inv`, `inv_step` — as long as no assertion has failed, the channels that wait in the list exist
  and are registered, and the one whose callbacks are running exists;
* `Disciplined`, `failed_step` — removals from functors or from a channel's own
  callbacks fail no assertion;
* `dispatch_safe` — all runs.
-/

namespace Muduo.Net

open Muduo.Lib Muduo.Net.World

variable {ι : Type*} [DecidableEq ι]

inductive DispatchAssert where
  /-- `removeChannel`: the channel is the current one, or not active. -/
  | removeActive
  /-- `~Channel`: `!eventHandling_`. -/
  | destroyHandling
  /-- `~Channel`: `!addedToLoop_`. -/
  | destroyAdded
  /-- `~Channel`: `!loop_->hasChannel(this)`. -/
  | destroyKnown
  deriving DecidableEq

/-- An object before its constructor, after it, and after its destructor. -/
inductive ObjectLife where
  | unborn
  | alive
  | destroyed
  deriving DecidableEq

inductive DispatchPc (ι : Type*) where
  /-- Not in the loop over the active channels: functors run, or `loop()` has not been called. -/
  | free
  /-- At the head of the loop; these channels have not been reached. -/
  | next (rest : List ι)
  /-- In the callbacks of a channel. -/
  | inside (c : ι) (rest : List ι)
  deriving DecidableEq

namespace DispatchPc

/-- The channels the loop has not reached. -/
def waiting : DispatchPc ι → List ι
  | .free => []
  | .next rest => rest
  | .inside _ rest => rest

/-- User code runs in functors and in callbacks. -/
def userCode : DispatchPc ι → Bool
  | .next _ => false
  | _ => true

end DispatchPc

structure EventDispatch (ι : Type*) where
  loop : EPollPoller.Loop ι
  /-- `events_.size()` of the poller. -/
  size : ℕ
  life : ι → ObjectLife
  _active_channels : List ι
  _current_active_channel : Option ι
  _event_handling : Bool
  pc : DispatchPc ι
  failed : List DispatchAssert
  /-- A channel has been used that does not exist. -/
  dangling : Bool
  /-- The channels reached since the last poll. -/
  reached : List ι

inductive DispatchLabel (ι : Type*) where
  /-- The constructor of `Channel`. -/
  | create (c : ι)
  | tie (c : ι)
  | call (c : ι) (op : ChannelOp)
  /-- The destructor of `Channel`, in the loop thread. -/
  | destroy (c : ι)
  | poll (ready : Ready) (answer : List ℕ)
  /-- The next turn of the loop over the active channels; `guard` is what `tie_.lock()` gives. -/
  | advance (guard : Bool)
  /-- The callbacks of the current channel return. -/
  | leave

namespace EventDispatch

/-- Before `loop()` is called, with the descriptors that the channels will have. -/
def init (fds : ι → ℕ) : EventDispatch ι where
  loop := EPollPoller.initial fds
  size := EPollPoller.kInitEventListSize
  life _ := .unborn
  _active_channels := []
  _current_active_channel := none
  _event_handling := false
  pc := .free
  failed := []
  dangling := false
  reached := []

def touch (s : EventDispatch ι) (c : ι) : EventDispatch ι :=
  if s.life c = .alive then s else { s with dangling := true }

def assert (s : EventDispatch ι) (p : Bool) (a : DispatchAssert) : EventDispatch ι :=
  if p then s else { s with failed := s.failed ++ [a] }

/-- The assertion of `EventLoop::removeChannel`. -/
def removable (s : EventDispatch ι) (c : ι) : Bool :=
  !s._event_handling || s._current_active_channel == some c || !s._active_channels.contains c

def call (s : EventDispatch ι) (c : ι) (op : ChannelOp) : EventDispatch ι :=
  let s₁ := s.touch c
  let s₂ := if op = .remove then s₁.assert (s₁.removable c) .removeActive else s₁
  { s₂ with loop := op.apply EPollPoller.impl s₂.loop c }

def destroy (s : EventDispatch ι) (c : ι) : EventDispatch ι :=
  let s₁ := ((s.touch c).assert (!(s.loop.chan c).eventHandling_) .destroyHandling).assert
    (!(s.loop.chan c).addedToLoop_) .destroyAdded
  let s₂ := s₁.assert (!EPollPoller.hasChannel s.loop c) .destroyKnown
  { s₂ with life := Function.update s₂.life c .destroyed }

/-- `eventHandling_ = b`. -/
def setHandling (s : EventDispatch ι) (c : ι) (b : Bool) : EventDispatch ι :=
  { s with loop := s.loop.modify c fun ch => { ch with eventHandling_ := b } }

def advance (s : EventDispatch ι) (guard : Bool) : EventDispatch ι :=
  match s.pc with
  | .next (c :: rest) =>
      let s₁ := { s.touch c with _current_active_channel := some c, reached := s.reached ++ [c] }
      if (s.loop.chan c).tied_ && !guard then { s₁ with pc := .next rest }
      else { s₁.setHandling c true with pc := .inside c rest }
  | .next [] => { s with _current_active_channel := none, _event_handling := false, pc := .free }
  | _ => s

def leave (s : EventDispatch ι) : EventDispatch ι :=
  match s.pc with
  | .inside c rest => { (s.touch c).setHandling c false with pc := .next rest }
  | _ => s

def poll (s : EventDispatch ι) (ready : Ready) (answer : List ℕ) : EventDispatch ι :=
  let r := EPollPoller.poll s.loop s.size ready answer
  { s with
    loop := r.1.1, size := r.2, _active_channels := r.1.2, _event_handling := true,
    pc := .next r.1.2, reached := [] }

def step (s : EventDispatch ι) : DispatchLabel ι → EventDispatch ι
  | .create c => { s with life := Function.update s.life c .alive }
  | .tie c => { s.touch c with loop := s.loop.modify c fun ch => { ch with tied_ := true } }
  | .call c op => s.call c op
  | .destroy c => s.destroy c
  | .poll ready answer => s.poll ready answer
  | .advance guard => s.advance guard
  | .leave => s.leave

/-- User code runs where it can, on channels that exist, and keeps the rules of the poller; `poll`
is called where `loop()` calls it, and the kernel answers as it does. -/
def Proper (s : EventDispatch ι) : DispatchLabel ι → Prop
  | .create c => s.pc.userCode = true ∧ s.life c = .unborn
  | .tie c => s.pc.userCode = true ∧ s.life c = .alive
  | .call c op => s.pc.userCode = true ∧ s.life c = .alive ∧ EPollPoller.Allowed s.loop (c, op)
  | .destroy c => s.pc.userCode = true ∧ s.life c = .alive
  | .poll ready answer => s.pc = .free ∧ EPollPoller.Answers s.loop s.size ready answer
  | .advance _ => True
  | .leave => True

/-- Channels are removed by functors or by their own callbacks, and destroyed after that, but not by
their own callbacks. -/
def Disciplined (s : EventDispatch ι) : DispatchLabel ι → Prop
  | .call c .remove => s.pc = .free ∨ ∃ rest, s.pc = .inside c rest
  | .destroy c => (s.loop.chan c).addedToLoop_ = false ∧ ∀ rest, s.pc ≠ .inside c rest
  | _ => True

/-! ### The invariant -/

structure Inv (s : EventDispatch ι) : Prop where
  booked : EPollPoller.Bookkept s.loop
  dangling : s.dangling = false
  /-- A registered channel exists. -/
  added : ∀ c, (s.loop.chan c).addedToLoop_ = true → s.life c = .alive
  /-- A channel that waits is registered. -/
  waiting : ∀ c ∈ s.pc.waiting, (s.loop.chan c).addedToLoop_ = true
  inside : ∀ c rest, s.pc = .inside c rest →
    s.life c = .alive ∧ s._current_active_channel = some c ∧ c ∈ s.reached
  handling : ∀ c, (s.loop.chan c).eventHandling_ = true ↔ ∃ rest, s.pc = .inside c rest
  phase : s._event_handling = true ↔ s.pc ≠ .free
  split : s._active_channels = s.reached ++ s.pc.waiting
  nodup : s._active_channels.Nodup

variable {s : EventDispatch ι}

omit [DecidableEq ι] in
theorem inv_init (fds : ι → ℕ) : Inv (init fds) where
  booked := EPollPoller.bookkept_initial fds
  dangling := rfl
  added c hc := by simp [init, EPollPoller.initial, Channel.new] at hc
  waiting c hc := by simp [init, DispatchPc.waiting] at hc
  inside c rest hc := by simp [init] at hc
  handling c := by simp [init, EPollPoller.initial, Channel.new]
  phase := by simp [init]
  split := rfl
  nodup := List.nodup_nil

omit [DecidableEq ι] in
theorem touch_of_alive {c : ι} (h : s.life c = .alive) : s.touch c = s := if_pos h

/-- What a call on a channel does to the channels. -/
theorem apply_chan {w : EPollPoller.Loop ι} (h : EPollPoller.Bookkept w) {c : ι} {op : ChannelOp}
    (hcall : EPollPoller.Allowed w (c, op)) :
    ∃ ch, (EPollPoller.step w (c, op)).chan = Function.update w.chan c ch ∧
      ch.eventHandling_ = (w.chan c).eventHandling_ ∧ (ch.addedToLoop_ = true ↔ op ≠ .remove) := by
  have hat := h.at (h.alone hcall)
  by_cases hop : op = .remove
  · obtain ⟨hreg, hev⟩ := hcall.1 hop
    refine ⟨removed (w.chan c), ?_, rfl, by simp [removed, hop]⟩
    rw [EPollPoller.step, hop, ChannelOp.apply, epollAt_remove hat ((h.added c).mp hreg) hev]
  · refine ⟨updated (w.chan c) (op.mask (w.chan c).events_), ?_, rfl, by simp [updated, hop]⟩
    rw [EPollPoller.step, ChannelOp.apply_eq_updateTo _ _ _ hop, epollAt_updateTo hat]

/-- A channel that is removed does not wait. -/
theorem not_waiting_of_removable (h : Inv s) (huser : s.pc.userCode = true) {c : ι}
    (hc : s.removable c = true) : c ∉ s.pc.waiting := by
  have hnodup := h.nodup
  rw [h.split, List.nodup_append] at hnodup
  cases hpc : s.pc with
  | free => exact List.not_mem_nil
  | next rest => simp [hpc, DispatchPc.userCode] at huser
  | inside d rest =>
      intro hmem
      obtain ⟨-, hcurrent, hreached⟩ := h.inside d rest hpc
      have hhandling : s._event_handling = true := h.phase.mpr (by simp [hpc])
      have hactive : c ∈ s._active_channels := by
        rw [h.split, hpc]
        exact List.mem_append_right _ hmem
      simp only [removable, hhandling, hcurrent, Bool.not_true, Bool.false_or, Bool.or_eq_true,
        beq_iff_eq,
        Option.some.injEq, Bool.not_eq_true', List.contains_eq_mem, decide_eq_false_iff_not] at hc
      rcases hc with rfl | hc
      · rw [hpc] at hnodup
        exact hnodup.2.2 d hreached d hmem rfl
      · exact hc hactive

omit [DecidableEq ι] in
/-- The books are kept by what leaves alone the fields they speak about. -/
theorem bookkept_congr {w w' : EPollPoller.Loop ι} (h : EPollPoller.Bookkept w)
    (hpoller : w'.poller = w.poller) (hfailed : w'.failed = w.failed)
    (hchan : ∀ c, (w'.chan c).fd_ = (w.chan c).fd_ ∧ (w'.chan c).events_ = (w.chan c).events_ ∧
      (w'.chan c).index_ = (w.chan c).index_ ∧ (w'.chan c).addedToLoop_ = (w.chan c).addedToLoop_) :
    EPollPoller.Bookkept w' := by
  have hfd := fun c => (hchan c).1
  have hev := fun c => (hchan c).2.1
  have hidx := fun c => (hchan c).2.2.1
  have hadd := fun c => (hchan c).2.2.2
  refine ⟨?_, ?_, ?_, ?_, ?_, hfailed.trans h.failed⟩
  · simpa only [hidx] using h.index
  · simpa only [hidx, hadd] using h.added
  · simpa only [hidx, hfd] using h.distinct
  · simpa only [mapEntry, hpoller, hfd, hidx] using h.map
  · simpa only [interestEntry, hpoller, hfd, hidx, hev] using h.kernel

/-- Fields that the poller does not use. -/
theorem bookkept_modify {w : EPollPoller.Loop ι} (h : EPollPoller.Bookkept w) (c : ι)
    {f : Channel → Channel}
    (hf : ∀ ch, (f ch).fd_ = ch.fd_ ∧ (f ch).events_ = ch.events_ ∧ (f ch).index_ = ch.index_ ∧
      (f ch).addedToLoop_ = ch.addedToLoop_) : EPollPoller.Bookkept (w.modify c f) := by
  refine bookkept_congr h rfl rfl fun d => ?_
  by_cases hd : d = c
  · rw [hd, modify_chan_self]
    exact hf _
  · rw [modify_chan_of_ne w f hd]
    exact ⟨rfl, rfl, rfl, rfl⟩

omit [DecidableEq ι] in
/-- **Changes of the loop that leave the dispatch alone.** -/
theorem Inv.withLoop (h : Inv s) {w : EPollPoller.Loop ι} (hw : EPollPoller.Bookkept w)
    (hhandling : ∀ c, (w.chan c).eventHandling_ = (s.loop.chan c).eventHandling_)
    (hadded : ∀ c, (w.chan c).addedToLoop_ = true → s.life c = .alive)
    (hwaiting : ∀ c ∈ s.pc.waiting, (w.chan c).addedToLoop_ = true) (failed : List DispatchAssert) :
    Inv { s with loop := w, failed := failed } where
  booked := hw
  dangling := h.dangling
  added := hadded
  waiting := hwaiting
  inside := h.inside
  handling c := by
    rw [hhandling]
    exact h.handling c
  phase := h.phase
  split := h.split
  nodup := h.nodup

theorem call_eq {c : ι} (halive : s.life c = .alive) (op : ChannelOp) : step s (.call c op) =
    { s with
      loop := EPollPoller.step s.loop (c, op)
      failed := s.failed ++ if op = .remove ∧ s.removable c = false then [.removeActive]
        else [] } := by
  by_cases hop : op = .remove
  · cases hrem : s.removable c <;> simp [step, call, touch_of_alive halive, hop, hrem, assert,
      EPollPoller.step]
  · simp [step, call, touch_of_alive halive, hop, EPollPoller.step]

theorem inv_call (h : Inv s) {c : ι} {op : ChannelOp} (hp : Proper s (.call c op))
    (hfailed : (step s (.call c op)).failed = []) : Inv (step s (.call c op)) := by
  obtain ⟨huser, halive, hallowed⟩ := hp
  obtain ⟨ch, hchan, hhandling, hadded⟩ := apply_chan h.booked hallowed
  rw [call_eq halive] at hfailed ⊢
  refine h.withLoop (EPollPoller.bookkept_step s.loop (c, op) h.booked hallowed) ?_ ?_ ?_ _
  · intro d
    rw [hchan]
    by_cases hd : d = c
    · rw [hd, Function.update_self, hhandling]
    · rw [Function.update_of_ne hd]
  · intro d
    rw [hchan]
    by_cases hd : d = c
    · exact fun _ => hd ▸ halive
    · rw [Function.update_of_ne hd]
      exact h.added d
  · intro d hmem
    rw [hchan]
    by_cases hd : d = c
    · rw [hd, Function.update_self, hadded]
      rintro rfl
      -- the assertion has held, so the channel is not waiting
      have hrem : s.removable c = true := by
        by_contra hrem
        simp [Bool.eq_false_iff.mpr hrem] at hfailed
      exact not_waiting_of_removable h huser hrem (hd ▸ hmem)
    · rw [Function.update_of_ne hd]
      exact h.waiting d hmem

theorem inv_tie (h : Inv s) {c : ι} (hp : Proper s (.tie c)) : Inv (step s (.tie c)) := by
  have hsame : ∀ d, ((s.loop.modify c fun ch => { ch with tied_ := true }).chan d).eventHandling_ =
      (s.loop.chan d).eventHandling_ ∧
      ((s.loop.modify c fun ch => { ch with tied_ := true }).chan d).addedToLoop_ =
      (s.loop.chan d).addedToLoop_ := by
    intro d
    by_cases hd : d = c
    · rw [hd, modify_chan_self]
      exact ⟨rfl, rfl⟩
    · rw [modify_chan_of_ne _ _ hd]
      exact ⟨rfl, rfl⟩
  have hbooked : EPollPoller.Bookkept (s.loop.modify c fun ch => { ch with tied_ := true }) :=
    bookkept_modify h.booked c fun _ => ⟨rfl, rfl, rfl, rfl⟩
  simp only [step, touch_of_alive hp.2]
  refine h.withLoop hbooked (fun d => (hsame d).1) ?_ ?_ s.failed
  · intro d hd
    exact h.added d ((hsame d).2 ▸ hd)
  · intro d hd
    rw [(hsame d).2]
    exact h.waiting d hd

omit [DecidableEq ι] in
/-- **Changes of the objects that exist.** -/
theorem Inv.withLife (h : Inv s) {life : ι → ObjectLife}
    (hadded : ∀ c, (s.loop.chan c).addedToLoop_ = true → life c = .alive)
    (hinside : ∀ c rest, s.pc = .inside c rest → life c = .alive) : Inv { s with life := life } :=
  { h with
    added := hadded
    inside := fun c rest hpc => ⟨hinside c rest hpc, (h.inside c rest hpc).2⟩ }

theorem inv_create (h : Inv s) (c : ι) : Inv (step s (.create c)) := by
  have hlife : ∀ d, s.life d = .alive → Function.update s.life c .alive d = .alive := by
    intro d hd
    by_cases hdc : d = c
    · rw [hdc, Function.update_self]
    · rw [Function.update_of_ne hdc, hd]
  exact h.withLife (fun d hd => hlife d (h.added d hd)) fun d rest hpc =>
    hlife d (h.inside d rest hpc).1

theorem destroy_eq {c : ι} (halive : s.life c = .alive)
    (hfailed : (step s (.destroy c)).failed = []) :
    (s.loop.chan c).eventHandling_ = false ∧ (s.loop.chan c).addedToLoop_ = false ∧
      step s (.destroy c) = { s with life := Function.update s.life c .destroyed } := by
  simp only [step, destroy, touch_of_alive halive] at hfailed ⊢
  cases hhandling : (s.loop.chan c).eventHandling_ <;> cases hadded :
    (s.loop.chan c).addedToLoop_ <;>
    cases hknown : EPollPoller.hasChannel s.loop c <;>
      simp [hhandling, hadded, hknown, assert] at hfailed ⊢

theorem inv_destroy (h : Inv s) {c : ι} (hp : Proper s (.destroy c))
    (hfailed : (step s (.destroy c)).failed = []) : Inv (step s (.destroy c)) := by
  obtain ⟨hhandling, hadded, heq⟩ := destroy_eq hp.2 hfailed
  rw [heq]
  refine h.withLife (fun d hd => ?_) fun d rest hpc => ?_
  · have hdc : d ≠ c := by
      rintro rfl
      simp [hd] at hadded
    rw [Function.update_of_ne hdc]
    exact h.added d hd
  · have hdc : d ≠ c := by
      rintro rfl
      simp [(h.handling d).mpr ⟨rest, hpc⟩] at hhandling
    rw [Function.update_of_ne hdc]
    exact (h.inside d rest hpc).1

theorem inv_poll (h : Inv s) {ready : Ready} {answer : List ℕ}
    (hp : Proper s (.poll ready answer)) :
    Inv (step s (.poll ready answer)) := by
  obtain ⟨hpc, hanswer⟩ := hp
  have hfree : ∀ c rest, s.pc ≠ .inside c rest := by simp [hpc]
  simp only [step, poll, EPollPoller.poll_eq h.booked hanswer]
  refine ⟨?_, h.dangling, ?_, ?_, ?_, ?_, ?_, ?_, ?_⟩
  · exact bookkept_congr h.booked (mark_poller _ _) (mark_failed _ _) fun c =>
      ⟨fd_mark _ _ c, events_mark _ _ c, index_mark _ _ c, addedToLoop_mark _ _ c⟩
  · simpa only [addedToLoop_mark] using h.added
  · intro c hc
    obtain ⟨⟨d, m⟩, hmem, rfl⟩ := List.mem_map.mp hc
    obtain ⟨-, hindex, -⟩ := (EPollPoller.mem_activations_iff h.booked d m).mp hmem
    rw [addedToLoop_mark]
    exact (h.booked.added d).mpr (by rw [hindex]; decide)
  · simp
  · intro c
    rw [eventHandling_mark, h.handling]
    simp [hfree]
  · simp
  · rfl
  · exact EPollPoller.nodup_activations h.booked hanswer.nodup

section SetHandling

variable (s : EventDispatch ι) (c : ι) (b : Bool)

theorem eventHandling_setHandling (d : ι) : ((s.setHandling c b).loop.chan d).eventHandling_ =
    if d = c then b else (s.loop.chan d).eventHandling_ := by
  unfold setHandling
  by_cases hd : d = c
  · rw [if_pos hd, hd, modify_chan_self]
  · rw [if_neg hd, modify_chan_of_ne _ _ hd]

theorem addedToLoop_setHandling (d : ι) :
    ((s.setHandling c b).loop.chan d).addedToLoop_ = (s.loop.chan d).addedToLoop_ := by
  unfold setHandling
  by_cases hd : d = c
  · rw [hd, modify_chan_self]
  · rw [modify_chan_of_ne _ _ hd]

end SetHandling

theorem Inv.bookkept_setHandling (h : Inv s) (c : ι) (b : Bool) :
    EPollPoller.Bookkept (s.setHandling c b).loop :=
  bookkept_modify (f := fun ch => { ch with eventHandling_ := b }) h.booked c fun _ =>
    ⟨rfl, rfl, rfl, rfl⟩

/-- **A turn of the loop.** -/
theorem inv_advance (h : Inv s) (guard : Bool) : Inv (step s (.advance guard)) := by
  cases hpc : s.pc with
  | free => simpa only [step, advance, hpc] using h
  | inside c rest => simpa only [step, advance, hpc] using h
  | next rest =>
      have hnot : ∀ d, (s.loop.chan d).eventHandling_ = false := by
        intro d
        rw [← Bool.not_eq_true, h.handling d, hpc]
        simp
      have hsplit := h.split
      rw [hpc] at hsplit
      cases rest with
      | nil =>
          simp only [step, advance, hpc]
          exact { h with
            waiting := fun c hc => absurd hc List.not_mem_nil
            inside := fun c rest hc => by cases hc
            handling := fun c => by simp [hnot c]
            phase := by simp
            split := hsplit }
      | cons c rest =>
          have hwaiting : ∀ d ∈ c :: rest, (s.loop.chan d).addedToLoop_ = true := by
            simpa only [hpc, DispatchPc.waiting] using h.waiting
          have halive := h.added c (hwaiting c List.mem_cons_self)
          have hsplit' : s._active_channels = (s.reached ++ [c]) ++ rest := by
            rw [hsplit, List.append_assoc]
            rfl
          have hphase : s._event_handling = true := h.phase.mpr (by simp [hpc])
          simp only [step, advance, hpc, touch_of_alive halive]
          split
          · -- the object the channel is tied to is gone
            exact { h with
              waiting := fun d hd => hwaiting d (List.mem_cons_of_mem c hd)
              inside := fun d rest hd => by cases hd
              handling := fun d => by simp [hnot d]
              phase := by simp [hphase]
              split := hsplit' }
          · refine ⟨h.bookkept_setHandling c true, h.dangling, fun d hd => ?_, fun d hd => ?_,
              fun d rest' hd => ?_, fun d => ?_, ?_, hsplit', h.nodup⟩
            · exact h.added d ((addedToLoop_setHandling s c true d).symm.trans hd)
            · exact (addedToLoop_setHandling s c true d).trans
                (hwaiting d (List.mem_cons_of_mem c hd))
            · cases hd
              exact ⟨halive, rfl, by simp [setHandling]⟩
            · have hd := eventHandling_setHandling s c true d
              rw [hnot d] at hd
              show ((s.setHandling c true).loop.chan d).eventHandling_ = true ↔ _
              rw [hd]
              simp [eq_comm]
            · simp [setHandling, hphase]

/-- **The callbacks return.** -/
theorem inv_leave (h : Inv s) : Inv (step s .leave) := by
  cases hpc : s.pc with
  | free => simpa only [step, leave, hpc] using h
  | next rest => simpa only [step, leave, hpc] using h
  | inside c rest =>
      have hwaiting : ∀ d ∈ rest, (s.loop.chan d).addedToLoop_ = true := by
        simpa only [hpc, DispatchPc.waiting] using h.waiting
      have hsplit := h.split
      rw [hpc] at hsplit
      have hphase : s._event_handling = true := h.phase.mpr (by simp [hpc])
      simp only [step, leave, hpc, touch_of_alive (h.inside c rest hpc).1]
      refine ⟨h.bookkept_setHandling c false, h.dangling, fun d hd => ?_, fun d hd => ?_,
        fun d rest' hd => (by cases hd), fun d => ?_, ?_, hsplit, h.nodup⟩
      · exact h.added d ((addedToLoop_setHandling s c false d).symm.trans hd)
      · exact (addedToLoop_setHandling s c false d).trans (hwaiting d hd)
      · have hd := eventHandling_setHandling s c false d
        show ((s.setHandling c false).loop.chan d).eventHandling_ = true ↔ _
        have hother : d ≠ c → (s.loop.chan d).eventHandling_ = false := by
          intro hdc
          rw [← Bool.not_eq_true, h.handling d, hpc]
          rintro ⟨rest', he⟩
          cases he
          exact hdc rfl
        rw [hd]
        by_cases hdc : d = c
        · simp [hdc]
        · simp [hdc, hother hdc]
      · simp [setHandling, hphase]

omit [DecidableEq ι] in
@[simp] theorem touch_failed (s : EventDispatch ι) (c : ι) : (s.touch c).failed = s.failed := by
  unfold touch
  split <;> rfl

omit [DecidableEq ι] in
theorem failed_prefix_assert (s : EventDispatch ι) (p : Bool) (a : DispatchAssert) :
    s.failed <+: (s.assert p a).failed := by
  unfold assert
  split
  · exact List.prefix_rfl
  · exact List.prefix_append _ _

theorem failed_advance (s : EventDispatch ι) (guard : Bool) :
    (s.advance guard).failed = s.failed := by
  unfold advance
  split
  · dsimp only
    split <;> simp [setHandling]
  · rfl
  · rfl

theorem failed_leave (s : EventDispatch ι) : s.leave.failed = s.failed := by
  unfold leave
  split
  · simp [setHandling]
  · rfl

/-- Assertions that have failed stay failed. -/
theorem failed_prefix_step (s : EventDispatch ι) (l : DispatchLabel ι) :
    s.failed <+: (step s l).failed := by
  cases l with
  | create c => exact List.prefix_rfl
  | tie c => simp [step]
  | call c op =>
      simp only [step, call]
      split
      · rw [← touch_failed s c]
        exact failed_prefix_assert _ _ _
      · simp
  | destroy c =>
      simp only [step, destroy]
      rw [← touch_failed s c]
      exact (failed_prefix_assert _ _ _).trans ((failed_prefix_assert _ _ _).trans
        (failed_prefix_assert _ _ _))
  | poll ready answer => exact List.prefix_rfl
  | advance guard =>
      rw [step, failed_advance]
  | leave =>
      rw [step, failed_leave]

theorem inv_step (h : Inv s) {l : DispatchLabel ι} (hp : Proper s l)
    (hfailed : (step s l).failed = []) :
    Inv (step s l) := by
  cases l with
  | create c => exact inv_create h c
  | tie c => exact inv_tie h hp
  | call c op => exact inv_call h hp hfailed
  | destroy c => exact inv_destroy h hp hfailed
  | poll ready answer => exact inv_poll h hp
  | advance guard => exact inv_advance h guard
  | leave => exact inv_leave h

/-- A channel that is not registered is not known to the poller. -/
theorem hasChannel_of_not_added (h : Inv s) {c : ι} (hc : (s.loop.chan c).addedToLoop_ = false) :
    EPollPoller.hasChannel s.loop c = false := by
  rw [EPollPoller.hasChannel, beq_eq_false_iff_ne, ne_eq, h.booked.map]
  rintro ⟨d, -, hd⟩
  simp only [mapEntry] at hd
  split at hd
  · cases hd
  · cases hd
    rw [(h.booked.added c).mpr ‹_›] at hc
    cases hc

/-- **Disciplined code fails no assertion.** -/
theorem failed_step (h : Inv s) {l : DispatchLabel ι} (hp : Proper s l) (hd : Disciplined s l) :
    (step s l).failed = s.failed := by
  cases l with
  | create c => rfl
  | tie c => exact touch_failed s c
  | call c op =>
      rw [call_eq hp.2.1]
      by_cases hop : op = .remove
      · subst hop
        have hrem : s.removable c = true := by
          rcases hd with hpc | ⟨rest, hpc⟩
          · have hfree : s._event_handling = false := by
              rw [← Bool.not_eq_true, h.phase]
              exact not_not.mpr hpc
            simp [removable, hfree]
          · simp [removable, (h.inside c rest hpc).2.1]
        simp [hrem]
      · simp [hop]
  | destroy c =>
      obtain ⟨hadded, hpc⟩ := hd
      have hhandling : (s.loop.chan c).eventHandling_ = false := by
        rw [← Bool.not_eq_true, h.handling]
        rintro ⟨rest, hin⟩
        exact hpc rest hin
      simp [step, destroy, touch_of_alive hp.2, assert, hhandling, hadded,
        hasChannel_of_not_added h hadded]
  | poll ready answer => rfl
  | advance guard => exact failed_advance s guard
  | leave => exact failed_leave s

/-- A registered channel is known to the poller. -/
theorem hasChannel_of_added (h : Inv s) {c : ι} (hc : (s.loop.chan c).addedToLoop_ = true) :
    EPollPoller.hasChannel s.loop c = true := by
  rw [EPollPoller.hasChannel, beq_iff_eq, h.booked.map]
  exact ⟨c, rfl, if_neg ((h.booked.added c).mp hc)⟩

theorem inv_exec {fds : ι → ℕ} {ls : List (DispatchLabel ι)} (hls : Along step Proper (init fds) ls)
    (hfailed : (exec step (init fds) ls).failed = []) : Inv (exec step (init fds) ls) := by
  refine along_invariant (fun s => s.failed = [] → Inv s) ?_ (fun _ => inv_init fds) hls hfailed
  intro s l h hp hafter
  have hbefore : s.failed = [] := List.prefix_nil.mp (hafter ▸ failed_prefix_step s l)
  exact inv_step (h hbefore) hp hafter

/-- **The loop over the active channels uses no channel that is gone.**  In every run of user code
and polls in which no assertion has failed: no channel was used that does not exist, the channels
that wait for their turn exist and are registered, and each active channel has had or will have
exactly one turn.  If channels are removed by functors or by their own callbacks, and destroyed only
after that, no assertion fails. -/
theorem dispatch_safe (fds : ι → ℕ) (ls : List (DispatchLabel ι))
    (hls : Along step Proper (init fds) ls) :
    let s := exec step (init fds) ls
    (s.failed = [] → s.dangling = false ∧ s.loop.failed = [] ∧
      (∀ c ∈ s.pc.waiting, s.life c = .alive ∧ EPollPoller.hasChannel s.loop c = true) ∧
      s._active_channels = s.reached ++ s.pc.waiting ∧ s._active_channels.Nodup) ∧
    (Along step Disciplined (init fds) ls → s.failed = []) := by
  intro s
  refine ⟨fun hfailed => ?_, fun hdisciplined => ?_⟩
  · have h : Inv s := inv_exec hls hfailed
    refine ⟨h.dangling, h.booked.failed, fun c hc => ?_, h.split, h.nodup⟩
    exact ⟨h.added c (h.waiting c hc), hasChannel_of_added h (h.waiting c hc)⟩
  · refine (along_invariant (fun s => Inv s ∧ s.failed = []) ?_ ⟨inv_init fds, rfl⟩
      (hls.and hdisciplined)).2
    rintro s l ⟨h, hfailed⟩ ⟨hp, hd⟩
    have hafter := (failed_step h hp hd).trans hfailed
    exact ⟨inv_step h hp hafter, hafter⟩

/-- Data is there on the descriptors 3 and 4. -/
def bothReady : Ready := fun fd => if fd = 3 ∨ fd = 4 then 1 else 0

/-- Two channels are activated; the callback of the first one removes it, and it is destroyed by a
functor once the second one has had its turn. -/
def removesItself : List (DispatchLabel Bool) :=
  [.create false, .create true, .call false .enableReading, .call true .enableReading,
    .poll bothReady [3, 4], .advance true, .call false .disableAll, .call false .remove, .leave,
    .advance true, .leave, .advance true, .destroy false]

theorem answers_bothReady {w : EPollPoller.Loop Bool} (hw : w.poller.interest =
    (Map.empty.insert 3 ⟨kReadEvent, false⟩).insert 4 ⟨kReadEvent, true⟩) :
    EPollPoller.Answers w 16 bothReady [3, 4] where
  nodup := by decide
  sound fd hfd := by
    rw [List.mem_pair] at hfd
    rcases hfd with rfl | rfl
    · exact ⟨⟨kReadEvent, false⟩, by simp [hw], by decide⟩
    · exact ⟨⟨kReadEvent, true⟩, by simp [hw], by decide⟩
  room := by decide
  full _ fd e he hreport := by
    rw [List.mem_pair]
    by_contra hne
    exact hreport (by simp [report, bothReady, hne])

theorem dispatch_safe_removesItself :
    (exec step (init twoFds) removesItself).dangling = false ∧
      (exec step (init twoFds) removesItself).life false = .destroyed := by
  have hproper : Along step Proper (init twoFds) removesItself :=
    ⟨⟨rfl, rfl⟩, ⟨rfl, rfl⟩, ⟨rfl, rfl, by decide +kernel⟩, ⟨rfl, rfl, by decide +kernel⟩,
      ⟨rfl, answers_bothReady rfl⟩, trivial, ⟨rfl, rfl, by decide +kernel⟩,
      ⟨rfl, rfl, by decide +kernel⟩, trivial, trivial, trivial, trivial, ⟨rfl, rfl⟩, trivial⟩
  have hsafe := dispatch_safe twoFds removesItself hproper
  exact ⟨(hsafe.1 (by decide +kernel)).1, by decide +kernel⟩

end EventDispatch

end Muduo.Net
