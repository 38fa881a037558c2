import Muduo.Net.TcpConnectionQuiet

/-!
# A connection closes at most once

`handleClose` asserts that the connection is open.  Four things can lead to it (a hang-up, a
zero-length read, a queued `forceCloseInLoop`, and a second hang-up after any of them), so the
question is whether an event can still be delivered once `disableAll()` has run.

* `orderly` — the steps after which nothing is delivered to a closed connection;
* `CloseInv` — the invariant of orderly runs, with `closeInv_step`;
* `closes_at_most_once` — the result for whole runs, and `closed_twice`, a run that is not orderly.
-/

namespace Muduo.Net

open Muduo.Lib EPollPoller

/-! ### Orderly steps -/

namespace ConnectionLoop

open TcpConnection

/-- `readv` returned zero. -/
def atEof (r : Buffer.ReadvResult) : Bool := r == .data []

/-- The channel of the connection asks for something. -/
def asking (c : Conn) : Bool := !c.channel_.isNoneEvent

def closed (c : Conn) : Bool := c.state_ == .kDisconnected

/-- The steps that leave a closed connection unregistered: reading is not switched on or off after
the close, a close does not start from an empty mask (`disableAll()` would then add the descriptor
again), a hang-up is not followed by a zero-length read in the same dispatch, and `connectDestroyed`
does not run while the connection is still being shut down. -/
def orderly (s : ConnectionLoop) : LoopAction → Bool
  | .dispatch => !hangup s.conn.channel_.revents_ || asking s.conn
  | .resume r _ =>
      match s.calls, s.todo with
      | [], .read :: _ => !atEof r || (!hangup s.conn.channel_.revents_ && asking s.conn)
      | _, _ => true
  | .functor _ =>
      match s.conn.pending with
      | .startReadInLoop :: _ | .stopReadInLoop :: _ => !closed s.conn
      | .forceCloseInLoop :: _ => closed s.conn || asking s.conn
      | .connectDestroyed :: _ => s.conn.state_ != .kDisconnecting
      | _ => true
  | .user true .startRead | .user true .stopRead => !closed s.conn
  | _ => true

/-- How often a callback was entered or is about to be. -/
def entries (s : ConnectionLoop) (cb : Callback) : ℕ :=
  s.conn.log.count (.called cb) + s.calls.count (.call cb)

/-- `connectDestroyed` is queued or has started and not yet removed the channel. -/
def removals (s : ConnectionLoop) : ℕ :=
  s.calls.count .removeChannel + s.conn.pending.count .connectDestroyed

structure CloseInv (s : ConnectionLoop) : Prop where
  epoll : EPollInv s.conn.loop
  connecting : s.conn.state_ ≠ .kConnecting
  opened : s.conn.state_ ≠ .kDisconnected →
    s.conn.channel_.addedToLoop_ = true ∧ Frame.removeChannel ∉ s.calls ∧
      s.entries .connectionDown = 0 ∧ s.entries .closeCallback_ = 0
  index : asking s.conn = true → s.conn.channel_.index_ = kAdded
  shut : s.conn.state_ = .kDisconnected → asking s.conn = false ∧
    (s.conn.channel_.index_ = kAdded → Frame.removeChannel ∈ s.calls)
  once : s.removals ≤ if s.destroying then 1 else 0
  gone : s.conn.channel_.addedToLoop_ = false → s.destroying = true ∧ s.removals = 0
  active : s.active = true → s.conn.state_ ≠ .kDisconnected ∧ s.todo = []
  todo : s.todo <:+ handlersOf s.conn.channel_.revents_
  read : Handler.read ∈ s.todo → s.conn.state_ = .kDisconnected →
    hangup s.conn.channel_.revents_ = true
  entered : ∀ st, Event.handleClose st ∈ s.conn.log → st = .kConnected ∨ st = .kDisconnecting
  down : s.entries .connectionDown ≤ 1
  close : s.entries .closeCallback_ ≤ 1

section Steps

variable {s : ConnectionLoop}

theorem asking_eq_false {c : Conn} : asking c = false ↔ c.channel_.events_ = kNoneEvent := by
  simp [asking, Channel.isNoneEvent]

theorem asking_eq_true {c : Conn} : asking c = true ↔ c.channel_.events_ ≠ kNoneEvent := by
  simp [asking, Channel.isNoneEvent]

theorem count_called_append {log es : List Event} (h : ∀ e ∈ es, e.silent = true) (cb : Callback) :
    (log ++ es).count (.called cb) = log.count (.called cb) := by
  have hnone : es.count (.called cb) = 0 :=
    List.count_eq_zero.mpr fun hm => by simpa [Event.silent] using h _ hm
  rw [List.count_append, hnone, Nat.add_zero]

/-- Quiet changes keep the invariant. -/
theorem closeInv_quiet (h : CloseInv s) {c' : Conn} (hq : Quiet s.conn c') :
    CloseInv { s with conn := c' } := by
  obtain ⟨es, hlog, hsil⟩ := hq.log
  obtain ⟨fs, hpend, hno⟩ := hq.pending
  have hentries : ∀ cb, entries { s with conn := c' } cb = s.entries cb := by
    intro cb
    simp only [entries, hlog, count_called_append hsil]
  have hrem : removals { s with conn := c' } = s.removals := by
    simp only [removals, hpend, List.count_append, List.count_eq_zero.mpr hno, Nat.add_zero]
  have hshut : c'.state_ = .kDisconnected → c'.loop = s.conn.loop := fun hd =>
    hq.loop_of_closed (hq.kDisconnected_iff.mp hd)
  -- what an update of the channel keeps
  have hepoll := hq.epollInv h.epoll
  have hadded := hq.addedToLoop_ h.epoll
  have hindex : asking c' = true → c'.channel_.index_ = kAdded := by
    rcases hq.loop with hl | ⟨-, hu⟩
    · simpa [asking, channel_, hl] using h.index
    · exact fun ha => hu.index h.epoll (asking_eq_true.mp ha)
  have hrev : c'.channel_.revents_ = s.conn.channel_.revents_ := by
    rcases hq.loop with hl | ⟨-, hu⟩
    · simp [channel_, hl]
    · exact hu.revents h.epoll
  refine ⟨hepoll, ?_, ?_, hindex, ?_, hrem ▸ h.once, ?_, ?_, hrev ▸ h.todo, ?_, ?_, ?_, ?_⟩
  · rcases hq.state with hs | ⟨-, hs⟩
    · exact hs ▸ h.connecting
    · simp [hs]
  · intro hd
    obtain ⟨ha, hr, h₁, h₂⟩ := h.opened (mt hq.kDisconnected_iff.mpr hd)
    exact ⟨hadded ha, hr, hentries _ ▸ h₁, hentries _ ▸ h₂⟩
  · intro hd
    have := h.shut (hq.kDisconnected_iff.mp hd)
    simpa [asking, channel_, hshut hd] using this
  · intro hg
    rw [hrem]
    apply h.gone
    by_contra hne
    simp [hadded (by simpa using hne)] at hg
  · exact fun ha => ⟨mt hq.kDisconnected_iff.mp (h.active ha).1, (h.active ha).2⟩
  · intro hr hd
    rw [hrev]
    exact h.read hr (hq.kDisconnected_iff.mp hd)
  · intro st hm
    simp only [hlog, List.mem_append] at hm
    exact hm.elim (h.entered st) fun hm => by simpa [Event.silent] using hsil _ hm
  · exact hentries _ ▸ h.down
  · exact hentries _ ▸ h.close

theorem onChannel_channel_ (f : Channel → Channel) :
    (s.onChannel f).conn.channel_ = f s.conn.channel_ := by
  simp [onChannel, channel_]

/-- Fields of the channel that the poller does not read may change, `revents_` between dispatches
only. -/
theorem closeInv_onChannel (h : CloseInv s) {f : Channel → Channel}
    (hf : ∀ ch, (f ch).fd_ = ch.fd_ ∧ (f ch).index_ = ch.index_ ∧ (f ch).events_ = ch.events_ ∧
      (f ch).addedToLoop_ = ch.addedToLoop_)
    (hrev : s.todo = [] ∨ ∀ ch, (f ch).revents_ = ch.revents_) : CloseInv (s.onChannel f) := by
  have hask : asking (s.onChannel f).conn = asking s.conn := by
    simp [asking, Channel.isNoneEvent, onChannel_channel_, hf]
  constructor
  case epoll => exact epollInv_modify h.epoll () hf
  case connecting => exact h.connecting
  case opened =>
    rw [onChannel_channel_, (hf _).2.2.2]
    exact h.opened
  case index =>
    rw [hask, onChannel_channel_, (hf _).2.1]
    exact h.index
  case shut =>
    rw [hask, onChannel_channel_, (hf _).2.1]
    exact h.shut
  case once => exact h.once
  case gone =>
    rw [onChannel_channel_, (hf _).2.2.2]
    exact h.gone
  case active => exact h.active
  case todo =>
    rcases hrev with ht | hr
    · rw [show (s.onChannel f).todo = [] from ht]
      exact List.nil_suffix
    · rw [onChannel_channel_, hr]
      exact h.todo
  case read =>
    rcases hrev with ht | hr
    · rw [show (s.onChannel f).todo = [] from ht]
      exact fun hm => absurd hm List.not_mem_nil
    · rw [onChannel_channel_, hr]
      exact h.read
  case entered => exact h.entered
  case down => exact h.down
  case close => exact h.close

theorem nodup_handlersOf (revents : Mask) : (handlersOf revents).Nodup := by
  unfold handlersOf
  split_ifs <;> decide

/-- The rest of a dispatch does not read twice. -/
theorem read_notMem_tail (h : CloseInv s) {rest : List Handler} (ht : s.todo = .read :: rest) :
    Handler.read ∉ rest := by
  have hnd := (nodup_handlersOf s.conn.channel_.revents_).sublist h.todo.sublist
  rw [ht] at hnd
  exact (List.nodup_cons.mp hnd).1

theorem closeInv_dropTodo (h : CloseInv s) {a : Handler} {rest : List Handler}
    (ht : s.todo = a :: rest) : CloseInv { s with todo := rest } :=
  { h with
    active := fun ha => by simp [(h.active ha).2] at ht
    todo := (List.suffix_cons a rest).trans (ht ▸ h.todo)
    read := fun hr => h.read (ht ▸ List.mem_cons_of_mem a hr) }

/-- Entering user code that is not part of a close. -/
theorem closeInv_callUser (h : CloseInv s) (hcalls : s.calls = []) {cb : Callback}
    (hd : cb ≠ .connectionDown) (hc : cb ≠ .closeCallback_) :
    CloseInv { s with calls := [.call cb] } := by
  have hentries : ∀ cb', cb ≠ cb' → entries { s with calls := [.call cb] } cb' = s.entries cb' := by
    intro cb' hne
    simp [entries, hcalls, hne]
  have hrem : removals { s with calls := [.call cb] } = s.removals := by
    simp [removals, hcalls]
  refine { h with
    opened := fun ho => ?_
    shut := fun ho => ?_
    once := hrem ▸ h.once
    gone := hrem ▸ h.gone
    down := hentries _ hd ▸ h.down
    close := hentries _ hc ▸ h.close }
  · obtain ⟨ha, -, h₁, h₂⟩ := h.opened ho
    exact ⟨ha, by simp, hentries _ hd ▸ h₁, hentries _ hc ▸ h₂⟩
  · obtain ⟨ha, hi⟩ := h.shut ho
    refine ⟨ha, fun hk => ?_⟩
    have := hi hk
    rw [hcalls] at this
    exact absurd this (List.not_mem_nil)

/-- `disableAll()` takes a registered descriptor out of the interest list. -/
theorem index_disableAll {w : EPollPoller.Loop Unit} (h : EPollInv w)
    (hi : (w.chan ()).index_ = kAdded) :
    ((Channel.disableAll impl w ()).chan ()).index_ = kDeleted := by
  rw [Channel.disableAll, epoll_updateTo h]
  simp [updated, nextIndex, hi]

/-- **Closing an open connection.**  The descriptor leaves the interest list, so nothing more is
delivered, and the two callbacks of the close are the first ones. -/
theorem closeInv_handleClose (h : CloseInv s) (hcalls : s.calls = [])
    (hopen : s.conn.state_ ≠ .kDisconnected) (hask : asking s.conn = true) (hact : s.active = false)
    (hread : Handler.read ∈ s.todo → hangup s.conn.channel_.revents_ = true) :
    CloseInv (s.enter (s.conn.handleClose impl)) := by
  obtain ⟨-, -, hdown, hclose⟩ := h.opened hopen
  simp only [entries, hcalls, List.count_nil, Nat.add_zero] at hdown hclose
  have hw : (s.conn.handleClose impl).1.loop =
      Channel.updateTo impl s.conn.loop () kNoneEvent := rfl
  have hupd := updated_updateTo s.conn.loop kNoneEvent
  have hoff : asking (s.conn.handleClose impl).1 = false := by
    rw [asking_eq_false, channel_, hw, Channel.events_updateTo]
  have hidx : (s.conn.handleClose impl).1.channel_.index_ = kDeleted :=
    index_disableAll h.epoll (h.index hask)
  have hrem : removals (s.enter (s.conn.handleClose impl)) = s.removals := by
    simp [removals, hcalls, handleClose, setState, record]
  have hentries : ∀ cb, cb = .connectionDown ∨ cb = .closeCallback_ →
      entries (s.enter (s.conn.handleClose impl)) cb ≤ 1 := by
    rintro cb (rfl | rfl) <;>
      simp [entries, handleClose, setState, record, hdown, hclose]
  constructor
  case epoll => exact hw ▸ hupd.inv h.epoll
  case connecting => simp [handleClose, setState]
  case opened => exact fun hd => absurd rfl hd
  case index => simp [hoff]
  case shut =>
    refine fun _ => ⟨hoff, fun hk => ?_⟩
    rw [enter_conn, hidx] at hk
    exact absurd hk (by decide)
  case once => exact hrem ▸ h.once
  case gone => simp [channel_, hw, hupd.added h.epoll]
  case active => simp [hact]
  case todo => simpa [channel_, hw, hupd.revents h.epoll] using h.todo
  case read =>
    intro hr _
    simpa [channel_, hw, hupd.revents h.epoll] using hread hr
  case entered =>
    intro st hm
    simp only [enter_conn, handleClose, setState, record, List.mem_append, List.mem_singleton,
      Event.handleClose.injEq] at hm
    rcases hm with hm | rfl
    · exact h.entered st hm
    · cases hst : s.conn.state_ with
      | kDisconnected => exact absurd hst hopen
      | kConnecting => exact absurd hst h.connecting
      | kConnected => exact Or.inl rfl
      | kDisconnecting => exact Or.inr rfl
  case down => exact hentries _ (Or.inl rfl)
  case close => exact hentries _ (Or.inr rfl)

/-! ### One lemma per move -/

theorem idle_iff : s.idle = true ↔ s.calls = [] ∧ s.todo = [] := by
  simp [idle]

/-- A descriptor the kernel reports on belongs to a connection that is not closed. -/
theorem open_of_mayReport (h : CloseInv s) (hcalls : s.calls = []) {revents : Mask}
    (hm : mayReport s.conn.loop revents = true) : s.conn.state_ ≠ .kDisconnected := by
  intro hd
  have hidx : s.conn.channel_.index_ ≠ kAdded := fun hi => by
    have := (h.shut hd).2 hi
    rw [hcalls] at this
    exact absurd this List.not_mem_nil
  have hget : s.conn.loop.poller.interest.get? (s.conn.loop.chan ()).fd_ = none := by
    rw [h.epoll.kernel.get ()]
    exact if_neg hidx
  simp [mayReport, hget] at hm

theorem closeInv_poll (h : CloseInv s) {revents : Mask}
    (ha : s.allowed (.poll revents) = true) : CloseInv (s.step (.poll revents)) := by
  simp only [allowed, Bool.and_eq_true] at ha
  obtain ⟨hcalls, htodo⟩ := idle_iff.mp ha.1.1
  have hset : CloseInv (s.onChannel (·.set_revents revents)) :=
    closeInv_onChannel h (fun _ => ⟨rfl, rfl, rfl, rfl⟩) (Or.inl htodo)
  have hopen := open_of_mayReport h hcalls ha.2
  exact { hset with active := fun _ => ⟨hopen, htodo⟩ }

theorem closeInv_dispatch (h : CloseInv s) (ha : s.allowed .dispatch = true)
    (ho : s.orderly .dispatch = true) : CloseInv (s.step .dispatch) := by
  simp only [allowed, Bool.and_eq_true] at ha
  obtain ⟨hcalls, htodo⟩ := idle_iff.mp ha.1
  have hopen := (h.active ha.2).1
  have hset : CloseInv (s.onChannel fun ch => { ch with eventHandling_ := true }) :=
    closeInv_onChannel h (fun _ => ⟨rfl, rfl, rfl, rfl⟩) (Or.inl htodo)
  have hlined : CloseInv (s.onChannel fun ch => { ch with eventHandling_ := true }).lineUp :=
    { hset with
      active := fun hf => by cases hf
      todo := List.suffix_refl _
      read := fun _ hd => absurd hd hopen }
  simp only [step, handleEvent]
  split
  · rename_i hhup
    have hchan := onChannel_channel_ (s := s) fun ch => { ch with eventHandling_ := true }
    have hrev : hangup s.conn.channel_.revents_ = true := by
      simpa [lineUp, hchan] using hhup
    refine closeInv_handleClose hlined hcalls hopen ?_ rfl fun _ => hhup
    simpa [orderly, hrev, lineUp, asking, Channel.isNoneEvent, hchan] using ho
  · exact hlined

/-- A call returns to, or enters, user code: the entries into callbacks stay the same. -/
theorem closeInv_frames (h : CloseInv s) {log : List Event} {calls : List Frame}
    (hentries : ∀ cb, entries { s with conn := { s.conn with log := log }, calls := calls }
      cb = s.entries cb)
    (hframe : calls.count .removeChannel = s.calls.count .removeChannel)
    (hlog : ∀ st, Event.handleClose st ∈ log → Event.handleClose st ∈ s.conn.log) :
    CloseInv { s with conn := { s.conn with log := log }, calls := calls } := by
  have hrem :
      removals { s with conn := { s.conn with log := log }, calls := calls } = s.removals := by
    simp only [removals, hframe]
  have hmem : Frame.removeChannel ∈ calls ↔ Frame.removeChannel ∈ s.calls := by
    rw [← List.count_pos_iff, hframe, List.count_pos_iff]
  refine { h with
    opened := fun hd => ?_
    shut := fun hd => ?_
    once := hrem ▸ h.once
    gone := hrem ▸ h.gone
    entered := fun st hm => h.entered st (hlog st hm)
    down := hentries _ ▸ h.down
    close := hentries _ ▸ h.close }
  · obtain ⟨ha, hr, h₁, h₂⟩ := h.opened hd
    exact ⟨ha, mt hmem.mp hr, hentries _ ▸ h₁, hentries _ ▸ h₂⟩
  · obtain ⟨ha, hi⟩ := h.shut hd
    exact ⟨ha, fun hk => hmem.mpr (hi hk)⟩

theorem closeInv_call (h : CloseInv s) {cb : Callback} {rest : List Frame}
    (hcalls : s.calls = .call cb :: rest) :
    CloseInv { s with conn := s.conn.record (.called cb), calls := .inside cb :: rest } := by
  refine closeInv_frames h (fun cb' => ?_) (by simp [hcalls]) fun st hm => ?_
  · by_cases hne : cb = cb'
    · subst hne
      simp [entries, hcalls]
      omega
    · simp [entries, hcalls, hne]
  · simpa using hm

theorem closeInv_return (h : CloseInv s) {cb : Callback} {rest : List Frame}
    (hcalls : s.calls = .inside cb :: rest) : CloseInv { s with calls := rest } :=
  closeInv_frames h (fun cb' => by simp [entries, hcalls]) (by simp [hcalls]) fun _ hm => hm

/-- The last line of `connectDestroyed` runs on a closed connection that is
still registered, once. -/
theorem registered_of_removeChannel (h : CloseInv s) {rest : List Frame}
    (hcalls : s.calls = .removeChannel :: rest) :
    s.conn.state_ = .kDisconnected ∧ s.conn.channel_.addedToLoop_ = true ∧ s.destroying = true ∧
      s.removals = 1 := by
  have hpos : 0 < s.removals := by simp [removals, hcalls]
  refine ⟨?_, ?_, ?_⟩
  · by_contra hd
    exact (h.opened hd).2.1 (by simp [hcalls])
  · by_contra hg
    have := (h.gone (by simpa using hg)).2
    omega
  · have honce := h.once
    cases hdes : s.destroying with
    | true =>
        rw [hdes, if_pos rfl] at honce
        exact ⟨rfl, by omega⟩
    | false =>
        rw [hdes, if_neg Bool.false_ne_true] at honce
        omega

/-- The last line of `connectDestroyed`. -/
theorem closeInv_removeChannel (h : CloseInv s) {rest : List Frame}
    (hcalls : s.calls = .removeChannel :: rest) :
    CloseInv { s with
      conn := { s.conn with loop := Channel.remove impl s.conn.loop () }, calls := rest } := by
  obtain ⟨hshut, hadded, hdes, honce⟩ := registered_of_removeChannel h hcalls
  have hev := asking_eq_false.mp (h.shut hshut).1
  have hrem : s.removals = removals { s with
      conn := { s.conn with loop := Channel.remove impl s.conn.loop () }, calls := rest } + 1 := by
    simp [removals, hcalls]
    omega
  have hloop := epoll_remove h.epoll () hadded hev
  have hentries : ∀ cb', entries { s with
      conn := { s.conn with loop := Channel.remove impl s.conn.loop () }, calls := rest } cb' =
        s.entries cb' := by
    intro cb'
    simp [entries, hcalls]
  constructor
  case epoll => exact epollInv_remove h.epoll () hadded hev
  case connecting => exact h.connecting
  case opened => exact fun hd => absurd hshut hd
  case index =>
    intro ha
    rw [asking_eq_true, channel_, Channel.events_remove] at ha
    exact absurd hev ha
  case shut =>
    refine fun _ => ⟨?_, fun hk => ?_⟩
    · rw [asking_eq_false, channel_, Channel.events_remove]
      exact hev
    · rw [channel_, hloop] at hk
      exact absurd hk (by simp [removed, kNew, kAdded])
  case once =>
    rw [if_pos hdes]
    omega
  case gone => exact fun _ => ⟨hdes, by omega⟩
  case active => exact h.active
  case todo =>
    have : ((Channel.remove impl s.conn.loop ()).chan ()).revents_ = s.conn.channel_.revents_ := by
      rw [hloop]
      simp [removed, channel_]
    simpa only [channel_, this] using h.todo
  case read =>
    have : ((Channel.remove impl s.conn.loop ()).chan ()).revents_ = s.conn.channel_.revents_ := by
      rw [hloop]
      simp [removed, channel_]
    simpa only [channel_, this] using h.read
  case entered => exact h.entered
  case down => exact hentries _ ▸ h.down
  case close => exact hentries _ ▸ h.close

/-- A read closes the connection exactly when `readv` returned zero. -/
theorem handleRead_cases (c : Conn) (r : Buffer.ReadvResult) :
    ∃ b, atEof r = true ∧
        c.handleRead impl r = ({ c with inputBuffer_ := b } : Conn).handleClose impl ∨
      c.handleRead impl r = ({ c with inputBuffer_ := b }, []) ∨
      c.handleRead impl r = ({ c with inputBuffer_ := b }, [.call .messageCallback_]) := by
  refine ⟨(c.inputBuffer_.readFd r).1, ?_⟩
  cases r with
  | error e => exact Or.inr (Or.inl rfl)
  | data bytes =>
      have hn : (c.inputBuffer_.readFd (.data bytes)).2 = .data
          (bytes.take c.inputBuffer_.iovecSpace) :=
        Buffer.readFd_data_snd _ _
      have hpos := c.inputBuffer_.iovecSpace_pos
      cases bytes with
      | nil =>
          refine Or.inl ⟨rfl, ?_⟩
          simp only [handleRead, hn, List.take_nil]
      | cons b bytes =>
          refine Or.inr (Or.inr ?_)
          obtain ⟨n, hn'⟩ := Nat.exists_eq_succ_of_ne_zero hpos.ne'
          simp only [handleRead, hn, hn', List.take_succ_cons]

theorem closeInv_read (h : CloseInv s) (hcalls : s.calls = []) {rest : List Handler}
    (ht : s.todo = .read :: rest) {r : Buffer.ReadvResult} {w : WriteResult}
    (ho : s.orderly (.resume r w) = true) :
    CloseInv (runHandler { s with todo := rest } .read r w) := by
  have hpop := closeInv_dropTodo h ht
  obtain ⟨b, ⟨heof, hr⟩ | hr | hr⟩ := handleRead_cases s.conn r
  all_goals
    have hq := closeInv_quiet hpop (Quiet.input s.conn b)
    show CloseInv (ConnectionLoop.enter _ (s.conn.handleRead impl r))
    rw [hr]
  · simp only [orderly, hcalls, ht, heof, Bool.not_true, Bool.false_or, Bool.and_eq_true,
      Bool.not_eq_true'] at ho
    have hact : s.active = false := by
      by_contra ha
      simp [(h.active (by simpa using ha)).2] at ht
    have hopen : s.conn.state_ ≠ .kDisconnected := fun hd => by
      simp [h.read (by simp [ht]) hd] at ho
    exact closeInv_handleClose hq hcalls hopen ho.2 hact fun hm => absurd hm (read_notMem_tail h ht)
  · exact hcalls ▸ hq
  · exact closeInv_callUser hq hcalls (by simp) (by simp)

theorem isWriting_of_shut (h : CloseInv s) (hw : s.conn.isWriting = true) :
    s.conn.state_ ≠ .kDisconnected := by
  intro hd
  have hev := asking_eq_false.mp (h.shut hd).1
  simp [isWriting, Channel.isWriting, hev] at hw

theorem closeInv_resume (h : CloseInv s) {r : Buffer.ReadvResult} {w : WriteResult}
    (ho : s.orderly (.resume r w) = true) : CloseInv (s.step (.resume r w)) := by
  show CloseInv (s.resume r w)
  unfold resume
  split
  · exact closeInv_call h ‹_›
  · exact closeInv_return h ‹_›
  · exact closeInv_removeChannel h ‹_›
  · rename_i a rest hcalls ht
    cases a with
    | error => exact closeInv_dropTodo h ht
    | read => exact closeInv_read h hcalls ht ho
    | write =>
        exact closeInv_quiet (closeInv_dropTodo h ht)
          (Quiet.handleWrite s.conn (isWriting_of_shut h) w)
    | done =>
        exact closeInv_onChannel (closeInv_dropTodo h ht) (fun _ => ⟨rfl, rfl, rfl, rfl⟩)
          (Or.inr fun _ => rfl)
  · exact h

theorem closeInv_popPending (h : CloseInv s) {f : Functor} {rest : List Functor}
    (hp : s.conn.pending = f :: rest) : CloseInv (s.popPending rest) := by
  have hle : (s.popPending rest).removals ≤ s.removals := by
    simp only [removals, popPending, hp]
    exact Nat.add_le_add_left (List.count_le_count_cons) _
  exact { h with
    once := hle.trans h.once
    gone := fun hg => ⟨(h.gone hg).1, Nat.eq_zero_of_le_zero ((h.gone hg).2 ▸ hle)⟩ }

/-- A queued `connectDestroyed` is the only one, and finds the channel registered. -/
theorem sole_connectDestroyed (h : CloseInv s) (hcalls : s.calls = []) {rest : List Functor}
    (hp : s.conn.pending = .connectDestroyed :: rest) :
    s.destroying = true ∧ rest.count .connectDestroyed = 0 ∧
    s.conn.channel_.addedToLoop_ = true := by
  have hcount : s.removals = rest.count .connectDestroyed + 1 := by
    simp [removals, hcalls, hp]
  have hdes : s.destroying = true := by
    by_contra hd
    have := h.once
    rw [if_neg hd] at this
    omega
  refine ⟨hdes, ?_, ?_⟩
  · have := h.once
    rw [if_pos hdes] at this
    omega
  · by_contra hg
    have := (h.gone (by simpa using hg)).2
    omega

/-- `connectDestroyed` on an open connection. -/
theorem closeInv_connectDestroyed_open (h : CloseInv s) (hcalls : s.calls = [])
    (hact : s.active = false)
    (htodo : s.todo = []) {rest : List Functor} (hp : s.conn.pending = .connectDestroyed :: rest)
    (hup : s.conn.state_ = .kConnected) :
    CloseInv ((s.popPending rest).enter ((s.popPending rest).conn.connectDestroyed impl)) := by
  obtain ⟨hdes, hrest, -⟩ := sole_connectDestroyed h hcalls hp
  obtain ⟨-, -, hdown, hclose⟩ := h.opened (by simp [hup])
  simp only [entries, hcalls, List.count_nil, Nat.add_zero] at hdown hclose
  have hupd := updated_updateTo s.conn.loop kNoneEvent
  have hcut : (s.popPending rest).conn.connectDestroyed impl = _ := if_pos hup
  rw [hcut]
  constructor
  case epoll => exact hupd.inv h.epoll
  case connecting => simp [setState]
  case opened => exact fun hd => absurd rfl hd
  case index =>
    intro ha
    rw [asking_eq_true] at ha
    exact absurd (Channel.events_updateTo impl s.conn.loop () kNoneEvent) ha
  case shut =>
    refine fun _ => ⟨asking_eq_false.mpr ?_, fun _ => by simp⟩
    exact Channel.events_updateTo impl s.conn.loop () kNoneEvent
  case once =>
    simp [removals, setState, popPending, hrest, hdes]
  case gone =>
    intro hg
    have := hupd.added h.epoll
    exact absurd (this.symm.trans hg) (by simp)
  case active => simp [popPending, hact]
  case todo => simp [popPending, htodo]
  case read => simp [popPending, htodo]
  case entered => exact h.entered
  case down => simp [entries, setState, popPending, hdown]
  case close => simp [entries, setState, popPending, hclose]

/-- `connectDestroyed` on a closed connection. -/
theorem closeInv_connectDestroyed_shut (h : CloseInv s) (hcalls : s.calls = [])
    {rest : List Functor}
    (hp : s.conn.pending = .connectDestroyed :: rest) (hshut : s.conn.state_ = .kDisconnected) :
    CloseInv ((s.popPending rest).enter ((s.popPending rest).conn.connectDestroyed impl)) := by
  obtain ⟨hdes, hrest, hadded⟩ := sole_connectDestroyed h hcalls hp
  have hcut : (s.popPending rest).conn.connectDestroyed impl =
      ((s.popPending rest).conn, [.removeChannel]) := if_neg (by simp [popPending, hshut])
  rw [hcut]
  refine { closeInv_popPending h hp with
    opened := fun hd => absurd hshut hd
    shut := fun _ => ⟨(h.shut hshut).1, fun _ => by simp⟩
    once := ?_
    gone := fun hg => ?_
    down := ?_
    close := ?_ }
  · simp [removals, popPending, hrest, hdes]
  · exact absurd (hadded.symm.trans hg) (by simp)
  · have := h.down
    simpa [entries, popPending, hcalls] using this
  · have := h.close
    simpa [entries, popPending, hcalls] using this

theorem closeInv_connectDestroyed (h : CloseInv s) (hcalls : s.calls = []) (hact : s.active = false)
    (htodo : s.todo = []) {rest : List Functor} (hp : s.conn.pending = .connectDestroyed :: rest)
    (hstate : s.conn.state_ ≠ .kDisconnecting) :
    CloseInv ((s.popPending rest).enter ((s.popPending rest).conn.connectDestroyed impl)) := by
  cases hst : s.conn.state_ with
  | kDisconnected => exact closeInv_connectDestroyed_shut h hcalls hp hst
  | kConnecting => exact absurd hst h.connecting
  | kConnected => exact closeInv_connectDestroyed_open h hcalls hact htodo hp hst
  | kDisconnecting => exact absurd hst hstate

theorem closeInv_functor (h : CloseInv s) {w : WriteResult} (ha : s.allowed (.functor w) = true)
    (ho : s.orderly (.functor w) = true) : CloseInv (s.step (.functor w)) := by
  simp only [allowed, Bool.and_eq_true, Bool.not_eq_true'] at ha
  obtain ⟨hcalls, htodo⟩ := idle_iff.mp ha.1
  cases hp : s.conn.pending with
  | nil =>
      simp only [step, hp]
      exact h
  | cons f rest =>
      have hpop := closeInv_popPending h hp
      simp only [step, hp]
      simp only [orderly, hp] at ho
      cases f with
      | sendInLoop message => exact closeInv_quiet hpop (Quiet.sendInLoop _ message w)
      | shutdownInLoop => exact closeInv_quiet hpop (Quiet.shutdownInLoop _)
      | startReadInLoop =>
          exact closeInv_quiet hpop
            (Quiet.startReadInLoop _ (by simpa [closed, popPending] using ho))
      | stopReadInLoop =>
          exact closeInv_quiet hpop
            (Quiet.stopReadInLoop _ (by simpa [closed, popPending] using ho))
      | writeCompleteCallback_ => exact closeInv_callUser hpop hcalls (by simp) (by simp)
      | highWaterMarkCallback_ len => exact closeInv_callUser hpop hcalls (by simp) (by simp)
      | connectDestroyed =>
          exact closeInv_connectDestroyed h hcalls ha.2 htodo hp (by simpa using ho)
      | forceCloseInLoop =>
          simp only [runFunctor, forceCloseInLoop]
          split
          · rename_i hst
            have hopen : s.conn.state_ ≠ .kDisconnected := fun hd => by
              simp [popPending, hd] at hst
            refine closeInv_handleClose hpop hcalls hopen ?_ ha.2 fun hm => ?_
            · simpa [closed, hopen, popPending, asking, channel_] using ho
            · simp [popPending, htodo] at hm
          · exact hcalls ▸ hpop

theorem closeInv_destroy (h : CloseInv s) (ha : s.allowed .destroy = true) :
    CloseInv (s.step .destroy) := by
  have hdes : s.destroying = false := by simpa [allowed] using ha
  have hrem : s.removals = 0 := by
    have := h.once
    rw [hdes, if_neg Bool.false_ne_true] at this
    omega
  refine { h with
    opened := h.opened
    once := ?_
    gone := fun hg => absurd (h.gone hg).1 (by simp [hdes]) }
  simp only [removals] at hrem
  simp [step, removals, queueInloop, List.count_append]
  omega

/-- **Every allowed, orderly move keeps the invariant.** -/
theorem closeInv_step (h : CloseInv s) (a : LoopAction) (ha : s.allowed a = true)
    (ho : s.orderly a = true) : CloseInv (s.step a) := by
  cases a with
  | poll revents => exact closeInv_poll h ha
  | dispatch => exact closeInv_dispatch h ha ho
  | resume r w => exact closeInv_resume h ho
  | functor w => exact closeInv_functor h ha ho
  | destroy => exact closeInv_destroy h ha
  | user inLoopThread call =>
      refine closeInv_quiet h (Quiet.userCall s.conn inLoopThread call ?_)
      rintro rfl (rfl | rfl) <;> simpa [orderly, closed] using ho

/-- The loop as `connectEstablished` finds it, the channel tied. -/
theorem epollInv_tied (fd : ℕ) :
    EPollInv ((TcpConnection.new fd (⟨.empty, .empty⟩ : EPollPoller Unit)).loop.modify ()
      fun ch => { ch with tied_ := true }) := by
  have hfresh : EPollInv (TcpConnection.new fd (⟨.empty, .empty⟩ : EPollPoller Unit)).loop :=
    @epollInv_initial Unit (fun _ => fd) fun _ _ _ => rfl
  exact epollInv_modify hfresh () fun _ => ⟨rfl, rfl, rfl, rfl⟩

theorem closeInv_start (fd : ℕ) : CloseInv (start fd) := by
  have htied := epollInv_tied fd
  have hupd :=
    updated_updateTo ((TcpConnection.new fd (⟨.empty, .empty⟩ : EPollPoller Unit)).loop.modify ()
    fun ch => { ch with tied_ := true }) (kNoneEvent ||| kReadEvent)
  constructor
  case epoll => exact hupd.inv htied
  case connecting => simp [start, connectEstablished, setState]
  case opened =>
    exact fun _ => ⟨hupd.added htied, by simp [start, connectEstablished],
      by simp [start, connectEstablished, entries, setState, TcpConnection.new],
      by simp [start, connectEstablished, entries, setState, TcpConnection.new]⟩
  case index => exact fun ha => hupd.index htied (asking_eq_true.mp ha)
  case shut => simp [start, connectEstablished, setState]
  case once => simp [start, connectEstablished, removals, setState, TcpConnection.new]
  case gone => exact fun hg => absurd ((hupd.added htied).symm.trans hg) (by simp)
  case active => simp [start]
  case todo => exact List.nil_suffix
  case read => simp [start]
  case entered => simp [start, connectEstablished, setState, TcpConnection.new]
  case down => simp [start, connectEstablished, entries, setState, TcpConnection.new]
  case close => simp [start, connectEstablished, entries, setState, TcpConnection.new]

/-! ### A closed connection stays closed -/

theorem sendInLoop_of_closed {c : Conn} (h : c.state_ = .kDisconnected) (data : List Byte)
    (w : WriteResult) : c.sendInLoop impl data w = c := if_pos h

theorem shutdownInLoop_state_ (c : Conn) : c.shutdownInLoop.state_ = c.state_ := by
  unfold shutdownInLoop
  split <;> rfl

theorem handleWrite_state_ (c : Conn) (w : WriteResult) :
    (c.handleWrite impl w).state_ = c.state_ := by
  unfold handleWrite
  split
  · cases w with
    | error errno => rfl
    | accepted k =>
        simp only [outputDrained]
        split_ifs <;> simp [record, queueInloop, shutdownInLoop_state_]
  · rfl

theorem startReadInLoop_state_ (c : Conn) : (c.startReadInLoop impl).state_ = c.state_ := by
  unfold startReadInLoop
  split <;> rfl

theorem stopReadInLoop_state_ (c : Conn) : (c.stopReadInLoop impl).state_ = c.state_ := by
  unfold stopReadInLoop
  split <;> rfl

theorem userCall_of_closed {c : Conn} (h : c.state_ = .kDisconnected) (inLoopThread : Bool)
    (call : UserCall) : (userCall c inLoopThread call).state_ = .kDisconnected := by
  cases call with
  | send message r => simp [userCall, send, h]
  | shutdown => simp [userCall, shutdown, h]
  | forceClose => simp [userCall, forceClose, h]
  | forceCloseWithDelay => simp [userCall, forceCloseWithDelay, h]
  | startRead =>
      cases inLoopThread <;> simp [userCall, startRead, startReadInLoop_state_, queueInloop, h]
  | stopRead =>
      cases inLoopThread <;> simp [userCall, stopRead, stopReadInLoop_state_, queueInloop, h]

theorem runHandler_of_closed (h : s.conn.state_ = .kDisconnected) (a : Handler)
    (r : Buffer.ReadvResult) (w : WriteResult) :
    (s.runHandler a r w).conn.state_ = .kDisconnected := by
  cases a with
  | error => exact h
  | read =>
      obtain ⟨b, ⟨-, hr⟩ | hr | hr⟩ := handleRead_cases s.conn r <;>
        simp only [runHandler, enter_conn, hr]
      · rfl
      · exact h
      · exact h
  | write => exact (handleWrite_state_ s.conn w).trans h
  | done => exact h

theorem runFunctor_of_closed (h : s.conn.state_ = .kDisconnected) (f : Functor) (w : WriteResult) :
    (s.runFunctor f w).conn.state_ = .kDisconnected := by
  cases f with
  | sendInLoop message => simp [runFunctor, sendInLoop_of_closed h, h]
  | shutdownInLoop => simp [runFunctor, shutdownInLoop_state_, h]
  | forceCloseInLoop => simp [runFunctor, forceCloseInLoop, h]
  | startReadInLoop => simp [runFunctor, startReadInLoop_state_, h]
  | stopReadInLoop => simp [runFunctor, stopReadInLoop_state_, h]
  | connectDestroyed => simp [runFunctor, connectDestroyed, h]
  | writeCompleteCallback_ => exact h
  | highWaterMarkCallback_ len => exact h

/-- No move leaves `kDisconnected`, orderly or not. -/
theorem step_of_closed (h : s.conn.state_ = .kDisconnected) (a : LoopAction) :
    (s.step a).conn.state_ = .kDisconnected := by
  cases a with
  | poll revents => exact h
  | dispatch =>
      simp only [step, handleEvent]
      split
      · rfl
      · exact h
  | resume r w =>
      simp only [step, resume]
      split
      · exact h
      · exact h
      · exact h
      · rename_i a rest _ _
        exact runHandler_of_closed (s := { s with todo := rest }) h a r w
      · exact h
  | functor w =>
      simp only [step]
      split
      · rename_i f rest _
        exact runFunctor_of_closed (s := s.popPending rest) h f w
      · exact h
  | user inLoopThread call => exact userCall_of_closed h inLoopThread call
  | destroy => exact h

end Steps

/-! ### Whole runs -/

/-- **A connection closes at most once** in every run whose moves are orderly: `handleClose` is
entered in `kConnected` or `kDisconnecting` only, `kDisconnected` is never left, and the connection
callback (for the connection going down) and the close callback are called at most once. -/
theorem closes_at_most_once (fd : ℕ) (run : List LoopAction)
    (hallowed : Along step (fun s a => s.allowed a = true) (start fd) run)
    (horderly : Along step (fun s a => s.orderly a = true) (start fd) run) :
    let s := exec step (start fd) run
    (∀ st, Event.handleClose st ∈ s.conn.log → st = .kConnected ∨ st = .kDisconnecting) ∧
    (∀ pre post, run = pre ++ post → (exec step (start fd) pre).conn.state_ = .kDisconnected →
      s.conn.state_ = .kDisconnected) ∧
    s.conn.log.count (.called .connectionDown) ≤ 1 ∧
    s.conn.log.count (.called .closeCallback_) ≤ 1 := by
  have h : CloseInv (exec step (start fd) run) :=
    along_invariant (Q := fun s a => s.allowed a = true ∧ s.orderly a = true) CloseInv
      (fun _ a hi hq => closeInv_step hi a hq.1 hq.2) (closeInv_start fd) (hallowed.and horderly)
  refine ⟨h.entered, ?_, (Nat.le_add_right _ _).trans h.down, (Nat.le_add_right _ _).trans h.close⟩
  rintro pre post rfl hd
  rw [exec_append]
  exact exec_invariant (fun s : ConnectionLoop => s.conn.state_ = .kDisconnected)
    (fun _ a hs => step_of_closed hs a) post hd

/-- A peer that closes after some data: read, hang-up, `connectDestroyed`. -/
def ordinaryRun : List LoopAction :=
  [.resume (.error 0) (.error 0 0), .resume (.error 0) (.error 0 0), .poll POLLIN, .dispatch,
    .resume (.data [1, 2]) (.error 0 0), .resume (.error 0) (.error 0 0),
    .resume (.error 0) (.error 0 0),
    .resume (.error 0) (.error 0 0), .poll (POLLIN ||| POLLHUP), .dispatch,
    .resume (.data []) (.error 0 0), .resume (.error 0) (.error 0 0), .user true .forceClose,
    .resume (.error 0) (.error 0 0), .resume (.error 0) (.error 0 0), .destroy,
    .resume (.error 0) (.error 0 0), .resume (.error 0) (.error 0 0), .functor (.error 0 0),
    .resume (.error 0) (.error 0 0)]

theorem ordinaryRun_closes_once :
    (exec step (start 7) ordinaryRun).conn.log.count (.called .connectionDown) ≤ 1 :=
  (closes_at_most_once 7 ordinaryRun (by decide +kernel) (by decide +kernel)).2.2.1

/-- The user stops reading and forces the connection closed.  `disableAll()` then runs on an empty
mask, which adds the descriptor to the epoll set again; the hang-up that follows enters
`handleClose` a second time. -/
def stoppedRun : List LoopAction :=
  [.resume (.error 0) (.error 0 0), .user true .stopRead, .user true .forceClose,
    .resume (.error 0) (.error 0 0), .functor (.error 0 0), .resume (.error 0) (.error 0 0),
    .resume (.error 0) (.error 0 0), .resume (.error 0) (.error 0 0),
    .resume (.error 0) (.error 0 0), .poll POLLHUP, .dispatch, .resume (.error 0) (.error 0 0)]

theorem closed_twice :
    Along step (fun s a => s.allowed a = true) (start 7) stoppedRun ∧
    Event.handleClose .kDisconnected ∈ (exec step (start 7) stoppedRun).conn.log ∧
    (exec step (start 7) stoppedRun).conn.log.count (.called .connectionDown) = 2 := by
  decide +kernel

end ConnectionLoop

end Muduo.Net
