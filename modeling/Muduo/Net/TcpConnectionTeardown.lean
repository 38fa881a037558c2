import Muduo.Net.TcpConnectionClose

/-!
# Tearing a connection down

`connectDestroyed` is the last member function called on a connection.  It is queued by
`removeConnectionInLoop` after `handleClose`, and `~TcpServer` runs it for every connection that is
still in the map, in whatever state that connection is.  Afterwards the destructors assert that the
connection is disconnected and that its channel is in no poller.

* `tearDown` — `connectDestroyed` to its end, with what the user does in its callback;
* `Attached` — what holds in every run before it, with `attached_step`;
* `tearDown_complete_iff` — the tear-down is complete exactly for a connection that is not half
  closed; `halfClosed_notTornDown` is a run that ends in the other case;
* `closed_stays_out` — with reading switched on and off at any time: a closed connection
  stays out of the poller in every run of `tidy` steps; `lateStart_registers_again` is a
  run with one that is not.
-/

namespace Muduo.Net

open Muduo.Lib EPollPoller

namespace ConnectionLoop

open TcpConnection

/-- One frame of `connectDestroyed`; `during` is what the user does in the callback. -/
def finishFrame (during : List (Bool × UserCall)) (c : Conn) : Frame → Conn
  | .call cb => during.foldl (fun c u => userCall c u.1 u.2) (c.record (.called cb))
  | .inside _ => c
  | .removeChannel => { c with loop := Channel.remove impl c.loop () }

/-- `connectDestroyed`, run to its end. -/
def tearDown (c : Conn) (during : List (Bool × UserCall)) : Conn :=
  (c.connectDestroyed impl).2.foldl (finishFrame during) (c.connectDestroyed impl).1

/-- What the destructors of the connection and of its channel rely on. -/
structure TornDown (c : Conn) : Prop where
  asserts : c.loop.failed = []
  state : c.state_ = .kDisconnected
  events : c.channel_.isNoneEvent = true
  added : c.channel_.addedToLoop_ = false
  poller : hasChannel c.loop () = false
  kernel : c.loop.poller.interest.get? c.channel_.fd_ = none

/-- Reading is not switched, and `connectDestroyed` does not start yet. -/
def calm (s : ConnectionLoop) : LoopAction → Bool
  | .functor _ => s.conn.pending.head? != some .connectDestroyed
  | .user _ .startRead | .user _ .stopRead => false
  | _ => true

/-- The connection before `connectDestroyed`: its channel is registered, reads while the connection
is open and asks for nothing once it is closed. -/
structure Attached (s : ConnectionLoop) : Prop where
  epoll : EPollInv s.conn.loop
  added : s.conn.channel_.addedToLoop_ = true
  connecting : s.conn.state_ ≠ .kConnecting
  opened : s.conn.state_ ≠ .kDisconnected → s.conn.channel_.isReading = true
  shut : s.conn.state_ = .kDisconnected → s.conn.channel_.events_ = kNoneEvent
  pending : ∀ f ∈ s.conn.pending, f ≠ .startReadInLoop ∧ f ≠ .stopReadInLoop
  calls : Frame.removeChannel ∉ s.calls
  handling : s.todo = [] ∧ s.conn.channel_.eventHandling_ = false ∨ s.todo.getLast? = some .done

section Steps

variable {s : ConnectionLoop}

theorem attached_steady (h : Attached s) {c' : Conn} (hs : Steady s.conn c') :
    Attached { s with conn := c' } where
  epoll := hs.quiet.epollInv h.epoll
  added := hs.quiet.addedToLoop_ h.epoll h.added
  connecting := by
    rcases hs.quiet.state with he | ⟨-, he⟩
    · exact he ▸ h.connecting
    · simp [he]
  opened hd := hs.isReading.trans (h.opened (mt hs.quiet.kDisconnected_iff.mpr hd))
  shut hd := by
    have hc := hs.quiet.kDisconnected_iff.mp hd
    rw [channel_, hs.quiet.loop_of_closed hc]
    exact h.shut hc
  pending f hf := by
    rcases hs.pending hf with hf | hr
    · exact h.pending f hf
    · constructor <;> rintro rfl <;> simp [Functor.routine] at hr
  calls := h.calls
  handling := by
    rw [hs.eventHandling_ h.epoll]
    exact h.handling

/-- `handleEvent` and the kernel write fields that the poller does not read. -/
theorem attached_onChannel (h : Attached s) {f : Channel → Channel}
    (hf : ∀ ch, (f ch).fd_ = ch.fd_ ∧ (f ch).index_ = ch.index_ ∧ (f ch).events_ = ch.events_ ∧
      (f ch).addedToLoop_ = ch.addedToLoop_) {active : Bool} {todo : List Handler}
    (hh : todo = [] ∧ (f s.conn.channel_).eventHandling_ = false ∨ todo.getLast? = some .done) :
    Attached { s.onChannel f with active := active, todo := todo } := by
  constructor
  case epoll => exact epollInv_modify h.epoll () hf
  case added =>
    rw [onChannel_channel_, (hf _).2.2.2]
    exact h.added
  case connecting => exact h.connecting
  case opened =>
    rw [onChannel_channel_, Channel.isReading, (hf _).2.2.1]
    exact h.opened
  case shut =>
    rw [onChannel_channel_, (hf _).2.2.1]
    exact h.shut
  case pending => exact h.pending
  case calls => exact h.calls
  case handling =>
    rw [onChannel_channel_]
    exact hh

/-- `done` is the last handler of a dispatch. -/
theorem todo_tail (h : Attached s) {a : Handler} {rest : List Handler} (ht : s.todo = a :: rest) :
    rest = [] ∧ a = .done ∨ rest.getLast? = some .done := by
  have hlast := h.handling.resolve_left (by simp [ht])
  rw [ht] at hlast
  cases rest with
  | nil => exact Or.inl ⟨rfl, Option.some.inj hlast⟩
  | cons b rest => exact Or.inr (by rwa [List.getLast?_cons_cons] at hlast)

theorem attached_dropTodo (h : Attached s) {a : Handler} {rest : List Handler}
    (ht : s.todo = a :: rest) (ha : a ≠ .done) : Attached { s with todo := rest } :=
  { h with handling := Or.inr ((todo_tail h ht).resolve_left fun hd => ha hd.2) }

theorem attached_handleClose (h : Attached s) : Attached (s.enter (s.conn.handleClose impl)) := by
  have hw : (s.conn.handleClose impl).1.loop =
      Channel.updateTo impl s.conn.loop () kNoneEvent := rfl
  have hupd := updated_updateTo s.conn.loop kNoneEvent
  constructor
  case epoll => exact hw ▸ hupd.inv h.epoll
  case added => exact hupd.added h.epoll
  case connecting => simp [handleClose, setState]
  case opened => exact fun hd => absurd rfl hd
  case shut =>
    intro _
    rw [enter_conn, channel_, hw, Channel.events_updateTo]
  case pending => exact h.pending
  case calls => simp [handleClose]
  case handling =>
    rw [enter_conn, channel_, hw, epoll_updateTo h.epoll]
    simpa [updated, channel_] using h.handling

theorem isWriting_of_attached (h : Attached s) (hw : s.conn.isWriting = true) :
    s.conn.state_ ≠ .kDisconnected := by
  intro hd
  simp [isWriting, Channel.isWriting, h.shut hd] at hw

theorem attached_read (h : Attached s) (r : Buffer.ReadvResult) :
    Attached (s.enter (s.conn.handleRead impl r)) := by
  obtain ⟨b, ⟨-, hr⟩ | hr | hr⟩ := handleRead_cases s.conn r
  all_goals
    have hb := attached_steady h (Steady.refl.input b)
    rw [hr]
  · exact attached_handleClose hb
  · exact { hb with calls := by simp }
  · exact { hb with calls := by simp }

theorem attached_resume (h : Attached s) (r : Buffer.ReadvResult) (w : WriteResult) :
    Attached (s.resume r w) := by
  unfold resume
  split
  · rename_i hcalls
    have hc := h.calls
    rw [hcalls] at hc
    exact { h with calls := by simpa using hc }
  · rename_i hcalls
    have hc := h.calls
    rw [hcalls] at hc
    exact { h with calls := fun hm => hc (List.mem_cons_of_mem _ hm) }
  · rename_i hcalls
    exact absurd (by simp [hcalls]) h.calls
  · rename_i a rest hcalls ht
    cases a with
    | error => exact attached_dropTodo h ht (by simp)
    | read => exact attached_read (attached_dropTodo h ht (by simp)) r
    | write =>
        exact attached_steady (attached_dropTodo h ht (by simp))
          (Steady.refl.handleWrite (isWriting_of_attached h) w)
    | done =>
        show Attached { s.onChannel (fun ch => { ch with eventHandling_ := false }) with
          active := s.active, todo := rest }
        refine attached_onChannel h ?_ ((todo_tail h ht).imp_left fun hd => ⟨hd.1, rfl⟩)
        exact fun _ => ⟨rfl, rfl, rfl, rfl⟩
  · exact h

theorem getLast?_handlersOf (revents : Mask) : (handlersOf revents).getLast? = some .done := by
  simp [handlersOf]

theorem attached_dispatch (h : Attached s) : Attached s.handleEvent := by
  have hlined : Attached (s.onChannel fun ch => { ch with eventHandling_ := true }).lineUp := by
    refine attached_onChannel h ?_ (Or.inr (getLast?_handlersOf _))
    exact fun _ => ⟨rfl, rfl, rfl, rfl⟩
  unfold handleEvent
  dsimp only
  split
  · exact attached_handleClose hlined
  · exact hlined

theorem attached_functor (h : Attached s) {f : Functor} {rest : List Functor}
    (hp : s.conn.pending = f :: rest) (hf : f ≠ .connectDestroyed) (w : WriteResult) :
    Attached ((s.popPending rest).runFunctor f w) := by
  have hpop : Attached (s.popPending rest) :=
    { h with pending := fun g hg => h.pending g (hp ▸ List.mem_cons_of_mem f hg) }
  have hread := h.pending f (by simp [hp])
  cases f with
  | sendInLoop message => exact attached_steady hpop (Steady.refl.sendInLoop message w)
  | shutdownInLoop => exact attached_steady hpop Steady.refl.shutdownInLoop
  | forceCloseInLoop =>
      simp only [runFunctor, forceCloseInLoop]
      split
      · exact attached_handleClose hpop
      · exact { hpop with calls := by simp }
  | startReadInLoop => exact absurd rfl hread.1
  | stopReadInLoop => exact absurd rfl hread.2
  | connectDestroyed => exact absurd rfl hf
  | writeCompleteCallback_ => exact { hpop with calls := by simp [runFunctor] }
  | highWaterMarkCallback_ len => exact { hpop with calls := by simp [runFunctor] }

/-- **Every calm move keeps the connection attached.** -/
theorem attached_step (h : Attached s) (a : LoopAction) (hc : s.calm a = true) :
    Attached (s.step a) := by
  cases a with
  | poll revents =>
      show Attached { s.onChannel (·.set_revents revents) with active := true, todo := s.todo }
      refine attached_onChannel h ?_ h.handling
      exact fun _ => ⟨rfl, rfl, rfl, rfl⟩
  | dispatch => exact attached_dispatch h
  | resume r w => exact attached_resume h r w
  | functor w =>
      cases hp : s.conn.pending with
      | nil =>
          simp only [step, hp]
          exact h
      | cons f rest =>
          simp only [step, hp]
          exact attached_functor h hp (by simpa [calm, hp] using hc) w
  | user inLoopThread call =>
      refine attached_steady h (Steady.refl.userCall inLoopThread ?_)
      constructor <;> rintro rfl <;> simp [calm] at hc
  | destroy =>
      refine { h with pending := fun f hf => ?_ }
      rcases List.mem_append.mp hf with hf | hf
      · exact h.pending f hf
      · simp [List.mem_singleton.mp hf]

theorem attached_start (fd : ℕ) : Attached (start fd) := by
  have h := closeInv_start fd
  have hopen : (start fd).conn.state_ ≠ .kDisconnected := by
    simp [start, connectEstablished, setState]
  have hloop := epoll_updateTo (epollInv_tied fd) () (kNoneEvent ||| kReadEvent)
  constructor
  case epoll => exact h.epoll
  case added => exact (h.opened hopen).1
  case connecting => exact h.connecting
  case opened =>
    intro _
    have hev : (start fd).conn.channel_.events_ = kNoneEvent ||| kReadEvent :=
      congrArg (fun w => (w.chan ()).events_) hloop
    rw [Channel.isReading, hev]
    decide
  case shut => exact fun hd => absurd hd hopen
  case pending => simp [start, connectEstablished, setState, TcpConnection.new]
  case calls => exact (h.opened hopen).2.1
  case handling => exact Or.inl ⟨rfl, congrArg (fun w => (w.chan ()).eventHandling_) hloop⟩

/-! ### The tear-down -/

/-- The last line of `connectDestroyed`, on a closed connection. -/
theorem tornDown_remove {c : Conn} (h : EPollInv c.loop) (hs : c.state_ = .kDisconnected)
    (ha : c.channel_.addedToLoop_ = true) (hev : c.channel_.events_ = kNoneEvent) :
    TornDown { c with loop := Channel.remove impl c.loop () } := by
  have hinv := epollInv_remove h () ha hev
  have hgone : ((Channel.remove impl c.loop ()).chan ()).addedToLoop_ = false := by
    rw [epoll_remove h () ha hev]
    simp [removed]
  obtain ⟨hmap, hkernel⟩ := unregistered_of_removed hinv hgone
  constructor
  case asserts => exact hinv.failed
  case state => exact hs
  case events =>
    rw [channel_, Channel.isNoneEvent, Channel.events_remove, ← channel_, hev]
    rfl
  case added => exact hgone
  case poller => exact hmap
  case kernel => exact hkernel

/-- What the user does in the callback is steady. -/
theorem steady_during (c : Conn) {during : List (Bool × UserCall)}
    (h : ∀ u ∈ during, u.2 ≠ .startRead ∧ u.2 ≠ .stopRead) :
    Steady c (during.foldl (fun c u => userCall c u.1 u.2) c) := by
  suffices hfold : ∀ c', Steady c c' →
      Steady c (during.foldl (fun c u => userCall c u.1 u.2) c') from hfold c Steady.refl
  induction during with
  | nil => exact fun _ hc => hc
  | cons u us ih =>
      intro c' hc
      exact ih (fun v hv => h v (List.mem_cons_of_mem u hv)) _
        (hc.userCall u.1 (h u List.mem_cons_self))

theorem tearDown_of_connected (h : Attached s) (hs : s.conn.state_ = .kConnected)
    {during : List (Bool × UserCall)} (hd : ∀ u ∈ during, u.2 ≠ .startRead ∧ u.2 ≠ .stopRead) :
    TornDown (tearDown s.conn during) := by
  have hcut : s.conn.connectDestroyed impl = _ := if_pos hs
  have hloop : (s.conn.connectDestroyed impl).1.loop =
      Channel.updateTo impl s.conn.loop () kNoneEvent := by rw [hcut]; rfl
  have hstate : (s.conn.connectDestroyed impl).1.state_ = .kDisconnected := by rw [hcut]; rfl
  have hframes : (s.conn.connectDestroyed impl).2 = [.call .connectionDown, .removeChannel] := by
    rw [hcut]
  have hupd := updated_updateTo s.conn.loop kNoneEvent
  unfold tearDown
  rw [hframes]
  simp only [List.foldl_cons, List.foldl_nil, finishFrame]
  generalize (s.conn.connectDestroyed impl).1 = c at *
  -- the callback finds a closed connection, whose channel it cannot touch
  have hq := (steady_during (c.record (.called .connectionDown)) hd).quiet
  have hkept := (hq.loop_of_closed hstate).trans hloop
  refine tornDown_remove ?_ (hq.kDisconnected_iff.mpr hstate) ?_ ?_
  · rw [hkept]
    exact hupd.inv h.epoll
  · rw [channel_, hkept]
    exact hupd.added h.epoll
  · rw [channel_, hkept]
    exact Channel.events_updateTo impl s.conn.loop () kNoneEvent

theorem tearDown_of_not_connected {c : Conn} (h : c.state_ ≠ .kConnected)
    (during : List (Bool × UserCall)) :
    tearDown c during = { c with loop := Channel.remove impl c.loop () } := by
  have hcut : c.connectDestroyed impl = (c, [.removeChannel]) := if_neg h
  rw [tearDown, hcut]
  rfl

theorem tearDown_of_closed (h : Attached s) (hs : s.conn.state_ = .kDisconnected)
    (during : List (Bool × UserCall)) : TornDown (tearDown s.conn during) := by
  rw [tearDown_of_not_connected (by simp [hs])]
  exact tornDown_remove h.epoll hs h.added (h.shut hs)

/-- `connectDestroyed` does nothing for a half closed connection but remove its channel, which still
reads. -/
theorem tearDown_of_disconnecting (h : Attached s) (hs : s.conn.state_ = .kDisconnecting)
    (during : List (Bool × UserCall)) :
    (tearDown s.conn during).state_ = .kDisconnecting ∧
      Assert.removeHasEvents ∈ (tearDown s.conn during).loop.failed := by
  rw [tearDown_of_not_connected (by simp [hs])]
  refine ⟨hs, removeHasEvents_of_events _ ?_⟩
  have hr := h.opened (by simp [hs])
  have hev : (s.conn.loop.chan ()).events_ ≠ kNoneEvent := Mask.ne_zero_of_has hr
  simpa [Channel.isNoneEvent] using hev

end Steps

/-- **When a tear-down is complete.**  In every state a connection can reach without switching its
reading, `connectDestroyed` leaves it disconnected, without events and in no poller, with no
assertion failed, exactly if the connection is not half closed; if it is, the assertion of
`Channel::remove` fails.  Between dispatches no dispatch is marked as running. -/
theorem tearDown_complete_iff (fd : ℕ) (run : List LoopAction)
    (hcalm : Along step (fun s a => s.calm a = true) (start fd) run)
    (during : List (Bool × UserCall))
    (hduring : ∀ u ∈ during, u.2 ≠ .startRead ∧ u.2 ≠ .stopRead) :
    let s := exec step (start fd) run
    (TornDown (tearDown s.conn during) ↔ s.conn.state_ ≠ .kDisconnecting) ∧
    (s.conn.state_ = .kDisconnecting →
      Assert.removeHasEvents ∈ (tearDown s.conn during).loop.failed) ∧
    (s.idle = true → s.conn.channel_.eventHandling_ = false) := by
  have h : Attached (exec step (start fd) run) :=
    along_invariant Attached (fun _ a hi hq => attached_step hi a hq) (attached_start fd) hcalm
  refine ⟨⟨fun ht hs => ?_, fun hs => ?_⟩, fun hs => (tearDown_of_disconnecting h hs during).2, ?_⟩
  · have := (tearDown_of_disconnecting h hs during).1
    rw [ht.state] at this
    cases this
  · cases hst : (exec step (start fd) run).conn.state_ with
    | kDisconnected => exact tearDown_of_closed h hst during
    | kConnecting => exact absurd hst h.connecting
    | kConnected => exact tearDown_of_connected h hst hduring
    | kDisconnecting => exact absurd hst hs
  · intro hidle
    obtain ⟨-, htodo⟩ := idle_iff.mp hidle
    have := h.handling
    simpa [htodo] using this

/-- A connection that its peer closed, torn down while the user still tries to write
and to close. -/
theorem peerClosed_tornDown :
    TornDown (tearDown (exec step (start 7) (ordinaryRun.take 18)).conn
      [(true, .send [1, 2] (.accepted 2)), (false, .forceClose)]) :=
  (tearDown_complete_iff 7 (ordinaryRun.take 18) (by decide +kernel) _ (by decide)).1.mpr
    (by decide +kernel)

/-- The user shuts the connection down in its first callback; the peer has not closed its side when
the server is destroyed. -/
def halfClosedRun : List LoopAction :=
  [.resume (.error 0) (.error 0 0), .user true .shutdown, .resume (.error 0) (.error 0 0)]

theorem halfClosed_notTornDown :
    Along step (fun s a => s.allowed a = true) (start 7) halfClosedRun ∧
    Along step (fun s a => s.calm a = true) (start 7) halfClosedRun ∧
    (tearDown (exec step (start 7) halfClosedRun).conn []).state_ = .kDisconnecting ∧
    (tearDown (exec step (start 7) halfClosedRun).conn []).channel_.isReading = true ∧
    Assert.removeHasEvents ∈
    (tearDown (exec step (start 7) halfClosedRun).conn []).loop.failed := by
  decide +kernel

/-! ### A closed connection stays out of the poller -/

/-- Orderly steps that also leave the interest list alone once the connection is closed:
`stopReadInLoop` may still run if reading was stopped before, and `connectDestroyed` finds the
connection closed or, being open, with a channel that asks for something. -/
def tidy (s : ConnectionLoop) : LoopAction → Bool
  | .functor w =>
      match s.conn.pending with
      | .stopReadInLoop :: _ => !closed s.conn || !s.conn.reading_
      | .connectDestroyed :: _ => closed s.conn || (s.conn.state_ == .kConnected && asking s.conn)
      | _ => s.orderly (.functor w)
  | .user true .stopRead => !closed s.conn || !s.conn.reading_
  | a => s.orderly a

/-- `CloseInv`, and a closed connection is not in the interest list. -/
structure Unwatched (s : ConnectionLoop) : Prop where
  close : CloseInv s
  index : s.conn.state_ = .kDisconnected → s.conn.channel_.index_ ≠ kAdded

section Closed

variable {s : ConnectionLoop}

/-- Stopping a closed connection whose reading was stopped before changes nothing. -/
theorem stopReadInLoop_of_stopped {c : Conn} (hr : c.reading_ = false) (ha : asking c = false) :
    c.stopReadInLoop impl = c := by
  refine if_neg ?_
  simp [hr, Channel.isReading, asking_eq_false.mp ha]

/-- A tidy step is orderly, or it stops a closed connection that was stopped before. -/
theorem tidy_cases {a : LoopAction} (ht : s.tidy a = true) :
    s.orderly a = true ∨ s.conn.state_ = .kDisconnected ∧ s.conn.reading_ = false ∧
      (a = .user true .stopRead ∨
        ∃ w rest, a = .functor w ∧ s.conn.pending = .stopReadInLoop :: rest) := by
  cases a with
  | functor w =>
      simp only [tidy] at ht
      split at ht
      · rename_i rest hp
        cases hc : closed s.conn with
        | false => exact Or.inl (by simp [orderly, hp, hc])
        | true =>
            refine Or.inr ⟨by simpa [closed] using hc, ?_, Or.inr ⟨w, rest, rfl, hp⟩⟩
            simpa [hc] using ht
      · rename_i hp
        simp only [orderly, hp]
        left
        cases hs : s.conn.state_ <;> simp [closed, hs] at ht ⊢
      · exact Or.inl ht
  | user inLoopThread call =>
      cases inLoopThread with
      | false => exact Or.inl ht
      | true =>
          cases call with
          | stopRead =>
              cases hc : closed s.conn with
              | false => exact Or.inl (by simp [orderly, hc])
              | true =>
                  refine Or.inr ⟨by simpa [closed] using hc, ?_, Or.inl rfl⟩
                  simpa [tidy, hc] using ht
          | _ => exact Or.inl ht
  | _ => exact Or.inl ht

theorem closeInv_tidy (h : CloseInv s) {a : LoopAction} (ha : s.allowed a = true)
    (ht : s.tidy a = true) : CloseInv (s.step a) := by
  rcases tidy_cases ht with ho | ⟨hd, hr, rfl | ⟨w, rest, rfl, hp⟩⟩
  · exact closeInv_step h a ha ho
  · have hstop := stopReadInLoop_of_stopped hr (h.shut hd).1
    simp only [step, userCall, stopRead, if_true, hstop]
    exact h
  · have hpop := closeInv_popPending h hp
    have hstop : (s.popPending rest).conn.stopReadInLoop impl = (s.popPending rest).conn :=
      stopReadInLoop_of_stopped hr (h.shut hd).1
    simp only [step, hp, runFunctor, hstop]
    exact hpop

/-- How the poller knows the channel. -/
def SameEntry (c c' : Conn) : Prop :=
  c'.channel_.index_ = c.channel_.index_ ∧ c'.channel_.addedToLoop_ = c.channel_.addedToLoop_

theorem sameEntry_of_loop {c c' : Conn} (h : c'.loop = c.loop) : SameEntry c c' := by
  simp [SameEntry, channel_, h]

theorem sameEntry_onChannel {f : Channel → Channel}
    (hf : ∀ ch, (f ch).index_ = ch.index_ ∧ (f ch).addedToLoop_ = ch.addedToLoop_) :
    SameEntry s.conn (s.onChannel f).conn := by
  rw [SameEntry, onChannel_channel_]
  exact hf _

theorem sameEntry_resume (h : CloseInv s) (hd : s.conn.state_ = .kDisconnected)
    {r : Buffer.ReadvResult} {w : WriteResult} (ht : s.tidy (.resume r w) = true)
    (hcalls : s.calls.head? ≠ some .removeChannel) : SameEntry s.conn (s.resume r w).conn := by
  unfold resume
  split
  · exact sameEntry_of_loop rfl
  · exact sameEntry_of_loop rfl
  · rename_i hc
    simp [hc] at hcalls
  · rename_i b rest hc htodo
    cases b with
    | error => exact sameEntry_of_loop rfl
    | read =>
        obtain ⟨b, ⟨heof, hr⟩ | hr | hr⟩ := handleRead_cases s.conn r
        · simp [tidy, orderly, hc, htodo, heof, (h.shut hd).1] at ht
        · exact sameEntry_of_loop (by simp only [runHandler, enter_conn, hr])
        · exact sameEntry_of_loop (by simp only [runHandler, enter_conn, hr])
    | write =>
        exact sameEntry_of_loop
          ((Quiet.handleWrite s.conn (isWriting_of_shut h) w).loop_of_closed hd)
    | done => exact sameEntry_onChannel (s := { s with todo := rest }) fun _ => ⟨rfl, rfl⟩
  · exact sameEntry_of_loop rfl

theorem sameEntry_functor (h : CloseInv s) (hd : s.conn.state_ = .kDisconnected) {f : Functor}
    {rest : List Functor} (hp : s.conn.pending = f :: rest) {w : WriteResult}
    (ht : s.tidy (.functor w) = true) :
    SameEntry s.conn ((s.popPending rest).runFunctor f w).conn := by
  have hd' : (s.popPending rest).conn.state_ = .kDisconnected := hd
  refine sameEntry_of_loop (show _ = (s.popPending rest).conn.loop from ?_)
  cases f with
  | sendInLoop message => exact (Quiet.sendInLoop _ message w).loop_of_closed hd'
  | shutdownInLoop => exact (Quiet.shutdownInLoop _).loop_of_closed hd'
  | startReadInLoop => simp [tidy, orderly, hp, closed, hd] at ht
  | stopReadInLoop =>
      have hr : s.conn.reading_ = false := by simpa [tidy, hp, closed, hd] using ht
      simp only [runFunctor]
      rw [stopReadInLoop_of_stopped (c := (s.popPending rest).conn) hr (h.shut hd).1]
  | forceCloseInLoop => simp [runFunctor, forceCloseInLoop, hd']
  | connectDestroyed => simp [runFunctor, connectDestroyed, hd']
  | writeCompleteCallback_ => rfl
  | highWaterMarkCallback_ len => rfl

/-- **A tidy step of a closed connection** leaves its entry in the poller alone, apart from the last
line of `connectDestroyed`. -/
theorem sameEntry_step (h : CloseInv s) (hd : s.conn.state_ = .kDisconnected) {a : LoopAction}
    (ha : s.allowed a = true) (ht : s.tidy a = true)
    (hcalls : ∀ r w, a = .resume r w → s.calls.head? ≠ some .removeChannel) :
    SameEntry s.conn (s.step a).conn := by
  cases a with
  | poll revents => exact sameEntry_onChannel fun _ => ⟨rfl, rfl⟩
  | dispatch =>
      simp only [allowed, Bool.and_eq_true] at ha
      exact absurd hd (h.active ha.2).1
  | resume r w => exact sameEntry_resume h hd ht (hcalls r w rfl)
  | functor w =>
      cases hp : s.conn.pending with
      | nil =>
          simp only [step, hp]
          exact sameEntry_of_loop rfl
      | cons f rest =>
          simp only [step, hp]
          exact sameEntry_functor h hd hp ht
  | user inLoopThread call =>
      refine sameEntry_of_loop ?_
      rcases tidy_cases ht with ho | ⟨-, hr, hc | ⟨w, rest, hc, -⟩⟩
      · refine (Quiet.userCall s.conn inLoopThread call ?_).loop_of_closed hd
        rintro rfl (rfl | rfl) <;> simpa [orderly, closed] using ho
      · cases hc
        simp [step, userCall, stopRead, stopReadInLoop_of_stopped hr (h.shut hd).1]
      · cases hc
  | destroy => exact sameEntry_of_loop rfl

/-! A tidy step that closes the connection takes its descriptor out of the interest list. -/

theorem index_dispatch (h : CloseInv s) (hopen : s.conn.state_ ≠ .kDisconnected)
    (ht : s.tidy .dispatch = true) (hd : s.handleEvent.conn.state_ = .kDisconnected) :
    s.handleEvent.conn.channel_.index_ = kDeleted := by
  have hset : EPollInv (s.conn.loop.modify () fun ch => { ch with eventHandling_ := true }) := by
    refine epollInv_modify h.epoll () ?_
    exact fun _ => ⟨rfl, rfl, rfl, rfl⟩
  have hchan := onChannel_channel_ (s := s) fun ch => { ch with eventHandling_ := true }
  simp only [handleEvent] at hd ⊢
  split at hd
  · rename_i hhup
    have hrev : hangup s.conn.channel_.revents_ = true := by
      simpa [lineUp, hchan] using hhup
    have hask : asking s.conn = true := by simpa [tidy, orderly, hrev] using ht
    rw [if_pos hhup]
    exact index_disableAll hset ((congrArg Channel.index_ hchan).trans (h.index hask))
  · exact absurd hd hopen

theorem index_resume (h : CloseInv s) (hopen : s.conn.state_ ≠ .kDisconnected)
    {r : Buffer.ReadvResult} {w : WriteResult} (ht : s.tidy (.resume r w) = true)
    (hd : (s.resume r w).conn.state_ = .kDisconnected) :
    (s.resume r w).conn.channel_.index_ = kDeleted := by
  unfold resume at hd ⊢
  split at hd
  · exact absurd hd hopen
  · exact absurd hd hopen
  · exact absurd hd hopen
  · rename_i b rest hc htodo
    cases b with
    | error => exact absurd hd hopen
    | read =>
        obtain ⟨b, ⟨heof, hr⟩ | hr | hr⟩ := handleRead_cases s.conn r <;>
          simp only [runHandler, enter_conn, hr] at hd ⊢
        · have hask : asking s.conn = true := by
            simp only [tidy, orderly, hc, htodo, heof, Bool.not_true, Bool.false_or,
              Bool.and_eq_true] at ht
            exact ht.2
          exact index_disableAll h.epoll (h.index hask)
        · exact absurd hd hopen
        · exact absurd hd hopen
    | write => exact absurd ((handleWrite_state_ s.conn w).symm.trans hd) hopen
    | done => exact absurd hd hopen
  · exact absurd hd hopen

theorem index_functor (h : CloseInv s) (hopen : s.conn.state_ ≠ .kDisconnected) {f : Functor}
    {rest : List Functor} (hp : s.conn.pending = f :: rest) {w : WriteResult}
    (ht : s.tidy (.functor w) = true)
    (hd : ((s.popPending rest).runFunctor f w).conn.state_ = .kDisconnected) :
    ((s.popPending rest).runFunctor f w).conn.channel_.index_ = kDeleted := by
  have hopen' : (s.popPending rest).conn.state_ ≠ .kDisconnected := hopen
  cases f with
  | sendInLoop message =>
      exact absurd ((Quiet.sendInLoop _ message w).kDisconnected_iff.mp hd) hopen'
  | shutdownInLoop => exact absurd ((Quiet.shutdownInLoop _).kDisconnected_iff.mp hd) hopen'
  | startReadInLoop =>
      exact absurd ((Quiet.startReadInLoop _ hopen').kDisconnected_iff.mp hd) hopen'
  | stopReadInLoop => exact absurd ((Quiet.stopReadInLoop _ hopen').kDisconnected_iff.mp hd) hopen'
  | writeCompleteCallback_ => exact absurd hd hopen
  | highWaterMarkCallback_ len => exact absurd hd hopen
  | forceCloseInLoop =>
      have hask : asking s.conn = true := by simpa [tidy, orderly, hp, closed, hopen] using ht
      simp only [runFunctor, forceCloseInLoop] at hd ⊢
      split at hd
      · rw [if_pos ‹_›]
        exact index_disableAll h.epoll (h.index hask)
      · exact absurd hd hopen
  | connectDestroyed =>
      have hup : s.conn.state_ = .kConnected ∧ asking s.conn = true := by
        simpa [tidy, hp, closed, hopen] using ht
      have hcut : (s.popPending rest).conn.connectDestroyed impl = _ := if_pos hup.1
      simp only [runFunctor, enter_conn, hcut]
      exact index_disableAll h.epoll (h.index hup.2)

theorem index_of_closing (h : CloseInv s) (hopen : s.conn.state_ ≠ .kDisconnected) {a : LoopAction}
    (ht : s.tidy a = true) (hd : (s.step a).conn.state_ = .kDisconnected) :
    (s.step a).conn.channel_.index_ = kDeleted := by
  cases a with
  | poll revents => exact absurd hd hopen
  | dispatch => exact index_dispatch h hopen ht hd
  | resume r w => exact index_resume h hopen ht hd
  | functor w =>
      cases hp : s.conn.pending with
      | nil =>
          simp only [step, hp] at hd
          exact absurd hd hopen
      | cons f rest =>
          simp only [step, hp] at hd ⊢
          exact index_functor h hopen hp ht hd
  | user inLoopThread call =>
      have hq := Quiet.userCall s.conn inLoopThread call fun _ _ => hopen
      exact absurd (hq.kDisconnected_iff.mp hd) hopen
  | destroy => exact absurd hd hopen

/-- The last line of `connectDestroyed` takes the channel out of the poller. -/
theorem removed_of_removeChannel (h : CloseInv s) (hcalls : s.calls.head? = some .removeChannel)
    (r : Buffer.ReadvResult) (w : WriteResult) :
    (s.resume r w).conn.channel_ = removed s.conn.channel_ := by
  obtain ⟨rest, hc⟩ := List.head?_eq_some_iff.mp hcalls
  obtain ⟨hshut, hadded, -⟩ := registered_of_removeChannel h hc
  simp only [resume, hc]
  rw [channel_, epoll_remove h.epoll () hadded (asking_eq_false.mp (h.shut hshut).1)]
  simp [channel_]

theorem unwatched_step (h : Unwatched s) {a : LoopAction} (ha : s.allowed a = true)
    (ht : s.tidy a = true) : Unwatched (s.step a) := by
  refine ⟨closeInv_tidy h.close ha ht, fun hd => ?_⟩
  by_cases hs : s.conn.state_ = .kDisconnected
  · by_cases hremove : ∃ r w, a = .resume r w ∧ s.calls.head? = some .removeChannel
    · obtain ⟨r, w, rfl, hc⟩ := hremove
      rw [step, removed_of_removeChannel h.close hc]
      simp [removed, kNew, kAdded]
    · have hsame := sameEntry_step h.close hs ha ht fun r w hr hc => hremove ⟨r, w, hr, hc⟩
      rw [hsame.1]
      exact h.index hs
  · rw [index_of_closing h.close hs ht hd]
    decide

/-- A removed channel is not registered again. -/
theorem removed_step (h : Unwatched s) (hg : s.conn.channel_.addedToLoop_ = false) {a : LoopAction}
    (ha : s.allowed a = true) (ht : s.tidy a = true) :
    (s.step a).conn.channel_.addedToLoop_ = false := by
  have hs : s.conn.state_ = .kDisconnected := by
    by_contra hopen
    simp [(h.close.opened hopen).1] at hg
  have hnone := (h.close.gone hg).2
  have hsame := sameEntry_step h.close hs ha ht fun r w _ hc => by
    have := List.count_pos_iff.mpr (List.mem_of_mem_head? hc)
    simp only [removals] at hnone
    omega
  rw [hsame.2]
  exact hg

end Closed

/-- **A closed connection stays out of the poller** in every run whose moves are tidy: no assertion
fails, a closed connection asks for nothing and is not in the interest list, and once the last line
of `connectDestroyed` has run the channel is in neither table of the poller again. -/
theorem closed_stays_out (fd : ℕ) (run : List LoopAction)
    (hallowed : Along step (fun s a => s.allowed a = true) (start fd) run)
    (htidy : Along step (fun s a => s.tidy a = true) (start fd) run) :
    let s := exec step (start fd) run
    s.conn.loop.failed = [] ∧
    (s.conn.state_ = .kDisconnected → s.conn.channel_.isNoneEvent = true ∧
      s.conn.loop.poller.interest.get? s.conn.channel_.fd_ = none) ∧
    (∀ pre r w post, run = pre ++ .resume r w :: post →
      (exec step (start fd) pre).calls.head? = some .removeChannel →
      hasChannel s.conn.loop () = false ∧
        s.conn.loop.poller.interest.get? s.conn.channel_.fd_ = none) := by
  have hboth := hallowed.and htidy
  have hstart : Unwatched (start fd) :=
    ⟨closeInv_start fd, fun hd => by simp [start, connectEstablished, setState] at hd⟩
  have hrun : ∀ {as : List LoopAction},
      Along step (fun s a => s.allowed a = true ∧ s.tidy a = true) (start fd) as →
      Unwatched (exec step (start fd) as) := fun has =>
    along_invariant Unwatched (fun _ a hi hq => unwatched_step hi hq.1 hq.2) hstart has
  have h := hrun hboth
  refine ⟨h.close.epoll.failed, fun hd => ⟨?_, ?_⟩, ?_⟩
  · simpa [asking] using (h.close.shut hd).1
  · exact (h.close.epoll.kernel.get ()).trans (if_neg (h.index hd))
  · rintro pre r w post rfl hc
    obtain ⟨hpre, hq, hpost⟩ := (along_append _ pre _).mp hboth
    have hbefore := hrun hpre
    have hafter : Unwatched (step (exec step (start fd) pre) (.resume r w)) :=
      unwatched_step hbefore hq.1 hq.2
    have hgone :
        (step (exec step (start fd) pre) (.resume r w)).conn.channel_.addedToLoop_ = false := by
      rw [step, removed_of_removeChannel hbefore.close hc]
      rfl
    have hend := along_invariant
      (fun s : ConnectionLoop => Unwatched s ∧ s.conn.channel_.addedToLoop_ = false)
      (fun _ a hi hq => ⟨unwatched_step hi.1 hq.1 hq.2, removed_step hi.1 hi.2 hq.1 hq.2⟩)
      ⟨hafter, hgone⟩ hpost
    rw [exec_append, exec_cons]
    exact unregistered_of_removed hend.1.close.epoll hend.2

/-- The user stops reading, starts again and the peer closes. -/
def rereadRun : List LoopAction :=
  [.resume (.error 0) (.error 0 0), .user true .stopRead, .user false .startRead,
    .resume (.error 0) (.error 0 0), .functor (.error 0 0), .user false .stopRead,
    .functor (.error 0 0), .user false .startRead, .functor (.error 0 0), .poll POLLIN, .dispatch,
    .resume (.data []) (.error 0 0), .resume (.error 0) (.error 0 0),
    .resume (.error 0) (.error 0 0),
    .resume (.error 0) (.error 0 0), .destroy, .resume (.error 0) (.error 0 0),
    .resume (.error 0) (.error 0 0), .functor (.error 0 0), .resume (.error 0) (.error 0 0),
    .user false .forceClose]

theorem rereadRun_staysOut :
    (exec step (start 7) rereadRun).conn.loop.failed = [] ∧
    hasChannel (exec step (start 7) rereadRun).conn.loop () = false := by
  have h := closed_stays_out 7 rereadRun (by decide +kernel) (by decide +kernel)
  exact ⟨h.1, (h.2.2 (rereadRun.take 19) (.error 0) (.error 0 0) (rereadRun.drop 20) (by decide)
    (by decide +kernel)).1⟩

/-- Another thread calls `startRead` just before the peer closes, so that `startReadInLoop` runs
after `handleClose`: the closed connection is registered for reading again, and `connectDestroyed`
finds its channel with events. -/
def lateStartRun : List LoopAction :=
  [.resume (.error 0) (.error 0 0), .resume (.error 0) (.error 0 0), .poll POLLIN, .dispatch,
    .user false .startRead, .resume (.data []) (.error 0 0), .resume (.error 0) (.error 0 0),
    .resume (.error 0) (.error 0 0), .resume (.error 0) (.error 0 0), .destroy,
    .resume (.error 0) (.error 0 0), .resume (.error 0) (.error 0 0), .functor (.error 0 0)]

theorem lateStart_registers_again :
    Along step (fun s a => s.allowed a = true) (start 7) (lateStartRun ++ [.functor (.error 0 0),
      .resume (.error 0) (.error 0 0)]) ∧
    (exec step (start 7) lateStartRun).conn.state_ = .kDisconnected ∧
    (exec step (start 7) lateStartRun).conn.channel_.isReading = true ∧
    (exec step (start 7) lateStartRun).conn.loop.poller.interest.get? 7 = some ⟨kReadEvent, ()⟩ ∧
    Assert.removeHasEvents ∈ (exec step (start 7) (lateStartRun ++ [.functor (.error 0 0),
      .resume (.error 0) (.error 0 0)])).conn.loop.failed := by
  decide +kernel

end ConnectionLoop

end Muduo.Net
