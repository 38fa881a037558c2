import Muduo.Net.ConnectionLoop

/-!
# Changes that keep a connection open

Most of what happens to a connection neither opens nor closes it: output, reading, a half close, the
calls a user makes.  `Quiet` says what all of these have in common, so that an invariant about
closing is proved for them once.

* `Updated` — the loop after updates of the channel, from the effect of one update;
* `Quiet` — a change that enters no user code, does not close, and touches the channel only while
  the connection is not closed; it composes (`Quiet.trans`, `Quiet.ite`);
* `Steady` — the elementary changes that output and the requests to close are made of,
  with one lemma for each member function; reading is left alone, and a steady change is
  quiet (`Steady.quiet`);
* `Quiet.userCall` — the whole user interface.
-/

namespace Muduo.Net

open Muduo.Lib EPollPoller

abbrev Conn := TcpConnection (EPollPoller Unit)

/-- Events that are neither an entry into `handleClose` nor a call into user code. -/
def Event.silent : Event → Bool
  | .handleClose _ | .called _ => false
  | _ => true

/-- The loop after some updates of the channel. -/
structure Updated (w w' : EPollPoller.Loop Unit) : Prop where
  inv : EPollInv w → EPollInv w'
  added : EPollInv w → (w'.chan ()).addedToLoop_ = true
  index : EPollInv w → (w'.chan ()).events_ ≠ kNoneEvent → (w'.chan ()).index_ = kAdded
  revents : EPollInv w → (w'.chan ()).revents_ = (w.chan ()).revents_

theorem updated_updateTo (w : EPollPoller.Loop Unit) (ev : Mask) :
    Updated w (Channel.updateTo impl w () ev) where
  inv h := epollInv_updateTo h () ev
  added h := by
    rw [epoll_updateTo h]
    simp [updated]
  index h := by
    rw [epoll_updateTo h]
    simp only [Function.update_self, updated, nextIndex]
    intro hev
    simp [hev]
  revents h := by
    rw [epoll_updateTo h]
    simp [updated]

theorem Updated.trans {w w' w'' : EPollPoller.Loop Unit} (h : Updated w w') (h' : Updated w' w'') :
    Updated w w'' where
  inv hw := h'.inv (h.inv hw)
  added hw := h'.added (h.inv hw)
  index hw := h'.index (h.inv hw)
  revents hw := (h'.revents (h.inv hw)).trans (h.revents hw)

/-- A change that neither opens nor closes the connection, enters no user code and does not queue
`connectDestroyed`; the channel is updated only while the connection is not closed. -/
structure Quiet (c c' : Conn) : Prop where
  state : c'.state_ = c.state_ ∨
    (c.state_ = .kConnected ∨ c.state_ = .kDisconnecting) ∧ c'.state_ = .kDisconnecting
  loop : c'.loop = c.loop ∨ c.state_ ≠ .kDisconnected ∧ Updated c.loop c'.loop
  log : ∃ es : List Event, c'.log = c.log ++ es ∧ ∀ e ∈ es, e.silent = true
  pending : ∃ fs : List Functor, c'.pending = c.pending ++ fs ∧ Functor.connectDestroyed ∉ fs

namespace Quiet

variable {c c' c'' : Conn}

theorem refl (c : Conn) : Quiet c c :=
  ⟨Or.inl rfl, Or.inl rfl, ⟨[], by simp⟩, ⟨[], by simp⟩⟩

theorem kDisconnected_iff (h : Quiet c c') :
    c'.state_ = .kDisconnected ↔ c.state_ = .kDisconnected := by
  rcases h.state with hs | ⟨hc, hs⟩
  · rw [hs]
  · rw [hs]
    rcases hc with hc | hc <;> simp [hc]

theorem trans (h : Quiet c c') (h' : Quiet c' c'') : Quiet c c'' where
  state := by
    rcases h'.state with hs' | ⟨hc', hs'⟩
    · rw [hs']
      exact h.state
    · rcases h.state with hs | ⟨hc, -⟩
      · exact Or.inr ⟨hs ▸ hc', hs'⟩
      · exact Or.inr ⟨hc, hs'⟩
  loop := by
    have hd : c'.state_ ≠ .kDisconnected → c.state_ ≠ .kDisconnected := mt h.kDisconnected_iff.mpr
    rcases h.loop with hl | ⟨hc, hl⟩ <;> rcases h'.loop with hl' | ⟨hc', hl'⟩
    · exact Or.inl (hl'.trans hl)
    · exact Or.inr ⟨hd hc', hl ▸ hl'⟩
    · exact Or.inr ⟨hc, hl' ▸ hl⟩
    · exact Or.inr ⟨hc, hl.trans hl'⟩
  log := by
    obtain ⟨es, hes, hsil⟩ := h.log
    obtain ⟨es', hes', hsil'⟩ := h'.log
    refine ⟨es ++ es', by rw [hes', hes, List.append_assoc], fun e he => ?_⟩
    exact (List.mem_append.mp he).elim (hsil e) (hsil' e)
  pending := by
    obtain ⟨fs, hfs, hno⟩ := h.pending
    obtain ⟨fs', hfs', hno'⟩ := h'.pending
    exact ⟨fs ++ fs', by rw [hfs', hfs, List.append_assoc], by simp [hno, hno']⟩

theorem ite (h : Quiet c c') (h' : Quiet c c'') (p : Prop) [Decidable p] :
    Quiet c (if p then c' else c'') := by
  split
  · exact h
  · exact h'

theorem record (c : Conn) {e : Event} (he : e.silent = true) : Quiet c (c.record e) :=
  ⟨Or.inl rfl, Or.inl rfl, ⟨[e], rfl, by simpa using he⟩, ⟨[], by simp [TcpConnection.record]⟩⟩

theorem queueInloop (c : Conn) {f : Functor} (hf : f ≠ .connectDestroyed) :
    Quiet c (c.queueInloop f) :=
  ⟨Or.inl rfl, Or.inl rfl, ⟨[], by simp [TcpConnection.queueInloop]⟩,
    ⟨[f], rfl, by simpa using hf.symm⟩⟩

theorem output (c : Conn) (f : Buffer → Buffer) :
    Quiet c { c with outputBuffer_ := f c.outputBuffer_ } :=
  ⟨Or.inl rfl, Or.inl rfl, ⟨[], by simp⟩, ⟨[], by simp⟩⟩

theorem input (c : Conn) (b : Buffer) : Quiet c { c with inputBuffer_ := b } :=
  ⟨Or.inl rfl, Or.inl rfl, ⟨[], by simp⟩, ⟨[], by simp⟩⟩

theorem disconnecting (c : Conn) (h : c.state_ = .kConnected ∨ c.state_ = .kDisconnecting) :
    Quiet c (c.setState .kDisconnecting) :=
  ⟨Or.inr ⟨h, rfl⟩, Or.inl rfl, ⟨[], by simp [TcpConnection.setState]⟩,
    ⟨[], by simp [TcpConnection.setState]⟩⟩

/-- An update of the channel of a connection that is not closed. -/
theorem update (c : Conn) (h : c.state_ ≠ .kDisconnected) (ev : Mask) (reading : Bool) :
    Quiet c { c with loop := Channel.updateTo impl c.loop () ev, reading_ := reading } :=
  ⟨Or.inl rfl, Or.inr ⟨h, updated_updateTo c.loop ev⟩, ⟨[], by simp⟩, ⟨[], by simp⟩⟩

theorem epollInv (h : Quiet c c') (hc : EPollInv c.loop) : EPollInv c'.loop := by
  rcases h.loop with hl | ⟨-, hu⟩
  · exact hl ▸ hc
  · exact hu.inv hc

theorem addedToLoop_ (h : Quiet c c') (hc : EPollInv c.loop) (ha : c.channel_.addedToLoop_ = true) :
    c'.channel_.addedToLoop_ = true := by
  rcases h.loop with hl | ⟨-, hu⟩
  · rwa [TcpConnection.channel_, hl]
  · exact hu.added hc

/-- A closed connection's channel is not touched. -/
theorem loop_of_closed (h : Quiet c c') (hd : c.state_ = .kDisconnected) : c'.loop = c.loop :=
  h.loop.resolve_right fun hu => hu.1 hd

end Quiet

/-! ### Steady changes -/

/-- The functors that output and a forced close queue. -/
def Functor.routine : Functor → Bool
  | .startReadInLoop | .stopReadInLoop | .connectDestroyed => false
  | _ => true

/-- What output, a half close and a request to close are made of: elementary changes that also leave
the reading interest alone. -/
inductive Steady (c : Conn) : Conn → Prop
  | refl : Steady c c
  | record {c' : Conn} (h : Steady c c') {e : Event} (he : e.silent = true) : Steady c (c'.record e)
  | queueInloop {c' : Conn} (h : Steady c c') {f : Functor} (hf : f.routine = true) :
      Steady c (c'.queueInloop f)
  | output {c' : Conn} (h : Steady c c') (g : Buffer → Buffer) :
      Steady c { c' with outputBuffer_ := g c'.outputBuffer_ }
  | input {c' : Conn} (h : Steady c c') (b : Buffer) : Steady c { c' with inputBuffer_ := b }
  | disconnecting {c' : Conn} (h : Steady c c')
      (hs : c'.state_ = .kConnected ∨ c'.state_ = .kDisconnecting) :
      Steady c (c'.setState .kDisconnecting)
  | update {c' : Conn} (h : Steady c c') (hs : c'.state_ ≠ .kDisconnected) {ev : Mask}
      (hev : ev.has kReadEvent = c'.channel_.isReading) :
      Steady c { c' with loop := Channel.updateTo impl c'.loop () ev }

namespace Steady

variable {c c' : Conn}

theorem quiet (h : Steady c c') : Quiet c c' := by
  induction h with
  | refl => exact Quiet.refl c
  | record _ he ih => exact ih.trans (Quiet.record _ he)
  | queueInloop _ hf ih =>
      exact ih.trans (Quiet.queueInloop _ fun hd => by simp [hd, Functor.routine] at hf)
  | output _ g ih => exact ih.trans (Quiet.output _ g)
  | input _ b ih => exact ih.trans (Quiet.input _ b)
  | disconnecting _ hs ih => exact ih.trans (Quiet.disconnecting _ hs)
  | update _ hs _ ih => exact ih.trans (Quiet.update _ hs _ _)

theorem isReading (h : Steady c c') : c'.channel_.isReading = c.channel_.isReading := by
  induction h with
  | update _ _ hev ih =>
      rw [TcpConnection.channel_, Channel.isReading, Channel.events_updateTo, hev]
      exact ih
  | refl => rfl
  | _ => assumption

/-- The flag of a running dispatch is the business of `handleEvent` only. -/
theorem eventHandling_ (h : Steady c c') (hc : EPollInv c.loop) :
    c'.channel_.eventHandling_ = c.channel_.eventHandling_ := by
  induction h with
  | update h _ _ ih =>
      rw [TcpConnection.channel_, epoll_updateTo (h.quiet.epollInv hc)]
      simpa [updated, TcpConnection.channel_] using ih
  | refl => rfl
  | _ => assumption

theorem pending (h : Steady c c') {f : Functor} (hf : f ∈ c'.pending) :
    f ∈ c.pending ∨ f.routine = true := by
  induction h with
  | queueInloop _ hr ih =>
      rcases List.mem_append.mp hf with hf | hf
      · exact ih hf
      · rw [List.mem_singleton.mp hf]
        exact Or.inr hr
  | refl => exact Or.inl hf
  | record _ _ ih => exact ih hf
  | output _ _ ih => exact ih hf
  | input _ _ ih => exact ih hf
  | disconnecting _ _ ih => exact ih hf
  | update _ _ _ ih => exact ih hf

theorem ite {c₁ c₂ : Conn} (h₁ : Steady c c₁) (h₂ : Steady c c₂) (p : Prop) [Decidable p] :
    Steady c (if p then c₁ else c₂) := by
  split
  · exact h₁
  · exact h₂

theorem shutdownInLoop (h : Steady c c') : Steady c c'.shutdownInLoop := h.ite (h.record rfl) _

theorem appendOutput (h : Steady c c') (hs : c'.state_ ≠ .kDisconnected) (rest : List Byte) :
    Steady c (c'.appendOutput impl rest) := by
  have hmark := (h.queueInloop (f := .highWaterMarkCallback_
    (c'.outputBuffer_.readableBytes + rest.length)) rfl).ite h
    (c'.highWaterMark_ ≤ c'.outputBuffer_.readableBytes + rest.length ∧
      c'.outputBuffer_.readableBytes < c'.highWaterMark_ ∧ c'.highWaterMarkCallback_)
  have hbuf := hmark.output fun b => b.append rest
  refine hbuf.ite (hbuf.update ?_ (Mask.has_read_enableWriting _)) _
  dsimp only
  split <;> exact hs

theorem writeDirectly (h : Steady c c') (data : List Byte) (r : WriteResult) :
    Steady c (c'.writeDirectly data r).1 := by
  cases r with
  | accepted n =>
      have hw : Steady c (c'.record (.write true (data.take (min n data.length)))) := h.record rfl
      exact (hw.queueInloop rfl).ite hw _
  | error errno logged => exact h.record rfl

theorem writeDirectly_state_ (c : Conn) (data : List Byte) (r : WriteResult) :
    (c.writeDirectly data r).1.state_ = c.state_ := by
  cases r with
  | accepted n =>
      simp only [TcpConnection.writeDirectly]
      split <;> rfl
  | error errno logged => rfl

theorem sendInLoop (h : Steady c c') (data : List Byte) (r : WriteResult) :
    Steady c (c'.sendInLoop impl data r) := by
  unfold TcpConnection.sendInLoop
  split
  · exact h
  · rename_i hopen
    dsimp only
    split
    · have hw := h.writeDirectly data r
      refine (hw.appendOutput ?_ _).ite hw _
      rwa [writeDirectly_state_]
    · exact (h.appendOutput hopen _).ite h _

theorem outputDrained (h : Steady c c') (hs : c'.state_ ≠ .kDisconnected) :
    Steady c (c'.outputDrained impl) := by
  have hoff := h.update hs (Mask.has_read_disableWriting c'.channel_.events_)
  have hqueued := (hoff.queueInloop (f := .writeCompleteCallback_) rfl).ite hoff
    c'.writeCompleteCallback_
  exact hqueued.shutdownInLoop.ite hqueued (_ = StateE.kDisconnecting)

theorem handleWrite (h : Steady c c') (hs : c'.isWriting = true → c'.state_ ≠ .kDisconnected)
    (r : WriteResult) : Steady c (c'.handleWrite impl r) := by
  unfold TcpConnection.handleWrite
  split
  · rename_i hw
    cases r with
    | error errno logged => exact h.record rfl
    | accepted k =>
        generalize hn : min k c'.outputBuffer_.readable.length = n
        have hwrite : Steady c (c'.record (.write false (c'.outputBuffer_.readable.take n))) :=
          h.record rfl
        have hout := hwrite.output fun b => b.retrieve n
        simp only [hn]
        exact ((hout.outputDrained (hs hw)).ite hout _).ite hwrite _
  · exact h

/-- The user calls that leave reading alone. -/
theorem userCall (h : Steady c c') (inLoopThread : Bool) {call : UserCall}
    (hcall : call ≠ .startRead ∧ call ≠ .stopRead) :
    Steady c (ConnectionLoop.userCall c' inLoopThread call) := by
  cases call with
  | send message r => exact ((h.sendInLoop message r).ite (h.queueInloop rfl) _).ite h _
  | shutdown =>
      simp only [ConnectionLoop.userCall, TcpConnection.shutdown]
      split
      · rename_i hs
        have hset := h.disconnecting (Or.inl hs)
        exact hset.shutdownInLoop.ite (hset.queueInloop rfl) _
      · exact h
  | forceClose =>
      simp only [ConnectionLoop.userCall, TcpConnection.forceClose]
      split
      · rename_i hs
        exact (h.disconnecting hs).queueInloop rfl
      · exact h
  | forceCloseWithDelay =>
      simp only [ConnectionLoop.userCall, TcpConnection.forceCloseWithDelay]
      split
      · rename_i hs
        exact h.disconnecting hs
      · exact h
  | startRead => exact absurd rfl hcall.1
  | stopRead => exact absurd rfl hcall.2

end Steady

/-! ### The quiet member functions -/

namespace Quiet

theorem shutdownInLoop (c : Conn) : Quiet c c.shutdownInLoop := Steady.refl.shutdownInLoop.quiet

theorem sendInLoop (c : Conn) (data : List Byte) (r : WriteResult) :
    Quiet c (c.sendInLoop impl data r) := (Steady.refl.sendInLoop data r).quiet

theorem handleWrite (c : Conn) (h : c.isWriting = true → c.state_ ≠ .kDisconnected)
    (r : WriteResult) : Quiet c (c.handleWrite impl r) := (Steady.refl.handleWrite h r).quiet

theorem startReadInLoop (c : Conn) (h : c.state_ ≠ .kDisconnected) :
    Quiet c (c.startReadInLoop impl) := (update c h _ true).ite (refl c) _

theorem stopReadInLoop (c : Conn) (h : c.state_ ≠ .kDisconnected) :
    Quiet c (c.stopReadInLoop impl) := (update c h _ false).ite (refl c) _

/-- Every user call is quiet, except that reading must not be switched on the loop thread of
a closed connection. -/
theorem userCall (c : Conn) (inLoopThread : Bool) (call : UserCall)
    (h : inLoopThread = true → call = .startRead ∨ call = .stopRead → c.state_ ≠ .kDisconnected) :
    Quiet c (ConnectionLoop.userCall c inLoopThread call) := by
  cases call with
  | startRead =>
      simp only [ConnectionLoop.userCall, TcpConnection.startRead]
      split
      · exact startReadInLoop c (h ‹_› (Or.inl rfl))
      · exact queueInloop c (by simp)
  | stopRead =>
      simp only [ConnectionLoop.userCall, TcpConnection.stopRead]
      split
      · exact stopReadInLoop c (h ‹_› (Or.inr rfl))
      · exact queueInloop c (by simp)
  | _ => exact (Steady.refl.userCall inLoopThread (by simp)).quiet

end Quiet

end Muduo.Net
