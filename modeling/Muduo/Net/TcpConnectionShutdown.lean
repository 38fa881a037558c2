import Muduo.Net.EPollPoller
import Muduo.Net.TcpConnectionOutput

/-!
# A half close while other threads send

`send()` and `shutdown()` may be called by any thread.  Each tests `state_` first and acts later:
the loop thread goes on to `sendInLoop` or `shutdownInLoop` at once, any other thread queues it.
This file runs any number of such threads against the functors and the writable events of the loop.

* `Senders` — the connection, and how far every thread is in its call;
* `settled` — `SHUT_WR` is issued only when no message is queued or about to be;
* `Graceful` — the invariant of settled runs, with `graceful_step`;
* `shutdown_delivers` — what was sent before `shutdown()` is written before `SHUT_WR`, and nothing
  is written after it; `lostMessage` is a run with a step that is not settled.
-/

namespace Muduo.Net

open Muduo.Lib

def Event.isWrite : Event → Bool
  | .write _ _ | .writeError _ _ _ _ => true
  | _ => false

def Event.isShutdown : Event → Bool
  | .shutdownWrite _ _ => true
  | _ => false

def Functor.isCallback : Functor → Bool
  | .writeCompleteCallback_ | .highWaterMarkCallback_ _ => true
  | _ => false

namespace TcpConnection

/-! ### What output does to the log and to the queue -/

/-- Bytes were written or buffered: writes on the log, callbacks in the queue. -/
structure Writes {P : Type*} (c c' : TcpConnection P) : Prop where
  state : c'.state_ = c.state_
  pending : ∃ fs : List Functor, c'.pending = c.pending ++ fs ∧ ∀ f ∈ fs, f.isCallback = true
  log : ∃ es : List Event, c'.log = c.log ++ es ∧ ∀ e ∈ es, e.isWrite = true

namespace Writes

variable {P : Type*} {c c' c'' : TcpConnection P}

theorem refl (c : TcpConnection P) : Writes c c := ⟨rfl, ⟨[], by simp⟩, ⟨[], by simp⟩⟩

theorem trans (h : Writes c c') (h' : Writes c' c'') : Writes c c'' where
  state := h'.state.trans h.state
  pending := by
    obtain ⟨fs, hfs, hcb⟩ := h.pending
    obtain ⟨fs', hfs', hcb'⟩ := h'.pending
    refine ⟨fs ++ fs', by rw [hfs', hfs, List.append_assoc], fun f hf => ?_⟩
    exact (List.mem_append.mp hf).elim (hcb f) (hcb' f)
  log := by
    obtain ⟨es, hes, hw⟩ := h.log
    obtain ⟨es', hes', hw'⟩ := h'.log
    refine ⟨es ++ es', by rw [hes', hes, List.append_assoc], fun e he => ?_⟩
    exact (List.mem_append.mp he).elim (hw e) (hw' e)

theorem ite (h : Writes c c') (h' : Writes c c'') (p : Prop) [Decidable p] :
    Writes c (if p then c' else c'') := by
  split
  · exact h
  · exact h'

theorem record (c : TcpConnection P) {e : Event} (he : e.isWrite = true) : Writes c (c.record e) :=
  ⟨rfl, ⟨[], by simp [TcpConnection.record]⟩, ⟨[e], rfl, by simpa using he⟩⟩

theorem queueInloop (c : TcpConnection P) {f : Functor} (hf : f.isCallback = true) :
    Writes c (c.queueInloop f) :=
  ⟨rfl, ⟨[f], rfl, by simpa using hf⟩, ⟨[], by simp [TcpConnection.queueInloop]⟩⟩

theorem output (c : TcpConnection P) (g : Buffer → Buffer) :
    Writes c { c with outputBuffer_ := g c.outputBuffer_ } :=
  ⟨rfl, ⟨[], by simp⟩, ⟨[], by simp⟩⟩

theorem loop (c : TcpConnection P) (w : World P Unit) : Writes c { c with loop := w } :=
  ⟨rfl, ⟨[], by simp⟩, ⟨[], by simp⟩⟩

variable (poller : Poller P Unit)

theorem appendOutput (c : TcpConnection P) (rest : List Byte) :
    Writes c (c.appendOutput poller rest) := by
  have hmark := (queueInloop c (f := .highWaterMarkCallback_
    (c.outputBuffer_.readableBytes + rest.length)) rfl).ite (refl c)
    (c.highWaterMark_ ≤ c.outputBuffer_.readableBytes + rest.length ∧
      c.outputBuffer_.readableBytes < c.highWaterMark_ ∧ c.highWaterMarkCallback_)
  have hbuf := hmark.trans (output _ fun b => b.append rest)
  exact hbuf.ite (hbuf.trans (loop _ _)) _

theorem writeDirectly (c : TcpConnection P) (data : List Byte) (r : WriteResult) :
    Writes c (c.writeDirectly data r).1 := by
  cases r with
  | accepted n =>
      have hw : Writes c (c.record (.write true (data.take (min n data.length)))) := record c rfl
      exact (hw.trans (queueInloop _ rfl)).ite hw _
  | error errno => exact record c rfl

theorem sendInLoop (c : TcpConnection P) (data : List Byte) (r : WriteResult) :
    Writes c (c.sendInLoop poller data r) := by
  unfold TcpConnection.sendInLoop
  split
  · exact refl c
  · dsimp only
    split
    · have hw := writeDirectly c data r
      exact (hw.trans (appendOutput poller _ _)).ite hw _
    · exact (appendOutput poller c _).ite (refl c) _

theorem outputDrained_cases (c : TcpConnection P) :
    ∃ d, Writes c d ∧ d.isWriting = false ∧
      (c.outputDrained poller = d ∨ c.state_ = .kDisconnecting ∧
        c.outputDrained poller = d.record (.shutdownWrite d.state_ d.outputBuffer_.readable)) := by
  have hloop := loop c (Channel.disableWriting poller c.loop ())
  -- the connection when the state is tested
  obtain ⟨d, hd, hoff, hend⟩ : ∃ d, Writes c d ∧ d.isWriting = false ∧
      c.outputDrained poller = if d.state_ = .kDisconnecting then d.shutdownInLoop else d := by
    refine ⟨_, (hloop.trans (queueInloop _ (f := .writeCompleteCallback_) rfl)).ite hloop
      c.writeCompleteCallback_, ?_, rfl⟩
    split <;>
      simp [isWriting, channel_, TcpConnection.queueInloop, Channel.isWriting,
        Channel.disableWriting]
  have hrecord : d.shutdownInLoop = d.record (.shutdownWrite d.state_ d.outputBuffer_.readable) :=
    if_neg (by simp [hoff])
  refine ⟨d, hd, hoff, ?_⟩
  rw [hend, hrecord]
  split
  · rename_i hs
    exact Or.inr ⟨hd.state ▸ hs, rfl⟩
  · exact Or.inl rfl

/-- Three ways through `handleWrite`: nothing to write, a write that is not followed by `SHUT_WR`,
and the write that empties the buffer of a connection being shut down. -/
theorem handleWrite_cases (c : TcpConnection P) (r : WriteResult) :
    c.isWriting = false ∧ c.handleWrite poller r = c ∨
    c.isWriting = true ∧ Writes c (c.handleWrite poller r) ∨
    ∃ d st unsent k, r = .accepted k ∧ c.isWriting = true ∧ c.state_ = .kDisconnecting ∧
      0 < c.outputBuffer_.readableBytes ∧ c.outputBuffer_.readableBytes ≤ k ∧
      Writes c d ∧ d.isWriting = false ∧ c.handleWrite poller r = d.record
        (.shutdownWrite st unsent) := by
  cases hw : c.isWriting with
  | false => exact Or.inl ⟨rfl, if_neg (by simp [hw])⟩
  | true =>
      right
      have hrun : c.handleWrite poller r = _ := if_pos hw
      rw [hrun]
      cases r with
      | error errno => exact Or.inl ⟨rfl, record c rfl⟩
      | accepted k =>
          dsimp only
          generalize hn : min k c.outputBuffer_.readable.length = m
          have hwrite : Writes c (c.record (.write false (c.outputBuffer_.readable.take m))) :=
            record c rfl
          have hout := hwrite.trans (output _ fun b => b.retrieve m)
          have hlen := c.outputBuffer_.readableBytes_eq
          split
          swap
          · exact Or.inl ⟨rfl, hwrite⟩
          split
          swap
          · exact Or.inl ⟨rfl, hout⟩
          rename_i hpos hall
          -- the buffer is empty now, so all of it was taken
          have hleft := Buffer.readableBytes_eq (c.outputBuffer_.retrieve m)
          rw [Buffer.readable_retrieve, List.length_drop] at hleft
          change (c.outputBuffer_.retrieve m).readableBytes = 0 at hall
          obtain ⟨d, hd, hoff, hend | ⟨hstate, hend⟩⟩ := outputDrained_cases poller
            { c.record (.write false (c.outputBuffer_.readable.take m)) with
              outputBuffer_ := c.outputBuffer_.retrieve m }
          · exact Or.inl ⟨rfl, hend ▸ hout.trans hd⟩
          · exact Or.inr ⟨d, _, _, k, rfl, rfl, hstate, by omega, by omega, hout.trans hd, hoff,
              hend⟩

end Writes

/-- How far a thread is in `send` or `shutdown`. -/
inductive Phase where
  | idle
  /-- `send` has seen `kConnected`. -/
  | sending (message : List Byte)
  /-- `shutdown` has seen `kConnected`. -/
  | shuttingDown
  /-- `shutdown` has executed `setState(kDisconnecting)`. -/
  | disconnecting
  deriving DecidableEq

def Phase.isSending : Phase → Bool
  | .sending _ => true
  | _ => false

/-- The connection and `n + 1` threads; thread `0` is the loop thread.  The lists are bookkeeping:
`passed` holds the messages given to `sendInLoop`, `completed` those whose `send` returned after
seeing `kConnected`, `promised` those that did so before `shutdown()` was first called. -/
structure Senders (P : Type*) (n : ℕ) where
  conn : TcpConnection P
  phase : Fin (n + 1) → Phase
  called : Bool
  passed : List (List Byte)
  completed : List (List Byte)
  promised : List (List Byte)

inductive SendAction (n : ℕ) where
  /-- Thread `t` enters `send` and tests the state. -/
  | send (t : Fin (n + 1)) (message : List Byte)
  /-- Thread `t` goes on: the loop thread writes, any other thread queues. -/
  | finishSend (t : Fin (n + 1)) (r : WriteResult)
  | shutdown (t : Fin (n + 1))
  | setDisconnecting (t : Fin (n + 1))
  | finishShutdown (t : Fin (n + 1))
  /-- `doPendingFunctors` runs the next functor. -/
  | functor (r : WriteResult)
  /-- The channel is writable. -/
  | writable (r : WriteResult)
  deriving DecidableEq

namespace Senders

variable {P : Type*} {n : ℕ} (poller : Poller P Unit)

def setPhase (s : Senders P n) (t : Fin (n + 1)) (p : Phase) : Senders P n :=
  { s with phase := Function.update s.phase t p }

@[simp] theorem setPhase_conn (s : Senders P n) (t : Fin (n + 1)) (p : Phase) :
    (s.setPhase t p).conn = s.conn := rfl

/-- `sendInLoop`, on the books. -/
def pass (s : Senders P n) (message : List Byte) (r : WriteResult) : Senders P n :=
  { s with conn := s.conn.sendInLoop poller message r, passed := s.passed ++ [message] }

/-- A `send` that saw `kConnected` returns. -/
def complete (s : Senders P n) (message : List Byte) : Senders P n :=
  { s with
    completed := s.completed ++ [message]
    promised := if s.called then s.promised else s.promised ++ [message] }

@[simp] theorem complete_conn (s : Senders P n) (message : List Byte) :
    (s.complete message).conn = s.conn := rfl

def runFunctor (s : Senders P n) (f : Functor) (r : WriteResult) : Senders P n :=
  match f with
  | .sendInLoop message => s.pass poller message r
  | .shutdownInLoop => { s with conn := s.conn.shutdownInLoop }
  | _ => s

def popPending (s : Senders P n) (rest : List Functor) : Senders P n :=
  { s with conn := { s.conn with pending := rest } }

def step (s : Senders P n) : SendAction n → Senders P n
  | .send t message => if s.conn.state_ = .kConnected then s.setPhase t (.sending message) else s
  | .finishSend t r =>
      match s.phase t with
      | .sending message =>
          let s₁ := (s.setPhase t .idle).complete message
          if t = 0 then s₁.pass poller message r
          else { s₁ with conn := s₁.conn.queueInloop (.sendInLoop message) }
      | _ => s
  | .shutdown t =>
      let s₁ := { s with called := true }
      if s₁.conn.state_ = .kConnected then s₁.setPhase t .shuttingDown else s₁
  | .setDisconnecting t =>
      match s.phase t with
      | .shuttingDown =>
          { s.setPhase t .disconnecting with conn := s.conn.setState .kDisconnecting }
      | _ => s
  | .finishShutdown t =>
      match s.phase t with
      | .disconnecting =>
          let s₁ := s.setPhase t .idle
          if t = 0 then { s₁ with conn := s₁.conn.shutdownInLoop }
          else { s₁ with conn := s₁.conn.queueInloop .shutdownInLoop }
      | _ => s
  | .functor r =>
      match s.conn.pending with
      | f :: rest => (s.popPending rest).runFunctor poller f r
      | [] => s
  | .writable r => { s with conn := s.conn.handleWrite poller r }

/-- A thread makes one call at a time, and the loop thread runs functors and handlers in between. -/
def allowed (s : Senders P n) : SendAction n → Bool
  | .send t _ | .shutdown t => s.phase t == .idle
  | .functor _ | .writable _ => s.phase 0 == .idle
  | _ => true

/-- The step issues `SHUT_WR`. -/
def halfCloses (s : Senders P n) : SendAction n → Bool
  | .finishShutdown t => t == 0 && s.phase t == .disconnecting && !s.conn.isWriting
  | .functor _ => s.conn.pending.head? == some .shutdownInLoop && !s.conn.isWriting
  | .writable (.accepted k) =>
      s.conn.isWriting && s.conn.state_ == .kDisconnecting &&
        (0 < s.conn.outputBuffer_.readableBytes && s.conn.outputBuffer_.readableBytes ≤ k)
  | _ => false

/-- The messages that wait in the functor queue. -/
def queued (pending : List Functor) : List (List Byte) := pending.filterMap fun
  | .sendInLoop message => some message
  | _ => none

/-- No message is in the functor queue or between the test and the queue. -/
def noneInFlight (s : Senders P n) : Prop :=
  queued s.conn.pending = [] ∧ ∀ t, (s.phase t).isSending = false

instance (s : Senders P n) : Decidable s.noneInFlight := inferInstanceAs (Decidable (_ ∧ _))

/-- `SHUT_WR` waits for the messages in flight. -/
def settled (s : Senders P n) (a : SendAction n) : Prop := s.halfCloses a = true → s.noneInFlight

instance (s : Senders P n) (a : SendAction n) : Decidable (s.settled a) :=
  inferInstanceAs (Decidable (_ → _))

@[simp] theorem queued_append (fs gs : List Functor) :
    queued (fs ++ gs) = queued fs ++ queued gs := List.filterMap_append

theorem queued_tail {f : Functor} {rest : List Functor} (h : queued (f :: rest) = []) :
    queued rest = [] := (List.append_eq_nil_iff.mp (queued_append [f] rest ▸ h)).2

theorem queued_callbacks {fs : List Functor} (h : ∀ f ∈ fs, f.isCallback = true) :
    queued fs = [] := by
  refine List.filterMap_eq_nil_iff.mpr fun f hf => ?_
  cases f with
  | sendInLoop message => simpa [Functor.isCallback] using h _ hf
  | _ => rfl

/-- Every completed message was passed on or waits in the queue, and those completed before
`shutdown()` was called come first. -/
structure Books (called : Bool) (passed queue completed promised : List (List Byte)) : Prop where
  perm : completed.Perm (passed ++ queue)
  early : promised <+: completed
  uncalled : called = false → promised = completed

section Books

variable {called : Bool} {passed queue completed promised : List (List Byte)} {message : List Byte}

theorem Books.early_complete (h : Books called passed queue completed promised)
    (message : List Byte) :
    (if called then promised else promised ++ [message]) <+: completed ++ [message] ∧
    (called = false →
      (if called then promised else promised ++ [message]) = completed ++ [message]) := by
  cases hc : called with
  | true => exact ⟨h.early.trans (List.prefix_append _ _), by simp⟩
  | false => simp [h.uncalled hc]

/-- A message is completed and passed on. -/
theorem Books.pass (h : Books called passed queue completed promised) (message : List Byte) :
    Books called (passed ++ [message]) queue (completed ++ [message])
      (if called then promised else promised ++ [message]) := by
  obtain ⟨hearly, huncalled⟩ := h.early_complete message
  refine ⟨?_, hearly, huncalled⟩
  refine (h.perm.append_right [message]).trans ?_
  rw [List.append_assoc, List.append_assoc]
  exact List.perm_append_comm.append_left passed

/-- A message is completed and queued. -/
theorem Books.enqueue (h : Books called passed queue completed promised) (message : List Byte) :
    Books called passed (queue ++ [message]) (completed ++ [message])
      (if called then promised else promised ++ [message]) := by
  obtain ⟨hearly, huncalled⟩ := h.early_complete message
  refine ⟨?_, hearly, huncalled⟩
  rw [← List.append_assoc]
  exact h.perm.append_right _

/-- The oldest message of the queue is passed on. -/
theorem Books.shift (h : Books called passed (message :: queue) completed promised) :
    Books called (passed ++ [message]) queue completed promised :=
  ⟨by simpa using h.perm, h.early, h.uncalled⟩

end Books

/-- The control part of the invariant: `SHUT_WR` follows `kDisconnecting`, and once it was issued
nothing is waiting anywhere and nothing was written. -/
structure Ordered (s : Senders P n) : Prop where
  state : s.conn.state_ = .kConnected ∨ s.conn.state_ = .kDisconnecting
  disconnecting : ∀ t, s.phase t = .disconnecting → s.conn.state_ = .kDisconnecting
  pending : Functor.shutdownInLoop ∈ s.conn.pending → s.conn.state_ = .kDisconnecting
  silent : s.conn.log.Pairwise fun e e' => e.isShutdown = true → e'.isWrite = false
  shut : (∃ e ∈ s.conn.log, e.isShutdown = true) →
    s.conn.state_ = .kDisconnecting ∧ s.conn.isWriting = false ∧ s.noneInFlight

/-- The invariant of settled runs. -/
structure Graceful (s : Senders P n) : Prop extends Ordered s where
  out : OutInv s.passed.flatten s.conn
  books : Books s.called s.passed (queued s.conn.pending) s.completed s.promised

section Steps

variable {s : Senders P n}

theorem Ordered.opened (h : Ordered s) : s.conn.state_ ≠ .kDisconnected := by
  rcases h.state with hs | hs <;> simp [hs]

/-- While a message is in flight, or bytes are to be written, `SHUT_WR` was not issued. -/
theorem Ordered.unshut (h : Ordered s)
    (hbusy : s.conn.state_ = .kConnected ∨ s.conn.isWriting = true ∨
      queued s.conn.pending ≠ [] ∨ ∃ t, (s.phase t).isSending = true) :
    ∀ e ∈ s.conn.log, e.isShutdown = false := by
  intro e he
  by_contra hshut
  obtain ⟨hstate, hoff, hqueue, hphase⟩ := h.shut ⟨e, he, by simpa using hshut⟩
  rcases hbusy with hb | hb | hb | ⟨t, hb⟩
  · simp [hstate] at hb
  · simp [hoff] at hb
  · exact hb hqueue
  · simp [hphase t] at hb

/-- A log without `SHUT_WR` may grow by any writes. -/
theorem unshut_append {log es : List Event} (h : ∀ e ∈ log, e.isShutdown = false)
    (hes : ∀ e ∈ es, e.isWrite = true) : ∀ e ∈ log ++ es, e.isShutdown = false := by
  intro e he
  rcases List.mem_append.mp he with he | he
  · exact h e he
  · have := hes e he
    cases e <;> simp_all [Event.isWrite, Event.isShutdown]

theorem pairwise_of_unshut {log : List Event} (h : ∀ e ∈ log, e.isShutdown = false) :
    log.Pairwise fun e e' => e.isShutdown = true → e'.isWrite = false := by
  refine List.pairwise_of_forall_mem_list fun e he e' _ hs => ?_
  simp [h e he] at hs

theorem queued_writes {c c' : TcpConnection P} (hw : Writes c c') :
    queued c'.pending = queued c.pending := by
  obtain ⟨fs, hfs, hcb⟩ := hw.pending
  rw [hfs, queued_append, queued_callbacks hcb, List.append_nil]

/-- Writing, while `SHUT_WR` has not been issued. -/
theorem ordered_writes (h : Ordered s) (hun : ∀ e ∈ s.conn.log, e.isShutdown = false)
    {c' : TcpConnection P} (hw : Writes s.conn c') : Ordered { s with conn := c' } := by
  obtain ⟨fs, hfs, hcb⟩ := hw.pending
  obtain ⟨es, hes, hwr⟩ := hw.log
  have hun' := unshut_append hun hwr
  constructor
  case state =>
    rw [hw.state]
    exact h.state
  case disconnecting =>
    rw [hw.state]
    exact h.disconnecting
  case pending =>
    rw [hw.state, hfs]
    intro hm
    rcases List.mem_append.mp hm with hm | hm
    · exact h.pending hm
    · simpa [Functor.isCallback] using hcb _ hm
  case silent =>
    rw [hes]
    exact pairwise_of_unshut hun'
  case shut =>
    rw [hes]
    rintro ⟨e, he, hs⟩
    simp [hun' e he] at hs

/-- `SHUT_WR` on a connection with nothing to write and nothing in flight. -/
theorem ordered_shutdownWrite (h : Ordered s) (hstate : s.conn.state_ = .kDisconnecting)
    (hoff : s.conn.isWriting = false) (hnone : s.noneInFlight) (st : StateE) (unsent : List Byte) :
    Ordered { s with conn := s.conn.record (.shutdownWrite st unsent) } := by
  refine { h with
    silent := ?_
    shut := fun _ => ⟨hstate, hoff, hnone⟩ }
  refine List.pairwise_append.mpr ⟨h.silent, List.pairwise_singleton _ _, ?_⟩
  intro e _ e' he' _
  rw [List.mem_singleton.mp he']
  rfl

theorem graceful_shutdownInLoop (h : Graceful s) (hstate : s.conn.state_ = .kDisconnecting)
    (hnone : s.conn.isWriting = false → s.noneInFlight) :
    Graceful { s with conn := s.conn.shutdownInLoop } := by
  have hout := outInv_shutdownInLoop h.out
  cases hw : s.conn.isWriting with
  | true =>
      rw [show s.conn.shutdownInLoop = s.conn from if_pos hw]
      exact h
  | false =>
      have hrec : s.conn.shutdownInLoop =
          s.conn.record (.shutdownWrite s.conn.state_ s.conn.outputBuffer_.readable) :=
        if_neg (by simp [hw])
      rw [hrec] at hout ⊢
      exact ⟨ordered_shutdownWrite h.toOrdered hstate hw (hnone hw) _ _, hout, h.books⟩

theorem phase_setPhase {t u : Fin (n + 1)} {p q : Phase} (h : (s.setPhase t p).phase u = q) :
    p = q ∨ s.phase u = q := by
  by_cases hut : u = t
  · subst hut
    exact Or.inl (by simpa [setPhase] using h)
  · exact Or.inr (by simpa [setPhase, Function.update_of_ne hut] using h)

theorem isSending_setPhase {t : Fin (n + 1)} {p : Phase} (hp : p.isSending = false)
    (hs : ∀ u, (s.phase u).isSending = false) (u : Fin (n + 1)) :
    ((s.setPhase t p).phase u).isSending = false := by
  rcases phase_setPhase (s := s) (t := t) (p := p) (u := u) rfl with hsame | hother
  · exact hsame ▸ hp
  · exact hother ▸ hs u

/-- A thread moves on in its call. -/
theorem ordered_setPhase (h : Ordered s) (t : Fin (n + 1)) {p : Phase}
    (hsend : p.isSending = true → s.conn.state_ = .kConnected)
    (hdis : p = .disconnecting → s.conn.state_ = .kDisconnecting) : Ordered (s.setPhase t p) := by
  refine { h with
    disconnecting := fun u hu => (phase_setPhase hu).elim hdis (h.disconnecting u)
    shut := fun hs => ?_ }
  obtain ⟨hstate, hoff, hqueue, hphase⟩ := h.shut hs
  refine ⟨hstate, hoff, hqueue, isSending_setPhase ?_ hphase⟩
  by_contra hs
  simp [hsend (by simpa using hs)] at hstate

theorem ordered_idle (h : Ordered s) (t : Fin (n + 1)) : Ordered (s.setPhase t .idle) :=
  ordered_setPhase h t (by simp [Phase.isSending]) (by simp)

theorem ordered_popPending (h : Ordered s) {f : Functor} {rest : List Functor}
    (hp : s.conn.pending = f :: rest) : Ordered (s.popPending rest) := by
  have hsub : ∀ g ∈ rest, g ∈ s.conn.pending := fun g hg => hp ▸ List.mem_cons_of_mem f hg
  refine { h with
    pending := fun hm => h.pending (hsub _ hm)
    shut := fun hs => ?_ }
  obtain ⟨hstate, hoff, hqueue, hfree⟩ := h.shut hs
  rw [hp] at hqueue
  exact ⟨hstate, hoff, queued_tail hqueue, hfree⟩

/-- `send` returns: the message is on the books, passed on or queued. -/
theorem graceful_finishSend (h : Graceful s) (t : Fin (n + 1)) (r : WriteResult) :
    Graceful (step poller s (.finishSend t r)) := by
  simp only [step]
  split
  swap
  · exact h
  rename_i message hphase
  have hun := h.unshut (Or.inr (Or.inr (Or.inr ⟨t, by rw [hphase]; rfl⟩)))
  have hidle := ordered_idle h.toOrdered t
  split
  · have hw := Writes.sendInLoop poller s.conn message r
    have hout := outInv_sendInLoop poller h.out message r
    rw [← List.flatten_concat] at hout
    refine ⟨{ ordered_writes hidle hun hw with }, hout, ?_⟩
    show Books s.called _ (queued (s.conn.sendInLoop poller message r).pending) _ _
    rw [queued_writes hw]
    exact h.books.pass message
  · refine ⟨{ hidle with
      pending := fun hm => h.pending (by simpa [queueInloop] using hm)
      shut := ?_ }, h.out.queueInloop _, ?_⟩
    · rintro ⟨e, he, hs⟩
      simp [hun e he] at hs
    · show Books s.called s.passed (queued (s.conn.pending ++ [.sendInLoop message])) _ _
      rw [queued_append]
      exact h.books.enqueue message

theorem graceful_setDisconnecting (h : Graceful s) (t : Fin (n + 1)) :
    Graceful (step poller s (.setDisconnecting t)) := by
  simp only [step]
  split
  swap
  · exact h
  have hset : Ordered { s with conn := s.conn.setState .kDisconnecting } :=
    { h.toOrdered with
      state := Or.inr rfl
      disconnecting := fun _ _ => rfl
      pending := fun _ => rfl
      shut := fun hs => ⟨rfl, (h.shut hs).2⟩ }
  exact ⟨ordered_setPhase hset t (by simp [Phase.isSending]) fun _ => rfl,
    outInv_setState h.out h.opened _, h.books⟩

theorem graceful_finishShutdown (h : Graceful s) (t : Fin (n + 1))
    (hset : s.settled (.finishShutdown t)) : Graceful (step poller s (.finishShutdown t)) := by
  simp only [step]
  split
  swap
  · exact h
  rename_i hphase
  have hstate := h.disconnecting t hphase
  have hidle := ordered_idle h.toOrdered t
  split
  · rename_i h0
    refine graceful_shutdownInLoop ⟨hidle, h.out, h.books⟩ hstate fun hoff => ?_
    have hnone := hset (by simpa [halfCloses, hphase, h0, h0 ▸ hphase] using hoff)
    exact ⟨hnone.1, isSending_setPhase rfl hnone.2⟩
  · refine ⟨{ hidle with pending := fun _ => hstate, shut := fun hs => ?_ }, h.out.queueInloop _,
      ?_⟩
    · obtain ⟨-, hoff, hqueue, hfree⟩ := hidle.shut hs
      have hqueue' : queued (s.conn.pending ++ [.shutdownInLoop]) = [] := by
        rw [queued_append]
        exact List.append_eq_nil_iff.mpr ⟨hqueue, rfl⟩
      exact ⟨hstate, hoff, hqueue', hfree⟩
    · show Books s.called s.passed (queued (s.conn.pending ++ [.shutdownInLoop])) _ _
      rw [queued_append, show queued [.shutdownInLoop] = [] from rfl, List.append_nil]
      exact h.books

theorem graceful_functor (h : Graceful s) (r : WriteResult) (hset : s.settled (.functor r)) :
    Graceful (step poller s (.functor r)) := by
  cases hp : s.conn.pending with
  | nil =>
      simp only [step, hp]
      exact h
  | cons f rest =>
      simp only [step, hp]
      have hpop := ordered_popPending h.toOrdered hp
      have hout : OutInv s.passed.flatten (s.popPending rest).conn :=
        ⟨h.out.interest, h.out.stream, h.out.clean, h.out.short⟩
      have hbooks := h.books
      rw [hp] at hbooks
      cases f with
      | sendInLoop message =>
          have hun := h.unshut (Or.inr (Or.inr (Or.inl (by simp [hp, queued]))))
          have hw := Writes.sendInLoop poller (s.popPending rest).conn message r
          have hsent := outInv_sendInLoop poller hout message r
          rw [← List.flatten_concat] at hsent
          refine ⟨{ ordered_writes hpop hun hw with }, hsent, ?_⟩
          show Books s.called _ (queued (sendInLoop poller _ message r).pending) _ _
          rw [queued_writes hw]
          exact hbooks.shift
      | shutdownInLoop =>
          refine graceful_shutdownInLoop ⟨hpop, hout, hbooks⟩ (h.pending (by simp [hp])) fun hoff =>
            ?_
          change s.conn.isWriting = false at hoff
          have hnone := hset (by simp [halfCloses, hp, hoff])
          exact ⟨queued_tail (hp ▸ hnone.1), hnone.2⟩
      | _ => exact ⟨hpop, hout, hbooks⟩

theorem graceful_writable (h : Graceful s) (r : WriteResult) (hset : s.settled (.writable r)) :
    Graceful (step poller s (.writable r)) := by
  have hout := outInv_handleWrite poller h.out r
  show Graceful { s with conn := s.conn.handleWrite poller r }
  rcases Writes.handleWrite_cases poller s.conn r with
    ⟨-, hsame⟩ | ⟨hon, hw⟩ | ⟨d, st, unsent, k, rfl, hon, hstate, hpos, hle, hw, hoff, hend⟩
  · rw [hsame]
    exact h
  · have hun := h.unshut (Or.inr (Or.inl hon))
    exact ⟨ordered_writes h.toOrdered hun hw, hout, (queued_writes hw).symm ▸ h.books⟩
  · -- the buffer is empty at last: `SHUT_WR`, with nothing in flight
    have hun := h.unshut (Or.inr (Or.inl hon))
    have hnone := hset (by simp [halfCloses, hon, hstate, hpos, hle])
    have hd := ordered_writes h.toOrdered hun hw
    rw [hend] at hout ⊢
    have hqueue := queued_writes hw
    exact ⟨ordered_shutdownWrite hd (hw.state.trans hstate) hoff ⟨hqueue.trans hnone.1, hnone.2⟩ st
      unsent, hout, hqueue.symm ▸ h.books⟩

/-- **Every settled step keeps the invariant.** -/
theorem graceful_step (h : Graceful s) (a : SendAction n) (hset : s.settled a) :
    Graceful (step poller s a) := by
  cases a with
  | send t message =>
      simp only [step]
      split
      · rename_i hup
        exact ⟨ordered_setPhase h.toOrdered t (fun _ => hup) (by simp), h.out, h.books⟩
      · exact h
  | finishSend t r => exact graceful_finishSend poller h t r
  | shutdown t =>
      have hcalled : Graceful { s with called := true } :=
        { h with books := ⟨h.books.perm, h.books.early, by simp⟩ }
      simp only [step]
      split
      · exact ⟨ordered_setPhase hcalled.toOrdered t (by simp [Phase.isSending]) (by simp),
          hcalled.out, hcalled.books⟩
      · exact hcalled
  | setDisconnecting t => exact graceful_setDisconnecting poller h t
  | finishShutdown t => exact graceful_finishShutdown poller h t hset
  | functor r => exact graceful_functor poller h r hset
  | writable r => exact graceful_writable poller h r hset

end Steps

/-! ### Whole runs -/

/-- `connectEstablished` has run, and no thread is in a call. -/
def start (fd : ℕ) (p : P) (n : ℕ) : Senders P n where
  conn := established poller fd p
  phase _ := .idle
  called := false
  passed := []
  completed := []
  promised := []

theorem graceful_start (fd : ℕ) (p : P) (n : ℕ) : Graceful (start poller fd p n) := by
  constructor
  case toOrdered =>
    constructor
    case state => exact Or.inl rfl
    case disconnecting => simp [start]
    case pending => simp [start, established, connectEstablished, setState, TcpConnection.new]
    case silent => simp [start, established, connectEstablished, setState, TcpConnection.new]
    case shut => simp [start, established, connectEstablished, setState, TcpConnection.new]
  case out => exact outInv_established poller fd p
  case books =>
    exact ⟨by simp [start, established, connectEstablished, setState, TcpConnection.new, queued],
      List.prefix_refl _, fun _ => rfl⟩

/-- The write errors before `SHUT_WR` are `EWOULDBLOCK`. -/
def BlocksOnly (log : List Event) : Prop :=
  ∀ pre direct len errno logged post, log = pre ++ .writeError direct len errno logged :: post →
    (∀ e ∈ pre, e.isShutdown = false) → errno = EWOULDBLOCK

/-- When nothing is written after `SHUT_WR`, every write error is one of those. -/
theorem faulted_of_blocksOnly {log : List Event} (h : BlocksOnly log)
    (hsilent : log.Pairwise fun e e' => e.isShutdown = true → e'.isWrite = false) :
    faulted log = false := by
  refine List.any_eq_false.mpr fun e he => ?_
  cases e with
  | writeError direct len errno logged =>
      obtain ⟨pre, post, hlog⟩ := List.append_of_mem he
      have hpre : ∀ e ∈ pre, e.isShutdown = false := by
        intro e he
        by_contra hs
        rw [hlog, List.pairwise_append] at hsilent
        have := hsilent.2.2 e he _ List.mem_cons_self (by simpa using hs)
        simp [Event.isWrite] at this
      rw [h pre direct len errno logged post hlog hpre]
      cases direct <;> simp
  | _ => simp

theorem accepted_eq_nil {log : List Event} (h : ∀ e ∈ log, e.isWrite = false) :
    accepted log = [] := by
  refine List.flatMap_eq_nil_iff.mpr fun e he => ?_
  cases e with
  | write direct bytes => simpa [Event.isWrite] using h _ he
  | _ => rfl

/-- **A half close delivers what was sent before it**, in every run whose steps are settled.  If
writes before `SHUT_WR` fail with `EWOULDBLOCK` only, then at each `SHUT_WR` the kernel has taken
all the messages passed to `sendInLoop`, in order; among them are all messages whose `send`
completed before `shutdown()` was called; and no write is attempted afterwards. -/
theorem shutdown_delivers (fd : ℕ) (p : P) (n : ℕ) (run : List (SendAction n))
    (hsettled : Along (step poller) settled (start poller fd p n) run) :
    let s := exec (step poller) (start poller fd p n) run
    BlocksOnly s.conn.log →
    ∀ pre st unsent post, s.conn.log = pre ++ .shutdownWrite st unsent :: post →
      accepted pre = s.passed.flatten ∧ s.promised.Subperm s.passed ∧ ∀ e ∈ post,
      e.isWrite = false := by
  intro s hblocks pre st unsent post hlog
  have h : Graceful s := along_invariant Graceful (fun _ a hi hq => graceful_step poller hi a hq)
    (graceful_start poller fd p n) hsettled
  have hfault := faulted_of_blocksOnly hblocks h.silent
  obtain ⟨-, hoff, hnone⟩ := h.shut ⟨.shutdownWrite st unsent, by simp [hlog], rfl⟩
  have hempty : s.conn.outputBuffer_.readable = [] := by
    by_contra hne
    simp [(h.out.interest h.opened).mpr hne] at hoff
  have hpost : ∀ e ∈ post, e.isWrite = false := by
    intro e he
    have hp := h.silent
    rw [hlog, List.pairwise_append, List.pairwise_cons] at hp
    exact hp.2.1.1 e he rfl
  refine ⟨?_, ?_, hpost⟩
  · have hstream := h.out.stream h.opened hfault
    rw [hempty, List.append_nil, hlog, accepted_append,
      accepted_eq_nil (List.forall_mem_cons.mpr ⟨rfl, hpost⟩), List.append_nil] at hstream
    exact hstream
  · have hperm := h.books.perm
    rw [hnone.1, List.append_nil] at hperm
    exact h.books.early.sublist.subperm.trans hperm.subperm

/-- Two threads send, the loop thread sends, and one of them shuts the connection down after its own
message has reached the loop; the kernel takes the bytes in pieces. -/
def politeRun : List (SendAction 2) :=
  [.send 1 [1, 2], .send 0 [3, 4, 5], .finishSend 0 (.accepted 1), .finishSend 1 (.error 0 0),
    .functor (.error 0 0), .shutdown 1, .writable (.accepted 2), .setDisconnecting 1,
    .finishShutdown 1, .functor (.error 0 0), .writable (.error EWOULDBLOCK EWOULDBLOCK),
    .writable (.accepted 9)]

theorem politeRun_delivers :
    let s := exec (step EPollPoller.impl) (start EPollPoller.impl 7 ⟨.empty, .empty⟩ 2) politeRun
    accepted (s.conn.log.take 4) = s.passed.flatten ∧ s.promised.Subperm s.passed ∧
      ∀ e ∈ s.conn.log.drop 5, e.isWrite = false := by
  refine shutdown_delivers EPollPoller.impl 7 ⟨.empty, .empty⟩ 2 politeRun ?_ ?_ _ .kDisconnecting
    []
    _ ?_
  · decide +kernel
  · intro pre direct len errno logged post hlog _
    have hall : (exec (step EPollPoller.impl) (start EPollPoller.impl 7 ⟨.empty, .empty⟩ 2)
        politeRun).conn.log = [.write true [3], .write false [4, 5],
          .writeError false 2 EWOULDBLOCK EWOULDBLOCK, .write false [1, 2],
          .shutdownWrite .kDisconnecting []] := by
      decide +kernel
    have hmem : Event.writeError direct len errno logged ∈
        pre ++ .writeError direct len errno logged :: post := by simp
    rw [← hlog, hall] at hmem
    simp at hmem
    exact hmem.2.2.1
  · decide +kernel

/-- Another thread sends one byte; the message is in the queue and `send` has returned.  The loop
thread then shuts the connection down, at once, and the message is written to a closed direction. -/
def lostMessageRun : List (SendAction 1) :=
  [.send 1 [42], .finishSend 1 (.error 0 0), .shutdown 0, .setDisconnecting 0, .finishShutdown 0,
    .functor (.error EPIPE EPIPE)]

theorem lostMessage :
    let s := exec (step EPollPoller.impl) (start EPollPoller.impl 7 ⟨.empty, .empty⟩ 1)
      lostMessageRun
    Along (step EPollPoller.impl) (fun s a => s.allowed a = true)
      (start EPollPoller.impl 7 ⟨.empty, .empty⟩ 1) lostMessageRun ∧
    s.promised = [[42]] ∧
    s.conn.log = [.shutdownWrite .kDisconnecting [], .writeError true 1 EPIPE EPIPE] ∧
    accepted s.conn.log = [] := by
  decide +kernel

end Senders

end TcpConnection

end Muduo.Net
