import Muduo.Net.TcpConnectionShutdown
import Muduo.Web.ParseTurns

/-!
# The web server on its connection

`Server.lean` describes a connection by the messages that the server hands to `send`.  Here
the server runs on a `TcpConnection`: requests arrive through `readFd`, responses leave
through `sendInLoop` and `handleWrite` with whatever `write(2)` accepts, and the half close
waits until everything is out.

* `WebConnection`, `step` — `Server::onMessage` over the member functions of the connection; the
  idle timer may shut it down at any point, from any thread;
* `ServerEvent`, `history` — the connection of `Server.lean` after the same events;
* `Serving` — what the connection keeps: the output is the stream of responses, and it is
  complete at `SHUT_WR`;
* `Simulates`, `simulates_step` — both connections, step by step;
* `serving_delivers` — all runs: the client gets a beginning of what is due to it.
-/

namespace Muduo.Web

open Muduo.Lib Muduo.Net

/-! ### The server over `TcpConnection` -/

/-- What happens to a connection, as the server sees it. -/
inductive ServerEvent where
  | chunk (data : List Byte)
  | shutdown
  | closed
  deriving DecidableEq

namespace Server

def event (http_callback_ : HttpCallback) (conn : Connection) : ServerEvent → Option Connection
  | .chunk data => deliver http_callback_ conn data
  | .shutdown => some (shutdown conn)
  | .closed => some { conn with state_ := .kDisconnected }

/-- The connection after some events. -/
def history (http_callback_ : HttpCallback) (events : List ServerEvent) : Option Connection :=
  events.foldlM (event http_callback_) established

/-- The bytes that arrived. -/
def received (events : List ServerEvent) : List Byte := events.flatMap fun
  | .chunk data => data
  | _ => []

end Server

structure WebConnection (P : Type*) where
  conn : TcpConnection P
  context : ContextParse
  /-- What has happened so far. -/
  seen : List ServerEvent

/-- A step of the loop thread, with the results that its system calls would have. -/
inductive WebLabel where
  /-- `handleRead` and the message callback; `bad` and `good` are for the writes of its two
  responses. -/
  | read (r : Buffer.ReadvResult) (bad good : WriteResult)
  | write (r : WriteResult)
  /-- `~TimeWheelEntry`, in this thread or in another one. -/
  | shutdown (inLoopThread : Bool)
  /-- The next functor of the connection. -/
  | functor (r : WriteResult)
  /-- `handleClose` on a hangup. -/
  | close
  | destroy

namespace WebConnection

variable {P : Type*} (poller : Poller P Unit) (http_callback_ : HttpCallback)

def start (fd : ℕ) (p : P) : WebConnection P := ⟨TcpConnection.established poller fd p, .new, []⟩

def onRequest (c : TcpConnection P) (req : Request) (r : WriteResult) : TcpConnection P :=
  let response := Server.respond http_callback_ req
  let buf := response.appendToBuffer (.ofSize kInitialSize)
  let c₁ := c.send poller true buf.readable r
  if response.close_connection_ then c₁.shutdown true else c₁

def onMessage (s : WebConnection P) (bad good : WriteResult) : Option (WebConnection P) :=
  match s.context.parseRequest s.conn.inputBuffer_ with
  | none => none
  | some (ok, ctx, buf) =>
      let c₁ := { s.conn with inputBuffer_ := buf }
      let c₂ := if ok then c₁ else (c₁.send poller true Server.badRequest bad).shutdown true
      if ctx.gotAll then
        some { s with
          conn := onRequest poller http_callback_ c₂ ctx.request_ good
          context := ctx.reset }
      else some { s with conn := c₂, context := ctx }

/-- What `handleRead` makes known to the server. -/
def arrived (s : WebConnection P) (r : Buffer.ReadvResult) : List ServerEvent :=
  match (s.conn.inputBuffer_.readFd r).2 with
  | .error _ => []
  | .data [] => [.closed]
  | .data (b :: bytes) => [.chunk (b :: bytes)]

def read (s : WebConnection P) (r : Buffer.ReadvResult) (bad good : WriteResult) :
    Option (WebConnection P) :=
  let (c, frames) := s.conn.handleRead poller r
  let s₁ := { s with conn := c, seen := s.seen ++ s.arrived r }
  if frames = [.call .messageCallback_] then onMessage poller http_callback_ s₁ bad good
  else some s₁

def runFunctor (c : TcpConnection P) (f : Functor) (r : WriteResult) : TcpConnection P :=
  match f with
  | .sendInLoop message => c.sendInLoop poller message r
  | .shutdownInLoop => c.shutdownInLoop
  | .forceCloseInLoop => (c.forceCloseInLoop poller).1
  | .startReadInLoop => c.startReadInLoop poller
  | .stopReadInLoop => c.stopReadInLoop poller
  | .connectDestroyed => (c.connectDestroyed poller).1
  -- the server sets neither callback
  | .writeCompleteCallback_ => c
  | .highWaterMarkCallback_ _ => c

def functor (c : TcpConnection P) (r : WriteResult) : TcpConnection P :=
  match c.pending with
  | [] => c
  | f :: rest => runFunctor poller { c with pending := rest } f r

/-- `connectDestroyed`, with the channel removed at its end. -/
def destroy (c : TcpConnection P) : TcpConnection P :=
  let c₁ := (c.connectDestroyed poller).1
  { c₁ with loop := Channel.remove poller c₁.loop () }

/-- `none` if the parser does not return. -/
def next (s : WebConnection P) : WebLabel → Option (WebConnection P)
  | .read r bad good => s.read poller http_callback_ r bad good
  | .write r => some { s with conn := s.conn.handleWrite poller r }
  | .shutdown inLoopThread =>
      some { s with conn := s.conn.shutdown inLoopThread, seen := s.seen ++ [.shutdown] }
  | .functor r => some { s with conn := functor poller s.conn r }
  | .close => some { s with conn := (s.conn.handleClose poller).1, seen := s.seen ++ [.closed] }
  | .destroy =>
      let events := if s.conn.state_ = .kConnected then [ServerEvent.closed] else []
      some { s with conn := destroy poller s.conn, seen := s.seen ++ events }

def step (s : Option (WebConnection P)) (l : WebLabel) : Option (WebConnection P) :=
  s.bind fun s => s.next poller http_callback_ l

end WebConnection

/-! ### What the connection keeps -/

namespace Serving

open TcpConnection

/-- `SHUT_WR` was issued on a connection that was not closed. -/
def Shut (log : List Event) : Prop := ∃ st unsent, Event.shutdownWrite st unsent ∈ log ∧
    st ≠ .kDisconnected

/-- At `SHUT_WR` the whole stream is out, and nothing is written after it. -/
def Finished (log : List Event) (sent : List Byte) : Prop :=
  ∀ pre st unsent post, log = pre ++ .shutdownWrite st unsent :: post → st ≠ .kDisconnected →
    faulted pre = false → accepted pre = sent ∧ accepted post = []

theorem finished_of_not_shut {log : List Event} (h : ¬ Shut log) (sent : List Byte) :
    Finished log sent := by
  intro pre st unsent post hlog hst
  exact absurd ⟨st, unsent, by rw [hlog]; simp, hst⟩ h

theorem finished_concat {log : List Event} {sent : List Byte} {e : Event} (h : Finished log sent)
    (hquiet : Shut log → accepted [e] = [])
    (hnew : ∀ st unsent, e = .shutdownWrite st unsent → st ≠ .kDisconnected → faulted log = false →
      accepted log = sent) : Finished (log ++ [e]) sent := by
  intro pre st unsent post hlog hst hfault
  rcases List.eq_nil_or_concat post with rfl | ⟨post', e', rfl⟩
  · -- the new event is this `SHUT_WR`
    obtain ⟨rfl, he⟩ := List.append_inj' hlog rfl
    exact ⟨hnew st unsent (List.singleton_inj.mp he) hst hfault, rfl⟩
  · rw [List.concat_eq_append, ← List.cons_append, ← List.append_assoc] at hlog
    obtain ⟨rfl, he⟩ := List.append_inj' hlog rfl
    obtain ⟨hpre, hpost⟩ := h pre st unsent post' rfl hst hfault
    refine ⟨hpre, ?_⟩
    rw [List.concat_eq_append, accepted_append, hpost, List.nil_append, ← he]
    exact hquiet ⟨st, unsent, by simp, hst⟩

variable {P : Type*}

/-- The clauses that hold also within a step. -/
structure Base (sent : List Byte) (c : TcpConnection P) : Prop where
  out : OutInv sent c
  sentOut : faulted c.log = false → accepted c.log <+: sent
  off : c.state_ = .kDisconnected → c.isWriting = false
  queued : ∀ f ∈ c.pending, f = .shutdownInLoop ∧ c.state_ ≠ .kConnected ∨ f.isCallback = true
  shut : Shut c.log → c.state_ ≠ .kConnected ∧ c.isWriting = false
  finished : Finished c.log sent

/-- The half close that was asked for is made, waits in the queue, or waits for the output. -/
def Closing (c : TcpConnection P) : Prop :=
  c.state_ = .kDisconnecting → c.isWriting = true ∨ Functor.shutdownInLoop ∈ c.pending ∨
    ∃ st unsent, Event.shutdownWrite st unsent ∈ c.log

structure Inv (sent : List Byte) (c : TcpConnection P) : Prop extends Base sent c where
  closing : Closing c

variable {sent : List Byte} {c c' : TcpConnection P} (poller : Poller P Unit)

theorem inv_established (fd : ℕ) (p : P) : Inv [] (TcpConnection.established poller fd p) := by
  have hlog : (TcpConnection.established poller fd p).log = [] := rfl
  have hstate : (TcpConnection.established poller fd p).state_ = .kConnected := rfl
  have hpending : (TcpConnection.established poller fd p).pending = [] := rfl
  have hnot : ¬ Shut (TcpConnection.established poller fd p).log := by simp [Shut, hlog]
  refine ⟨⟨outInv_established poller fd p, ?_, ?_, ?_, fun hshut => absurd hshut hnot,
    finished_of_not_shut hnot []⟩, ?_⟩
  · simp [hlog, accepted]
  · simp [hstate]
  · simp [hpending]
  · simp [Closing, hstate]

theorem sentOut_of_stream (h : OutInv sent c) (hopen : c.state_ ≠ .kDisconnected)
    (hfault : faulted c.log = false) : accepted c.log <+: sent := by
  rw [← h.stream hopen hfault]
  exact List.prefix_append _ _

theorem not_shut_of_writes (hw : Writes c c') (h : ¬ Shut c.log) : ¬ Shut c'.log := by
  obtain ⟨es, hlog, hes⟩ := hw.log
  rintro ⟨st, unsent, hmem, hst⟩
  rw [hlog, List.mem_append] at hmem
  rcases hmem with hold | hnew
  · exact h ⟨st, unsent, hold, hst⟩
  · exact absurd (hes _ hnew) (by simp [Event.isWrite])

/-- **Bytes are written or buffered** before any `SHUT_WR`. -/
theorem Base.writes (h : Base sent c) (hw : Writes c c') {sent' : List Byte}
    (hout : OutInv sent' c')
    (hopen : c.state_ ≠ .kDisconnected) (hnot : ¬ Shut c.log) : Base sent' c' where
  out := hout
  sentOut := sentOut_of_stream hout (hw.state ▸ hopen)
  off hoff := absurd (hw.state ▸ hoff) hopen
  queued f hf := by
    obtain ⟨fs, hpending, hfs⟩ := hw.pending
    rw [hpending, List.mem_append] at hf
    rcases hf with hold | hnew
    · rw [hw.state]
      exact h.queued f hold
    · exact Or.inr (hfs f hnew)
  shut hshut := absurd hshut (not_shut_of_writes hw hnot)
  finished := finished_of_not_shut (not_shut_of_writes hw hnot) sent'

theorem Base.input (h : Base sent c) (buf : Buffer) : Base sent { c with inputBuffer_ := buf } :=
  ⟨⟨h.out.interest, h.out.stream, h.out.clean, h.out.short⟩, h.sentOut, h.off, h.queued, h.shut,
    h.finished⟩

theorem Inv.input (h : Inv sent c) (buf : Buffer) : Inv sent { c with inputBuffer_ := buf } :=
  ⟨h.toBase.input buf, h.closing⟩

theorem inv_send (h : Inv sent c) (hopen : c.state_ = .kConnected) (data : List Byte)
    (r : WriteResult) :
    Inv (sent ++ data) (c.send poller true data r) := by
  have hsend : c.send poller true data r = c.sendInLoop poller data r := by simp [send, hopen]
  have hw := Writes.sendInLoop poller c data r
  rw [hsend]
  refine ⟨h.toBase.writes hw (outInv_sendInLoop poller h.out data r) (by simp [hopen]) ?_, ?_⟩
  · exact fun hshut => (h.shut hshut).1 hopen
  · intro hclosing
    rw [hw.state, hopen] at hclosing
    cases hclosing

/-- **The half close**, made at once or left to `handleWrite`. -/
theorem Base.shutdownInLoop (h : Base sent c) (hstate : c.state_ ≠ .kConnected) :
    Inv sent c.shutdownInLoop := by
  have hout := outInv_shutdownInLoop h.out
  unfold TcpConnection.shutdownInLoop at hout ⊢
  cases hw : c.isWriting with
  | true => exact ⟨h, fun _ => Or.inl hw⟩
  | false =>
      rw [if_neg (by simp [hw])] at hout ⊢
      refine ⟨⟨hout, ?_, h.off, h.queued, fun _ => ⟨hstate, hw⟩, ?_⟩, ?_⟩
      · intro hfault
        simp only [record, faulted_append, Bool.or_eq_false_iff] at hfault
        simpa [record, accepted] using h.sentOut hfault.1
      · refine finished_concat h.finished (fun _ => rfl) fun st unsent he hst hfault => ?_
        obtain ⟨rfl, rfl⟩ := Event.shutdownWrite.inj he
        have hempty : c.outputBuffer_.readable = [] := by
          by_contra hne
          simp [(h.out.interest hst).mpr hne] at hw
        have hstream := h.out.stream hst hfault
        rwa [hempty, List.append_nil] at hstream
      · exact fun _ => Or.inr (Or.inr ⟨c.state_, c.outputBuffer_.readable, by simp [record]⟩)

theorem Base.setState (h : Base sent c) (hopen : c.state_ = .kConnected) :
    Base sent (c.setState .kDisconnecting) where
  out := outInv_setState h.out (by simp [hopen]) _
  sentOut := h.sentOut
  off hoff := by cases hoff
  queued f hf := by
    rcases h.queued f hf with ⟨-, hclosed⟩ | hcallback
    · exact absurd hopen hclosed
    · exact Or.inr hcallback
  shut hshut := absurd hopen (h.shut hshut).1
  finished := h.finished

theorem inv_shutdown (h : Inv sent c) (inLoopThread : Bool) :
    Inv sent (c.shutdown inLoopThread) := by
  unfold TcpConnection.shutdown
  split
  · rename_i hopen
    have hbase := h.toBase.setState hopen
    cases inLoopThread with
    | true => exact hbase.shutdownInLoop (by simp [TcpConnection.setState])
    | false =>
        refine ⟨⟨hbase.out.queueInloop _, hbase.sentOut, hbase.off, ?_, hbase.shut, hbase.finished⟩,
          ?_⟩
        · intro f hf
          rcases List.mem_append.mp hf with hold | hnew
          · exact hbase.queued f hold
          · exact Or.inl ⟨List.mem_singleton.mp hnew, by simp [TcpConnection.setState, queueInloop]⟩
        · exact fun _ => Or.inr (Or.inl (List.mem_append_right _ List.mem_cons_self))
  · exact h

theorem closing_shutdownInLoop (c : TcpConnection P) : Closing c.shutdownInLoop := by
  unfold TcpConnection.shutdownInLoop
  cases hw : c.isWriting with
  | true => exact fun _ => Or.inl hw
  | false => exact fun _ => Or.inr (Or.inr ⟨c.state_, c.outputBuffer_.readable, by simp [record]⟩)

theorem closing_outputDrained (c : TcpConnection P) : Closing (c.outputDrained poller) := by
  have htested : ∀ d : TcpConnection P,
      Closing (if d.state_ = .kDisconnecting then d.shutdownInLoop else d) := by
    intro d
    split
    · exact closing_shutdownInLoop d
    · exact fun hclosing => absurd hclosing ‹_›
  exact htested _

/-- `handleWrite` on a connection that is being shut down goes on, or ends with the half close. -/
theorem closing_handleWrite (hw : c.isWriting = true) (r : WriteResult) :
    Closing (c.handleWrite poller r) := by
  have hrun : c.handleWrite poller r = _ := if_pos hw
  rw [hrun]
  cases r with
  | error errno logged => exact fun _ => Or.inl hw
  | accepted k =>
      dsimp only
      split
      swap
      · exact fun _ => Or.inl hw
      split
      swap
      · exact fun _ => Or.inl hw
      exact closing_outputDrained poller _

theorem inv_handleWrite (h : Inv sent c) (r : WriteResult) : Inv sent (c.handleWrite poller r) := by
  have hout := outInv_handleWrite poller h.out r
  rcases Writes.handleWrite_cases poller c r with ⟨-, hsame⟩ | ⟨hw, hwrites⟩ |
    ⟨d, st, unsent, -, -, hw, hstate, -, -, hwrites, hoff, hend⟩
  · rw [hsame]
    exact h
  · have hnot : ¬ Shut c.log := fun hshut => by simp [(h.shut hshut).2] at hw
    have hopen : c.state_ ≠ .kDisconnected := fun hclosed => by simp [h.off hclosed] at hw
    exact ⟨h.toBase.writes hwrites hout hopen hnot, closing_handleWrite poller hw r⟩
  · -- the last bytes and the half close
    have hnot : ¬ Shut d.log :=
      not_shut_of_writes hwrites fun hshut => by simp [(h.shut hshut).2] at hw
    have hd : d.state_ = .kDisconnecting := hwrites.state.trans hstate
    rw [hend] at hout ⊢
    have hopen : (d.record (.shutdownWrite st unsent)).state_ ≠ .kDisconnected := by
      simp [record, hd]
    refine ⟨⟨hout, sentOut_of_stream hout hopen, fun hclosed => absurd hclosed hopen, ?_,
      fun _ => ⟨by simp [record, hd], hoff⟩, ?_⟩,
      fun _ => Or.inr (Or.inr ⟨st, unsent, by simp [record]⟩)⟩
    · intro f hf
      obtain ⟨fs, hpending, hfs⟩ := hwrites.pending
      rw [show (d.record (.shutdownWrite st unsent)).pending = d.pending from rfl, hpending,
        List.mem_append] at hf
      rcases hf with hold | hnew
      · rcases h.queued f hold with ⟨hf, -⟩ | hcallback
        · exact Or.inl ⟨hf, by simp [record, hd]⟩
        · exact Or.inr hcallback
      · exact Or.inr (hfs f hnew)
    · refine finished_concat (finished_of_not_shut hnot sent) (fun hshut => absurd hshut hnot) ?_
      intro _ _ _ _ hfault
      have hempty : d.outputBuffer_.readable = [] := by
        by_contra hne
        have hwriting : d.isWriting = true := (hout.interest hopen).mpr hne
        simp [hoff] at hwriting
      have hstream := hout.stream hopen (by
        show faulted (d.log ++ [_]) = false
        rw [faulted_append, hfault]
        rfl)
      have hsame : (d.record (.shutdownWrite st unsent)).outputBuffer_.readable = [] := hempty
      rw [hsame, List.append_nil] at hstream
      simpa [record, accepted] using hstream

/-- **The connection is closed**: nothing is written any more. -/
theorem Base.closed (h : Base sent c) (hstate : c'.state_ = .kDisconnected)
    (hoff : c'.isWriting = false)
    (hpending : c'.pending = c.pending) (hlog : c'.log = c.log ∨ ∃ st,
      c'.log = c.log ++ [.handleClose st]) :
    Inv sent c' := by
  have hclean : CleanShutdown c'.log ∧ (faulted c'.log = false → accepted c'.log <+: sent) ∧
      Finished c'.log sent := by
    rcases hlog with hlog | ⟨st, hlog⟩
    · rw [hlog]
      exact ⟨h.out.clean, h.sentOut, h.finished⟩
    · rw [hlog]
      refine ⟨cleanShutdown_concat h.out.clean (by simp), fun hfault => ?_,
        finished_concat h.finished (fun _ => rfl) fun _ _ he => by cases he⟩
      rw [faulted_append, Bool.or_eq_false_iff] at hfault
      simpa [accepted] using h.sentOut hfault.1
  refine ⟨⟨⟨fun hd => absurd hstate hd, fun hd => absurd hstate hd, hclean.1,
    fun hd => absurd hstate hd⟩, hclean.2.1, fun _ => hoff, ?_,
    fun _ => ⟨by simp [hstate], hoff⟩, hclean.2.2⟩, fun hclosing => by simp [hstate] at hclosing⟩
  intro f hf
  rw [hpending] at hf
  rcases h.queued f hf with ⟨hf, -⟩ | hcallback
  · exact Or.inl ⟨hf, by simp [hstate]⟩
  · exact Or.inr hcallback

theorem isWriting_disableAll (c : TcpConnection P) :
    ((Channel.disableAll poller c.loop ()).chan ()).isWriting = false := by
  simp [Channel.disableAll, Channel.isWriting]

theorem inv_handleClose (h : Inv sent c) : Inv sent (c.handleClose poller).1 :=
  h.toBase.closed rfl
    (isWriting_disableAll poller ((c.record (.handleClose c.state_)).setState .kDisconnected))
    rfl (Or.inr ⟨c.state_, rfl⟩)

/-- The channel is removed with the mask it has. -/
theorem Inv.removeChannel (h : Inv sent c) :
    Inv sent { c with loop := Channel.remove poller c.loop () } := by
  have hsame : ({ c with loop := Channel.remove poller c.loop () } : TcpConnection P).isWriting =
    c.isWriting := by
    simp [isWriting, channel_, Channel.isWriting]
  refine ⟨⟨outInv_removeChannel poller h.out, h.sentOut, fun hoff => hsame.trans (h.off hoff),
    h.queued,
    fun hshut => ⟨(h.shut hshut).1, hsame.trans (h.shut hshut).2⟩, h.finished⟩, fun hclosing => ?_⟩
  rw [hsame]
  exact h.closing hclosing

theorem inv_destroy (h : Inv sent c) : Inv sent (WebConnection.destroy poller c) := by
  refine Inv.removeChannel poller ?_
  unfold connectDestroyed
  split
  · exact h.toBase.closed rfl (isWriting_disableAll poller (c.setState .kDisconnected))
      rfl (Or.inl rfl)
  · exact h

theorem inv_functor (h : Inv sent c) (r : WriteResult) :
    Inv sent (WebConnection.functor poller c r) := by
  unfold WebConnection.functor
  split
  · exact h
  · rename_i f rest hpending
    have hsub : ∀ g ∈ rest, g ∈ c.pending := by
      rw [hpending]
      exact fun g hg => List.mem_cons_of_mem f hg
    have hbase : Base sent { c with pending := rest } :=
      ⟨⟨h.out.interest, h.out.stream, h.out.clean, h.out.short⟩, h.sentOut, h.off,
        fun g hg => h.queued g (hsub g hg), h.shut,
        h.finished⟩
    rcases h.queued f (by simp [hpending]) with ⟨rfl, hstate⟩ | hcallback
    · exact hbase.shutdownInLoop hstate
    · -- the callbacks do nothing
      have hnone : WebConnection.runFunctor poller { c with pending := rest } f r =
          { c with pending := rest } := by
        cases f <;> first | rfl | simp [Functor.isCallback] at hcallback
      rw [hnone]
      refine ⟨hbase, fun hclosing => ?_⟩
      rcases h.closing hclosing with hw | hmem | hshut
      · exact Or.inl hw
      · rw [hpending, List.mem_cons] at hmem
        rcases hmem with rfl | hmem
        · simp [Functor.isCallback] at hcallback
        · exact Or.inr (Or.inl hmem)
      · exact Or.inr (Or.inr hshut)

end Serving

/-! ### Both connections, step by step -/

section Simulation

open TcpConnection

variable {P : Type*} (poller : Poller P Unit) (http_callback_ : HttpCallback)

/-- The connection and what the server knows of it. -/
structure Simulates (c : TcpConnection P) (a : Server.Connection) : Prop where
  state : c.state_ = a.state_
  input : c.inputBuffer_.readable = a.inputBuffer_.readable
  inv : Serving.Inv a.sent.flatten c

theorem appendOutput_inputBuffer (c : TcpConnection P) (rest : List Byte) :
    (c.appendOutput poller rest).inputBuffer_ = c.inputBuffer_ := by
  unfold appendOutput
  dsimp only
  split_ifs <;> rfl

theorem sendInLoop_inputBuffer (c : TcpConnection P) (data : List Byte) (r : WriteResult) :
    (c.sendInLoop poller data r).inputBuffer_ = c.inputBuffer_ := by
  have hdirect : (c.writeDirectly data r).1.inputBuffer_ = c.inputBuffer_ := by
    cases r with
    | accepted n =>
        simp only [writeDirectly]
        split <;> rfl
    | error errno => rfl
  unfold sendInLoop
  split
  · rfl
  · dsimp only
    split
    · split
      · rw [appendOutput_inputBuffer, hdirect]
      · exact hdirect
    · split
      · rw [appendOutput_inputBuffer]
      · rfl

theorem shutdown_inputBuffer (c : TcpConnection P) (inLoopThread : Bool) :
    (c.shutdown inLoopThread).inputBuffer_ = c.inputBuffer_ := by
  unfold TcpConnection.shutdown shutdownInLoop
  dsimp only
  split_ifs <;> rfl

theorem handleWrite_inputBuffer (c : TcpConnection P) (r : WriteResult) :
    (c.handleWrite poller r).inputBuffer_ = c.inputBuffer_ := by
  unfold handleWrite
  split
  · cases r with
    | error errno => rfl
    | accepted k =>
        simp only [outputDrained, shutdownInLoop]
        split_ifs <;> rfl
  · rfl

theorem handleWrite_state (c : TcpConnection P) (r : WriteResult) :
    (c.handleWrite poller r).state_ = c.state_ := by
  rcases Writes.handleWrite_cases poller c r with ⟨-, hsame⟩ | ⟨-, hwrites⟩ |
    ⟨d, st, unsent, -, -, -, -, -, -, hwrites, -, hend⟩
  · rw [hsame]
  · exact hwrites.state
  · rw [hend]
    exact hwrites.state

theorem shutdown_state (c : TcpConnection P) (inLoopThread : Bool) :
    (c.shutdown inLoopThread).state_ = if c.state_ = .kConnected then .kDisconnecting
    else c.state_ := by
  unfold TcpConnection.shutdown shutdownInLoop
  dsimp only
  split_ifs <;> rfl

variable {c : TcpConnection P} {a : Server.Connection}

theorem simulates_send (h : Simulates c a) (message : List Byte) (r : WriteResult) :
    Simulates (c.send poller true message r) (Server.send a message) := by
  unfold Server.send
  by_cases hopen : c.state_ = .kConnected
  · have hsend : c.send poller true message r = c.sendInLoop poller message r := by
      simp [send, hopen]
    have hinv := Serving.inv_send poller h.inv hopen message r
    rw [if_pos (h.state ▸ hopen)]
    refine ⟨?_, ?_, ?_⟩
    · rw [hsend, (Writes.sendInLoop poller c message r).state]
      exact h.state
    · rw [hsend, sendInLoop_inputBuffer]
      exact h.input
    · rw [List.flatten_concat]
      exact hinv
  · have hsend : c.send poller true message r = c := if_neg hopen
    rw [hsend, if_neg (h.state ▸ hopen)]
    exact h

theorem simulates_shutdown (h : Simulates c a) (inLoopThread : Bool) :
    Simulates (c.shutdown inLoopThread) (Server.shutdown a) := by
  refine ⟨?_, ?_, ?_⟩
  · rw [shutdown_state, h.state, Server.shutdown]
    split <;> rfl
  · rw [shutdown_inputBuffer, h.input, Server.shutdown]
    split <;> rfl
  · have hsent : (Server.shutdown a).sent = a.sent := by
      unfold Server.shutdown
      split <;> rfl
    rw [hsent]
    exact Serving.inv_shutdown h.inv inLoopThread

theorem simulates_onRequest (h : Simulates c a) (req : Request) (r : WriteResult) :
    Simulates (WebConnection.onRequest poller http_callback_ c req r)
      (Server.onRequest http_callback_ a req) := by
  have hsend := simulates_send poller h ((Server.respond http_callback_ req).appendToBuffer
    (.ofSize kInitialSize)).readable r
  unfold WebConnection.onRequest Server.onRequest
  dsimp only
  split
  · exact simulates_shutdown hsend true
  · exact hsend

theorem Simulates.withInput (h : Simulates c a) {buf buf' : Buffer}
    (hbuf : buf.readable = buf'.readable) (ctx : ContextParse) :
    Simulates { c with inputBuffer_ := buf } { a with context := ctx, inputBuffer_ := buf' } :=
  ⟨h.state, hbuf, h.inv.input buf⟩

theorem Simulates.withContext (h : Simulates c a) (ctx : ContextParse) :
    Simulates c { a with context := ctx } :=
  ⟨h.state, h.input, h.inv⟩

theorem parseRequest_congr {buf buf' : Buffer} (h : buf.readable = buf'.readable)
    (ctx : ContextParse) :
    (ctx.parseRequest buf).map ContextParse.observe = (ctx.parseRequest buf').map
    ContextParse.observe := by
  unfold ContextParse.parseRequest
  rw [Buffer.readableBytes_eq, Buffer.readableBytes_eq, h]
  exact ContextParse.parseLoop_congr h _ ctx

/-- The connection with its context. -/
structure Follows (s : WebConnection P) (a : Server.Connection) : Prop where
  conn : Simulates s.conn a
  context : s.context = a.context
  ready : a.context.state_ ≠ .GotAll

/-- **The message callback** does the same to both. -/
theorem follows_onMessage {s : WebConnection P} (h : Follows s a) (bad good : WriteResult) :
    ∃ s' a', s.onMessage poller http_callback_ bad good = some s' ∧
      Server.onMessage http_callback_ a = some a' ∧ Follows s' a' ∧ s'.seen = s.seen := by
  obtain ⟨⟨ok, ctx, buf'⟩, hparse'⟩ := ContextParse.parseRequest_returns h.ready a.inputBuffer_
  have hsame := parseRequest_congr h.conn.input a.context
  rw [hparse', Option.map_some, Option.map_eq_some_iff] at hsame
  obtain ⟨⟨ok₁, ctx₁, buf⟩, hparse, hobs⟩ := hsame
  simp only [ContextParse.observe, Prod.mk.injEq] at hobs
  obtain ⟨rfl, rfl, hbuf⟩ := hobs
  rw [← h.context] at hparse
  have hread := h.conn.withInput hbuf ctx₁
  -- the bad request, if it was one
  have hbad : Simulates
      (if ok₁ then { s.conn with inputBuffer_ := buf }
        else (({ s.conn with inputBuffer_ := buf } : TcpConnection P).send poller true
          Server.badRequest bad).shutdown true)
      (if ok₁ then { a with context := ctx₁, inputBuffer_ := buf' }
        else Server.shutdown (Server.send { a with context := ctx₁, inputBuffer_ := buf' }
          Server.badRequest)) := by
    split
    · exact hread
    · exact simulates_shutdown (simulates_send poller hread Server.badRequest bad) true
  have hctx : (if ok₁ then { a with context := ctx₁, inputBuffer_ := buf' }
      else Server.shutdown (Server.send { a with context := ctx₁, inputBuffer_ := buf' }
        Server.badRequest)).context = ctx₁ := by
    simp only [Server.shutdown, Server.send]
    split_ifs <;> rfl
  simp only [WebConnection.onMessage, hparse, Server.onMessage, hparse']
  cases hgot : ctx₁.gotAll with
  | true =>
      refine ⟨_, _, if_pos rfl, if_pos rfl, ⟨?_, rfl, Server.reset_state ctx₁⟩, rfl⟩
      exact (simulates_onRequest poller http_callback_ hbad ctx₁.request_ good).withContext
        ctx₁.reset
  | false =>
      refine ⟨_, _, if_neg (by simp), if_neg (by simp), ⟨hbad, hctx.symm, ?_⟩, rfl⟩
      rw [hctx]
      simpa [ContextParse.gotAll] using hgot

theorem history_concat {events : List ServerEvent}
    (h : Server.history http_callback_ events = some a) (e : ServerEvent) :
    Server.history http_callback_ (events ++ [e]) = Server.event http_callback_ a e := by
  rw [Server.history, List.foldlM_append]
  show (Server.history http_callback_ events).bind _ = _
  rw [h]
  show (Server.event http_callback_ a e).bind some = _
  cases Server.event http_callback_ a e <;> rfl

/-- What `readFd` brings. -/
theorem readFd_cases (b : Buffer) (r : Buffer.ReadvResult) :
    (∃ errno, b.readFd r = (b, .error errno)) ∨
    ∃ buf bytes, b.readFd r = (buf, .data bytes) ∧ buf.readable = b.readable ++ bytes := by
  cases r with
  | error errno => exact Or.inl ⟨errno, rfl⟩
  | data bytes =>
      exact Or.inr ⟨_, bytes.take b.iovecSpace, Prod.ext rfl (Buffer.readFd_data_snd b bytes),
        Buffer.readable_readFd_data b bytes⟩

theorem follows_read {s : WebConnection P} (h : Follows s a)
    (hseen : Server.history http_callback_ s.seen = some a) (r : Buffer.ReadvResult)
    (bad good : WriteResult) :
    ∃ s' a', s.read poller http_callback_ r bad good = some s' ∧
      Server.history http_callback_ s'.seen = some a' ∧ Follows s' a' := by
  rcases readFd_cases s.conn.inputBuffer_ r with ⟨errno, hread⟩ | ⟨buf, bytes, hread, hbuf⟩
  · refine ⟨{ s with seen := s.seen ++ [] }, a, ?_, by simpa using hseen, h.conn,
      h.context, h.ready⟩
    simp [WebConnection.read, handleRead, WebConnection.arrived, hread]
  · cases bytes with
    | nil =>
        have hinv := Serving.inv_handleClose poller (h.conn.inv.input buf)
        refine ⟨{ s with
          conn := (({ s.conn with inputBuffer_ := buf } : TcpConnection P).handleClose poller).1
          seen := s.seen ++ [.closed] }, { a with state_ := .kDisconnected }, ?_,
          history_concat http_callback_ hseen .closed, ⟨rfl, ?_, hinv⟩, h.context, h.ready⟩
        · simp [WebConnection.read, handleRead, WebConnection.arrived, hread, handleClose]
        · rw [List.append_nil] at hbuf
          exact hbuf.trans h.conn.input
    | cons b bytes =>
        -- the chunk is in both buffers when the callback runs
        have harrived : Follows
            { s with
              conn := { s.conn with inputBuffer_ := buf }
              seen := s.seen ++ [.chunk (b :: bytes)] }
            { a with inputBuffer_ := a.inputBuffer_.append (b :: bytes) } := by
          refine ⟨⟨h.conn.state, ?_, h.conn.inv.input buf⟩, h.context, h.ready⟩
          rw [Buffer.readable_append, ← h.conn.input]
          exact hbuf
        obtain ⟨s', a', hs', ha', hfollows, hkept⟩ :=
          follows_onMessage poller http_callback_ harrived bad good
        refine ⟨s', a', ?_, ?_, hfollows⟩
        · simpa [WebConnection.read, handleRead, WebConnection.arrived, hread] using hs'
        · rw [hkept]
          exact (history_concat http_callback_ hseen (.chunk (b :: bytes))).trans ha'

/-- The functors that can be in the queue change neither the state nor the input. -/
theorem functor_frame {sent : List Byte} (h : Serving.Inv sent c) (r : WriteResult) :
    (WebConnection.functor poller c r).state_ = c.state_ ∧
      (WebConnection.functor poller c r).inputBuffer_ = c.inputBuffer_ := by
  unfold WebConnection.functor
  split
  · exact ⟨rfl, rfl⟩
  · rename_i f rest hpending
    rcases h.queued f (by simp [hpending]) with ⟨rfl, -⟩ | hcallback
    · simp only [WebConnection.runFunctor, shutdownInLoop]
      split <;> exact ⟨rfl, rfl⟩
    · cases f <;> first | exact ⟨rfl, rfl⟩ | simp [Functor.isCallback] at hcallback

theorem shutdown_context (a : Server.Connection) : (Server.shutdown a).context = a.context := by
  unfold Server.shutdown
  split <;> rfl

theorem follows_start (fd : ℕ) (p : P) : Follows (.start poller fd p) Server.established := by
  refine ⟨⟨rfl, rfl, Serving.inv_established poller fd p⟩, rfl, ?_⟩
  simp [Server.established, ContextParse.new]

/-- **One step**: both connections go on, and still follow each other. -/
theorem follows_next {s : WebConnection P} (h : Follows s a)
    (hseen : Server.history http_callback_ s.seen = some a) (l : WebLabel) :
    ∃ s' a', s.next poller http_callback_ l = some s' ∧
      Server.history http_callback_ s'.seen = some a' ∧ Follows s' a' := by
  cases l with
  | read r bad good => exact follows_read poller http_callback_ h hseen r bad good
  | write r =>
      refine ⟨_, a, rfl, hseen, ⟨⟨?_, ?_, Serving.inv_handleWrite poller h.conn.inv r⟩,
        h.context, h.ready⟩⟩
      · exact (handleWrite_state poller s.conn r).trans h.conn.state
      · exact (congrArg Buffer.readable (handleWrite_inputBuffer poller s.conn r)).trans
          h.conn.input
  | shutdown inLoopThread =>
      refine ⟨_, Server.shutdown a, rfl, history_concat http_callback_ hseen .shutdown,
        ⟨simulates_shutdown h.conn inLoopThread, ?_, ?_⟩⟩
      · rw [shutdown_context]
        exact h.context
      · rw [shutdown_context]
        exact h.ready
  | functor r =>
      obtain ⟨hstate, hinput⟩ := functor_frame poller h.conn.inv r
      refine ⟨_, a, rfl, hseen,
        ⟨⟨hstate.trans h.conn.state, ?_, Serving.inv_functor poller h.conn.inv r⟩,
        h.context, h.ready⟩⟩
      exact (congrArg Buffer.readable hinput).trans h.conn.input
  | close =>
      exact ⟨_, { a with state_ := .kDisconnected }, rfl,
        history_concat http_callback_ hseen .closed,
        ⟨⟨rfl, h.conn.input, Serving.inv_handleClose poller h.conn.inv⟩, h.context, h.ready⟩⟩
  | destroy =>
      have hinv := Serving.inv_destroy poller h.conn.inv
      by_cases hopen : s.conn.state_ = .kConnected
      · refine ⟨_, { a with state_ := .kDisconnected }, rfl, ?_,
          ⟨⟨?_, ?_, hinv⟩, h.context, h.ready⟩⟩
        · rw [if_pos hopen]
          exact history_concat http_callback_ hseen .closed
        · simp [WebConnection.destroy, connectDestroyed, hopen, setState]
        · simpa [WebConnection.destroy, connectDestroyed, hopen, setState] using h.conn.input
      · refine ⟨_, a, rfl, ?_, ⟨⟨?_, ?_, hinv⟩, h.context, h.ready⟩⟩
        · rw [if_neg hopen, List.append_nil]
          exact hseen
        · simpa [WebConnection.destroy, connectDestroyed, hopen] using h.conn.state
        · simpa [WebConnection.destroy, connectDestroyed, hopen] using h.conn.input

/-! ### What was sent is the beginning of what is due -/

section Due

variable {http_callback_}

/-- Nothing is to come on a connection that was closed. -/
theorem awaits_closed {future : List Byte → List (List Byte)}
    (h : Server.Awaits http_callback_ a future)
    {a' : Server.Connection} (hstate : a'.state_ ≠ .kConnected) (hctx : a'.context = a.context) :
    Server.Awaits http_callback_ a' fun _ => [] := by
  refine Or.inr ⟨hstate, ?_, fun _ => rfl⟩
  rw [hctx]
  rcases h with ⟨-, p, htracks, -⟩ | ⟨-, hready, -⟩
  · exact htracks.state_ne
  · exact hready

theorem received_concat (events : List ServerEvent) (e : ServerEvent) :
    Server.received (events ++ [e]) = Server.received events ++ Server.received [e] :=
    List.flatMap_append

theorem history_due (events : List ServerEvent) :
    ∀ a, Server.history http_callback_ events = some a → ∃ future,
    Server.Awaits http_callback_ a future ∧
      ∀ more, a.sent ++ future more <+: Server.due http_callback_
        (Server.received events ++ more) := by
  induction events using List.reverseRecOn with
  | nil =>
      intro a ha
      obtain rfl : Server.established = a := Option.some.inj ha
      exact ⟨_, Server.served_nil.awaits, fun more => List.prefix_rfl⟩
  | append_singleton events e ih =>
      intro a' ha'
      obtain ⟨a, ha⟩ : ∃ a, Server.history http_callback_ events = some a := by
        rw [Server.history, List.foldlM_append] at ha'
        obtain ⟨a, ha, -⟩ := Option.bind_eq_some_iff.mp ha'
        exact ⟨a, ha⟩
      rw [history_concat http_callback_ ha] at ha'
      obtain ⟨future, hawaits, hdue⟩ := ih a ha
      have hkept : ∀ more, a.sent <+: Server.due http_callback_ (Server.received events ++ more) :=
        fun more => (List.prefix_append _ _).trans (hdue more)
      rw [received_concat]
      cases e with
      | chunk data =>
          obtain ⟨conn', future', hdeliver, hawaits', hsent, hfuture⟩ :=
            Server.deliver_step hawaits data
          obtain rfl : conn' = a' := Option.some.inj (hdeliver.symm.trans ha')
          refine ⟨future', hawaits', fun more => ?_⟩
          have hmore := hdue (data ++ more)
          rw [hfuture, ← List.append_assoc, ← hsent] at hmore
          simpa [Server.received] using hmore
      | shutdown =>
          obtain rfl : Server.shutdown a = a' := Option.some.inj ha'
          have hsent : (Server.shutdown a).sent = a.sent := by
            unfold Server.shutdown
            split <;> rfl
          have hstate : (Server.shutdown a).state_ ≠ .kConnected := by
            unfold Server.shutdown
            split
            · simp
            · assumption
          refine ⟨_, awaits_closed hawaits hstate (shutdown_context a), fun more => ?_⟩
          simpa [hsent, Server.received] using hkept more
      | closed =>
          obtain rfl : { a with state_ := .kDisconnected } = a' := Option.some.inj ha'
          refine ⟨_, awaits_closed hawaits (by simp) rfl, fun more => ?_⟩
          simpa [Server.received] using hkept more

end Due

end Simulation

/-! ### All runs -/

section Runs

open TcpConnection

variable {P : Type*} (poller : Poller P Unit)

/-- **The client gets the responses that are due to it, in order.**  For every callback, every
poller and every run of reads, writes, idle shutdowns, functors and closes, whatever the system
calls return: the parser always returns, and unless `faultError` was set, that is, a direct
write failed, other than with `EWOULDBLOCK`, and `errno` was `EPIPE` or `ECONNRESET` once that
had been logged, the bytes the kernel has accepted are a beginning of the responses that the
received bytes ask for; while the connection is not closed, they are together with
`outputBuffer_` exactly the responses the server has sent; and `SHUT_WR` is issued when all of
them are out, with no write after it.  If the server asked for `SHUT_WR` then it has been
issued, is queued, or waits for the output. -/
theorem serving_delivers (http_callback_ : HttpCallback) (fd : ℕ) (p : P) (ls : List WebLabel) :
    ∃ s a, exec (WebConnection.step poller http_callback_) (some (.start poller fd p)) ls = some s ∧
      Server.history http_callback_ s.seen = some a ∧ s.conn.state_ = a.state_ ∧
      (faulted s.conn.log = false → accepted s.conn.log <+:
        (Server.due http_callback_ (Server.received s.seen)).flatten) ∧
      (s.conn.state_ ≠ .kDisconnected → faulted s.conn.log = false →
        accepted s.conn.log ++ s.conn.outputBuffer_.readable = a.sent.flatten) ∧
      Serving.Finished s.conn.log a.sent.flatten ∧ Serving.Closing s.conn := by
  have hstep : ∀ (o : Option (WebConnection P)) (l : WebLabel),
      (∃ s a, o = some s ∧ Server.history http_callback_ s.seen = some a ∧ Follows s a) →
      ∃ s a, WebConnection.step poller http_callback_ o l = some s ∧
        Server.history http_callback_ s.seen = some a ∧ Follows s a := by
    rintro o l ⟨s, a, rfl, hseen, hfollows⟩
    exact follows_next poller http_callback_ hfollows hseen l
  obtain ⟨s, a, hexec, hseen, hfollows⟩ :=
    exec_invariant _ hstep ls ⟨_, _, rfl, rfl, follows_start poller fd p⟩
  refine ⟨s, a, hexec, hseen, hfollows.conn.state, fun hfault => ?_, hfollows.conn.inv.out.stream,
    hfollows.conn.inv.finished, hfollows.conn.inv.closing⟩
  obtain ⟨future, -, hdue⟩ := history_due s.seen a hseen
  obtain ⟨rest, hrest⟩ := (List.prefix_append a.sent (future [])).trans (hdue [])
  rw [List.append_nil] at hrest
  refine (hfollows.conn.inv.sentOut hfault).trans ?_
  rw [← hrest, List.flatten_append]
  exact List.prefix_append _ _

end Runs

end Muduo.Web
