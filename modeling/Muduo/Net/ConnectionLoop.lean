import Muduo.Lib.Runs
import Muduo.Net.EPollPoller
import Muduo.Net.TcpConnection

/-!
# One connection on its event loop

The loop thread of a connection as a machine: `poll` reports events for a registered descriptor,
`Channel::handleEvent` runs the handlers, queued functors run in FIFO order while no handler is
running, and user code runs inside callbacks.  The control state is explicit:

* `active` — the channel is in `activeChannels_` and has not been dispatched yet; callbacks of other
  channels may run first;
* `todo` — the rest of `handleEventWithGuard`;
* `calls` — the frames of the member functions that were cut at user code, innermost first.

Calls from foreign threads may happen at any point, each of them as one move.  The source does not
make them atomic: `shutdown`, `forceClose` and `forceCloseWithDelay` test `state_` and set it
afterwards, and the loop thread may run in between ("FIXME: use compare and swap").  Those
interleavings are not among the runs of this machine; for `send` and `shutdown`, `Senders` has them.

`allowed` says which moves the kernel and the loop can make; `start` is the loop right after
`connectEstablished` reached the user's callback.
-/

namespace Muduo.Net

open Muduo.Lib EPollPoller

/-- The handlers `handleEventWithGuard` runs after the close callback; `done` clears
`eventHandling_`. -/
inductive Handler where
  | error
  | read
  | write
  | done
  deriving DecidableEq

def hangup (revents : Mask) : Bool := revents.has POLLHUP && !revents.has POLLIN

def handlersOf (revents : Mask) : List Handler :=
  (if revents.has (POLLERR ||| POLLNVAL) then [.error] else []) ++
  (if revents.has (POLLIN ||| POLLPRI ||| POLLRDHUP) then [.read] else []) ++
  (if revents.has POLLOUT then [.write] else []) ++ [.done]

inductive UserCall where
  | send (message : List Byte) (r : WriteResult)
  | shutdown
  | forceClose
  | forceCloseWithDelay
  | startRead
  | stopRead
  deriving DecidableEq

inductive LoopAction where
  /-- `epoll_wait` reports `revents` for the channel. -/
  | poll (revents : Mask)
  /-- The loop calls `handleEvent` on the channel. -/
  | dispatch
  /-- The innermost running function goes on, with the results its system calls will have. -/
  | resume (r : Buffer.ReadvResult) (w : WriteResult)
  /-- `doPendingFunctors` runs the next functor. -/
  | functor (w : WriteResult)
  /-- A member function that user code calls, from its test of `state_` to its end. -/
  | user (inLoopThread : Bool) (call : UserCall)
  /-- The owner of the connection queues `connectDestroyed`. -/
  | destroy
  deriving DecidableEq

structure ConnectionLoop where
  conn : TcpConnection (EPollPoller Unit)
  active : Bool
  calls : List Frame
  todo : List Handler
  destroying : Bool

namespace ConnectionLoop

open TcpConnection

def start (fd : ℕ) : ConnectionLoop where
  conn := ((TcpConnection.new fd ⟨.empty, .empty⟩).connectEstablished impl).1
  active := false
  calls := ((TcpConnection.new fd ⟨.empty, .empty⟩).connectEstablished impl).2
  todo := []
  destroying := false

/-- Continue with the result of a member function: the connection, and what is left of the call. -/
def enter (s : ConnectionLoop) (r : TcpConnection (EPollPoller Unit) × List Frame) :
    ConnectionLoop :=
  { s with conn := r.1, calls := r.2 }

section Enter

variable (s : ConnectionLoop) (r : TcpConnection (EPollPoller Unit) × List Frame)

@[simp] theorem enter_conn : (s.enter r).conn = r.1 := rfl
@[simp] theorem enter_calls : (s.enter r).calls = r.2 := rfl
@[simp] theorem enter_active : (s.enter r).active = s.active := rfl
@[simp] theorem enter_todo : (s.enter r).todo = s.todo := rfl
@[simp] theorem enter_destroying : (s.enter r).destroying = s.destroying := rfl

end Enter

/-- Write a field of the channel that is not the poller's business. -/
def onChannel (s : ConnectionLoop) (f : Channel → Channel) : ConnectionLoop :=
  { s with conn := { s.conn with loop := s.conn.loop.modify () f } }

/-- The rest of the dispatch is to run the handlers. -/
def lineUp (s : ConnectionLoop) : ConnectionLoop :=
  { s with active := false, todo := handlersOf s.conn.channel_.revents_ }

/-- `Channel::handleEventWithGuard`, up to the user code its close callback reaches. -/
def handleEvent (s : ConnectionLoop) : ConnectionLoop :=
  let s₁ := (s.onChannel fun ch => { ch with eventHandling_ := true }).lineUp
  if hangup s₁.conn.channel_.revents_ then s₁.enter (s₁.conn.handleClose impl) else s₁

def runHandler (s : ConnectionLoop) (h : Handler) (r : Buffer.ReadvResult) (w : WriteResult) :
    ConnectionLoop :=
  match h with
  | .error => s
  | .read => s.enter (s.conn.handleRead impl r)
  | .write => { s with conn := s.conn.handleWrite impl w }
  | .done => s.onChannel fun ch => { ch with eventHandling_ := false }

def resume (s : ConnectionLoop) (r : Buffer.ReadvResult) (w : WriteResult) : ConnectionLoop :=
  match s.calls, s.todo with
  | .call cb :: calls, _ =>
      { s with conn := s.conn.record (.called cb), calls := .inside cb :: calls }
  | .inside _ :: calls, _ => { s with calls := calls }
  | .removeChannel :: calls, _ =>
      { s with conn := { s.conn with loop := Channel.remove impl s.conn.loop () }, calls := calls }
  | [], h :: todo => runHandler { s with todo := todo } h r w
  | [], [] => s

def runFunctor (s : ConnectionLoop) (f : Functor) (w : WriteResult) : ConnectionLoop :=
  match f with
  | .sendInLoop message => { s with conn := s.conn.sendInLoop impl message w }
  | .shutdownInLoop => { s with conn := s.conn.shutdownInLoop }
  | .startReadInLoop => { s with conn := s.conn.startReadInLoop impl }
  | .stopReadInLoop => { s with conn := s.conn.stopReadInLoop impl }
  | .forceCloseInLoop => s.enter (s.conn.forceCloseInLoop impl)
  | .connectDestroyed => s.enter (s.conn.connectDestroyed impl)
  | .writeCompleteCallback_ => { s with calls := [.call .writeCompleteCallback_] }
  | .highWaterMarkCallback_ len => { s with calls := [.call (.highWaterMarkCallback_ len)] }

def userCall (c : TcpConnection (EPollPoller Unit)) (inLoopThread : Bool) :
    UserCall → TcpConnection (EPollPoller Unit)
  | .send message r => c.send impl inLoopThread message r
  | .shutdown => c.shutdown inLoopThread
  | .forceClose => c.forceClose
  | .forceCloseWithDelay => c.forceCloseWithDelay
  | .startRead => c.startRead impl inLoopThread
  | .stopRead => c.stopRead impl inLoopThread

def popPending (s : ConnectionLoop) (rest : List Functor) : ConnectionLoop :=
  { s with conn := { s.conn with pending := rest } }

def step (s : ConnectionLoop) : LoopAction → ConnectionLoop
  | .poll revents => { s.onChannel (·.set_revents revents) with active := true }
  | .dispatch => s.handleEvent
  | .resume r w => s.resume r w
  | .functor w =>
      match s.conn.pending with
      | f :: rest => (s.popPending rest).runFunctor f w
      | [] => s
  | .user inLoopThread call => { s with conn := userCall s.conn inLoopThread call }
  | .destroy => { s with conn := s.conn.queueInloop .connectDestroyed, destroying := true }

/-- No function of the connection is running on the loop thread. -/
def idle (s : ConnectionLoop) : Bool := s.calls.isEmpty && s.todo.isEmpty

/-- The kernel may report any of the registered bits, `EPOLLERR` and `EPOLLHUP`, for a descriptor in
the interest list. -/
def mayReport (w : EPollPoller.Loop Unit) (revents : Mask) : Bool :=
  match w.poller.interest.get? (w.chan ()).fd_ with
  | some ev => revents != 0 && revents &&& ~~~(ev.events ||| POLLERR ||| POLLHUP) == 0
  | none => false

def allowed (s : ConnectionLoop) : LoopAction → Bool
  | .poll revents => s.idle && !s.active && mayReport s.conn.loop revents
  | .dispatch => s.idle && s.active
  | .resume _ _ => !s.idle
  | .functor _ => s.idle && !s.active
  | .user true _ =>
      match s.calls with
      | .inside _ :: _ => true
      | _ => s.idle
  | .user false _ => true
  | .destroy => !s.destroying

end ConnectionLoop

end Muduo.Net
