import Muduo.Net.Connector

/-!
# `muduo::net::TcpClient`

The client drives its connector on one loop.  An iteration of the loop is a poll, the handlers of
the channels it returned and of the expired timers, and then the functors that were pending when
`doPendingFunctors` swapped them out.  User code calls `connect`, `disconnect` and `stop` from any
handler, timer or functor; other threads may call them too.

* `newConnection`, `removeConnection` — the connection comes and goes; with `retry_` and `connect_`
  its end restarts the connector;
* `Move`, `step` — the iterations of the loop, the calls, and the answers of the system, in any
  order the loop allows.

The connection is known by its socket; its buffers and its own states are in `TcpConnection`.
-/

namespace Muduo.Net

open Connector (Errno ClientFunctor)

structure TcpClient where
  connector_ : Connector
  retry_ : Bool
  connect_ : Bool
  connection_ : Option ℕ
  /-- Between a poll and `doPendingFunctors`. -/
  inEvents : Bool
  /-- The sockets whose channels the last poll can have returned and that were not handled yet. -/
  active : List ℕ
  /-- The calls of `stop` on other threads that have not queued `stopInLoop` yet. -/
  stopping : ℕ

namespace TcpClient

def new : TcpClient where
  connector_ := .new
  retry_ := false
  connect_ := true
  connection_ := none
  inEvents := false
  active := []
  stopping := 0

/-! ### The member functions -/

def connect (c : TcpClient) (inLoopThread : Bool) : TcpClient :=
  { c with connect_ := true, connector_ := c.connector_.start inLoopThread }

/-- Without the half-close of the connection. -/
def disconnect (c : TcpClient) : TcpClient := { c with connect_ := false }

def stop (c : TcpClient) : TcpClient :=
  { c with connect_ := false, connector_ := c.connector_.stop }

def newConnection (c : TcpClient) (sockfd : ℕ) : TcpClient := { c with connection_ := some sockfd }

def removeConnection (c : TcpClient) (conn : ℕ) : TcpClient :=
  let c₁ := { c with
    connection_ := none
    connector_ := c.connector_.queueInloop (.connectDestroyed conn) }
  if c₁.retry_ && c₁.connect_ then { c₁ with connector_ := c₁.connector_.restart } else c₁

/-- `TcpConnection::handleClose`, which calls `removeConnection` unless the connection is closed
already. -/
def handleClose (c : TcpClient) (conn : ℕ) : TcpClient :=
  if c.connection_ = some conn then c.removeConnection conn else c

/-- `Channel::handleEventWithGuard` on the connecting channel, which has no other callbacks. -/
def handleEvent (c : TcpClient) (error write : Bool) (err : ℕ) (selfConnect : Bool) : TcpClient :=
  let k := if error then c.connector_.handleError else c.connector_
  if write then
    match k.handleWrite err selfConnect with
    | (k₁, some sockfd) => { c with connector_ := k₁ }.newConnection sockfd
    | (k₁, none) => { c with connector_ := k₁ }
  else { c with connector_ := k }

def runFunctor (c : TcpClient) : ClientFunctor → TcpClient
  | .startInLoop => { c with connector_ := c.connector_.startInLoop }
  | .stopInLoop => { c with connector_ := c.connector_.stopInLoop }
  | .resetChannel _ => { c with connector_ := c.connector_.resetChannel }
  | .forceCloseInLoop conn => c.handleClose conn
  | .connectDestroyed _ => c

/-! ### The moves of the loop, the user and the system -/

inductive Move where
  | enableRetry
  | connect (inLoopThread : Bool)
  | disconnect
  | stop
  /-- `stop` on another thread, up to `queueInloop`, while the loop goes on. -/
  | stopStore
  | stopQueue
  /-- `TcpConnection::forceClose`. -/
  | forceClose
  | poll
  | doPendingFunctors
  | functor
  /-- The handlers of the connecting channel. -/
  | event (sockfd : ℕ) (error write : Bool) (err : ℕ) (selfConnect : Bool)
  /-- The channel of the connection calls `handleClose`. -/
  | close (conn : ℕ)
  /-- The retry timer at this position fires. -/
  | timer (i : ℕ)
  | connectReturns (savedErrno : Errno)
  deriving DecidableEq

/-- The move needs the loop thread, which may be in a system call. -/
def Move.onLoop : Move → Bool
  | .connect inLoopThread => inLoopThread
  | .poll | .doPendingFunctors | .functor | .event .. | .close _ | .timer _ => true
  | _ => false

def perform (c : TcpClient) : Move → TcpClient
  | .enableRetry => { c with retry_ := true }
  | .connect inLoopThread => c.connect inLoopThread
  | .disconnect => c.disconnect
  | .stop => c.stop
  | .stopStore =>
      { c with
        connect_ := false
        connector_ := c.connector_.stopConnect
        stopping := c.stopping + 1 }
  | .stopQueue =>
      if 0 < c.stopping then
        { c with connector_ := c.connector_.queueInloop .stopInLoop, stopping := c.stopping - 1 }
      else c
  | .forceClose =>
      match c.connection_ with
      | some conn => { c with connector_ := c.connector_.queueInloop (.forceCloseInLoop conn) }
      | none => c
  | .poll =>
      if !c.inEvents && c.connector_.batch.isEmpty then
        { c with inEvents := true, active := c.connector_.registered ++ c.connection_.toList }
      else c
  | .doPendingFunctors =>
      if c.inEvents then
        { c with
          inEvents := false
          active := []
          connector_ := { c.connector_ with batch := c.connector_.pending, pending := [] } }
      else c
  | .functor =>
      match c.connector_.batch with
      | f :: rest => { c with connector_ := { c.connector_ with batch := rest } }.runFunctor f
      | [] => c
  | .event sockfd error write err selfConnect =>
      if sockfd ∈ c.active ∧ sockfd ∈ c.connector_.registered then
        { c with active := c.active.filter (· ≠ sockfd) }.handleEvent error write err selfConnect
      else c
  | .close conn =>
      if conn ∈ c.active then { c with active := c.active.filter (· ≠ conn) }.handleClose conn
      else c
  | .timer i =>
      if c.inEvents && i < c.connector_.timers.length then
        { c with
          connector_ := { c.connector_ with timers := c.connector_.timers.eraseIdx i }.startInLoop }
      else c
  | .connectReturns savedErrno => { c with connector_ := c.connector_.connectReturns savedErrno }

def step (c : TcpClient) (m : Move) : TcpClient :=
  if m.onLoop && c.connector_.calling.isSome then c else c.perform m

end TcpClient

end Muduo.Net
