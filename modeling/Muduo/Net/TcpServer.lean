import Muduo.Lib.Format
import Muduo.Lib.Map
import Muduo.Lib.Runs
import Muduo.Net.TcpConnection

/-!
# `muduo::net::TcpServer`

The server lives on the base loop, loop `0`; its connections live on the loops `1, …, loops` of the
thread pool, or on the base loop if the pool is empty.  A loop is a FIFO queue of functors and the
user code it is running, if any: `connectEstablished`, `handleClose` and `connectDestroyed` call
`connectionCallback_`, and the other loops go on meanwhile.

* `connectName` — `snprintf` into `char buf[64]`, with its truncation, after the server's name;
* `runInLoop` — executed at once by the loop's own thread, queued by the others;
* `Move` and `step` — accepts, closes, queue steps and the ends of callbacks in any order.

A connection is known by its number in the order of acceptance.  Of its fields only those
are kept that decide which of the functions above run: buffers and the channel's interest
are in `TcpConnection`.
-/

namespace Muduo.Net

open Muduo.Lib

/-- The text `inet_ntop` makes of an address, at most `INET6_ADDRSTRLEN - 1` characters, and the
port. -/
structure InetAddress where
  ip : List Char
  port : ℕ
  ip_le : ip.length ≤ 45
  port_lt : port < 2 ^ 16

/-- `InetAddress::toIpPort`, with its `char buf[64]`. -/
def InetAddress.toIpPort (addr : InetAddress) : List Char :=
  addr.ip ++ snprintf (64 - addr.ip.length) (':' :: formatNat addr.port)

namespace TcpServer

/-- The fields of a `TcpConnection` that matter here; `added` is set while its channel is in the
poller. -/
structure Connection where
  name_ : List Char
  loop_ : ℕ
  state_ : StateE
  added : Bool
  deriving DecidableEq

/-- The functors that the server and its connections exchange. -/
inductive Message where
  | connectEstablished (conn : ℕ)
  | removeConnectionInLoop (conn : ℕ)
  | connectDestroyed (conn : ℕ)
  deriving DecidableEq

/-- The call of `connectionCallback_` a loop is in. -/
inductive Task where
  | connectEstablished (conn : ℕ)
  | handleClose (conn : ℕ)
  | connectDestroyed (conn : ℕ)
  deriving DecidableEq

/-- What has run: with the state `connectEstablished` found, and the number of entries erased. -/
inductive Note where
  | connectEstablished (conn : ℕ) (state : StateE)
  | handleClose (conn : ℕ)
  | removeConnectionInLoop (conn : ℕ) (erased : ℕ)
  | connectDestroyed (conn : ℕ)
  deriving DecidableEq

end TcpServer

open TcpServer in
structure TcpServer where
  _name : List Char
  _ip_port : List Char
  /-- The size of the thread pool's `_loops`. -/
  loops : ℕ
  /-- `EventLoopThreadPool::_next`. -/
  _next : ℕ
  _next_conn_id : ℤ
  _connections : Map (List Char) ℕ
  /-- The connections created so far. -/
  conns : List Connection
  queue : ℕ → List Message
  task : ℕ → Option Task
  log : List Note

namespace TcpServer

def new (name : List Char) (listen_addr : InetAddress) (loops : ℕ) : TcpServer where
  _name := name
  _ip_port := listen_addr.toIpPort
  loops := loops
  _next := 0
  _next_conn_id := 1
  _connections := .empty
  conns := []
  queue := fun _ => []
  task := fun _ => none
  log := []

def note (s : TcpServer) (n : Note) : TcpServer := { s with log := s.log ++ [n] }

def modifyConn (s : TcpServer) (conn : ℕ) (f : Connection → Connection) : TcpServer :=
  { s with conns := s.conns.modify conn f }

def setTask (s : TcpServer) (loop : ℕ) (t : Option Task) : TcpServer :=
  { s with task := Function.update s.task loop t }

/-- `conn->getLoop()`. -/
def getLoop (s : TcpServer) (conn : ℕ) : ℕ := (s.conns[conn]?.map Connection.loop_).getD 0

def state (s : TcpServer) (conn : ℕ) : StateE :=
  (s.conns[conn]?.map Connection.state_).getD .kConnecting

/-! ### The member functions -/

def queueInloop (s : TcpServer) (loop : ℕ) (m : Message) : TcpServer :=
  { s with queue := Function.update s.queue loop (s.queue loop ++ [m]) }

/-- `TcpConnection::connectEstablished`, up to `connectionCallback_`. -/
def connectEstablished (s : TcpServer) (conn : ℕ) : TcpServer :=
  ((s.note (.connectEstablished conn (s.state conn))).modifyConn conn fun c =>
    { c with state_ := .kConnected, added := true }).setTask (s.getLoop conn)
      (some (.connectEstablished conn))

/-- `_connections.erase(conn->name())`, with its result. -/
def eraseConnection (s : TcpServer) (conn : ℕ) : TcpServer × ℕ :=
  match s.conns[conn]? with
  | none => (s, 0)
  | some c =>
      ({ s with _connections := s._connections.erase c.name_ },
        if (s._connections.get? c.name_).isSome then 1 else 0)

def removeConnectionInLoop (s : TcpServer) (conn : ℕ) : TcpServer :=
  let (s₁, n) := s.eraseConnection conn
  (s₁.note (.removeConnectionInLoop conn n)).queueInloop (s.getLoop conn) (.connectDestroyed conn)

/-- `TcpConnection::connectDestroyed`, up to `connectionCallback_` if that is called. -/
def connectDestroyed (s : TcpServer) (conn : ℕ) : TcpServer :=
  let s₁ := s.note (.connectDestroyed conn)
  if s.state conn = .kConnected then
    (s₁.modifyConn conn fun c => { c with state_ := .kDisconnected }).setTask (s.getLoop conn)
      (some (.connectDestroyed conn))
  else s₁.modifyConn conn fun c => { c with added := false }

def execute (s : TcpServer) : Message → TcpServer
  | .connectEstablished conn => s.connectEstablished conn
  | .removeConnectionInLoop conn => s.removeConnectionInLoop conn
  | .connectDestroyed conn => s.connectDestroyed conn

/-- `EventLoop::runInLoop` of the loop, called in the thread of `caller`. -/
def runInLoop (s : TcpServer) (caller loop : ℕ) (m : Message) : TcpServer :=
  if caller = loop then s.execute m else s.queueInloop loop m

/-- `EventLoopThreadPool::getNextLoop`: the loop and the new `_next`. -/
def getNextLoop (s : TcpServer) : ℕ × ℕ :=
  if s.loops = 0 then (0, s._next)
  else (s._next + 1, if s._next + 1 ≥ s.loops then 0 else s._next + 1)

/-- `_name + buf`, where `buf` is printed with `"-%s#%d"`. -/
def connectName (s : TcpServer) : List Char :=
  s._name ++ snprintf 64 ('-' :: s._ip_port ++ '#' :: formatInt s._next_conn_id)

/-- `newConnection` up to its call of `runInLoop`; `_next_conn_id` is an `int`. -/
def createConnection (s : TcpServer) : TcpServer :=
  { s with
    _next := s.getNextLoop.2
    _next_conn_id := (s._next_conn_id + 1).bmod (2 ^ 32)
    _connections := s._connections.insert s.connectName s.conns.length
    conns := s.conns ++ [⟨s.connectName, s.getNextLoop.1, .kConnecting, false⟩] }

def newConnection (s : TcpServer) : TcpServer :=
  s.createConnection.runInLoop 0 s.getNextLoop.1 (.connectEstablished s.conns.length)

/-- `TcpConnection::handleClose`, up to `connectionCallback_`. -/
def handleClose (s : TcpServer) (conn : ℕ) : TcpServer :=
  ((s.note (.handleClose conn)).modifyConn conn fun c =>
    { c with state_ := .kDisconnected }).setTask (s.getLoop conn) (some (.handleClose conn))

/-- What follows when `connectionCallback_` returns: `closeCallback_` in `handleClose`, which is
`removeConnection`, and `channel_->remove()` in `connectDestroyed`. -/
def afterCallback (s : TcpServer) (loop : ℕ) : Task → TcpServer
  | .connectEstablished _ => s
  | .handleClose conn => s.runInLoop loop 0 (.removeConnectionInLoop conn)
  | .connectDestroyed conn => s.modifyConn conn fun c => { c with added := false }

/-! ### The moves of the loops -/

inductive Move where
  /-- The acceptor calls `newConnection`. -/
  | accept
  /-- The poller reports an event that makes the channel call `handleClose`. -/
  | closeEvent (conn : ℕ)
  /-- `forceCloseInLoop` runs. -/
  | forceCloseInLoop (conn : ℕ)
  /-- Some thread that found the connection in `kConnected` sets `kDisconnecting`. -/
  | setDisconnecting (conn : ℕ)
  /-- The loop runs its next functor. -/
  | functor (loop : ℕ)
  /-- The user code the loop is in returns. -/
  | return_ (loop : ℕ)
  deriving DecidableEq

def isAdded (s : TcpServer) (conn : ℕ) : Bool := (s.conns[conn]?.map Connection.added).getD false

/-- The connection whose `handleClose` a move executes. -/
def closes (s : TcpServer) : Move → Option ℕ
  | .closeEvent conn =>
      if s.task (s.getLoop conn) = none ∧ s.isAdded conn then some conn else none
  | .forceCloseInLoop conn =>
      if s.task (s.getLoop conn) = none ∧
        (s.state conn = .kConnected ∨ s.state conn = .kDisconnecting)
      then some conn else none
  | _ => none

/-- `connectEstablished` has been called, so a thread may have seen `kConnected`. -/
def hasConnected (s : TcpServer) (conn : ℕ) : Bool :=
  s.log.any fun
    | .connectEstablished c _ => c == conn
    | _ => false

def step (s : TcpServer) (m : Move) : TcpServer :=
  match m with
  | .accept => if s.task 0 = none then s.newConnection else s
  | .closeEvent _ | .forceCloseInLoop _ =>
      match s.closes m with
      | some conn => s.handleClose conn
      | none => s
  | .setDisconnecting conn =>
      if s.hasConnected conn then s.modifyConn conn fun c => { c with state_ := .kDisconnecting }
      else s
  | .functor loop =>
      match s.task loop, s.queue loop with
      | none, m :: rest => { s with queue := Function.update s.queue loop rest }.execute m
      | _, _ => s
  | .return_ loop =>
      match s.task loop with
      | some t => (s.setTask loop none).afterCallback loop t
      | none => s

end TcpServer

end Muduo.Net
