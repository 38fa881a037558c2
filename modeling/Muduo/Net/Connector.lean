import Muduo.Lib.Runs

/-!
# `muduo::net::Connector`

A connector makes one socket after the other and calls `connect(2)` on it, until one is connected
and handed to `newConnectionCallback_`.  While `connect(2)` is in progress the socket is watched by
`channel_`; the channel is taken out of the poller when the attempt ends, but destroyed only by a
functor queued then, `resetChannel`.  A failed attempt is repeated by a timer.

The record holds the members of the connector and what it touches outside: the functors of the loop,
the retry timers, the connecting channels in the poller, and what became of every socket.  A socket
is known by its number in the order of creation.  `startInLoop` is cut at the system call
`connect(2)`, during which other threads go on; `handleWrite` returns the socket it passes to
`newConnectionCallback_`.

* `startInLoop`, `connectReturns`, `connecting` — an attempt begins;
* `handleWrite`, `handleError`, `stopInLoop`, `retry` — it ends;
* `resetChannel`, `restart` — and the next one may begin.

Failed assertions are recorded and execution goes on.
-/

namespace Muduo.Net

namespace Connector

inductive States where
  | kDisconnected
  | kConnecting
  | kConnected
  deriving DecidableEq

/-- The result of `connect(2)`, as `savedErrno`. -/
inductive Errno where
  | success
  | EINPROGRESS
  | EINTR
  | EISCONN
  | EAGAIN
  | EADDRINUSE
  | EADDRNOTAVAIL
  | ECONNREFUSED
  | ENETUNREACH
  | EACCES
  | EPERM
  | EAFNOSUPPORT
  | EALREADY
  | EBADF
  | EFAULT
  | ENOTSOCK
  | other (code : ℕ)
  deriving DecidableEq

/-- The functors of the connector and of the client's connections.  `resetChannel` is named after
the socket of its attempt, which the code does not know. -/
inductive ClientFunctor where
  | startInLoop
  | stopInLoop
  | resetChannel (sockfd : ℕ)
  | forceCloseInLoop (conn : ℕ)
  | connectDestroyed (conn : ℕ)
  deriving DecidableEq

/-- A timer that will call `startInLoop`, set when the attempt with this socket ended. -/
structure RetryTimer where
  attempt : ℕ
  delayMs : ℕ
  deriving DecidableEq

inductive Fault where
  /-- `assert(state_ == kDisconnected)` in `startInLoop`. -/
  | notDisconnected
  /-- `assert(!channel_)` in `connecting`. -/
  | channelInUse
  /-- `channel_->disableAll()` without a channel. -/
  | noChannel
  /-- `assert(state_ == kDisconnected)` in `handleWrite`. -/
  | whatHappened
  deriving DecidableEq

def kMaxRetryDelayMs : ℕ := 30 * 1000
def kInitRetryDelayMs : ℕ := 500

end Connector

open Connector in
structure Connector where
  connect_ : Bool
  state_ : States
  channel_ : Option ℕ
  retryDelayMs_ : ℕ
  /-- The socket the loop thread is calling `connect(2)` on. -/
  calling : Option ℕ
  /-- The connecting channels in the poller. -/
  registered : List ℕ
  timers : List RetryTimer
  /-- The functors `doPendingFunctors` has swapped out and not yet run. -/
  batch : List ClientFunctor
  /-- `_pending_functors`. -/
  pending : List ClientFunctor
  /-- The number of sockets created. -/
  created : ℕ
  /-- The sockets closed, in order. -/
  closed : List ℕ
  /-- The sockets passed to `newConnectionCallback_`, in order. -/
  handed : List ℕ
  faults : List Fault

namespace Connector

def new : Connector where
  connect_ := false
  state_ := .kDisconnected
  channel_ := none
  retryDelayMs_ := kInitRetryDelayMs
  calling := none
  registered := []
  timers := []
  batch := []
  pending := []
  created := 0
  closed := []
  handed := []
  faults := []

def assert (k : Connector) (p : Bool) (f : Fault) : Connector :=
  if p then k else { k with faults := k.faults ++ [f] }

def setState (k : Connector) (s : States) : Connector := { k with state_ := s }

def close (k : Connector) (sockfd : ℕ) : Connector := { k with closed := k.closed ++ [sockfd] }

def queueInloop (k : Connector) (f : ClientFunctor) : Connector :=
    { k with pending := k.pending ++ [f] }

def retry (k : Connector) (sockfd : ℕ) : Connector :=
  let k₁ := (k.close sockfd).setState .kDisconnected
  if k₁.connect_ then
    { k₁ with
      timers := k₁.timers ++ [⟨sockfd, k₁.retryDelayMs_⟩]
      retryDelayMs_ := min (k₁.retryDelayMs_ * 2) kMaxRetryDelayMs }
  else k₁

/-- The channel leaves the poller; the socket it watched is returned. -/
def removeAndResetChannel (k : Connector) : Connector × Option ℕ :=
  match k.channel_ with
  | none => (k.assert false .noChannel, none)
  | some sockfd =>
      ({ k with registered := k.registered.erase sockfd }.queueInloop (.resetChannel sockfd),
        some sockfd)

def resetChannel (k : Connector) : Connector := { k with channel_ := none }

/-- `startInLoop` and `connect`, up to the system call. -/
def startInLoop (k : Connector) : Connector :=
  let k₁ := k.assert (k.state_ == .kDisconnected) .notDisconnected
  if k₁.connect_ then { k₁ with calling := some k₁.created, created := k₁.created + 1 } else k₁

def connecting (k : Connector) (sockfd : ℕ) : Connector :=
  let k₁ := k.setState .kConnecting
  let k₂ := k₁.assert k₁.channel_.isNone .channelInUse
  { k₂ with channel_ := some sockfd, registered := k₂.registered ++ [sockfd] }

/-- The rest of `connect`, after the system call. -/
def connectReturns (k : Connector) (savedErrno : Errno) : Connector :=
  match k.calling with
  | none => k
  | some sockfd =>
      let k₁ := { k with calling := none }
      match savedErrno with
      | .success | .EINPROGRESS | .EINTR | .EISCONN => k₁.connecting sockfd
      | .EAGAIN | .EADDRINUSE | .EADDRNOTAVAIL | .ECONNREFUSED | .ENETUNREACH => k₁.retry sockfd
      | .EACCES | .EPERM | .EAFNOSUPPORT | .EALREADY | .EBADF | .EFAULT | .ENOTSOCK =>
          k₁.close sockfd
      | .other _ => k₁.close sockfd

/-- `start`, called on the loop thread or on another one. -/
def start (k : Connector) (inLoopThread : Bool) : Connector :=
  let k₁ := { k with connect_ := true }
  if inLoopThread then k₁.startInLoop else k₁.queueInloop .startInLoop

/-- The first half of `stop`. -/
def stopConnect (k : Connector) : Connector := { k with connect_ := false }

def stop (k : Connector) : Connector := k.stopConnect.queueInloop .stopInLoop

def stopInLoop (k : Connector) : Connector :=
  if k.state_ = .kConnecting then
    match (k.setState .kDisconnected).removeAndResetChannel with
    | (k₁, some sockfd) => k₁.retry sockfd
    | (k₁, none) => k₁
  else k

def restart (k : Connector) : Connector :=
  { k with
    state_ := .kDisconnected
    retryDelayMs_ := kInitRetryDelayMs
    connect_ := true }.startInLoop

/-- With the value of `SO_ERROR` and the answer of `isSelfConnect`. -/
def handleWrite (k : Connector) (err : ℕ) (selfConnect : Bool) : Connector × Option ℕ :=
  if k.state_ = .kConnecting then
    match k.removeAndResetChannel with
    | (k₁, none) => (k₁, none)
    | (k₁, some sockfd) =>
        if err ≠ 0 then (k₁.retry sockfd, none)
        else if selfConnect then (k₁.retry sockfd, none)
        else
          let k₂ := k₁.setState .kConnected
          if k₂.connect_ then ({ k₂ with handed := k₂.handed ++ [sockfd] }, some sockfd)
          else (k₂.close sockfd, none)
  else (k.assert (k.state_ == .kDisconnected) .whatHappened, none)

def handleError (k : Connector) : Connector :=
  if k.state_ = .kConnecting then
    match k.removeAndResetChannel with
    | (k₁, none) => k₁
    | (k₁, some sockfd) => k₁.retry sockfd
  else k

end Connector

end Muduo.Net
