import Muduo.Net.Buffer
import Muduo.Net.Channel

/-!
# `muduo::net::TcpConnection`

The member functions of one connection, over any poller.  The results of `write(2)` and `readv(2)`
are arguments; what the outside world sees (system calls, entries into user code) is appended to
`log`, and the functors the connection queues on its loop are appended to `pending`.  The texts
that are logged are left out, but not that writing them may change `errno`: `sendInLoop` reads it
again after `LOG_SYSERR`.

A member function that calls user code is cut there: it returns the connection as user code finds it
and the list of `Frame`s that are still to be done, in order, so that a caller decides what the user
does inside each callback.

* output: `sendInLoop`, `handleWrite`, `shutdownInLoop`;
* life cycle: `connectEstablished`, `handleRead`, `handleClose`, `forceCloseInLoop`,
  `connectDestroyed`;
* the user interface: `send`, `shutdown`, `forceClose`, `startRead`, `stopRead`, from the loop
  thread or from another one.
-/

namespace Muduo.Net

inductive StateE where
  | kDisconnected
  | kConnecting
  | kConnected
  | kDisconnecting
  deriving DecidableEq

def EWOULDBLOCK : ℕ := 11
def EPIPE : ℕ := 32
def ECONNRESET : ℕ := 104

/-- What `write(2)` reports: a count, or an errno; `logged` is what `LOG_SYSERR`, which writes a
record about the failure, leaves in `errno`. -/
inductive WriteResult where
  | accepted (n : ℕ)
  | error (errno logged : ℕ)
  deriving DecidableEq

/-- The user code a connection calls.  `connectionCallback_` runs once when the connection is up and
once when it is down. -/
inductive Callback where
  | connectionUp
  | connectionDown
  | messageCallback_
  | closeCallback_
  | writeCompleteCallback_
  | highWaterMarkCallback_ (len : ℕ)
  deriving DecidableEq

/-- What a connection queues on its loop. -/
inductive Functor where
  | sendInLoop (message : List Byte)
  | shutdownInLoop
  | forceCloseInLoop
  | startReadInLoop
  | stopReadInLoop
  | connectDestroyed
  | writeCompleteCallback_
  | highWaterMarkCallback_ (len : ℕ)
  deriving DecidableEq

/-- What is still to be done by a member function that was cut at user code. -/
inductive Frame where
  | call (cb : Callback)
  | inside (cb : Callback)
  | removeChannel
  deriving DecidableEq

/-- What the outside sees.  `direct` marks the write of `sendInLoop`; a write that fails carries the
number of bytes it was asked to write and the two values of `errno`; `shutdownWrite` carries the
state and the bytes still in `outputBuffer_` at that moment. -/
inductive Event where
  | write (direct : Bool) (accepted : List Byte)
  | writeError (direct : Bool) (len errno logged : ℕ)
  | shutdownWrite (state : StateE) (unsent : List Byte)
  | handleClose (state : StateE)
  | called (cb : Callback)
  deriving DecidableEq

structure TcpConnection (P : Type*) where
  state_ : StateE
  reading_ : Bool
  /-- `*channel_` and the poller of `*loop_`. -/
  loop : World P Unit
  inputBuffer_ : Buffer
  outputBuffer_ : Buffer
  highWaterMark_ : ℕ
  writeCompleteCallback_ : Bool
  highWaterMarkCallback_ : Bool
  pending : List Functor
  log : List Event

namespace TcpConnection

variable {P : Type*}

/-- The constructor, on a loop whose poller is `p`. -/
def new (fd : ℕ) (p : P) : TcpConnection P where
  state_ := .kConnecting
  reading_ := true
  loop := ⟨fun _ => Channel.new fd, p, []⟩
  inputBuffer_ := .ofSize kInitialSize
  outputBuffer_ := .ofSize kInitialSize
  highWaterMark_ := 64 * 1024 * 1024
  writeCompleteCallback_ := false
  highWaterMarkCallback_ := false
  pending := []
  log := []

def channel_ (c : TcpConnection P) : Channel := c.loop.chan ()

def isWriting (c : TcpConnection P) : Bool := c.channel_.isWriting

def setState (c : TcpConnection P) (s : StateE) : TcpConnection P := { c with state_ := s }

def queueInloop (c : TcpConnection P) (f : Functor) : TcpConnection P :=
  { c with pending := c.pending ++ [f] }

def record (c : TcpConnection P) (e : Event) : TcpConnection P := { c with log := c.log ++ [e] }

def setWriteCompleteCallback (c : TcpConnection P) : TcpConnection P :=
  { c with writeCompleteCallback_ := true }

def setHighWaterMarkCallback (c : TcpConnection P) (highWaterMark : ℕ) : TcpConnection P :=
  { c with highWaterMarkCallback_ := true, highWaterMark_ := highWaterMark }

variable (poller : Poller P Unit)

/-! ### Output -/

/-- The direct write of `sendInLoop`: `nwrote` (zero on an error), `faultError`, and the connection
afterwards. -/
def writeDirectly (c : TcpConnection P) (data : List Byte) :
    WriteResult → TcpConnection P × ℕ × Bool
  | .accepted n =>
      let nwrote := min n data.length
      let c := c.record (.write true (data.take nwrote))
      (if data.length - nwrote = 0 ∧ c.writeCompleteCallback_ then
        c.queueInloop .writeCompleteCallback_
       else c, nwrote, false)
  | .error errno logged =>
      -- the second test comes after `LOG_SYSERR`
      (c.record (.writeError true data.length errno logged), 0,
        errno != EWOULDBLOCK && (logged == EPIPE || logged == ECONNRESET))

/-- The buffered part of `sendInLoop`: what `write` did not take waits for the channel. -/
def appendOutput (c : TcpConnection P) (rest : List Byte) : TcpConnection P :=
  let oldLen := c.outputBuffer_.readableBytes
  let c₁ := if c.highWaterMark_ ≤ oldLen + rest.length ∧ oldLen < c.highWaterMark_ ∧
      c.highWaterMarkCallback_ then
      c.queueInloop (.highWaterMarkCallback_ (oldLen + rest.length))
    else c
  let c₂ := { c₁ with outputBuffer_ := c₁.outputBuffer_.append rest }
  if c₂.isWriting then c₂ else { c₂ with loop := Channel.enableWriting poller c₂.loop () }

def sendInLoop (c : TcpConnection P) (data : List Byte) (r : WriteResult) : TcpConnection P :=
  if c.state_ = .kDisconnected then c
  else
    -- if no thing in output queue, try writing directly
    let (c₁, nwrote, faultError) :=
      if !c.isWriting && c.outputBuffer_.readableBytes == 0 then c.writeDirectly data r
      else (c, 0, false)
    let remaining := data.length - nwrote
    if !faultError && 0 < remaining then c₁.appendOutput poller (data.drop nwrote) else c₁

def shutdownInLoop (c : TcpConnection P) : TcpConnection P :=
  if c.isWriting then c else c.record (.shutdownWrite c.state_ c.outputBuffer_.readable)

/-- The end of `handleWrite`, when `outputBuffer_` has become empty. -/
def outputDrained (c : TcpConnection P) : TcpConnection P :=
  let c₁ := { c with loop := Channel.disableWriting poller c.loop () }
  let c₂ := if c₁.writeCompleteCallback_ then c₁.queueInloop .writeCompleteCallback_ else c₁
  if c₂.state_ = .kDisconnecting then c₂.shutdownInLoop else c₂

def handleWrite (c : TcpConnection P) (r : WriteResult) : TcpConnection P :=
  if c.isWriting then
    match r with
    | .error errno logged =>
        c.record (.writeError false c.outputBuffer_.readableBytes errno logged)
    | .accepted k =>
        let data := c.outputBuffer_.readable
        let n := min k data.length
        let c₁ := c.record (.write false (data.take n))
        if 0 < n then
          let c₂ := { c₁ with outputBuffer_ := c₁.outputBuffer_.retrieve n }
          if c₂.outputBuffer_.readableBytes = 0 then c₂.outputDrained poller else c₂
        else c₁
  else c

/-! ### Reading and the life cycle -/

def startReadInLoop (c : TcpConnection P) : TcpConnection P :=
  if !c.reading_ || !c.channel_.isReading then
    { c with loop := Channel.enableReading poller c.loop (), reading_ := true }
  else c

def stopReadInLoop (c : TcpConnection P) : TcpConnection P :=
  if c.reading_ || c.channel_.isReading then
    { c with loop := Channel.disableReading poller c.loop (), reading_ := false }
  else c

def connectEstablished (c : TcpConnection P) : TcpConnection P × List Frame :=
  let c₁ := c.setState .kConnected
  let tied := c₁.loop.modify () fun ch => { ch with tied_ := true }
  ({ c₁ with loop := Channel.enableReading poller tied () }, [.call .connectionUp])

def handleClose (c : TcpConnection P) : TcpConnection P × List Frame :=
  let c₁ := (c.record (.handleClose c.state_)).setState .kDisconnected
  ({ c₁ with loop := Channel.disableAll poller c₁.loop () },
    [.call .connectionDown, .call .closeCallback_])

/-- `handleRead`: the message callback, the close path on a zero-length read, or
`handleError`, which only logs. -/
def handleRead (c : TcpConnection P) (r : Buffer.ReadvResult) : TcpConnection P × List Frame :=
  let (buf, n) := c.inputBuffer_.readFd r
  let c₁ := { c with inputBuffer_ := buf }
  match n with
  | .error _ => (c₁, [])
  | .data [] => c₁.handleClose poller
  | .data (_ :: _) => (c₁, [.call .messageCallback_])

def forceCloseInLoop (c : TcpConnection P) : TcpConnection P × List Frame :=
  if c.state_ = .kConnected ∨ c.state_ = .kDisconnecting then c.handleClose poller else (c, [])

def connectDestroyed (c : TcpConnection P) : TcpConnection P × List Frame :=
  if c.state_ = .kConnected then
    let c₁ := c.setState .kDisconnected
    ({ c₁ with loop := Channel.disableAll poller c₁.loop () },
      [.call .connectionDown, .removeChannel])
  else (c, [.removeChannel])

/-! ### The user interface -/

/-- `shutdown()`, from the loop thread or from another one. -/
def shutdown (c : TcpConnection P) (inLoopThread : Bool) : TcpConnection P :=
  if c.state_ = .kConnected then
    let c₁ := c.setState .kDisconnecting
    if inLoopThread then c₁.shutdownInLoop else c₁.queueInloop .shutdownInLoop
  else c

def send (c : TcpConnection P) (inLoopThread : Bool) (message : List Byte) (r : WriteResult) :
    TcpConnection P :=
  if c.state_ = .kConnected then
    if inLoopThread then c.sendInLoop poller message r else c.queueInloop (.sendInLoop message)
  else c

def forceClose (c : TcpConnection P) : TcpConnection P :=
  if c.state_ = .kConnected ∨ c.state_ = .kDisconnecting then
    (c.setState .kDisconnecting).queueInloop .forceCloseInLoop
  else c

/-- `forceCloseWithDelay`: the timer it starts calls `forceClose` later. -/
def forceCloseWithDelay (c : TcpConnection P) : TcpConnection P :=
  if c.state_ = .kConnected ∨ c.state_ = .kDisconnecting then c.setState .kDisconnecting else c

def startRead (c : TcpConnection P) (inLoopThread : Bool) : TcpConnection P :=
  if inLoopThread then c.startReadInLoop poller else c.queueInloop .startReadInLoop

def stopRead (c : TcpConnection P) (inLoopThread : Bool) : TcpConnection P :=
  if inLoopThread then c.stopReadInLoop poller else c.queueInloop .stopReadInLoop

end TcpConnection

end Muduo.Net
