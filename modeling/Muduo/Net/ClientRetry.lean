import Muduo.Net.ConnectorSockets

/-!
# A client that retries

With `retry_` set, and as long as nobody calls `stop` or `disconnect`, a `TcpClient` is never
without something to do: an attempt is about to begin, is going on, or is waited for, or there is a
connection. That is an abstract machine of five activities, driven by what happens to the client;
the client, with its connector, its timers and the functors of the loop, refines it.

* `Activity`, `Happening`, `Persistent.next` — the machine; `backoff` — the delay after a number of
  failures;
* `happens` — what a move lets happen, read off the move, the answers of the system and who they are
  for;
* `work`, `work_of_calling`, … — what a client has in hand: one thing at a time;
* `Tracks`, `tracks_step` — every move of the client is the step of the machine for what happens in
  it;
* `client_never_gives_up` — all runs.
-/

namespace Muduo.Net

open Muduo.Lib

namespace TcpClient

open Connector

/-! ### The abstract machine -/

/-- What a client that retries is doing. -/
inductive Activity where
  /-- `startInLoop` is queued. -/
  | starting
  | calling (sockfd : ℕ)
  | connecting (sockfd : ℕ)
  | waiting (timer : RetryTimer)
  | connected (sockfd : ℕ)

/-- What can happen to it. -/
inductive Happening where
  /-- The queued `startInLoop` runs. -/
  | started
  /-- `connect(2)` has not failed. -/
  | inProgress
  /-- An attempt has failed. -/
  | failed
  | established
  /-- The retry timer fires. -/
  | retried
  /-- The connection is closed. -/
  | lost
  deriving DecidableEq

/-- A socket is made. -/
def Happening.begins : Happening → Bool
  | .started | .retried | .lost => true
  | .inProgress | .failed | .established => false

/-- The failures in a row, after `n` of them. -/
def Happening.failures (n : ℕ) : Happening → ℕ
  | .failed => n + 1
  | .lost => 0
  | .started | .inProgress | .established | .retried => n

/-- The delay before the attempt that follows `n + 1` failures. -/
def backoff (n : ℕ) : ℕ := min (kInitRetryDelayMs * 2 ^ n) kMaxRetryDelayMs

/-- What comes after an activity; what does not belong to it leaves it as it is. -/
def Activity.next (sockets failures : ℕ) : Activity → Happening → Activity
  | .starting, .started => .calling sockets
  | .calling sockfd, .inProgress => .connecting sockfd
  | .calling sockfd, .failed => .waiting ⟨sockfd, backoff failures⟩
  | .connecting sockfd, .failed => .waiting ⟨sockfd, backoff failures⟩
  | .connecting sockfd, .established => .connected sockfd
  | .waiting _, .retried => .calling sockets
  | .connected _, .lost => .calling sockets
  | x, _ => x

structure Persistent where
  activity : Activity
  /-- The number of sockets made. -/
  sockets : ℕ
  /-- The attempts that have failed since the last connection was lost. -/
  failures : ℕ

namespace Persistent

def next (a : Persistent) (h : Happening) : Persistent where
  activity := a.activity.next a.sockets a.failures h
  sockets := a.sockets + h.begins.toNat
  failures := h.failures a.failures

def after (a : Persistent) (h : Option Happening) : Persistent := h.elim a a.next

theorem after_some {a : Persistent} {x : Activity} (hx : a.activity = x) (h : Happening) :
    a.after (some h) =
      ⟨x.next a.sockets a.failures h, a.sockets + h.begins.toNat, h.failures a.failures⟩ := by
  rw [← hx]
  rfl

end Persistent

theorem backoff_succ (n : ℕ) : backoff (n + 1) = min (backoff n * 2) kMaxRetryDelayMs := by
  have hpow : kInitRetryDelayMs * 2 ^ (n + 1) = kInitRetryDelayMs * 2 ^ n * 2 := by ring
  rw [backoff, backoff, hpow]
  omega

/-! ### What happens to a client -/

/-- What an answer of `connect(2)` means; after the first ones the connector does not try again. -/
def outcome : Errno → Option Happening
  | .EACCES | .EPERM | .EAFNOSUPPORT | .EALREADY | .EBADF | .EFAULT | .ENOTSOCK | .other _ => none
  | .success | .EINPROGRESS | .EINTR | .EISCONN => some .inProgress
  | .EAGAIN | .EADDRINUSE | .EADDRNOTAVAIL | .ECONNREFUSED | .ENETUNREACH => some .failed

/-- What the events of the connecting channel mean. -/
def answered (error write : Bool) (err : ℕ) (selfConnect : Bool) : Option Happening :=
  if error = true ∨ write = true ∧ (err ≠ 0 ∨ selfConnect = true) then some .failed
  else if write = true then some .established
  else none

/-- The connection that is closed is the client's. -/
def closes (c : TcpClient) (conn : ℕ) : Option Happening :=
  if c.connection_ = some conn then some .lost else none

def ran (c : TcpClient) : Option ClientFunctor → Option Happening
  | some .startInLoop => some .started
  | some (.forceCloseInLoop conn) => c.closes conn
  | _ => none

/-- What happens in a move that the loop thread can make. -/
def happening (c : TcpClient) : Move → Option Happening
  | .connectReturns savedErrno => if c.connector_.calling.isSome then outcome savedErrno else none
  | .event sockfd error write err selfConnect =>
      if sockfd ∈ c.active ∧ sockfd ∈ c.connector_.registered then answered error
        write err selfConnect
      else none
  | .timer i => if c.inEvents && i < c.connector_.timers.length then some .retried else none
  | .close conn => if conn ∈ c.active then c.closes conn else none
  | .functor => c.ran c.connector_.batch.head?
  | _ => none

def happens (c : TcpClient) (m : Move) : Option Happening :=
  if m.onLoop && c.connector_.calling.isSome then none else c.happening m

/-! ### What a client has in hand -/

/-- The things that will go on with the client's task. -/
structure Work where
  starts : ℕ
  calling : Option ℕ
  registered : List ℕ
  timers : List RetryTimer
  connection : Option ℕ

def work (c : TcpClient) : Work :=
  ⟨c.starts, c.connector_.calling, c.connector_.registered, c.connector_.timers, c.connection_⟩

def Activity.work : Activity → Work
  | .starting => ⟨1, none, [], [], none⟩
  | .calling sockfd => ⟨0, some sockfd, [], [], none⟩
  | .connecting sockfd => ⟨0, none, [sockfd], [], none⟩
  | .waiting timer => ⟨0, none, [], [timer], none⟩
  | .connected sockfd => ⟨0, none, [], [], some sockfd⟩

theorem Activity.work_inj {x y : Activity} (h : x.work = y.work) : x = y := by
  cases x <;> cases y <;> simp_all [Activity.work]

section Work

variable {c : TcpClient}

theorem StartInv.starts_eq_zero (h : StartInv c) (hshape : c.connector_.shape ≠ untouched) :
    c.starts = 0 :=
  h.start.resolve_right fun hstart => hshape hstart.2

theorem work_of_starts (h : StartInv c) (hstarts : c.starts ≠ 0) :
    c.work = Activity.starting.work := by
  obtain ⟨hone, hshape⟩ := h.start.resolve_left hstarts
  obtain ⟨hcalling, hstate, hchannel, hreg, htimers, hresets⟩ := Shape.mk.inj hshape
  have hnone := (h.client.inv.mode.of_clear hcalling hstate htimers hresets).2
  rw [work, Activity.work, hone, hcalling, hreg, htimers, hnone]

theorem work_of_calling (h : StartInv c) {sockfd : ℕ}
    (hcalling : c.connector_.calling = some sockfd) :
    c.work = (Activity.calling sockfd).work := by
  obtain ⟨hshape, hnone⟩ := h.client.inv.mode.of_calling hcalling
  have hstarts :=
    h.starts_eq_zero (by rw [hshape]; exact fun heq => nomatch congrArg Shape.calling heq)
  obtain ⟨-, -, -, hreg, htimers, -⟩ := Shape.mk.inj hshape
  rw [work, Activity.work, hstarts, hcalling, hreg, htimers, hnone]

theorem work_of_registered (h : StartInv c) {sockfd : ℕ} (hin : sockfd ∈ c.connector_.registered) :
    c.work = (Activity.connecting sockfd).work := by
  obtain ⟨hshape, hnone⟩ := h.client.inv.mode.of_registered hin
  have hstarts :=
    h.starts_eq_zero (by rw [hshape]; exact fun heq => nomatch congrArg Shape.registered heq)
  obtain ⟨hcalling, -, -, hreg, htimers, -⟩ := Shape.mk.inj hshape
  rw [work, Activity.work, hstarts, hcalling, hreg, htimers, hnone]

theorem work_of_timer (h : StartInv c) {t : RetryTimer} (hin : t ∈ c.connector_.timers) :
    c.work = (Activity.waiting t).work := by
  obtain ⟨htimers, hnone, hshape⟩ := h.client.inv.mode.of_timer hin
  have hstarts := h.starts_eq_zero fun heq => nomatch htimers.symm.trans (congrArg Shape.timers heq)
  have hrest : c.connector_.calling = none ∧ c.connector_.registered = [] := by
    rcases hshape with hshape | hshape
    · exact ⟨congrArg Shape.calling hshape, congrArg Shape.registered hshape⟩
    · exact ⟨congrArg Shape.calling hshape, congrArg Shape.registered hshape⟩
  replace htimers : c.connector_.timers = [t] := htimers
  rw [work, Activity.work, hstarts, hrest.1, hrest.2, htimers, hnone]

theorem work_of_connection (h : StartInv c) {sockfd : ℕ} (hconn : c.connection_ = some sockfd) :
    c.work = (Activity.connected sockfd).work := by
  have hmode := h.client.inv.mode
  rw [hconn] at hmode
  have hfields : c.connector_.state_ = .kConnected ∧ c.connector_.calling = none ∧
      c.connector_.registered = [] ∧ c.connector_.timers = [] := by
    generalize hshape : c.connector_.shape = sh at hmode
    cases hmode with
    | established sockfd' | connected =>
        exact ⟨congrArg Shape.state_ hshape, congrArg Shape.calling hshape,
          congrArg Shape.registered hshape, congrArg Shape.timers hshape⟩
  obtain ⟨hstate, hcalling, hreg, htimers⟩ := hfields
  have hstarts := h.starts_eq_zero fun heq => nomatch hstate.symm.trans (congrArg Shape.state_ heq)
  rw [work, Activity.work, hstarts, hcalling, hreg, htimers, hconn]

end Work

/-! ### The refinement -/

/-- Nobody starts or stops the client, and `connect(2)` gives no final answer. -/
def Move.persistent : Move → Bool
  | .connect _ | .disconnect | .stop | .stopStore => false
  | .connectReturns savedErrno => (outcome savedErrno).isSome
  | .enableRetry | .stopQueue | .forceClose | .poll | .doPendingFunctors | .functor | .event
      .. | .close _
  | .timer _ => true

/-- The client does what the machine does. -/
structure Tracks (c : TcpClient) (a : Persistent) : Prop where
  wants : c.retry_ = true ∧ c.connect_ = true ∧ c.connector_.connect_ = true
  unstopped : .stopInLoop ∉ c.connector_.queued ∧ c.stopping = 0
  sockets : c.connector_.created = a.sockets
  delay : c.connector_.state_ ≠ .kConnected → c.connector_.retryDelayMs_ = backoff a.failures
  doing : c.work = a.activity.work
  waited : ∀ t, a.activity = .waiting t → 0 < a.failures ∧ t.delayMs = backoff (a.failures - 1)

section Refinement

variable {c c' : TcpClient} {a : Persistent}

theorem Tracks.activity (h : Tracks c a) {x : Activity} (hx : c.work = x.work) : a.activity = x :=
  Activity.work_inj (h.doing.symm.trans hx)

theorem Tracks.connected (h : Tracks c a) {conn : ℕ} (hconn : c.connection_ = some conn) :
    a.activity = .connected conn := by
  have hfield : a.activity.work.connection = some conn := by
    rw [← hconn]
    exact congrArg Work.connection h.doing.symm
  cases hx : a.activity <;> simp_all [Activity.work]

/-- The state of the connector is as before, as far as the machine is concerned. -/
theorem Tracks.stay (h : Tracks c a) (hretry : c'.retry_ = true)
    (hconnect : c'.connect_ = c.connect_) (hwant : c'.connector_.connect_ = c.connector_.connect_)
    (hqueued : .stopInLoop ∈ c'.connector_.queued → .stopInLoop ∈ c.connector_.queued)
    (hstopping : c'.stopping = c.stopping) (hcreated : c'.connector_.created = c.connector_.created)
    (hstate : c'.connector_.state_ = c.connector_.state_)
    (hdelay : c'.connector_.retryDelayMs_ = c.connector_.retryDelayMs_) (hwork : c'.work = c.work) :
    Tracks c' a where
  wants := ⟨hretry, hconnect.trans h.wants.2.1, hwant.trans h.wants.2.2⟩
  unstopped := ⟨fun hin => h.unstopped.1 (hqueued hin), hstopping.trans h.unstopped.2⟩
  sockets := hcreated.trans h.sockets
  delay hne := by
    rw [hstate] at hne
    rw [hdelay]
    exact h.delay hne
  doing := hwork.trans h.doing
  waited := h.waited

/-- An attempt begins. -/
theorem startInLoop_eq {k : Connector} (hwant : k.connect_ = true)
    (hstate : k.state_ = .kDisconnected) :
    k.startInLoop = { k with calling := some k.created, created := k.created + 1 } := by
  unfold Connector.startInLoop Connector.assert
  simp [hstate, hwant]

/-- An attempt has failed. -/
theorem retry_eq_timer {k : Connector} (hwant : k.connect_ = true) (sockfd : ℕ) :
    k.retry sockfd = { k with
      closed := k.closed ++ [sockfd]
      state_ := .kDisconnected
      timers := k.timers ++ [⟨sockfd, k.retryDelayMs_⟩]
      retryDelayMs_ := min (k.retryDelayMs_ * 2) kMaxRetryDelayMs } := by
  unfold Connector.retry Connector.close Connector.setState
  simp [hwant]

theorem mem_queued_of_queueInloop {k : Connector} {f g : ClientFunctor} (hne : g ≠ f)
    (hin : g ∈ (k.queueInloop f).queued) : g ∈ k.queued := by
  rw [queued_queueInloop, List.mem_append, List.mem_singleton] at hin
  exact hin.resolve_right hne

/-- The connection is lost, and the connector restarted. -/
theorem tracks_handleClose (h : Tracks c a) {conn : ℕ} (hstart : StartInv (c.handleClose conn)) :
    Tracks (c.handleClose conn) (a.after (c.closes conn)) := by
  by_cases hconn : c.connection_ = some conn
  · have hafter : c.handleClose conn = { c with
        connection_ := none
        connector_ := (c.connector_.queueInloop (.connectDestroyed conn)).restart } := by
      simp [handleClose, hconn, removeConnection, h.wants.1, h.wants.2.1]
    have hrestart : (c.connector_.queueInloop (.connectDestroyed conn)).restart =
        { c.connector_.queueInloop (.connectDestroyed conn) with
          state_ := .kDisconnected
          retryDelayMs_ := kInitRetryDelayMs
          connect_ := true
          calling := some c.connector_.created
          created := c.connector_.created + 1 } :=
      startInLoop_eq rfl rfl
    rw [hrestart] at hafter
    have hcalling : (c.handleClose conn).connector_.calling = some a.sockets := by
      rw [hafter]
      exact congrArg some h.sockets
    rw [closes, if_pos hconn, Persistent.after_some (h.connected hconn)]
    constructor
    case wants => rw [hafter]; exact ⟨h.wants.1, h.wants.2.1, rfl⟩
    case unstopped =>
      rw [hafter]
      refine ⟨fun hin => h.unstopped.1 ?_, h.unstopped.2⟩
      exact mem_queued_of_queueInloop (f := .connectDestroyed conn) ClientFunctor.noConfusion hin
    case sockets => rw [hafter]; exact congrArg (· + 1) h.sockets
    case delay => rw [hafter]; exact fun _ => rfl
    case doing => exact work_of_calling hstart hcalling
    case waited =>
      intro t ht
      cases ht
  · have hafter : c.handleClose conn = c := if_neg hconn
    rw [hafter, closes, if_neg hconn]
    exact h

/-- A functor other than `startInLoop` leaves the queue. -/
theorem Tracks.pop (h : Tracks c a) {f : ClientFunctor} {rest : List ClientFunctor}
    (hb : c.connector_.batch = f :: rest) (hf : f ≠ .startInLoop) :
    Tracks { c with connector_ := { c.connector_ with batch := rest } } a := by
  have hstarts :
      starts { c with connector_ := { c.connector_ with batch := rest } } = c.starts := by
    rw [starts_pop hb, List.count_eq_zero_of_not_mem (by simpa using hf.symm), Nat.zero_add]
  refine h.stay h.wants.1 rfl rfl (fun hin => ?_) rfl rfl rfl rfl ?_
  · rw [queued_pop hb]
    exact List.mem_append_right _ hin
  · rw [work, hstarts]
    rfl

/-- The queued `startInLoop` runs. -/
theorem tracks_startInLoop (h : Tracks c a) (hinv : StartInv c) {rest : List ClientFunctor}
    (hb : c.connector_.batch = .startInLoop :: rest)
    (hstart : StartInv
      (runFunctor { c with connector_ := { c.connector_ with batch := rest } } .startInLoop)) :
    Tracks (runFunctor { c with connector_ := { c.connector_ with batch := rest } } .startInLoop)
      (a.after (some .started)) := by
  have hpos : c.starts ≠ 0 := by
    rw [starts_pop hb]
    show 1 + _ ≠ 0
    omega
  have hshape := (hinv.start.resolve_left hpos).2
  rw [Persistent.after_some (h.activity (work_of_starts hinv hpos))]
  have hafter :
      runFunctor { c with connector_ := { c.connector_ with batch := rest } } .startInLoop =
        { c with connector_ := { c.connector_ with
          batch := rest
          calling := some c.connector_.created
          created := c.connector_.created + 1 } } :=
    congrArg (fun k => { c with connector_ := k })
      (startInLoop_eq (k := { c.connector_ with batch := rest }) h.wants.2.2
        (congrArg Shape.state_ hshape))
  constructor
  case wants => rw [hafter]; exact h.wants
  case unstopped =>
    rw [hafter]
    refine ⟨fun hin => h.unstopped.1 ?_, h.unstopped.2⟩
    rw [queued_pop hb]
    exact List.mem_append_right _ hin
  case sockets => rw [hafter]; exact congrArg (· + 1) h.sockets
  case delay => rw [hafter]; exact h.delay
  case doing =>
    refine work_of_calling hstart ?_
    rw [hafter]
    exact congrArg some h.sockets
  case waited =>
    intro t ht
    cases ht

theorem tracks_functor (h : Tracks c a) (hinv : StartInv c)
    (hstart : StartInv (c.perform .functor)) :
    Tracks (c.perform .functor) (a.after (c.ran c.connector_.batch.head?)) := by
  cases hb : c.connector_.batch with
  | nil =>
      simp only [perform, hb]
      exact h
  | cons f rest =>
      simp only [perform, hb] at hstart ⊢
      cases f with
      | startInLoop => exact tracks_startInLoop h hinv hb hstart
      | stopInLoop =>
          refine absurd ?_ h.unstopped.1
          rw [queued_pop hb]
          exact List.mem_cons_self
      | resetChannel sockfd =>
          have hpop := h.pop hb (by simp)
          exact hpop.stay hpop.wants.1 rfl rfl id rfl rfl rfl rfl rfl
      | forceCloseInLoop conn => exact tracks_handleClose (h.pop hb (by simp)) hstart
      | connectDestroyed conn => exact h.pop hb (by simp)

/-- An attempt fails, and the connector sets a timer. -/
theorem tracks_retry (h : Tracks c a) {k : Connector} {sockfd : ℕ} (hwant : k.connect_ = true)
    (hqueued : .stopInLoop ∉ k.queued) (hcreated : k.created = c.connector_.created)
    (hdelay : k.retryDelayMs_ = backoff a.failures)
    (hstart : StartInv { c with connector_ := k.retry sockfd }) :
    Tracks { c with connector_ := k.retry sockfd }
      ⟨.waiting ⟨sockfd, backoff a.failures⟩, a.sockets, a.failures + 1⟩ := by
  rw [retry_eq_timer hwant] at hstart ⊢
  refine ⟨⟨h.wants.1, h.wants.2.1, hwant⟩, ⟨hqueued, h.unstopped.2⟩, hcreated.trans h.sockets,
    fun _ => ?_, ?_, ?_⟩
  · show min (k.retryDelayMs_ * 2) kMaxRetryDelayMs = backoff (a.failures + 1)
    rw [backoff_succ, hdelay]
  · refine work_of_timer hstart ?_
    show _ ∈ k.timers ++ [⟨sockfd, k.retryDelayMs_⟩]
    rw [hdelay]
    exact List.mem_append_right _ List.mem_cons_self
  · intro t ht
    obtain rfl := Activity.waiting.inj ht
    exact ⟨Nat.succ_pos _, rfl⟩

/-- What the handlers of the connecting channel do, in one piece. -/
theorem handleEvent_of_connecting (hwant : c.connector_.connect_ = true) {sockfd : ℕ}
    (hstate : c.connector_.state_ = .kConnecting) (hchannel : c.connector_.channel_ = some sockfd)
    (error write : Bool) (err : ℕ) (selfConnect : Bool) :
    c.handleEvent error write err selfConnect =
      if error = true ∨ write = true ∧ (err ≠ 0 ∨ selfConnect = true) then
        { c with connector_ := (c.connector_.detach sockfd).retry sockfd }
      else if write = true then
        { c with
          connection_ := some sockfd
          connector_ := { (c.connector_.detach sockfd).setState .kConnected with
            handed := c.connector_.handed ++ [sockfd] } }
      else c := by
  have hwant' : (c.connector_.detach sockfd).connect_ = true := hwant
  cases error with
  | true =>
      have herror : c.connector_.handleError = (c.connector_.detach sockfd).retry sockfd := by
        unfold Connector.handleError
        rw [if_pos hstate, removeAndResetChannel_eq hchannel]
      cases write with
      | false => simp [handleEvent, herror]
      | true =>
          -- the second handler finds the attempt ended by the first
          have hended : ((c.connector_.detach sockfd).retry sockfd).state_ = .kDisconnected := by
            rw [retry_eq_timer hwant']
          simp [handleEvent, herror, handleWrite_of_disconnected hended]
  | false =>
      cases write with
      | false => rfl
      | true =>
          by_cases hfails : err ≠ 0 ∨ selfConnect = true
          · rw [if_pos (Or.inr ⟨rfl, hfails⟩)]
            rcases hfails with herr | hself
            · simp [handleEvent, Connector.handleWrite, hstate, removeAndResetChannel_eq hchannel,
                herr]
            · simp [handleEvent, Connector.handleWrite, hstate, removeAndResetChannel_eq hchannel,
                hself]
          · obtain ⟨herr, hself⟩ := not_or.mp hfails
            have hset : ((c.connector_.detach sockfd).setState .kConnected).connect_ = true := hwant
            simp [handleEvent, Connector.handleWrite, hstate, removeAndResetChannel_eq hchannel,
              herr, hself, hset, newConnection]
            rfl

/-- The attempt fails, or there is a connection. -/
theorem tracks_handleEvent (h : Tracks c a) {sockfd : ℕ}
    (hshape : c.connector_.shape = ⟨none, .kConnecting, some sockfd, [sockfd], [], []⟩)
    (hx : a.activity = .connecting sockfd) (error write : Bool) (err : ℕ) (selfConnect : Bool)
    (hstart : StartInv (c.handleEvent error write err selfConnect)) :
    Tracks (c.handleEvent error write err selfConnect)
      (a.after (answered error write err selfConnect)) := by
  have hstate : c.connector_.state_ = .kConnecting := congrArg Shape.state_ hshape
  have hqueued : .stopInLoop ∉ (c.connector_.detach sockfd).queued := by
    intro hin
    exact h.unstopped.1
      (mem_queued_of_queueInloop (f := .resetChannel sockfd) ClientFunctor.noConfusion hin)
  rw [handleEvent_of_connecting h.wants.2.2 hstate (congrArg Shape.channel_ hshape)] at hstart ⊢
  unfold answered
  split at hstart
  · rename_i hfails
    rw [if_pos hfails, if_pos hfails, Persistent.after_some hx]
    have hdelay : c.connector_.retryDelayMs_ = backoff a.failures :=
      h.delay (by rw [hstate]; exact States.noConfusion)
    exact tracks_retry h (k := c.connector_.detach sockfd) h.wants.2.2 hqueued rfl hdelay hstart
  rename_i hgood
  rw [if_neg hgood, if_neg hgood]
  split at hstart
  · rename_i hwrite
    rw [if_pos hwrite, if_pos hwrite, Persistent.after_some hx]
    refine ⟨h.wants, ⟨hqueued, h.unstopped.2⟩, h.sockets, fun hne => absurd rfl hne,
      work_of_connection hstart rfl, fun t ht => ?_⟩
    cases ht
  · rename_i hidle
    rw [if_neg hidle, if_neg hidle]
    exact h

theorem tracks_event (h : Tracks c a) (hinv : StartInv c) (sockfd : ℕ) (error write : Bool)
    (err : ℕ)
    (selfConnect : Bool)
    (hstart : StartInv (c.perform (.event sockfd error write err selfConnect))) :
    Tracks (c.perform (.event sockfd error write err selfConnect))
      (a.after (c.happening (.event sockfd error write err selfConnect))) := by
  simp only [perform, happening] at hstart ⊢
  split at hstart
  · rename_i hin
    rw [if_pos hin, if_pos hin]
    obtain ⟨hshape, -⟩ := hinv.client.inv.mode.of_registered hin.2
    have hactive : Tracks { c with active := c.active.filter (· ≠ sockfd) } a :=
      h.stay h.wants.1 rfl rfl id rfl rfl rfl rfl rfl
    exact tracks_handleEvent hactive hshape (h.activity (work_of_registered hinv hin.2)) error write
      err selfConnect hstart
  · rename_i hin
    rw [if_neg hin, if_neg hin]
    exact h

/-- A retry timer fires. -/
theorem tracks_timer (h : Tracks c a) (hinv : StartInv c) (i : ℕ)
    (hstart : StartInv (c.perform (.timer i))) :
    Tracks (c.perform (.timer i)) (a.after (c.happening (.timer i))) := by
  simp only [perform, happening] at hstart ⊢
  split at hstart
  swap
  · rename_i hidle
    rw [if_neg hidle, if_neg hidle]
    exact h
  rename_i hfires
  rw [if_pos hfires, if_pos hfires]
  rw [Bool.and_eq_true, decide_eq_true_eq] at hfires
  have hmem : c.connector_.timers[i] ∈ c.connector_.timers := List.getElem_mem hfires.2
  have hstate : c.connector_.state_ = .kDisconnected := by
    obtain ⟨-, -, hshape | hshape⟩ := hinv.client.inv.mode.of_timer hmem
    · exact congrArg Shape.state_ hshape
    · exact congrArg Shape.state_ hshape
  rw [startInLoop_eq (k := { c.connector_ with timers := c.connector_.timers.eraseIdx i })
    h.wants.2.2 hstate] at hstart ⊢
  rw [Persistent.after_some (h.activity (work_of_timer hinv hmem))]
  refine ⟨h.wants, h.unstopped, congrArg (· + 1) h.sockets, h.delay,
    work_of_calling hstart (congrArg some h.sockets), fun t ht => ?_⟩
  cases ht

/-- `connecting` registers the channel, and leaves the rest. -/
theorem connecting_frame (k : Connector) (sockfd : ℕ) :
    (k.connecting sockfd).connect_ = k.connect_ ∧ (k.connecting sockfd).queued = k.queued ∧
    (k.connecting sockfd).created = k.created ∧ (k.connecting sockfd).retryDelayMs_ =
    k.retryDelayMs_ ∧
    sockfd ∈ (k.connecting sockfd).registered := by
  have hin : sockfd ∈ k.registered ++ [sockfd] := List.mem_append_right _ List.mem_cons_self
  unfold Connector.connecting Connector.assert
  dsimp only
  split
  · exact ⟨rfl, rfl, rfl, rfl, hin⟩
  · exact ⟨rfl, rfl, rfl, rfl, hin⟩

/-- `connect(2)` returns. -/
theorem tracks_connectReturns (h : Tracks c a) (hinv : StartInv c) {savedErrno : Errno}
    (hretries : (outcome savedErrno).isSome = true)
    (hstart : StartInv (c.perform (.connectReturns savedErrno))) :
    Tracks (c.perform (.connectReturns savedErrno))
      (a.after (c.happening (.connectReturns savedErrno))) := by
  cases hcalling : c.connector_.calling with
  | none =>
      have hsame : c.connector_.connectReturns savedErrno = c.connector_ := by
        simp [Connector.connectReturns, hcalling]
      simp only [perform, happening, hsame, hcalling]
      exact h
  | some sockfd =>
      have hx := h.activity (work_of_calling hinv hcalling)
      have hdelay : c.connector_.retryDelayMs_ = backoff a.failures := by
        refine h.delay ?_
        rw [show c.connector_.state_ = _ from
          congrArg Shape.state_ (hinv.client.inv.mode.of_calling hcalling).1]
        exact States.noConfusion
      simp only [perform, happening, Connector.connectReturns, hcalling, Option.isSome_some,
        if_true] at hstart ⊢
      cases savedErrno with
      | success | EINPROGRESS | EINTR | EISCONN =>
          obtain ⟨hconnect, hqueued, hcreated, hdelay', hin⟩ :=
            connecting_frame { c.connector_ with calling := none } sockfd
          rw [show outcome _ = some .inProgress from rfl, Persistent.after_some hx]
          refine ⟨⟨h.wants.1, h.wants.2.1, hconnect.trans h.wants.2.2⟩, ⟨?_, h.unstopped.2⟩,
            hcreated.trans h.sockets, fun _ => hdelay'.trans hdelay, work_of_registered hstart hin,
            fun t ht => ?_⟩
          · rw [hqueued]
            exact h.unstopped.1
          · cases ht
      | EAGAIN | EADDRINUSE | EADDRNOTAVAIL | ECONNREFUSED | ENETUNREACH =>
          rw [show outcome _ = some .failed from rfl, Persistent.after_some hx]
          exact tracks_retry h (k := { c.connector_ with calling := none }) h.wants.2.2
            h.unstopped.1 rfl hdelay hstart
      | EACCES | EPERM | EAFNOSUPPORT | EALREADY | EBADF | EFAULT | ENOTSOCK | other =>
          cases hretries

/-- `forceClose` only queues a functor. -/
theorem tracks_forceClose (h : Tracks c a) : Tracks (c.perform .forceClose) a := by
  simp only [perform]
  split
  · rename_i conn _
    have hstarts :
        starts { c with connector_ := c.connector_.queueInloop (.forceCloseInLoop conn) } =
          c.starts := by
      rw [starts, queued_queueInloop, List.count_append]
      rfl
    refine h.stay h.wants.1 rfl rfl (mem_queued_of_queueInloop ClientFunctor.noConfusion)
      rfl rfl rfl rfl ?_
    rw [work, hstarts]
    rfl
  · exact h

theorem tracks_perform (h : Tracks c a) (hinv : StartInv c) {m : Move} (hm : m.persistent = true)
    (hstart : StartInv (c.perform m)) : Tracks (c.perform m) (a.after (c.happening m)) := by
  cases m with
  | connect | disconnect | stop | stopStore => cases hm
  | enableRetry => exact h.stay rfl rfl rfl id rfl rfl rfl rfl rfl
  | stopQueue =>
      have hnone : ¬ 0 < c.stopping := by
        rw [h.unstopped.2]
        exact Nat.lt_irrefl 0
      simp only [perform, if_neg hnone]
      exact h
  | forceClose => exact tracks_forceClose h
  | poll =>
      simp only [perform]
      split
      · exact h.stay h.wants.1 rfl rfl id rfl rfl rfl rfl rfl
      · exact h
  | doPendingFunctors =>
      simp only [perform]
      split
      · rename_i hevents
        have hswap := queued_swap (hinv.client.events hevents)
        refine h.stay h.wants.1 rfl rfl (fun hin => hswap ▸ hin) rfl rfl rfl rfl ?_
        rw [work, starts, hswap]
        rfl
      · exact h
  | functor => exact tracks_functor h hinv hstart
  | event sockfd error write err selfConnect =>
      exact tracks_event h hinv sockfd error write err selfConnect hstart
  | close conn =>
      simp only [perform, happening] at hstart ⊢
      split at hstart
      · rename_i hin
        rw [if_pos hin, if_pos hin]
        have hactive : Tracks { c with active := c.active.filter (· ≠ conn) } a :=
          h.stay h.wants.1 rfl rfl id rfl rfl rfl rfl rfl
        exact tracks_handleClose hactive hstart
      · rename_i hin
        rw [if_neg hin, if_neg hin]
        exact h
  | timer i => exact tracks_timer h hinv i hstart
  | connectReturns savedErrno => exact tracks_connectReturns h hinv hm hstart

/-- Every move of the client is the step of the machine for what happens in it. -/
theorem tracks_step (h : Tracks c a) (hinv : StartInv c) {m : Move} (hm : m.persistent = true)
    (hstart : StartInv (c.step m)) : Tracks (c.step m) (a.after (c.happens m)) := by
  unfold step at hstart ⊢
  unfold happens
  split at hstart
  · rename_i hbusy
    rw [if_pos hbusy, if_pos hbusy]
    exact h
  · rename_i hfree
    rw [if_neg hfree, if_neg hfree]
    exact tracks_perform h hinv hm hstart

end Refinement

/-! ### Whole runs -/

theorem Move.isConnect_of_persistent {m : Move} (h : m.persistent = true) :
    m.isConnect = false := by
  cases m with
  | connect => cases h
  | _ => rfl

/-- The client after `enableRetry` and `connect`. -/
def retrying (inLoopThread : Bool) : TcpClient :=
  (new.step .enableRetry).step (.connect inLoopThread)

theorem startInv_retrying (inLoopThread : Bool) : StartInv (retrying inLoopThread) := by
  have hswap : retrying inLoopThread = (new.step (.connect inLoopThread)).step .enableRetry := by
    cases inLoopThread <;> rfl
  rw [hswap]
  exact startInv_step (startInv_connect inLoopThread) rfl trivial

/-- The machine at that moment. -/
def begun (inLoopThread : Bool) : Persistent :=
  if inLoopThread then ⟨.calling 0, 1, 0⟩ else ⟨.starting, 0, 0⟩

theorem tracks_retrying (inLoopThread : Bool) :
    Tracks (retrying inLoopThread) (begun inLoopThread) := by
  have hnot : ∀ t, (begun inLoopThread).activity ≠ .waiting t := by
    intro t ht
    cases inLoopThread <;> cases ht
  cases inLoopThread <;>
    exact ⟨⟨rfl, rfl, rfl⟩, ⟨by decide, rfl⟩, rfl, fun _ => rfl, rfl, fun t ht => absurd ht (hnot t)⟩

theorem tracks_exec {c : TcpClient} {a : Persistent} (h : Tracks c a) (hinv : StartInv c)
    {run : List Move} (hrun : ∀ m ∈ run, m.persistent = true)
    (hresets : Along step resetsFirst c run) :
    StartInv (exec step c run) ∧
      Tracks (exec step c run) (exec Persistent.next a (outputs step happens c run)) := by
  refine along_outputs (fun bs c => StartInv c ∧ Tracks c (exec Persistent.next a bs)) ?_ ⟨hinv, h⟩
    ((along_of_forall_mem hrun).and hresets)
  rintro bs c m ⟨hinv, htracks⟩ ⟨hm, hreset⟩
  have hstart := startInv_step hinv (Move.isConnect_of_persistent hm) hreset
  rw [exec_concat_toList]
  exact ⟨hstart, tracks_step htracks hinv hm hstart⟩

/-- **A client that retries never gives up.**  After `enableRetry` and `connect`, and until `stop`
or `disconnect` is called, attempts are refused, fail later, find themselves connected to
themselves, or succeed, connections are lost or forced to close, in any order, and timers fire after
the `resetChannel` of their attempt.  As long as `connect(2)` gives no answer that the connector
takes for final, the client is where the machine is after what has happened in the run: at every
moment exactly one of a queued `startInLoop`, a call of `connect(2)`, a connecting channel, a retry
timer and a connection is in hand; a socket is made for every attempt that has begun; and the timer
waits `500 * 2 ^ n` ms, capped at half a minute, if `n + 1` attempts have failed since a connection
was lost, or since the beginning. -/
theorem client_never_gives_up (inLoopThread : Bool) (run : List Move)
    (hrun : ∀ m ∈ run, m.persistent = true)
    (hresets : Along step resetsFirst (retrying inLoopThread) run) :
    let c := exec step (retrying inLoopThread) run
    let a := exec Persistent.next (begun inLoopThread)
      (outputs step happens (retrying inLoopThread) run)
    c.work = a.activity.work ∧ c.connector_.created = a.sockets ∧
      ∀ t ∈ c.connector_.timers, 0 < a.failures ∧ t.delayMs = backoff (a.failures - 1) := by
  intro c a
  obtain ⟨hinv, htracks⟩ :=
    tracks_exec (tracks_retrying inLoopThread) (startInv_retrying inLoopThread) hrun hresets
  exact ⟨htracks.doing, htracks.sockets, fun t ht =>
    htracks.waited t (htracks.activity (work_of_timer hinv ht))⟩

/-- Refused, then failed, then connected; the connection is lost and the next attempt refused. -/
def refusedTwiceThenLost : List Move :=
  [.connectReturns .ECONNREFUSED, .poll, .timer 0, .connectReturns .EINPROGRESS, .doPendingFunctors,
    .poll, .event 1 true true 111 false, .doPendingFunctors, .functor, .poll, .timer 0,
    .connectReturns .EINPROGRESS, .doPendingFunctors, .poll, .event 2 false true 0 false,
    .doPendingFunctors, .functor, .poll, .close 2, .connectReturns .ENETUNREACH]

/-- The delay after the second failure is twice the first one, and the first one again after the
loss. -/
theorem client_never_gives_up_refusedTwiceThenLost :
    outputs step happens (retrying true) refusedTwiceThenLost =
      [.failed, .retried, .inProgress, .failed, .retried, .inProgress, .established,
        .lost, .failed] ∧
    (exec step (retrying true) (refusedTwiceThenLost.take 9)).connector_.timers = [⟨1, 1000⟩] ∧
    (exec step (retrying true) refusedTwiceThenLost).connector_.timers = [⟨3, 500⟩] ∧
    (exec step (retrying true) refusedTwiceThenLost).connector_.created = 4 ∧
    ∀ t ∈ (exec step (retrying true) refusedTwiceThenLost).connector_.timers,
      t.delayMs = backoff 0 := by
  obtain ⟨-, hcreated, htimers⟩ :=
    client_never_gives_up true refusedTwiceThenLost (by decide +kernel) (by decide +kernel)
  refine ⟨by decide +kernel, by decide +kernel, by decide +kernel,
    hcreated.trans (by decide +kernel), fun t ht => (htimers t ht).2⟩

end TcpClient

end Muduo.Net
