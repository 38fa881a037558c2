import Muduo.Web.RequestRoundTrip
import Muduo.Web.Serving

/-!
# A client and the server

A client sends requests one at a time: the next one only when the response to the last one is
complete.  Its bytes reach the server in whatever pieces the network makes of them, and the
responses leave as `write(2)` lets them.  The server answers one request in a call of `onMessage`
and drops none, because no piece holds the end of two requests.

* `answers` — the responses to a list of requests, up to the first one that closes the connection;
* `due_encode` — they are what is due for the encoded requests;
* `Exchange`, `step` — the client, the bytes under way and the server's connection;
* `Inv`, `inv_step` — all requests but the last have been answered, and what is due has been sent;
* `exchange_complete` — all runs.
-/

namespace Muduo.Web

open Muduo.Lib Muduo.Net

/-! ### Encoded requests -/

namespace WireRequest

/-- The lines of an encoded request. -/
def lines (w : WireRequest) : List (List Byte) :=
  w.requestLine :: (w.headers.map WireHeader.line ++ [[]])

theorem encode_eq_unlines (w : WireRequest) : w.encode = unlines Buffer.kCRLF w.lines := by
  have hheaders : unlines Buffer.kCRLF (w.headers.map WireHeader.line) =
      (w.headers.map fun h => h.line ++ Buffer.kCRLF).flatten := by
    rw [unlines, List.map_map]
    rfl
  rw [lines, unlines_cons, unlines_append, hheaders, encode]
  rfl

theorem lines_encode_append (w : WireRequest) (rest : List Byte) :
    Lib.lines Buffer.kCRLF (w.encode ++ rest) = w.lines ++ Lib.lines Buffer.kCRLF rest := by
  rw [encode_eq_unlines]
  refine lines_unlines_append (by decide) (fun line hline hinfix => ?_) rest
  -- no line has a carriage return
  have hcr : (13 : Byte) ∈ line := hinfix.subset (by decide)
  rw [lines, List.mem_cons, List.mem_append, List.mem_map, List.mem_singleton] at hline
  rcases hline with rfl | ⟨h, -, rfl⟩ | rfl
  · exact w.cr_notMem_requestLine hcr
  · exact cr_notMem_line h hcr
  · exact List.not_mem_nil hcr

/-- The request the parser makes of it. -/
def decoded (w : WireRequest) : Request := withHeaders w.bare w.headers

theorem requestLine_bare (w : WireRequest) : Server.requestLine w.requestLine = some w.bare := by
  rw [Server.requestLine, w.processRequestLine_encode]
  rfl

end WireRequest

namespace Server

variable (http_callback_ : HttpCallback)

theorem dueLines_headers (hs : List WireHeader) (req : Request) (rest : List (List Byte)) :
    dueLines http_callback_ (some req) (hs.map WireHeader.line ++ rest) =
      dueLines http_callback_ (some (WireRequest.withHeaders req hs)) rest := by
  induction hs generalizing req with
  | nil => rfl
  | cons h hs ih =>
      have hcolon : h.line.idxOf 58 = h.name.length := idxOf_append_cons h.name_colon _
      have hne : h.name.length ≠ h.line.length := length_ne_append_cons _ _ _
      rw [List.map_cons, List.cons_append, dueLines, hcolon, if_pos hne, WireRequest.addHeader_line,
        ih]
      rfl

/-- **An encoded request is answered once.** -/
theorem due_encode (w : WireRequest) (rest : List Byte) :
    due http_callback_ (w.encode ++ rest) = (respond http_callback_ w.decoded).text ::
      if (respond http_callback_ w.decoded).close_connection_ then []
      else due http_callback_ rest := by
  rw [due, w.lines_encode_append, WireRequest.lines, List.cons_append, dueLines, w.requestLine_bare]
  dsimp only
  rw [List.append_assoc, dueLines_headers, List.singleton_append, dueLines, if_neg (by simp)]
  rfl

/-- The responses to some requests, up to the first one that closes the connection. -/
def answers : List WireRequest → List (List Byte)
  | [] => []
  | w :: ws =>
      let response := respond http_callback_ w.decoded
      response.text :: if response.close_connection_ then [] else answers ws

theorem due_requests (ws : List WireRequest) :
    due http_callback_ (ws.map WireRequest.encode).flatten = answers http_callback_ ws := by
  induction ws with
  | nil => rfl
  | cons w ws ih => rw [List.map_cons, List.flatten_cons, due_encode, ih, answers]

theorem answers_append (ws vs : List WireRequest) :
    answers http_callback_ ws <+: answers http_callback_ (ws ++ vs) := by
  induction ws with
  | nil => exact List.nil_prefix
  | cons w ws ih =>
      rw [List.cons_append, answers, answers]
      refine (List.prefix_cons_inj _).mpr ?_
      split
      · exact List.prefix_rfl
      · exact ih

theorem length_answers_concat (ws : List WireRequest) (w : WireRequest) :
    (answers http_callback_ (ws ++ [w])).length ≤ (answers http_callback_ ws).length + 1 := by
  induction ws with
  | nil =>
      rw [List.nil_append, answers, answers, answers]
      split <;> exact le_rfl
  | cons v ws ih =>
      rw [List.cons_append, answers, answers]
      rw [List.length_cons, List.length_cons]
      split
      · exact Nat.le_succ _
      · exact Nat.succ_le_succ ih

theorem ne_nil_of_mem_answers {ws : List WireRequest} {text : List Byte}
    (h : text ∈ answers http_callback_ ws) : text ≠ [] := by
  induction ws with
  | nil => exact absurd h List.not_mem_nil
  | cons w ws ih =>
      rw [answers, List.mem_cons] at h
      rcases h with rfl | hlater
      · intro hnil
        have hcrlf : (13 : Byte) ∈ (respond http_callback_ w.decoded).text := by
          rw [Response.text]
          simp [literal, charBytes]
        rw [hnil] at hcrlf
        exact List.not_mem_nil hcrlf
      · split at hlater
        · exact absurd hlater List.not_mem_nil
        · exact ih hlater

theorem dueLines_prefix (p : Option Request) (ls ms : List (List Byte)) :
    dueLines http_callback_ p ls <+: dueLines http_callback_ p (ls ++ ms) := by
  induction ls generalizing p with
  | nil =>
      rw [dueLines_nil]
      exact List.nil_prefix
  | cons line ls ih =>
      cases p with
      | none =>
          rw [List.cons_append, dueLines, dueLines]
          cases requestLine line with
          | none => exact List.prefix_rfl
          | some req => exact ih (some req)
      | some req =>
          rw [List.cons_append, dueLines, dueLines]
          split
          · exact ih _
          · refine (List.prefix_cons_inj _).mpr ?_
            split
            · exact List.prefix_rfl
            · exact ih none

/-- What is due stays due when more bytes arrive. -/
theorem due_prefix (stream more : List Byte) :
    due http_callback_ stream <+: due http_callback_ (stream ++ more) := by
  rw [due, due, lines_append kCRLF_ne_nil]
  exact dueLines_prefix http_callback_ none _ _

end Server

/-! ### The client and the connection -/

/-- The client, the bytes under way and the connection. -/
structure Exchange (P : Type*) where
  web : Option (WebConnection P)
  /-- How many requests the client has sent. -/
  sent : ℕ
  /-- Sent by the client and not read by the server. -/
  underway : List Byte
  /-- How many bytes the client has received. -/
  got : ℕ

/-- The step brings bytes to the server. -/
def WebLabel.brings : WebLabel → Bool
  | .read (.data (_ :: _)) _ _ => true
  | _ => false

inductive ExchangeLabel where
  /-- The client sends its next request. -/
  | request
  /-- `handleRead`, when `n` bytes have arrived. -/
  | read (n : ℕ) (bad good : WriteResult)
  /-- Any other step of the connection. -/
  | server (l : WebLabel)
  /-- The client receives up to `n` bytes. -/
  | receive (n : ℕ)

namespace Exchange

variable {P : Type*} (poller : Poller P Unit) (http_callback_ : HttpCallback)
    (ws : List WireRequest)

def start (fd : ℕ) (p : P) : Exchange P := ⟨some (.start poller fd p), 0, [], 0⟩

def step (x : Exchange P) : ExchangeLabel → Exchange P
  | .request =>
      match ws[x.sent]? with
      | none => x
      | some w =>
          -- the responses to all the others are complete
          if (Server.answers http_callback_ (ws.take x.sent)).flatten.length ≤ x.got then
            { x with sent := x.sent + 1, underway := x.underway ++ w.encode }
          else x
  | .read n bad good =>
      match x.web, x.underway.take n with
      | some s, b :: bytes =>
          { x with
            web := s.next poller http_callback_ (.read (.data (b :: bytes)) bad good)
            underway := x.underway.drop ((b :: bytes).take s.conn.inputBuffer_.iovecSpace).length }
      | _, _ => x
  | .server l =>
      if l.brings then x
      else { x with web := WebConnection.step poller http_callback_ x.web l }
  | .receive n =>
      match x.web with
      | some s => { x with got := min (x.got + n) (TcpConnection.accepted s.conn.log).length }
      | none => x

end Exchange

/-! ### What a step adds to the log and to the history -/

namespace WebConnection

open TcpConnection

variable {P : Type*} (poller : Poller P Unit) (http_callback_ : HttpCallback)

/-- What a step makes known to the server. -/
def events (s : WebConnection P) : WebLabel → List ServerEvent
  | .read r _ _ => s.arrived r
  | .shutdown _ => [.shutdown]
  | .close => [.closed]
  | .destroy => if s.conn.state_ = .kConnected then [.closed] else []
  | .write _ | .functor _ => []

theorem seen_onMessage {s s' : WebConnection P} {bad good : WriteResult}
    (h : s.onMessage poller http_callback_ bad good = some s') : s'.seen = s.seen := by
  unfold onMessage at h
  split at h
  · cases h
  · dsimp only at h
    split at h
    · obtain rfl := Option.some.inj h
      rfl
    · obtain rfl := Option.some.inj h
      rfl

theorem seen_next {s s' : WebConnection P} {l : WebLabel}
    (h : s.next poller http_callback_ l = some s') :
    s'.seen = s.seen ++ s.events l := by
  cases l with
  | read r bad good =>
      simp only [next, read] at h
      split at h
      · exact seen_onMessage poller http_callback_ h
      · obtain rfl := Option.some.inj h
        rfl
  | write r =>
      obtain rfl := Option.some.inj h
      exact (List.append_nil _).symm
  | shutdown inLoopThread =>
      obtain rfl := Option.some.inj h
      rfl
  | functor r =>
      obtain rfl := Option.some.inj h
      exact (List.append_nil _).symm
  | close =>
      obtain rfl := Option.some.inj h
      rfl
  | destroy =>
      obtain rfl := Option.some.inj h
      rfl

theorem log_send (c : TcpConnection P) (message : List Byte) (r : WriteResult) :
    c.log <+: (c.send poller true message r).log := by
  unfold TcpConnection.send
  split
  · obtain ⟨es, hlog, -⟩ := (Writes.sendInLoop poller c message r).log
    exact ⟨es, hlog.symm⟩
  · exact List.prefix_rfl

theorem log_shutdownInLoop (c : TcpConnection P) : c.log <+: c.shutdownInLoop.log := by
  unfold TcpConnection.shutdownInLoop
  split
  · exact List.prefix_rfl
  · exact List.prefix_append _ _

theorem log_shutdown (c : TcpConnection P) (inLoopThread : Bool) :
    c.log <+: (c.shutdown inLoopThread).log := by
  unfold TcpConnection.shutdown
  dsimp only
  split_ifs
  · exact log_shutdownInLoop (c.setState .kDisconnecting)
  · exact List.prefix_rfl
  · exact List.prefix_rfl

theorem log_onRequest (c : TcpConnection P) (req : Request) (r : WriteResult) :
    c.log <+: (onRequest poller http_callback_ c req r).log := by
  unfold onRequest
  dsimp only
  split
  · exact (log_send poller c _ r).trans (log_shutdown _ true)
  · exact log_send poller c _ r

theorem log_onMessage {s s' : WebConnection P} {bad good : WriteResult}
    (h : s.onMessage poller http_callback_ bad good = some s') : s.conn.log <+: s'.conn.log := by
  unfold onMessage at h
  split at h
  · cases h
  · rename_i ok ctx buf _
    have hbad : s.conn.log <+: (if ok then { s.conn with inputBuffer_ := buf } else
        (({ s.conn with inputBuffer_ := buf } : TcpConnection P).send poller true Server.badRequest
          bad).shutdown true).log := by
      split
      · exact List.prefix_rfl
      · exact (log_send poller { s.conn with inputBuffer_ := buf } _ bad).trans
          (log_shutdown _ true)
    dsimp only at h
    split at h
    · obtain rfl := Option.some.inj h
      exact hbad.trans (log_onRequest poller http_callback_ _ _ good)
    · obtain rfl := Option.some.inj h
      exact hbad

theorem log_handleRead (c : TcpConnection P) (r : Buffer.ReadvResult) :
    c.log <+: (c.handleRead poller r).1.log := by
  unfold handleRead
  dsimp only
  split
  · exact List.prefix_rfl
  · exact List.prefix_append _ _
  · exact List.prefix_rfl

theorem log_handleWrite (c : TcpConnection P) (r : WriteResult) :
    c.log <+: (c.handleWrite poller r).log := by
  rcases Writes.handleWrite_cases poller c r with ⟨-, hsame⟩ | ⟨-, hwrites⟩ |
    ⟨d, st, unsent, -, -, -, -, -, -, hwrites, -, hend⟩
  · rw [hsame]
  · obtain ⟨es, hlog, -⟩ := hwrites.log
    exact ⟨es, hlog.symm⟩
  · obtain ⟨es, hlog, -⟩ := hwrites.log
    rw [hend]
    exact List.IsPrefix.trans ⟨es, hlog.symm⟩ (List.prefix_append _ _)

theorem log_connectDestroyed (c : TcpConnection P) : (c.connectDestroyed poller).1.log = c.log := by
  unfold connectDestroyed
  split <;> rfl

theorem log_functor (c : TcpConnection P) (r : WriteResult) :
    c.log <+: (functor poller c r).log := by
  unfold functor
  split
  · exact List.prefix_rfl
  · rename_i f rest _
    cases f with
    | sendInLoop message =>
        obtain ⟨es, hlog, -⟩ := (Writes.sendInLoop poller { c with pending := rest } message r).log
        exact ⟨es, hlog.symm⟩
    | shutdownInLoop => exact log_shutdownInLoop { c with pending := rest }
    | forceCloseInLoop =>
        simp only [runFunctor, forceCloseInLoop]
        split
        · exact List.prefix_append _ _
        · exact List.prefix_rfl
    | startReadInLoop =>
        simp only [runFunctor, startReadInLoop]
        split <;> exact List.prefix_rfl
    | stopReadInLoop =>
        simp only [runFunctor, stopReadInLoop]
        split <;> exact List.prefix_rfl
    | connectDestroyed =>
        rw [runFunctor, log_connectDestroyed]
    | writeCompleteCallback_ => exact List.prefix_rfl
    | highWaterMarkCallback_ len => exact List.prefix_rfl

/-- The log only grows. -/
theorem log_next {s s' : WebConnection P} {l : WebLabel}
    (h : s.next poller http_callback_ l = some s') :
    s.conn.log <+: s'.conn.log := by
  cases l with
  | read r bad good =>
      simp only [next, read] at h
      split at h
      · exact (log_handleRead poller s.conn r).trans (log_onMessage poller http_callback_ h)
      · obtain rfl := Option.some.inj h
        exact log_handleRead poller s.conn r
  | write r =>
      obtain rfl := Option.some.inj h
      exact log_handleWrite poller s.conn r
  | shutdown inLoopThread =>
      obtain rfl := Option.some.inj h
      exact log_shutdown s.conn inLoopThread
  | functor r =>
      obtain rfl := Option.some.inj h
      exact log_functor poller s.conn r
  | close =>
      obtain rfl := Option.some.inj h
      exact List.prefix_append _ _
  | destroy =>
      obtain rfl := Option.some.inj h
      show s.conn.log <+: (s.conn.connectDestroyed poller).1.log
      rw [log_connectDestroyed]

end WebConnection

/-! ### The invariant -/

def ServerEvent.isChunk : ServerEvent → Bool
  | .chunk _ => true
  | _ => false

/-- Nobody has closed the connection, and `faultError` was not set. -/
def WebConnection.Undisturbed {P : Type*} (s : WebConnection P) : Prop :=
  (∀ e ∈ s.seen, e.isChunk = true) ∧ TcpConnection.faulted s.conn.log = false

namespace Server

variable {http_callback_ : HttpCallback}

theorem shutdown_state_ne {a : Connection} (h : a.state_ ≠ .kDisconnected) :
    (shutdown a).state_ ≠ .kDisconnected := by
  unfold shutdown
  split
  · simp
  · exact h

theorem send_state_ne {a : Connection} (h : a.state_ ≠ .kDisconnected) (message : List Byte) :
    (send a message).state_ ≠ .kDisconnected := by
  unfold send
  split <;> exact h

theorem deliver_state_ne {a a' : Connection} (h : a.state_ ≠ .kDisconnected) {data : List Byte}
    (ha : deliver http_callback_ a data = some a') : a'.state_ ≠ .kDisconnected := by
  unfold deliver onMessage at ha
  split at ha
  · cases ha
  · rename_i ok ctx buf _
    have hbad : (if ok then { a with context := ctx, inputBuffer_ := buf } else
        shutdown (send { a with context := ctx, inputBuffer_ := buf } badRequest)).state_ ≠
          .kDisconnected := by
      split
      · exact h
      · exact shutdown_state_ne
          (send_state_ne (a := { a with context := ctx, inputBuffer_ := buf }) h badRequest)
    dsimp only at ha
    split at ha
    · obtain rfl := Option.some.inj ha
      unfold onRequest
      dsimp only
      split
      · exact shutdown_state_ne (send_state_ne hbad _)
      · exact send_state_ne hbad _
    · obtain rfl := Option.some.inj ha
      exact hbad

/-- All that is due for the bytes received has been sent, and some of the requests are answered. -/
structure UpToDate (http_callback_ : HttpCallback) (a : Connection) (stream : List Byte)
    (answered : List (List Byte)) : Prop where
  opened : a.state_ ≠ .kDisconnected
  future : ∃ future, Awaits http_callback_ a future ∧ future [] = [] ∧
    ∀ more, due http_callback_ (stream ++ more) = a.sent ++ future more
  answered : answered <+: a.sent

theorem UpToDate.due_eq {a : Connection} {stream : List Byte} {answered : List (List Byte)}
    (h : UpToDate http_callback_ a stream answered) : due http_callback_ stream = a.sent := by
  obtain ⟨future, -, hnil, hdue⟩ := h.future
  have hnow := hdue []
  rwa [List.append_nil, hnil, List.append_nil] at hnow

/-- **A piece of the stream** that makes at most one more response due. -/
theorem UpToDate.deliver {a a' : Connection} {stream : List Byte} {answered : List (List Byte)}
    (h : UpToDate http_callback_ a stream answered) {data : List Byte}
    (hone : (due http_callback_ (stream ++ data)).length ≤ answered.length + 1)
    (ha : deliver http_callback_ a data = some a') :
    UpToDate http_callback_ a' (stream ++ data) answered := by
  obtain ⟨future, hawaits, -, hdue⟩ := h.future
  obtain ⟨conn', future', hdeliver, hawaits', hsent, hfuture⟩ := deliver_step hawaits data
  obtain rfl : conn' = a' := Option.some.inj (hdeliver.symm.trans ha)
  have hanswered := h.answered.length_le
  have hlen : (future data).length ≤ 1 := by
    rw [hdue, List.length_append] at hone
    omega
  have htake : (future data).take 1 = future data := List.take_of_length_le hlen
  rw [htake] at hsent hfuture
  refine ⟨deliver_state_ne h.opened ha, ⟨future', hawaits', ?_, fun more => ?_⟩, ?_⟩
  · have hend := hfuture []
    rw [List.append_nil] at hend
    exact (List.append_right_eq_self.mp hend.symm)
  · rw [List.append_assoc, hdue, hfuture, hsent, List.append_assoc]
  · rw [hsent]
    exact h.answered.trans (List.prefix_append _ _)

end Server

namespace Exchange

open TcpConnection

variable {P : Type*} {poller : Poller P Unit} {http_callback_ : HttpCallback}
    {ws : List WireRequest}

/-- The bytes of the first `n` requests. -/
def bytesOf (ws : List WireRequest) (n : ℕ) : List Byte :=
  ((ws.take n).map WireRequest.encode).flatten

structure Inv (http_callback_ : HttpCallback) (ws : List WireRequest) (x : Exchange P)
    (s : WebConnection P) (a : Server.Connection) : Prop where
  web : x.web = some s
  history : Server.history http_callback_ s.seen = some a
  follows : Follows s a
  stream : Server.received s.seen ++ x.underway = bytesOf ws x.sent
  got : x.got ≤ (accepted s.conn.log).length
  /-- Only the last request may be waiting for its response. -/
  upToDate : s.Undisturbed → Server.UpToDate http_callback_ a (Server.received s.seen)
    (Server.answers http_callback_ (ws.take (x.sent - 1)))

theorem due_bytesOf (n : ℕ) :
    Server.due http_callback_ (bytesOf ws n) = Server.answers http_callback_ (ws.take n) :=
  Server.due_requests http_callback_ (ws.take n)

theorem bytesOf_succ {n : ℕ} {w : WireRequest} (hw : ws[n]? = some w) :
    bytesOf ws (n + 1) = bytesOf ws n ++ w.encode := by
  rw [bytesOf, List.take_add_one, hw, List.map_append, List.flatten_append]
  simp [bytesOf]

theorem length_answers_take (n : ℕ) : (Server.answers http_callback_ (ws.take n)).length ≤
    (Server.answers http_callback_ (ws.take (n - 1))).length + 1 := by
  cases n with
  | zero => exact Nat.le_succ _
  | succ n =>
      rw [Nat.succ_sub_one, List.take_add_one]
      cases ws[n]? with
      | none =>
          rw [Option.toList_none, List.append_nil]
          exact Nat.le_succ _
      | some w => exact Server.length_answers_concat http_callback_ (ws.take n) w

theorem inv_start (fd : ℕ) (p : P) :
    Inv http_callback_ ws (start poller fd p) (.start poller fd p) Server.established where
  web := rfl
  history := rfl
  follows := follows_start poller fd p
  stream := rfl
  got := Nat.zero_le _
  upToDate _ := by
    refine ⟨by simp [Server.established], ⟨_, Server.served_nil.awaits, rfl, fun more => rfl⟩, ?_⟩
    exact List.nil_prefix

variable {x : Exchange P} {s : WebConnection P} {a : Server.Connection}

/-- What has been sent belongs to the requests that the client has sent. -/
theorem Inv.sent_prefix (h : Inv http_callback_ ws x s a) :
    a.sent <+: Server.answers http_callback_ (ws.take x.sent) := by
  obtain ⟨future, -, hdue⟩ := history_due s.seen a h.history
  have hall := (List.prefix_append a.sent (future x.underway)).trans (hdue x.underway)
  rwa [h.stream, due_bytesOf] at hall

/-- A client that has all its responses has them from a server that has sent them. -/
theorem Inv.sent_eq (h : Inv http_callback_ ws x s a) (hfault : faulted s.conn.log = false)
    (hall : (Server.answers http_callback_ (ws.take x.sent)).flatten.length ≤ x.got) :
    a.sent = Server.answers http_callback_ (ws.take x.sent) := by
  refine eq_of_prefix_of_flatten_le h.sent_prefix (fun t ht => Server.ne_nil_of_mem_answers _ ht) ?_
  have hout := (h.follows.conn.inv.sentOut hfault).length_le
  exact hall.trans (h.got.trans hout)

theorem inv_request (h : Inv http_callback_ ws x s a) {w : WireRequest} (hw : ws[x.sent]? = some w)
    (hall : (Server.answers http_callback_ (ws.take x.sent)).flatten.length ≤ x.got) :
    Inv http_callback_ ws
      { x with sent := x.sent + 1, underway := x.underway ++ w.encode } s a where
  web := h.web
  history := h.history
  follows := h.follows
  stream := by
    rw [bytesOf_succ hw, ← h.stream, List.append_assoc]
  got := h.got
  upToDate hs := by
    obtain ⟨hopen, hfuture, -⟩ := h.upToDate hs
    refine ⟨hopen, hfuture, ?_⟩
    rw [Nat.add_sub_cancel, ← h.sent_eq hs.2 hall]

theorem accepted_mono {log log' : List Event} (h : log <+: log') :
    accepted log <+: accepted log' := by
  obtain ⟨es, rfl⟩ := h
  rw [accepted_append]
  exact List.prefix_append _ _

theorem faulted_mono {log log' : List Event} (h : log <+: log') (hfault : faulted log' = false) :
    faulted log = false := by
  obtain ⟨es, rfl⟩ := h
  rw [faulted_append, Bool.or_eq_false_iff] at hfault
  exact hfault.1

theorem undisturbed_of_next {s' : WebConnection P} {l : WebLabel}
    (hnext : s.next poller http_callback_ l = some s') (h : s'.Undisturbed) : s.Undisturbed := by
  refine ⟨fun e he => h.1 e ?_, faulted_mono (WebConnection.log_next poller http_callback_ hnext)
    h.2⟩
  rw [WebConnection.seen_next poller http_callback_ hnext]
  exact List.mem_append_left _ he

/-- A step that brings no bytes. -/
theorem isChunk_events {l : WebLabel} (hl : l.brings = false) :
    ∀ e ∈ s.events l, e.isChunk = false := by
  intro e he
  cases l with
  | read r bad good =>
      cases r with
      | error errno => exact absurd he List.not_mem_nil
      | data bytes =>
          cases bytes with
          | nil =>
              rw [WebConnection.events, WebConnection.arrived, Buffer.readFd_data_snd,
                List.take_nil] at he
              rw [List.mem_singleton.mp he]
              rfl
          | cons b bytes => cases hl
  | write r => exact absurd he List.not_mem_nil
  | shutdown inLoopThread =>
      rw [List.mem_singleton.mp he]
      rfl
  | functor r => exact absurd he List.not_mem_nil
  | close =>
      rw [List.mem_singleton.mp he]
      rfl
  | destroy =>
      rw [WebConnection.events] at he
      split at he
      · rw [List.mem_singleton.mp he]
        rfl
      · exact absurd he List.not_mem_nil

theorem received_of_not_chunk {events : List ServerEvent} (h : ∀ e ∈ events, e.isChunk = false) :
    Server.received events = [] := by
  refine List.flatMap_eq_nil_iff.mpr fun e he => ?_
  have hnot := h e he
  cases e <;> first | rfl | cases hnot

/-- **A step of the connection that brings no bytes.** -/
theorem inv_quiet (h : Inv http_callback_ ws x s a) {l : WebLabel} (hl : l.brings = false) :
    ∃ s' a', Inv http_callback_ ws
      { x with web := WebConnection.step poller http_callback_ x.web l } s' a' := by
  obtain ⟨s', a', hnext, hhistory, hfollows⟩ :=
    follows_next poller http_callback_ h.follows h.history l
  have hseen := WebConnection.seen_next poller http_callback_ hnext
  have hlog := WebConnection.log_next poller http_callback_ hnext
  have hnone := isChunk_events (s := s) hl
  have hreceived : Server.received s'.seen = Server.received s.seen := by
    rw [hseen, Server.received, List.flatMap_append]
    exact (congrArg _ (received_of_not_chunk hnone)).trans (List.append_nil _)
  refine ⟨s', a', ?_, hhistory, hfollows, ?_, ?_, fun hs => ?_⟩
  · rw [h.web]
    exact hnext
  · rw [hreceived]
    exact h.stream
  · exact h.got.trans (accepted_mono hlog).length_le
  · -- nothing has happened that the server sees
    have hevents : s.events l = [] := by
      refine List.eq_nil_iff_forall_not_mem.mpr fun e he => ?_
      have hchunk := hs.1 e (by rw [hseen]; exact List.mem_append_right _ he)
      rw [hnone e he] at hchunk
      cases hchunk
    have hsame : a = a' := by
      rw [hseen, hevents, List.append_nil, h.history] at hhistory
      exact Option.some.inj hhistory
    rw [hreceived, ← hsame]
    exact h.upToDate (undisturbed_of_next hnext hs)

/-- **A read** takes a piece of what is under way. -/
theorem inv_read (h : Inv http_callback_ ws x s a) {n : ℕ} {b : Byte} {bytes : List Byte}
    (hbytes : x.underway.take n = b :: bytes) (bad good : WriteResult) :
    ∃ s' a', Inv http_callback_ ws { x with
      web := s.next poller http_callback_ (.read (.data (b :: bytes)) bad good)
      underway := x.underway.drop ((b :: bytes).take s.conn.inputBuffer_.iovecSpace).length }
        s' a' := by
  obtain ⟨s', a', hnext, hhistory, hfollows⟩ :=
    follows_next poller http_callback_ h.follows h.history (.read (.data (b :: bytes)) bad good)
  have hseen := WebConnection.seen_next poller http_callback_ hnext
  have hlog := WebConnection.log_next poller http_callback_ hnext
  generalize hdata : (b :: bytes).take s.conn.inputBuffer_.iovecSpace = data
  have hne : ∃ c cs, data = c :: cs := by
    obtain ⟨k, hk⟩ := Nat.exists_eq_succ_of_ne_zero s.conn.inputBuffer_.iovecSpace_pos.ne'
    exact ⟨b, bytes.take k, by rw [← hdata, hk, List.take_succ_cons]⟩
  have hevents : s.events (.read (.data (b :: bytes)) bad good) = [.chunk data] := by
    obtain ⟨c, cs, hcons⟩ := hne
    rw [WebConnection.events, WebConnection.arrived, Buffer.readFd_data_snd, hdata, hcons]
  have hreceived : Server.received s'.seen = Server.received s.seen ++ data := by
    rw [hseen, hevents, received_concat]
    simp [Server.received]
  have hunderway : x.underway = data ++ x.underway.drop data.length := by
    have hprefix : data <+: x.underway := by
      rw [← hdata, ← hbytes]
      exact (List.take_prefix _ _).trans (List.take_prefix _ _)
    exact (List.prefix_iff_eq_append.mp hprefix).symm
  have hstream :
      Server.received s.seen ++ data ++ x.underway.drop data.length = bytesOf ws x.sent := by
    rw [List.append_assoc, ← hunderway, h.stream]
  refine ⟨s', a', hnext, hhistory, hfollows, ?_, ?_, fun hs => ?_⟩
  · rw [hreceived]
    exact hstream
  · exact h.got.trans (accepted_mono hlog).length_le
  · rw [hseen, hevents, history_concat http_callback_ h.history] at hhistory
    rw [hreceived]
    refine (h.upToDate (undisturbed_of_next hnext hs)).deliver ?_ hhistory
    -- at most the last request is finished by this piece
    have hdue := (Server.due_prefix http_callback_ (Server.received s.seen ++ data)
      (x.underway.drop data.length)).length_le
    rw [hstream, due_bytesOf] at hdue
    exact hdue.trans (length_answers_take x.sent)

theorem inv_step (h : Inv http_callback_ ws x s a) (l : ExchangeLabel) :
    ∃ s' a', Inv http_callback_ ws (x.step poller http_callback_ ws l) s' a' := by
  cases l with
  | request =>
      rw [step]
      cases hw : ws[x.sent]? with
      | none => exact ⟨s, a, h⟩
      | some w =>
          dsimp only
          split_ifs with hall
          · exact ⟨s, a, inv_request h hw hall⟩
          · exact ⟨s, a, h⟩
  | read n bad good =>
      rw [step, h.web]
      cases hbytes : x.underway.take n with
      | nil => exact ⟨s, a, h⟩
      | cons b bytes => exact inv_read h hbytes bad good
  | server l =>
      rw [step]
      split_ifs with hl
      · exact ⟨s, a, h⟩
      · exact inv_quiet h (Bool.eq_false_iff.mpr hl)
  | receive n =>
      rw [step, h.web]
      exact ⟨s, a, rfl, h.history, h.follows, h.stream, min_le_right _ _, h.upToDate⟩

theorem inv_exec (poller : Poller P Unit) (http_callback_ : HttpCallback) (ws : List WireRequest)
    (fd : ℕ) (p : P) (ls : List ExchangeLabel) :
    ∃ s a,
      Inv http_callback_ ws (exec (step poller http_callback_ ws) (start poller fd p) ls) s a := by
  refine exec_invariant (fun x => ∃ s a, Inv http_callback_ ws x s a) ?_ ls ⟨_, _, inv_start fd p⟩
  rintro x l ⟨s, a, h⟩
  exact inv_step h l

end Exchange

open TcpConnection in
/-- **A client that waits for its responses gets all of them.**  For every callback, every list of
requests and every run of a client that sends the next request when it has received the responses to
the others, whatever the network and `write(2)` do with the bytes: unless `faultError` was set, that
is, a direct write failed, other than with `EWOULDBLOCK`, and `errno` was `EPIPE` or `ECONNRESET`
once that had been logged, what the server writes is a beginning of the responses to the requests,
in order.  If nobody has closed the connection either, then once no bytes are under way and
`outputBuffer_` is empty, every request that was sent has been answered, up to one whose response
closes the connection. -/
theorem exchange_complete {P : Type*} (poller : Poller P Unit) (http_callback_ : HttpCallback)
    (ws : List WireRequest) (fd : ℕ) (p : P) (ls : List ExchangeLabel) :
    let x := exec (Exchange.step poller http_callback_ ws) (Exchange.start poller fd p) ls
    ∃ s, x.web = some s ∧
      (faulted s.conn.log = false →
        accepted s.conn.log <+: (Server.answers http_callback_ ws).flatten) ∧
      (s.Undisturbed → x.underway = [] → s.conn.outputBuffer_.readable = [] →
        accepted s.conn.log = (Server.answers http_callback_ (ws.take x.sent)).flatten) := by
  intro x
  obtain ⟨s, a, h⟩ := Exchange.inv_exec poller http_callback_ ws fd p ls
  refine ⟨s, h.web, fun hfault => ?_, fun hs hempty hout => ?_⟩
  · have hall : a.sent <+: Server.answers http_callback_ ws := by
      have hmore := Server.answers_append http_callback_ (ws.take x.sent) (ws.drop x.sent)
      rw [List.take_append_drop] at hmore
      exact h.sent_prefix.trans hmore
    obtain ⟨rest, hrest⟩ := hall
    rw [← hrest, List.flatten_append]
    exact (h.follows.conn.inv.sentOut hfault).trans (List.prefix_append _ _)
  · have hup := h.upToDate hs
    have hstream := h.stream
    rw [hempty, List.append_nil] at hstream
    have hsent : a.sent = Server.answers http_callback_ (ws.take x.sent) := by
      rw [← hup.due_eq, hstream, Exchange.due_bytesOf]
    have hopen : s.conn.state_ ≠ .kDisconnected := by
      rw [h.follows.conn.state]
      exact hup.opened
    have hwritten := h.follows.conn.inv.out.stream hopen hs.2
    rwa [hout, List.append_nil, hsent] at hwritten

end Muduo.Web
