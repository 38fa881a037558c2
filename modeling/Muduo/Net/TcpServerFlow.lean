import Muduo.Net.TcpServer

/-!
# Messages in flight between the loops of a server

What a connection has gone through and what is still under way for it balance at every moment:

    connectEstablished in flight + run                                        = 1
    handleClose run = in its callback + removeConnectionInLoop in flight + run
    removeConnectionInLoop run = connectDestroyed in flight + run

`Flow s hand` states this with the functors `hand` that a loop has taken from its queue, or is about
to pass to `runInLoop`, counted as in flight; so executing a functor and queueing it are one lemma
each, and the configurations with and without I/O loops need no separate argument.

* `flow_queueInloop`, `flow_pop`, `flow_create`, `Flow.note`, `Flow.setTask` — one lemma for
  each way a message moves;
* `inv_execute`, `inv_runInLoop` — a functor in hand is executed or queued;
* `inv_step` — every move keeps the balance, the order of the log and the states.
-/

namespace Muduo.Net

open Muduo.Lib

namespace TcpServer

inductive Kind where
  | connectEstablished
  | handleClose
  | removeConnectionInLoop
  | connectDestroyed
  deriving DecidableEq

def Note.kind : Note → Kind
  | .connectEstablished _ _ => .connectEstablished
  | .handleClose _ => .handleClose
  | .removeConnectionInLoop _ _ => .removeConnectionInLoop
  | .connectDestroyed _ => .connectDestroyed

def Note.conn : Note → ℕ
  | .connectEstablished conn _ | .handleClose conn | .removeConnectionInLoop conn _
  | .connectDestroyed conn => conn

def Note.of (k : Kind) (conn : ℕ) (n : Note) : Prop := n.kind = k ∧ n.conn = conn

instance (k : Kind) (conn : ℕ) : DecidablePred (Note.of k conn) := fun n =>
  inferInstanceAs (Decidable (n.kind = k ∧ n.conn = conn))

/-- How often a function has run for a connection. -/
def times (log : List Note) (k : Kind) (conn : ℕ) : ℕ := log.countP fun n => n.of k conn

def Message.conn : Message → ℕ
  | .connectEstablished conn | .removeConnectionInLoop conn | .connectDestroyed conn => conn

/-- The loop a functor is for. -/
def dest (s : TcpServer) : Message → ℕ
  | .connectEstablished conn | .connectDestroyed conn => s.getLoop conn
  | .removeConnectionInLoop _ => 0

def inFlight (s : TcpServer) (hand : List Message) (m : Message) : ℕ :=
  (s.queue (s.dest m)).count m + hand.count m

/-- `handleClose` of the connection is in `connectionCallback_`. -/
def closing (s : TcpServer) (conn : ℕ) : ℕ :=
  (s.task (s.getLoop conn)).toList.count (.handleClose conn)

structure Flow (s : TcpServer) (hand : List Message) : Prop where
  queue_dest : ∀ l, ∀ m ∈ s.queue l, l = s.dest m ∧ m.conn < s.conns.length
  hand_lt : ∀ m ∈ hand, m.conn < s.conns.length
  task_loop : ∀ l c, s.task l = some (.handleClose c) → l = s.getLoop c ∧ c < s.conns.length
  log_lt : ∀ n ∈ s.log, n.conn < s.conns.length
  established : ∀ c < s.conns.length,
    s.inFlight hand (.connectEstablished c) + times s.log .connectEstablished c = 1
  closed : ∀ c, times s.log .handleClose c = s.closing c +
    s.inFlight hand (.removeConnectionInLoop c) + times s.log .removeConnectionInLoop c
  removed : ∀ c, times s.log .removeConnectionInLoop c =
    s.inFlight hand (.connectDestroyed c) + times s.log .connectDestroyed c
  closed_le : ∀ c, times s.log .handleClose c ≤ times s.log .connectEstablished c

section Counting

theorem times_concat (log : List Note) (n : Note) (k : Kind) (c : ℕ) :
    times (log ++ [n]) k c = times log k c + if n.of k c then 1 else 0 := by
  rw [times, List.countP_append, List.countP_singleton]
  simp [times]

theorem times_pos {log : List Note} {k : Kind} {c : ℕ} :
    0 < times log k c ↔ ∃ n ∈ log, n.of k c := by
  rw [times, List.countP_pos_iff]
  simp

theorem inFlight_eq (s : TcpServer) (hand : List Message) (m : Message) :
    s.inFlight hand m = s.inFlight [] m + hand.count m := by
  rw [inFlight, inFlight, List.count_nil, Nat.add_zero]

variable {s : TcpServer} {hand : List Message}

theorem Flow.times_eq_zero (h : Flow s hand) {c : ℕ} (hc : s.conns.length ≤ c) (k : Kind) :
    times s.log k c = 0 := by
  refine Nat.eq_zero_of_not_pos fun hpos => ?_
  obtain ⟨n, hn, -, rfl⟩ := times_pos.mp hpos
  exact absurd (h.log_lt n hn) (not_lt.mpr hc)

theorem Flow.established_le (h : Flow s hand) (c : ℕ) : times s.log .connectEstablished c ≤ 1 := by
  rcases lt_or_ge c s.conns.length with hc | hc
  · have := h.established c hc
    omega
  · rw [h.times_eq_zero hc]
    exact Nat.zero_le 1

theorem dest_congr {s' : TcpServer} (hloop : s'.getLoop = s.getLoop) : s'.dest = s.dest := by
  funext m
  cases m <;> simp only [dest, hloop]

/-- What is in flight depends on the queues and the hand only through their sum. -/
theorem Flow.moved (h : Flow s hand) {s' : TcpServer} {hand' : List Message}
    (hloop : s'.getLoop = s.getLoop) (hlen : s'.conns.length = s.conns.length)
    (htask : s'.task = s.task) (hlog : s'.log = s.log)
    (hqueue : ∀ l, ∀ m ∈ s'.queue l, l = s.dest m ∧ m.conn < s.conns.length)
    (hhand : ∀ m ∈ hand', m.conn < s.conns.length)
    (hflight : ∀ m, s'.inFlight hand' m = s.inFlight hand m) : Flow s' hand' := by
  have hclosing : s'.closing = s.closing := by
    funext c
    rw [closing, closing, hloop, htask]
  refine ⟨?_, ?_, ?_, ?_, ?_, ?_, ?_, ?_⟩
  · rw [dest_congr hloop, hlen]
    exact hqueue
  · rw [hlen]
    exact hhand
  · rw [htask, hloop, hlen]
    exact h.task_loop
  · rw [hlog, hlen]
    exact h.log_lt
  · rw [hlen, hlog]
    intro c hc
    rw [hflight]
    exact h.established c hc
  · intro c
    rw [hlog, hclosing, hflight]
    exact h.closed c
  · intro c
    rw [hlog, hflight]
    exact h.removed c
  · rw [hlog]
    exact h.closed_le

/-- A connection's loop does not change. -/
theorem getLoop_modifyConn (s : TcpServer) (c : ℕ) {f : Connection → Connection}
    (hf : ∀ conn, (f conn).loop_ = conn.loop_) : (s.modifyConn c f).getLoop = s.getLoop := by
  funext c'
  show ((s.conns.modify c f)[c']?.map Connection.loop_).getD 0 = _
  rw [List.getElem?_modify, getLoop]
  cases s.conns[c']? with
  | none => rfl
  | some conn =>
      by_cases hc : c = c'
      · simp [hc, hf]
      · simp [hc]

theorem Flow.modifyConn (h : Flow s hand) (c : ℕ) {f : Connection → Connection}
    (hf : ∀ conn, (f conn).loop_ = conn.loop_) : Flow (s.modifyConn c f) hand :=
  h.moved (getLoop_modifyConn s c hf) (List.length_modify ..) rfl rfl h.queue_dest
    h.hand_lt fun m => by
    rw [inFlight, inFlight, dest_congr (getLoop_modifyConn s c hf)]
    rfl

end Counting

/-! ### How messages move -/

section Moves

variable {s : TcpServer} {hand : List Message} {c : ℕ}

theorem flow_queueInloop {m : Message} (h : Flow s (m :: hand)) :
    Flow (s.queueInloop (s.dest m) m) hand := by
  refine h.moved rfl rfl rfl rfl ?_ (fun m' hm' => h.hand_lt m' (List.mem_cons_of_mem _ hm')) ?_
  · intro l m' hm'
    replace hm' : m' ∈ Function.update s.queue (s.dest m) (s.queue (s.dest m) ++ [m]) l := hm'
    by_cases hl : l = s.dest m
    · subst hl
      rw [Function.update_self, List.mem_append, List.mem_singleton] at hm'
      rcases hm' with hm' | rfl
      · exact h.queue_dest _ m' hm'
      · exact ⟨rfl, h.hand_lt _ List.mem_cons_self⟩
    · rw [Function.update_of_ne hl] at hm'
      exact h.queue_dest l m' hm'
  · intro m'
    show (Function.update s.queue (s.dest m) (s.queue (s.dest m) ++ [m]) (s.dest m')).count m' + _ =
      _
    rw [inFlight, List.count_cons]
    by_cases hl : s.dest m' = s.dest m
    · rw [hl, Function.update_self, List.count_append, List.count_singleton]
      omega
    · have hne : ¬ (m == m') = true := fun he => hl (by rw [beq_iff_eq.mp he])
      rw [Function.update_of_ne hl, if_neg hne]
      omega

theorem flow_pop {m : Message} {rest : List Message} {l : ℕ} (h : Flow s [])
    (hq : s.queue l = m :: rest) : Flow { s with queue := Function.update s.queue l rest } [m] := by
  have hm : l = s.dest m ∧ m.conn < s.conns.length := h.queue_dest l m (hq ▸ List.mem_cons_self)
  refine h.moved rfl rfl rfl rfl ?_ (fun m' hm' => List.mem_singleton.mp hm' ▸ hm.2) ?_
  · intro l' m' hm'
    replace hm' : m' ∈ Function.update s.queue l rest l' := hm'
    by_cases hl : l' = l
    · subst hl
      rw [Function.update_self] at hm'
      exact h.queue_dest l' m' (hq ▸ List.mem_cons_of_mem _ hm')
    · rw [Function.update_of_ne hl] at hm'
      exact h.queue_dest l' m' hm'
  · intro m'
    show (Function.update s.queue l rest (s.dest m')).count m' + List.count m' [m] = _
    rw [inFlight, List.count_nil, List.count_singleton]
    by_cases hl : s.dest m' = l
    · rw [hl, Function.update_self, hq, List.count_cons, Nat.add_zero]
    · have hne : ¬ (m == m') = true := fun he => hl (by rw [← beq_iff_eq.mp he, hm.1])
      rw [Function.update_of_ne hl, if_neg hne]

theorem getLoop_createConnection (hc : c < s.conns.length) :
    s.createConnection.getLoop c = s.getLoop c := by
  show ((s.conns ++ _)[c]?.map Connection.loop_).getD 0 = _
  rw [List.getElem?_append_left hc]
  rfl

theorem dest_createConnection {m : Message} (hm : m.conn < s.conns.length) :
    s.createConnection.dest m = s.dest m := by
  cases m with
  | connectEstablished c => exact getLoop_createConnection hm
  | removeConnectionInLoop c => rfl
  | connectDestroyed c => exact getLoop_createConnection hm

/-- Nothing is queued for the new connection. -/
theorem inFlight_createConnection (h : Flow s []) (m : Message) :
    s.createConnection.inFlight [] m = s.inFlight [] m := by
  by_cases hm : m.conn < s.conns.length
  · rw [inFlight, inFlight, dest_createConnection hm]
    rfl
  · have hnot : ∀ l, (s.queue l).count m = 0 := fun l =>
      List.count_eq_zero.mpr fun hmem => hm (h.queue_dest l m hmem).2
    rw [inFlight, inFlight, show s.createConnection.queue = s.queue from rfl, hnot, hnot]

theorem closing_createConnection (h : Flow s []) (c : ℕ) :
    s.createConnection.closing c = s.closing c := by
  by_cases hc : c < s.conns.length
  · rw [closing, closing, getLoop_createConnection hc]
    rfl
  · have hnot : ∀ l, (s.task l).toList.count (.handleClose c) = 0 := fun l =>
      List.count_eq_zero.mpr fun hmem => hc (h.task_loop l c (Option.mem_toList.mp hmem)).2
    rw [closing, closing, show s.createConnection.task = s.task from rfl, hnot, hnot]

/-- The new connection's `connectEstablished` is in hand. -/
theorem flow_create (h : Flow s []) :
    Flow s.createConnection [.connectEstablished s.conns.length] := by
  have hlen : s.createConnection.conns.length = s.conns.length + 1 := List.length_append
  have hhand : ∀ m, s.createConnection.inFlight [.connectEstablished s.conns.length] m =
      s.inFlight [] m + List.count m [.connectEstablished s.conns.length] := by
    intro m
    rw [inFlight_eq, inFlight_createConnection h]
  refine ⟨?_, ?_, ?_, ?_, ?_, ?_, ?_, h.closed_le⟩
  · intro l m hm
    obtain ⟨hl, hc⟩ := h.queue_dest l m hm
    rw [dest_createConnection hc, hlen]
    exact ⟨hl, Nat.lt_succ_of_lt hc⟩
  · intro m hm
    rw [List.mem_singleton.mp hm, hlen]
    exact Nat.lt_succ_self _
  · intro l c hl
    obtain ⟨hl', hc⟩ := h.task_loop l c hl
    rw [getLoop_createConnection hc, hlen]
    exact ⟨hl', Nat.lt_succ_of_lt hc⟩
  · intro n hn
    rw [hlen]
    exact Nat.lt_succ_of_lt (h.log_lt n hn)
  · intro c hc
    rw [hhand, show s.createConnection.log = s.log from rfl]
    rcases Nat.lt_succ_iff_lt_or_eq.mp (hlen ▸ hc) with hc | rfl
    · rw [List.count_eq_zero.mpr (by simp [hc.ne]), Nat.add_zero]
      exact h.established c hc
    · have hnone : s.inFlight [] (.connectEstablished s.conns.length) = 0 := by
        rw [inFlight, List.count_nil, Nat.add_zero]
        exact List.count_eq_zero.mpr fun hmem => lt_irrefl _ (h.queue_dest _ _ hmem).2
      rw [List.count_singleton_self, hnone, h.times_eq_zero le_rfl]
  · intro c
    rw [hhand, closing_createConnection h, List.count_eq_zero.mpr (by simp), Nat.add_zero]
    exact h.closed c
  · intro c
    rw [hhand, List.count_eq_zero.mpr (by simp), Nat.add_zero]
    exact h.removed c

/-- A function runs: what it adds to the log balances what it takes from the hand and
puts into it. -/
theorem Flow.note (h : Flow s hand) {n : Note} {hand' : List Message}
    (hlt : n.conn < s.conns.length) (hhand : ∀ m ∈ hand', m.conn < s.conns.length)
    (hest : ∀ c, hand'.count (.connectEstablished c) +
      (if n.of .connectEstablished c then 1 else 0) = hand.count (.connectEstablished c))
    (hclose : ∀ c, (if n.of .handleClose c then 1 else 0) + hand.count (.removeConnectionInLoop c) =
      hand'.count (.removeConnectionInLoop c) + if n.of .removeConnectionInLoop c then 1 else 0)
    (hremove : ∀ c, (if n.of .removeConnectionInLoop c then 1 else 0) +
      hand.count (.connectDestroyed c) =
      hand'.count (.connectDestroyed c) + if n.of .connectDestroyed c then 1 else 0)
    (hle : ∀ c, n.of .handleClose c →
      times s.log .handleClose c + 1 ≤ times s.log .connectEstablished c) :
    Flow (s.note n) hand' := by
  have hflight : ∀ m, (s.note n).inFlight [] m = s.inFlight [] m := by
    intro m
    cases m <;> rfl
  have hclosing : ∀ c, (s.note n).closing c = s.closing c := fun _ => rfl
  refine ⟨h.queue_dest, hhand, h.task_loop, ?_, ?_, ?_, ?_, ?_⟩
  · intro n' hn'
    rcases List.mem_append.mp hn' with hn' | hn'
    · exact h.log_lt n' hn'
    · rw [List.mem_singleton.mp hn']
      exact hlt
  · intro c hc
    have hold := h.established c hc
    have hnew := hest c
    rw [inFlight_eq] at hold ⊢
    rw [hflight, show (s.note n).log = s.log ++ [n] from rfl, times_concat]
    omega
  · intro c
    have hold := h.closed c
    have hnew := hclose c
    rw [inFlight_eq] at hold ⊢
    rw [hflight, hclosing, show (s.note n).log = s.log ++ [n] from rfl, times_concat, times_concat]
    omega
  · intro c
    have hold := h.removed c
    have hnew := hremove c
    rw [inFlight_eq] at hold ⊢
    rw [hflight, show (s.note n).log = s.log ++ [n] from rfl, times_concat, times_concat]
    omega
  · intro c
    rw [show (s.note n).log = s.log ++ [n] from rfl, times_concat, times_concat]
    have hold := h.closed_le c
    by_cases hn : n.of .handleClose c
    · have := hle c hn
      rw [if_pos hn]
      omega
    · rw [if_neg hn]
      omega

/-- A loop enters or leaves a callback; that of `handleClose` holds the removal to come. -/
theorem Flow.setTask (h : Flow s hand) {l : ℕ} {t : Option Task} {hand' : List Message}
    (htask : ∀ c, t = some (.handleClose c) → l = s.getLoop c ∧ c < s.conns.length)
    (hhand : ∀ m ∈ hand', m.conn < s.conns.length)
    (hbalance : ∀ c, hand'.count (.removeConnectionInLoop c) + t.toList.count (.handleClose c) =
      hand.count (.removeConnectionInLoop c) + (s.task l).toList.count (.handleClose c))
    (hest : ∀ c, hand'.count (.connectEstablished c) = hand.count (.connectEstablished c))
    (hdestroy : ∀ c, hand'.count (.connectDestroyed c) = hand.count (.connectDestroyed c)) :
    Flow (s.setTask l t) hand' := by
  have hflight : ∀ m, (s.setTask l t).inFlight [] m = s.inFlight [] m := by
    intro m
    cases m <;> rfl
  have hin : ∀ l', (s.setTask l t).task l' = if l' = l then t else s.task l' := fun l' =>
    Function.update_apply ..
  have hloop : (s.setTask l t).getLoop = s.getLoop := rfl
  refine ⟨h.queue_dest, hhand, ?_, h.log_lt, ?_, ?_, ?_, h.closed_le⟩
  · intro l' c hl'
    rw [hin] at hl'
    split at hl'
    · rename_i heq
      rw [heq]
      exact htask c hl'
    · exact h.task_loop l' c hl'
  · intro c hc
    have hold := h.established c hc
    rw [inFlight_eq] at hold ⊢
    rw [hflight, hest]
    exact hold
  · intro c
    have hold := h.closed c
    have hnew := hbalance c
    rw [inFlight_eq, closing] at hold ⊢
    rw [hflight, hin, hloop, show (s.setTask l t).log = s.log from rfl]
    split
    · rename_i heq
      rw [heq] at hold
      omega
    · -- the callback of another loop is not that of this connection
      rename_i hne
      have h₁ : t.toList.count (.handleClose c) = 0 := List.count_eq_zero.mpr fun hmem =>
        hne (htask c (Option.mem_toList.mp hmem)).1.symm
      have h₂ : (s.task l).toList.count (.handleClose c) = 0 := List.count_eq_zero.mpr fun hmem =>
        hne (h.task_loop l c (Option.mem_toList.mp hmem)).1.symm
      omega
  · intro c
    have hold := h.removed c
    rw [inFlight_eq] at hold ⊢
    rw [hflight, hdestroy]
    exact hold

end Moves

/-! ### The order of the log and the states -/

structure Ordered (log : List Note) : Prop where
  close : ∀ c, Precedes (Note.of .connectEstablished c) (Note.of .handleClose c) log
  destroy : ∀ c, Precedes (Note.of .connectEstablished c) (Note.of .connectDestroyed c) log
  erase : ∀ c, Precedes (Note.of .removeConnectionInLoop c) (Note.of .connectDestroyed c) log

theorem Ordered.concat {log : List Note} (h : Ordered log) {n : Note}
    (hclose : ∀ c, n.of .handleClose c → 0 < times log .connectEstablished c)
    (hdestroy : ∀ c, n.of .connectDestroyed c →
      0 < times log .connectEstablished c ∧ 0 < times log .removeConnectionInLoop c) :
    Ordered (log ++ [n]) where
  close c := (h.close c).concat fun hn => times_pos.mp (hclose c hn)
  destroy c := (h.destroy c).concat fun hn => times_pos.mp (hdestroy c hn).1
  erase c := (h.erase c).concat fun hn => times_pos.mp (hdestroy c hn).2

structure Inv (s : TcpServer) (hand : List Message) : Prop where
  flow : Flow s hand
  waiting : ∀ c conn, s.conns[c]? = some conn → times s.log .connectEstablished c = 0 →
    conn.state_ = .kConnecting ∧ conn.added = false
  ordered : Ordered s.log
  connecting : ∀ c state, .connectEstablished c state ∈ s.log → state = .kConnecting

section Functions

variable {s : TcpServer} {hand : List Message} {c : ℕ}

theorem Inv.update (h : Inv s hand) {s' : TcpServer} {hand' : List Message} (hflow : Flow s' hand')
    (hconns : s'.conns = s.conns) (hlog : s'.log = s.log) : Inv s' hand' where
  flow := hflow
  waiting := by rw [hconns, hlog]; exact h.waiting
  ordered := by rw [hlog]; exact h.ordered
  connecting := by rw [hlog]; exact h.connecting

/-- After `connectEstablished` has run the state is free to change; before, a channel may be
removed. -/
theorem Inv.modifyConn (h : Inv s hand) {f : Connection → Connection}
    (hf : ∀ conn, (f conn).loop_ = conn.loop_)
    (hwait : times s.log .connectEstablished c = 0 →
      ∀ conn, (f conn).state_ = conn.state_ ∧ (f conn).added = false) :
    Inv (s.modifyConn c f) hand where
  flow := h.flow.modifyConn c hf
  waiting := by
    intro c' conn hconn hzero
    replace hzero : times s.log .connectEstablished c' = 0 := hzero
    replace hconn : (s.conns.modify c f)[c']? = some conn := hconn
    rw [List.getElem?_modify] at hconn
    by_cases hc : c = c'
    · subst hc
      obtain ⟨old, hold, rfl⟩ := Option.map_eq_some_iff.mp hconn
      rw [if_pos rfl]
      obtain ⟨hstate, hadded⟩ := hwait hzero old
      exact ⟨hstate.trans (h.waiting c old hold hzero).1, hadded⟩
    · refine h.waiting c' conn ?_ hzero
      simpa [hc] using hconn
  ordered := h.ordered
  connecting := h.connecting

/-- A function other than `connectEstablished` runs. -/
theorem Inv.note (h : Inv s hand) {n : Note} {hand' : List Message} (hflow : Flow (s.note n) hand')
    (hn : n.kind ≠ .connectEstablished)
    (hclose : ∀ c, n.of .handleClose c → 0 < times s.log .connectEstablished c)
    (hdestroy : ∀ c, n.of .connectDestroyed c →
      0 < times s.log .connectEstablished c ∧ 0 < times s.log .removeConnectionInLoop c) :
    Inv (s.note n) hand' where
  flow := hflow
  waiting := by
    intro c conn hconn hzero
    refine h.waiting c conn hconn ?_
    rw [show (s.note n).log = s.log ++ [n] from rfl, times_concat] at hzero
    omega
  ordered := h.ordered.concat hclose hdestroy
  connecting := by
    intro c state hmem
    rcases List.mem_append.mp hmem with hmem | hmem
    · exact h.connecting c state hmem
    · rw [← List.mem_singleton.mp hmem] at hn
      exact absurd rfl hn

theorem inv_connectEstablished (h : Inv s [.connectEstablished c])
    (hidle : s.task (s.getLoop c) = none) : Inv (s.connectEstablished c) [] := by
  have hlt : c < s.conns.length := h.flow.hand_lt _ List.mem_cons_self
  have hzero : times s.log .connectEstablished c = 0 := by
    have := h.flow.established c hlt
    rw [inFlight_eq, List.count_singleton_self] at this
    omega
  have hstate : s.state c = .kConnecting := by
    rw [state, List.getElem?_eq_getElem hlt]
    exact (h.waiting c _ (List.getElem?_eq_getElem hlt) hzero).1
  have hflow : Flow (s.note (.connectEstablished c (s.state c))) [] := by
    refine h.flow.note hlt (by simp) ?_ ?_ ?_ ?_
    · intro c'
      simp [Note.of, Note.kind, Note.conn, List.count_singleton]
    · simp [Note.of, Note.kind]
    · simp [Note.of, Note.kind]
    · simp [Note.of, Note.kind]
  have hnote : Inv (s.note (.connectEstablished c (s.state c))) [] := by
    refine ⟨hflow, ?_, h.ordered.concat (by simp [Note.of, Note.kind])
      (by simp [Note.of, Note.kind]), ?_⟩
    · intro c' conn hconn hzero'
      rw [show (s.note _).log = s.log ++ [_] from rfl, times_concat] at hzero'
      exact h.waiting c' conn hconn (by omega)
    · intro c' st hmem
      rcases List.mem_append.mp hmem with hmem | hmem
      · exact h.connecting c' st hmem
      · obtain ⟨-, rfl⟩ := Note.connectEstablished.inj (List.mem_singleton.mp hmem)
        exact hstate
  have hpos : 0 < times (s.log ++ [.connectEstablished c (s.state c)]) .connectEstablished c := by
    rw [times_concat]
    simp [Note.of, Note.kind, Note.conn]
  have hmod := hnote.modifyConn (c := c)
    (f := fun conn => { conn with state_ := .kConnected, added := true }) (fun _ => rfl)
    fun hz => absurd hz hpos.ne'
  refine hmod.update (hmod.flow.setTask (by simp) (by simp) ?_ (by simp) (by simp)) rfl rfl
  intro c'
  rw [show ((s.note _).modifyConn c _).task (s.getLoop c) = none from hidle]
  simp

/-- `handleClose` of a connection that is up and was not closed before. -/
theorem inv_handleClose (h : Inv s []) (hup : 0 < times s.log .connectEstablished c)
    (hidle : s.task (s.getLoop c) = none) (honce : times s.log .handleClose c = 0) :
    Inv (s.handleClose c) [] := by
  have hlt : c < s.conns.length := by
    by_contra hge
    rw [h.flow.times_eq_zero (not_lt.mp hge)] at hup
    exact lt_irrefl 0 hup
  -- the removal to come is in hand, and then kept by the callback
  have hflow : Flow (s.note (.handleClose c)) [.removeConnectionInLoop c] := by
    refine h.flow.note hlt (fun m hm => List.mem_singleton.mp hm ▸ hlt) ?_ ?_ ?_ ?_
    · simp [Note.of, Note.kind]
    · intro c'
      simp [Note.of, Note.kind, Note.conn, List.count_singleton]
    · simp [Note.of, Note.kind]
    · rintro c' ⟨-, rfl⟩
      show times s.log .handleClose c + 1 ≤ times s.log .connectEstablished c
      omega
  have hnote := h.note hflow (by simp [Note.kind]) (by rintro c' ⟨-, rfl⟩; exact hup)
    (by simp [Note.of, Note.kind])
  have hpos : 0 < times (s.log ++ [.handleClose c]) .connectEstablished c := by
    rw [times_concat]
    omega
  have hmod := hnote.modifyConn (c := c) (f := fun conn => { conn with state_ := .kDisconnected })
    (fun _ => rfl) fun hz => absurd hz hpos.ne'
  have hloop : ((s.note (.handleClose c)).modifyConn c fun conn =>
      { conn with state_ := .kDisconnected }).getLoop = s.getLoop :=
    getLoop_modifyConn (s.note (.handleClose c)) c (f := fun conn =>
      { conn with state_ := .kDisconnected }) fun _ => rfl
  refine hmod.update (hmod.flow.setTask ?_ (by simp) ?_ (by simp) (by simp)) rfl rfl
  · intro c' hc'
    obtain rfl := Task.handleClose.inj (Option.some.inj hc')
    rw [hloop]
    exact ⟨rfl, (List.length_modify ..).symm ▸ hlt⟩
  · intro c'
    rw [show ((s.note _).modifyConn c _).task (s.getLoop c) = none from hidle]
    simp [List.count_singleton]

theorem eraseConnection_eq (s : TcpServer) (c : ℕ) :
    ∃ m, (s.eraseConnection c).1 = { s with _connections := m } := by
  unfold eraseConnection
  split
  · exact ⟨s._connections, rfl⟩
  · exact ⟨_, rfl⟩

theorem inv_removeConnectionInLoop (h : Inv s [.removeConnectionInLoop c]) :
    Inv (s.removeConnectionInLoop c) [] := by
  have hlt : c < s.conns.length := h.flow.hand_lt _ List.mem_cons_self
  obtain ⟨m, hm⟩ := eraseConnection_eq s c
  have herased : Inv (s.eraseConnection c).1 [.removeConnectionInLoop c] := by
    rw [hm]
    refine h.update (h.flow.moved rfl rfl rfl rfl h.flow.queue_dest h.flow.hand_lt fun m' => ?_) rfl
      rfl
    cases m' <;> rfl
  have hflow :
      Flow ((s.eraseConnection c).1.note (.removeConnectionInLoop c (s.eraseConnection c).2))
        [.connectDestroyed c] := by
    refine herased.flow.note ?_ ?_ ?_ ?_ ?_ ?_
    · rw [hm]
      exact hlt
    · intro m' hm'
      rw [List.mem_singleton.mp hm', hm]
      exact hlt
    · simp [Note.of, Note.kind]
    · intro c'
      simp [Note.of, Note.kind, Note.conn, List.count_singleton]
    · intro c'
      simp [Note.of, Note.kind, Note.conn, List.count_singleton]
    · simp [Note.of, Note.kind]
  have hnote := herased.note hflow (by simp [Note.kind]) (by simp [Note.of, Note.kind])
    (by simp [Note.of, Note.kind])
  have hdest : s.getLoop c = ((s.eraseConnection c).1.note
      (.removeConnectionInLoop c (s.eraseConnection c).2)).dest (.connectDestroyed c) := by
    rw [hm]
    rfl
  show Inv (((s.eraseConnection c).1.note _).queueInloop (s.getLoop c) (.connectDestroyed c)) []
  rw [hdest]
  exact hnote.update (flow_queueInloop hnote.flow) rfl rfl

theorem inv_connectDestroyed (h : Inv s [.connectDestroyed c])
    (hidle : s.task (s.getLoop c) = none) : Inv (s.connectDestroyed c) [] := by
  have hlt : c < s.conns.length := h.flow.hand_lt _ List.mem_cons_self
  have hremoved : 0 < times s.log .removeConnectionInLoop c := by
    have := h.flow.removed c
    rw [inFlight_eq, List.count_singleton_self] at this
    omega
  have hup : 0 < times s.log .connectEstablished c := by
    have h₁ := h.flow.closed c
    have h₂ := h.flow.closed_le c
    omega
  have hflow : Flow (s.note (.connectDestroyed c)) [] := by
    refine h.flow.note hlt (by simp) ?_ ?_ ?_ ?_
    · simp [Note.of, Note.kind]
    · simp [Note.of, Note.kind]
    · intro c'
      simp [Note.of, Note.kind, Note.conn, List.count_singleton]
    · simp [Note.of, Note.kind]
  have hnote := h.note hflow (by simp [Note.kind]) (by simp [Note.of, Note.kind])
    (by rintro c' ⟨-, rfl⟩; exact ⟨hup, hremoved⟩)
  have hpos : 0 < times (s.log ++ [.connectDestroyed c]) .connectEstablished c := by
    rw [times_concat]
    omega
  unfold connectDestroyed
  dsimp only
  split
  · have hmod := hnote.modifyConn (c := c) (f := fun conn => { conn with state_ := .kDisconnected })
      (fun _ => rfl) fun hz => absurd hz hpos.ne'
    refine hmod.update (hmod.flow.setTask (by simp) (by simp) ?_ (by simp) (by simp)) rfl rfl
    intro c'
    rw [show ((s.note _).modifyConn c _).task (s.getLoop c) = none from hidle]
    simp
  · exact hnote.modifyConn (fun _ => rfl) fun hz => absurd hz hpos.ne'

/-- **A functor in hand is executed by its own loop.** -/
theorem inv_execute {m : Message} (h : Inv s [m]) (hidle : s.task (s.dest m) = none) :
    Inv (s.execute m) [] := by
  cases m with
  | connectEstablished c => exact inv_connectEstablished h hidle
  | removeConnectionInLoop c => exact inv_removeConnectionInLoop h
  | connectDestroyed c => exact inv_connectDestroyed h hidle

theorem inv_runInLoop {m : Message} (h : Inv s [m]) {caller : ℕ} (hidle : s.task caller = none) :
    Inv (s.runInLoop caller (s.dest m) m) [] := by
  unfold runInLoop
  split
  · rename_i hcaller
    exact inv_execute h (hcaller ▸ hidle)
  · exact h.update (flow_queueInloop h.flow) rfl rfl

theorem inv_create (h : Inv s []) :
    Inv s.createConnection [.connectEstablished s.conns.length] := by
  refine ⟨flow_create h.flow, ?_, h.ordered, h.connecting⟩
  intro c conn hconn hzero
  replace hconn : (s.conns ++ [_])[c]? = some conn := hconn
  rcases lt_or_ge c s.conns.length with hc | hc
  · rw [List.getElem?_append_left hc] at hconn
    exact h.waiting c conn hconn hzero
  · rw [List.getElem?_append_right hc, List.getElem?_singleton] at hconn
    split at hconn
    · rw [← Option.some.inj hconn]
      exact ⟨rfl, rfl⟩
    · cases hconn

theorem inv_newConnection (h : Inv s []) (hidle : s.task 0 = none) : Inv s.newConnection [] := by
  have hdest : s.getNextLoop.1 = s.createConnection.dest (.connectEstablished s.conns.length) := by
    show _ = ((s.conns ++ [_])[s.conns.length]?.map Connection.loop_).getD 0
    rw [List.getElem?_concat_length]
    rfl
  unfold newConnection
  rw [hdest]
  exact inv_runInLoop (inv_create h) hidle

/-- `handleClose` leaves its callback with the removal in hand. -/
theorem inv_leave (h : Inv s []) {l : ℕ} (ht : s.task l = some (.handleClose c)) :
    Inv (s.setTask l none) [.removeConnectionInLoop c] := by
  obtain ⟨-, hlt⟩ := h.flow.task_loop l c ht
  refine h.update (h.flow.setTask (by simp) (fun m hm => List.mem_singleton.mp hm ▸ hlt) ?_
    (by simp) (by simp)) rfl rfl
  intro c'
  simp [ht, List.count_singleton]

theorem inv_return (h : Inv s []) {l : ℕ} {t : Task} (ht : s.task l = some t) :
    Inv ((s.setTask l none).afterCallback l t) [] := by
  have hidle : (s.setTask l none).task l = none := Function.update_self ..
  cases t with
  | connectEstablished c =>
      refine h.update (h.flow.setTask (by simp) (by simp) ?_ (by simp) (by simp)) rfl rfl
      simp [ht]
  | handleClose c =>
      exact inv_runInLoop (inv_leave h ht) hidle
  | connectDestroyed c =>
      have hset : Inv (s.setTask l none) [] := by
        refine h.update (h.flow.setTask (by simp) (by simp) ?_ (by simp) (by simp)) rfl rfl
        simp [ht]
      exact hset.modifyConn (fun _ => rfl) fun _ _ => ⟨rfl, rfl⟩

/-- The environment closes a connection at most once. -/
def CloseOnce (s : TcpServer) (m : Move) : Prop :=
  ∀ c, s.closes m = some c → times s.log .handleClose c = 0

instance (s : TcpServer) (m : Move) : Decidable (CloseOnce s m) :=
  match h : s.closes m with
  | none => isTrue fun c hc => by rw [h] at hc; cases hc
  | some c => decidable_of_iff (times s.log .handleClose c = 0)
      ⟨fun hz c' hc' => by rw [h] at hc'; exact Option.some.inj hc' ▸ hz, fun hc => hc c h⟩

/-- `handleClose` is entered only on a connection that is up. -/
theorem up_of_closes (h : Inv s []) {m : Move} (hm : s.closes m = some c) :
    s.task (s.getLoop c) = none ∧ 0 < times s.log .connectEstablished c := by
  have hwait : ∀ conn, s.conns[c]? = some conn → (conn.state_ ≠ .kConnecting ∨ conn.added = true) →
      0 < times s.log .connectEstablished c := by
    intro conn hconn hne
    refine Nat.pos_of_ne_zero fun hzero => ?_
    obtain ⟨hstate, hadded⟩ := h.waiting c conn hconn hzero
    rcases hne with hne | hne
    · exact hne hstate
    · rw [hadded] at hne
      cases hne
  cases m with
  | closeEvent c' =>
      simp only [closes] at hm
      split at hm
      · rename_i hguard
        obtain rfl := Option.some.inj hm
        refine ⟨hguard.1, ?_⟩
        have hadded := hguard.2
        rw [isAdded] at hadded
        cases hconn : s.conns[c']? with
        | none => rw [hconn] at hadded; cases hadded
        | some conn =>
            rw [hconn] at hadded
            exact hwait conn hconn (Or.inr hadded)
      · cases hm
  | forceCloseInLoop c' =>
      simp only [closes] at hm
      split at hm
      · rename_i hguard
        obtain rfl := Option.some.inj hm
        refine ⟨hguard.1, ?_⟩
        have hstate := hguard.2
        rw [state] at hstate
        cases hconn : s.conns[c']? with
        | none => rw [hconn] at hstate; simp at hstate
        | some conn =>
            rw [hconn] at hstate
            refine hwait conn hconn (Or.inl fun hc => ?_)
            simp [hc] at hstate
      · cases hm
  | accept => cases hm
  | setDisconnecting c' => cases hm
  | functor l => cases hm
  | return_ l => cases hm

theorem hasConnected_iff : s.hasConnected c = true ↔ 0 < times s.log .connectEstablished c := by
  rw [times_pos, hasConnected, List.any_eq_true]
  constructor
  · rintro ⟨n, hn, hc⟩
    refine ⟨n, hn, ?_⟩
    cases n <;> simp_all [Note.of, Note.kind, Note.conn]
  · rintro ⟨n, hn, hc⟩
    refine ⟨n, hn, ?_⟩
    cases n <;> simp_all [Note.of, Note.kind, Note.conn]

/-- What a move can do. -/
theorem step_cases (s : TcpServer) (m : Move) :
    s.step m = s ∨
    (s.task 0 = none ∧ s.step m = s.newConnection) ∨
    (∃ c, s.closes m = some c ∧ s.step m = s.handleClose c) ∨
    (∃ c, s.hasConnected c = true ∧
      s.step m = s.modifyConn c fun conn => { conn with state_ := .kDisconnecting }) ∨
    (∃ l f rest, s.task l = none ∧ s.queue l = f :: rest ∧
      s.step m = { s with queue := Function.update s.queue l rest }.execute f) ∨
    (∃ l t, s.task l = some t ∧ s.step m = (s.setTask l none).afterCallback l t) := by
  cases m with
  | accept =>
      simp only [step]
      split
      · rename_i hidle
        exact Or.inr (Or.inl ⟨hidle, rfl⟩)
      · exact Or.inl rfl
  | closeEvent c =>
      cases hc : s.closes (.closeEvent c) with
      | none => exact Or.inl (by simp only [step, hc])
      | some conn => exact Or.inr (Or.inr (Or.inl ⟨conn, rfl, by simp only [step, hc]⟩))
  | forceCloseInLoop c =>
      cases hc : s.closes (.forceCloseInLoop c) with
      | none => exact Or.inl (by simp only [step, hc])
      | some conn => exact Or.inr (Or.inr (Or.inl ⟨conn, rfl, by simp only [step, hc]⟩))
  | setDisconnecting c =>
      simp only [step]
      split
      · rename_i hup
        exact Or.inr (Or.inr (Or.inr (Or.inl ⟨c, hup, rfl⟩)))
      · exact Or.inl rfl
  | functor l =>
      simp only [step]
      split
      · rename_i f rest hidle hq
        exact Or.inr (Or.inr (Or.inr (Or.inr (Or.inl ⟨l, f, rest, hidle, hq, rfl⟩))))
      · exact Or.inl rfl
  | return_ l =>
      simp only [step]
      split
      · rename_i t ht
        exact Or.inr (Or.inr (Or.inr (Or.inr (Or.inr ⟨l, t, ht, rfl⟩))))
      · exact Or.inl rfl

/-- **Every move keeps the balance**, the order of the log and the states. -/
theorem inv_step (h : Inv s []) {m : Move} (honce : CloseOnce s m) : Inv (s.step m) [] := by
  obtain heq | ⟨hidle, heq⟩ | ⟨c, hc, heq⟩ | ⟨c, hup, heq⟩ | ⟨l, f, rest, hidle, hq, heq⟩ |
    ⟨l, t, ht, heq⟩ := step_cases s m <;> rw [heq]
  · exact h
  · exact inv_newConnection h hidle
  · obtain ⟨hidle, hup⟩ := up_of_closes h hc
    exact inv_handleClose h hup hidle (honce c hc)
  · exact h.modifyConn (fun _ => rfl) fun hz => absurd hz (hasConnected_iff.mp hup).ne'
  · have hdest := (h.flow.queue_dest l f (hq ▸ List.mem_cons_self)).1
    refine inv_execute (h.update (flow_pop h.flow hq) rfl rfl) ?_
    rw [dest_congr (show getLoop { s with queue := Function.update s.queue l rest } =
      s.getLoop from rfl), ← hdest]
    exact hidle
  · exact inv_return h ht

end Functions

end TcpServer

end Muduo.Net
