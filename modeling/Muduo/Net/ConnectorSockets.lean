import Muduo.Net.TcpClientAttempts

/-!
# Every socket is disposed of once

A connector that is started once, stopped any number of times from any thread, and restarted only by
`TcpClient::removeConnection` creates sockets one after the other.  Each is closed or handed to
`newConnectionCallback_`, once and not both, before the next one is created.

* `resetsFirst` — the assumption: a retry timer fires after the `resetChannel` of its attempt;
* `Follows` — what a move other than `connect` cannot do: undo a `stop`, or queue a `startInLoop`;
* `StartInv` — a `startInLoop` that is still queued finds the connector untouched, so that every
  move is clear; `startInv_step`;
* `sockets_disposed_once` — the result for whole runs.
-/

namespace Muduo.Net

open Muduo.Lib

namespace TcpClient

open Connector

def Move.isConnect : Move → Bool
  | .connect _ => true
  | _ => false

/-- The `resetChannel` queued when an attempt ended runs before the retry timer of that attempt
fires. -/
def resetsFirst (c : TcpClient) : Move → Prop
  | .timer i => ∀ t ∈ c.connector_.timers[i]?, t.attempt ∉ resetsOf c.connector_.queued
  | _ => True

instance (c : TcpClient) (m : Move) : Decidable (c.resetsFirst m) :=
  match m with
  | .timer i =>
      inferInstanceAs
      (Decidable (∀ t ∈ c.connector_.timers[i]?, t.attempt ∉ resetsOf c.connector_.queued))
  | .enableRetry | .connect _ | .disconnect | .stop | .stopStore | .stopQueue | .forceClose | .poll
  | .doPendingFunctors | .functor | .event .. | .close _ | .connectReturns _ =>
      inferInstanceAs (Decidable True)

/-! ### What the other moves cannot do -/

/-- The calls of `startInLoop` that wait in the loop. -/
def starts (c : TcpClient) : ℕ := c.connector_.queued.count .startInLoop

def Stopped (c : TcpClient) : Prop := c.connect_ = false ∧ c.connector_.connect_ = false

structure Follows (c c' : TcpClient) : Prop where
  stopped : c.Stopped → c'.Stopped
  starts_le : c'.starts ≤ c.starts

section Follows

variable {c c' c'' : TcpClient}

theorem Follows.refl (c : TcpClient) : Follows c c := ⟨fun h => h, le_rfl⟩

theorem Follows.trans (h : Follows c c') (h' : Follows c' c'') : Follows c c'' :=
  ⟨fun hs => h'.stopped (h.stopped hs), h'.starts_le.trans h.starts_le⟩

theorem starts_of_extends {k k' : Connector} (h : Extends k k') :
    k'.queued.count .startInLoop = k.queued.count .startInLoop := by
  obtain ⟨fs, hfs, hown⟩ := h.pending
  have hnone : fs.count .startInLoop = 0 := by
    rw [List.count_eq_zero]
    intro hin
    cases hown _ hin
  have hqueued : k'.queued = k.queued ++ fs := by
    rw [queued, queued, h.batch, hfs, List.append_assoc]
  rw [hqueued, List.count_append, hnone, Nat.add_zero]

theorem follows_of_extends (hconnect : c'.connect_ = c.connect_)
    (hext : Extends c.connector_ c'.connector_) : Follows c c' :=
  ⟨fun h => ⟨hconnect.trans h.1, hext.connect.trans h.2⟩, (starts_of_extends hext).le⟩

theorem follows_setActive (c : TcpClient) (active : List ℕ) :
    Follows c { c with active := active } :=
  ⟨fun h => h, le_rfl⟩

/-- Without `connect_` the client does not restart the connector. -/
theorem follows_handleClose (c : TcpClient) (conn : ℕ) : Follows c (c.handleClose conn) := by
  unfold handleClose
  split
  · unfold removeConnection
    dsimp only
    split
    · rename_i hrestart
      refine ⟨fun hstopped => ?_, ?_⟩
      · rw [hstopped.1, Bool.and_false] at hrestart
        cases hrestart
      · have hext := extends_queueInloop { c.connector_ with connect_ := true }
          (f := .connectDestroyed conn) rfl
        exact (starts_of_extends
          (hext.trans (extends_restart (c.connector_.queueInloop (.connectDestroyed conn))))).le
    · exact follows_of_extends rfl (extends_queueInloop _ rfl)
  · exact .refl c

theorem follows_handleEvent (c : TcpClient) (error write : Bool) (err : ℕ) (selfConnect : Bool) :
    Follows c (c.handleEvent error write err selfConnect) := by
  have herror :
      Extends c.connector_ (if error then c.connector_.handleError else c.connector_) := by
    split
    · exact extends_handleError _
    · exact .refl _
  have hwrite := herror.trans (extends_handleWrite _ err selfConnect)
  unfold handleEvent
  dsimp only
  split
  · split
    · rename_i heq
      rw [heq] at hwrite
      exact follows_of_extends rfl hwrite
    · rename_i heq
      rw [heq] at hwrite
      exact follows_of_extends rfl hwrite
  · exact follows_of_extends rfl herror

theorem follows_runFunctor (c : TcpClient) (f : ClientFunctor) : Follows c (c.runFunctor f) := by
  cases f with
  | startInLoop => exact follows_of_extends rfl (extends_startInLoop _)
  | stopInLoop => exact follows_of_extends rfl (extends_stopInLoop _)
  | resetChannel sockfd => exact follows_of_extends rfl (.of_eq rfl rfl (List.Subset.refl _) rfl)
  | forceCloseInLoop conn => exact follows_handleClose c conn
  | connectDestroyed conn => exact .refl c

theorem starts_pop {f : ClientFunctor} {rest : List ClientFunctor}
    (hb : c.connector_.batch = f :: rest) :
    c.starts = [f].count .startInLoop +
      starts { c with connector_ := { c.connector_ with batch := rest } } := by
  unfold starts
  rw [queued_pop hb, List.count_append]

theorem follows_perform (c : TcpClient) {m : Move} (hm : m.isConnect = false) :
    Follows c (c.perform m) := by
  cases m with
  | connect => cases hm
  | enableRetry => exact follows_of_extends rfl (.refl _)
  | disconnect => exact ⟨fun h => ⟨rfl, h.2⟩, le_rfl⟩
  | stop =>
      exact ⟨fun _ => ⟨rfl, rfl⟩, (starts_of_extends (extends_queueInloop c.connector_ rfl)).le⟩
  | stopStore => exact ⟨fun _ => ⟨rfl, rfl⟩, le_rfl⟩
  | stopQueue =>
      simp only [perform]
      split
      · exact follows_of_extends rfl (extends_queueInloop _ rfl)
      · exact .refl c
  | forceClose =>
      simp only [perform]
      split
      · rename_i conn _
        refine ⟨fun h => h, ?_⟩
        show (c.connector_.batch ++
          (c.connector_.pending ++ [ClientFunctor.forceCloseInLoop conn])).count
          ClientFunctor.startInLoop ≤ _
        rw [← List.append_assoc, List.count_append]
        exact le_rfl
      · exact .refl c
  | poll =>
      simp only [perform]
      split
      · exact follows_of_extends rfl (.refl _)
      · exact .refl c
  | doPendingFunctors =>
      simp only [perform]
      split
      · refine ⟨fun h => h, ?_⟩
        show (c.connector_.pending ++ []).count ClientFunctor.startInLoop ≤
          (c.connector_.batch ++ c.connector_.pending).count ClientFunctor.startInLoop
        rw [List.append_nil, List.count_append]
        exact Nat.le_add_left _ _
      · exact .refl c
  | functor =>
      simp only [perform]
      split
      · rename_i f rest hb
        have hpop : Follows c { c with connector_ := { c.connector_ with batch := rest } } := by
          refine ⟨fun h => h, ?_⟩
          rw [starts_pop hb]
          exact Nat.le_add_left _ _
        exact hpop.trans (follows_runFunctor _ f)
      · exact .refl c
  | event sockfd error write err selfConnect =>
      simp only [perform]
      split
      · exact (follows_setActive c _).trans (follows_handleEvent _ error write err selfConnect)
      · exact .refl c
  | close conn =>
      simp only [perform]
      split
      · exact (follows_setActive c _).trans (follows_handleClose _ conn)
      · exact .refl c
  | timer i =>
      simp only [perform]
      split
      · have hext :
            Extends c.connector_ { c.connector_ with timers := c.connector_.timers.eraseIdx i } :=
          .of_eq rfl rfl (List.Subset.refl _) rfl
        exact follows_of_extends rfl (hext.trans (extends_startInLoop _))
      · exact .refl c
  | connectReturns savedErrno => exact follows_of_extends rfl (extends_connectReturns _ savedErrno)

theorem follows_step (c : TcpClient) {m : Move} (hm : m.isConnect = false) :
    Follows c (c.step m) := by
  unfold step
  split
  · exact .refl c
  · exact follows_perform c hm

end Follows

/-! ### A `startInLoop` that is still queued -/

/-- No attempt has begun. -/
def untouched : Shape := ⟨none, .kDisconnected, none, [], [], []⟩

structure StartInv (c : TcpClient) : Prop where
  client : ClientInv c
  start : c.starts = 0 ∨ c.starts = 1 ∧ c.connector_.shape = untouched

section Start

variable {c : TcpClient}

theorem StartInv.clear (h : StartInv c) {m : Move} (hm : m.isConnect = false)
    (hresets : c.resetsFirst m) :
    c.clear m := by
  cases m with
  | connect => cases hm
  | functor =>
      intro hhead
      obtain ⟨rest, hb⟩ : ∃ rest, c.connector_.batch = .startInLoop :: rest := by
        cases hbatch : c.connector_.batch with
        | nil => rw [hbatch] at hhead; cases hhead
        | cons f rest =>
            rw [hbatch] at hhead
            obtain rfl : f = .startInLoop := Option.some.inj hhead
            exact ⟨rest, rfl⟩
      have hpos : c.starts ≠ 0 := by
        rw [starts_pop hb]
        show 1 + _ ≠ 0
        omega
      have hshape := (h.start.resolve_left hpos).2
      exact ⟨congrArg Shape.state_ hshape, congrArg Shape.timers hshape,
        congrArg Shape.resets hshape⟩
  | timer i =>
      intro hlt
      have hget : c.connector_.timers[i]? = some c.connector_.timers[i] :=
        List.getElem?_eq_getElem hlt
      have hnot := hresets _ hget
      obtain ⟨-, -, hidle | hended⟩ := h.client.inv.mode.of_timer (List.getElem_mem hlt)
      · exact congrArg Shape.resets hidle
      · have hqueued : resetsOf c.connector_.queued = [_] := congrArg Shape.resets hended
        rw [hqueued] at hnot
        exact absurd List.mem_cons_self hnot
  | enableRetry | disconnect | stop | stopStore | stopQueue | forceClose | poll | doPendingFunctors
  | event | close | connectReturns => trivial

/-- Any functor but `startInLoop` finds nothing to do. -/
theorem untouched_runFunctor (hshape : c.connector_.shape = untouched)
    (hnone : c.connection_ = none)
    {f : ClientFunctor} {rest : List ClientFunctor} (hb : c.connector_.batch = f :: rest)
    (hf : f ≠ .startInLoop) :
    (runFunctor { c with connector_ := { c.connector_ with batch := rest } } f).connector_.shape =
      untouched := by
  obtain ⟨-, hstate, -, -, -, hresets⟩ := Shape.mk.inj hshape
  cases f with
  | startInLoop => exact absurd rfl hf
  | stopInLoop =>
      have hpop := shape_pop hb (show resetsOf [.stopInLoop] = [] from rfl)
      have hsame :
          stopInLoop { c.connector_ with batch := rest } = { c.connector_ with batch := rest } :=
        if_neg (by rw [hstate]; exact States.noConfusion)
      exact (congrArg shape hsame).trans (hpop.trans hshape)
  | resetChannel sockfd =>
      rw [queued_pop hb, resetsOf_append] at hresets
      cases hresets
  | forceCloseInLoop conn =>
      have hpop := shape_pop hb (show resetsOf [.forceCloseInLoop conn] = [] from rfl)
      simp only [runFunctor, handleClose, hnone, reduceCtorEq, if_false]
      exact hpop.trans hshape
  | connectDestroyed conn =>
      exact (shape_pop hb (show resetsOf [.connectDestroyed conn] = [] from rfl)).trans hshape

/-- As long as no `startInLoop` runs, an untouched connector stays so. -/
theorem untouched_perform (h : ClientInv c) (hshape : c.connector_.shape = untouched) {m : Move}
    (hm : m.isConnect = false)
    (hfirst : m = .functor → c.connector_.batch.head? ≠ some .startInLoop) :
    (c.perform m).connector_.shape = untouched := by
  obtain ⟨hcalling, hstate, hchannel, hreg, htimers, hresets⟩ := Shape.mk.inj hshape
  have hnone : c.connection_ = none := (h.inv.mode.of_clear hcalling hstate htimers hresets).2
  cases m with
  | connect => cases hm
  | enableRetry | disconnect | stopStore => exact hshape
  | stop => exact (shape_queueInloop _ rfl).trans hshape
  | stopQueue =>
      simp only [perform]
      split
      · exact (shape_queueInloop _ rfl).trans hshape
      · exact hshape
  | forceClose =>
      simp only [perform, hnone]
      exact hshape
  | poll =>
      simp only [perform]
      split <;> exact hshape
  | doPendingFunctors =>
      simp only [perform]
      split
      · rename_i hevents
        exact (shape_swap (h.events hevents)).trans hshape
      · exact hshape
  | functor =>
      simp only [perform]
      split
      · rename_i f rest hb
        refine untouched_runFunctor hshape hnone hb ?_
        rintro rfl
        exact hfirst rfl (by rw [hb]; rfl)
      · exact hshape
  | event sockfd error write err selfConnect =>
      simp only [perform, hreg, List.not_mem_nil, and_false, if_false]
      exact hshape
  | close conn =>
      simp only [perform]
      split
      · simp only [handleClose, hnone, reduceCtorEq, if_false]
        exact hshape
      · exact hshape
  | timer i =>
      simp only [perform, htimers, List.length_nil, Nat.not_lt_zero, decide_false, Bool.and_false]
      exact hshape
  | connectReturns savedErrno =>
      simp only [perform, Connector.connectReturns, hcalling]
      exact hshape

theorem startInv_step (h : StartInv c) {m : Move} (hm : m.isConnect = false)
    (hresets : c.resetsFirst m) :
    StartInv (c.step m) := by
  refine ⟨clientInv_step h.client m (h.clear hm hresets), ?_⟩
  have hle := (follows_step c hm).starts_le
  rcases h.start with hzero | ⟨hone, hshape⟩
  · exact Or.inl (Nat.le_zero.mp (hzero ▸ hle))
  unfold step at hle ⊢
  split
  · exact Or.inr ⟨hone, hshape⟩
  rename_i hfree
  rw [if_neg hfree] at hle
  by_cases hfirst : m = .functor ∧ c.connector_.batch.head? = some .startInLoop
  · -- the only `startInLoop` has run
    obtain ⟨rfl, hhead⟩ := hfirst
    refine Or.inl ?_
    simp only [perform]
    split
    · rename_i f rest hb
      rw [hb] at hhead
      obtain rfl : f = .startInLoop := Option.some.inj hhead
      have hrest := (follows_runFunctor { c with connector_ := { c.connector_ with batch := rest } }
        .startInLoop).starts_le
      have hpop :
          c.starts = 1 + starts { c with connector_ := { c.connector_ with batch := rest } } :=
        starts_pop hb
      have hnone : starts { c with connector_ := { c.connector_ with batch := rest } } = 0 := by
        omega
      exact Nat.le_zero.mp (hrest.trans hnone.le)
    · rename_i hb
      rw [hb] at hhead
      cases hhead
  · have hshape' := untouched_perform h.client hshape hm fun hfunctor hhead =>
      hfirst ⟨hfunctor, hhead⟩
    have hcases : (c.perform m).starts = 0 ∨ (c.perform m).starts = 1 := by omega
    exact hcases.imp_right fun hone' => ⟨hone', hshape'⟩

theorem startInv_connect (inLoopThread : Bool) : StartInv (new.step (.connect inLoopThread)) := by
  refine ⟨clientInv_step clientInv_new _ ?_, ?_⟩
  · cases inLoopThread with
    | true => decide
    | false => trivial
  · cases inLoopThread with
    | true => exact Or.inl (by decide)
    | false => exact Or.inr ⟨by decide, rfl⟩

end Start

/-! ### Whole runs -/

/-- `startInLoop` does nothing after `stop`. -/
theorem created_timer {c : TcpClient} (h : c.Stopped) (i : ℕ) :
    (c.step (.timer i)).connector_.created = c.connector_.created := by
  have hassert : ∀ (k : Connector) (p : Bool) (f : Fault),
      (k.assert p f).created = k.created ∧ (k.assert p f).connect_ = k.connect_ := by
    intro k p f
    unfold Connector.assert
    split <;> exact ⟨rfl, rfl⟩
  unfold step
  split
  · rfl
  simp only [perform]
  split
  · unfold startInLoop
    dsimp only
    rw [if_neg (by rw [(hassert _ _ _).2]; exact h.2 ▸ Bool.false_ne_true)]
    exact (hassert _ _ _).1
  · rfl

theorem stopped_exec {c : TcpClient} (h : c.Stopped) {run : List Move}
    (hrun : ∀ m ∈ run, m.isConnect = false) : (exec step c run).Stopped :=
  along_invariant Stopped (fun c _ hs hm => (follows_step c hm).stopped hs) h
    (along_of_forall_mem hrun)

theorem startInv_exec (inLoopThread : Bool) {run : List Move} (hrun : ∀ m ∈ run,
    m.isConnect = false) (hresets : Along step resetsFirst (new.step (.connect inLoopThread)) run) :
    StartInv (exec step (new.step (.connect inLoopThread)) run) :=
  along_invariant StartInv (fun _ _ h hm => startInv_step h hm.1 hm.2)
    (startInv_connect inLoopThread) ((along_of_forall_mem hrun).and hresets)

/-- **Every socket is disposed of once.**  A client calls `connect` once, on the loop thread or on
another one; then, in any order, its connector is stopped, its connection closed, `connect(2)` and
`SO_ERROR` answer as they like, and timers fire after the `resetChannel` of their attempt.  Every
socket created was closed once and not handed over, or handed over once and not closed, or is the
one of the current attempt, of which there is one at a time; nothing else was closed or handed over;
and after a `stop` no timer begins an attempt. -/
theorem sockets_disposed_once (inLoopThread : Bool) (run : List Move)
    (hrun : ∀ m ∈ run, m.isConnect = false)
    (hresets : Along step resetsFirst (new.step (.connect inLoopThread)) run) :
    let c := exec step new (.connect inLoopThread :: run)
    let k := c.connector_
    (∀ sockfd < k.created, k.closed.count sockfd = 1 ∧ k.handed.count sockfd = 0 ∨
      k.closed.count sockfd = 0 ∧ k.handed.count sockfd = 1 ∨
      k.current = some sockfd ∧ k.closed.count sockfd = 0 ∧ k.handed.count sockfd = 0) ∧
    (∀ sockfd, sockfd ∈ k.closed ∨ sockfd ∈ k.handed → sockfd < k.created) ∧
    (.stop ∈ run ∨ .stopStore ∈ run → ∀ i, (c.step (.timer i)).connector_.created = k.created) := by
  intro c k
  have hinv : StartInv c := startInv_exec inLoopThread hrun hresets
  have hbooks : Books k := hinv.client.inv.books
  refine ⟨fun sockfd hlt => ?_, fun sockfd hin => ?_, fun hstop i => created_timer ?_ i⟩
  · have hcount := hbooks.count sockfd
    rw [List.count_append] at hcount
    by_cases hcurrent : k.current = some sockfd
    · rw [if_neg (fun hand => hand.2 hcurrent)] at hcount
      exact Or.inr (Or.inr ⟨hcurrent, by omega, by omega⟩)
    · rw [if_pos ⟨hlt, hcurrent⟩] at hcount
      omega
  · by_contra hge
    have hcount := hbooks.count sockfd
    rw [if_neg (fun hand => hge hand.1), List.count_eq_zero, List.mem_append] at hcount
    exact hcount hin
  · -- from the stop on, `connect_` is false
    have hsplit :
        ∃ m before after, run = before ++ m :: after ∧ ∀ c : TcpClient, (c.step m).Stopped := by
      rcases hstop with hin | hin
      · obtain ⟨before, after, heq⟩ := List.append_of_mem hin
        exact ⟨_, before, after, heq, fun _ => ⟨rfl, rfl⟩⟩
      · obtain ⟨before, after, heq⟩ := List.append_of_mem hin
        exact ⟨_, before, after, heq, fun _ => ⟨rfl, rfl⟩⟩
    obtain ⟨m, before, after, rfl, hstopped⟩ := hsplit
    show (exec step (new.step (.connect inLoopThread)) (before ++ m :: after)).Stopped
    rw [exec_append, exec_cons]
    exact stopped_exec (hstopped _) fun m' hm' =>
      hrun m' (List.mem_append_right _ (List.mem_cons_of_mem m hm'))

/-- The first attempt fails with both events at once, the second one is stopped while it is
connecting. -/
def refusedThenStopped : List Move :=
  [.connectReturns .EINPROGRESS, .poll, .event 0 true true 111 false, .doPendingFunctors,
    .functor, .poll, .timer 0, .connectReturns .EINPROGRESS, .stop, .doPendingFunctors, .functor]

theorem refusedThenStopped_disposed :
    (exec step new (.connect true :: refusedThenStopped)).connector_.closed = [0, 1] ∧
    ∀ i, ((exec step new (.connect true :: refusedThenStopped)).step
      (.timer i)).connector_.created =
      (exec step new (.connect true :: refusedThenStopped)).connector_.created :=
  ⟨by decide +kernel, (sockets_disposed_once true refusedThenStopped (by decide +kernel)
    (by decide +kernel)).2.2 (by decide +kernel)⟩

end TcpClient

end Muduo.Net
