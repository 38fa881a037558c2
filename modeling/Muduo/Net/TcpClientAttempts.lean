import Muduo.Net.TcpClient
import Muduo.Net.ConnectorModes

/-!
# One attempt at a time

`Connector::startInLoop` asserts that no attempt is going on, and `connecting` that the channel
of the last one is gone.  Nothing in `TcpClient::connect` checks either; `start` after a
connection was established, in particular, always fails the first assertion, since only `restart`
sets the state back.  This file shows when they hold: if `connect` is called only when nothing is
left of an earlier attempt, and retry timers fire only after `resetChannel`, then no assertion of
the connector ever fails.

* `Clear`, `clear` — the condition, on the state before a call of `connect` or the firing of a
  timer;
* `ClientInv` — the connector is in a mode, and `resetChannel` runs before the connection can be
  closed; `clientInv_step`;
* `one_attempt_at_a_time` — in every run of clear moves no assertion fails and at most one
  connecting channel is in the poller;
* `reconnect_asserts` — a client whose connection was closed calls `connect` again.
-/

namespace Muduo.Net

open Muduo.Lib

namespace Connector

/-! ### What the functions leave alone -/

/-- The functors the connector and the client queue without being asked to start or to close. -/
def ClientFunctor.isOwn : ClientFunctor → Bool
  | .startInLoop | .forceCloseInLoop _ => false
  | _ => true

/-- The batch is the same, the functors queued are of the own kind, sockets stay handed over. -/
structure Extends (k k' : Connector) : Prop where
  batch : k'.batch = k.batch
  pending : ∃ fs, k'.pending = k.pending ++ fs ∧ ∀ f ∈ fs, f.isOwn = true
  handed : k.handed ⊆ k'.handed
  connect : k'.connect_ = k.connect_

section Extends

variable {k k' k'' : Connector}

theorem Extends.of_eq (hbatch : k'.batch = k.batch) (hpending : k'.pending = k.pending)
    (hhanded : k.handed ⊆ k'.handed) (hconnect : k'.connect_ = k.connect_) : Extends k k' :=
  ⟨hbatch, ⟨[], by rw [hpending, List.append_nil], fun _ hf => absurd hf List.not_mem_nil⟩, hhanded,
    hconnect⟩

theorem Extends.refl (k : Connector) : Extends k k := .of_eq rfl rfl (List.Subset.refl _) rfl

theorem extends_queueInloop (k : Connector) {f : ClientFunctor} (hf : f.isOwn = true) :
    Extends k (k.queueInloop f) := by
  refine ⟨rfl, ⟨[f], rfl, ?_⟩, List.Subset.refl _, rfl⟩
  intro g hg
  rw [List.mem_singleton.mp hg]
  exact hf

theorem Extends.trans (h : Extends k k') (h' : Extends k' k'') : Extends k k'' := by
  obtain ⟨fs, hfs, hnot⟩ := h.pending
  obtain ⟨gs, hgs, hnot'⟩ := h'.pending
  refine ⟨h'.batch.trans h.batch, ⟨fs ++ gs, by rw [hgs, hfs, List.append_assoc], ?_⟩,
    fun _ hin => h'.handed (h.handed hin), h'.connect.trans h.connect⟩
  intro f hf
  rcases List.mem_append.mp hf with hin | hin
  · exact hnot f hin
  · exact hnot' f hin

theorem extends_assert (k : Connector) (p : Bool) (f : Fault) : Extends k (k.assert p f) := by
  unfold assert
  split
  · exact .refl k
  · exact .of_eq rfl rfl (List.Subset.refl _) rfl

theorem extends_retry (k : Connector) (sockfd : ℕ) : Extends k (k.retry sockfd) := by
  unfold retry
  dsimp only
  split
  · exact .of_eq rfl rfl (List.Subset.refl _) rfl
  · exact .of_eq rfl rfl (List.Subset.refl _) rfl

theorem extends_removeAndResetChannel (k : Connector) : Extends k k.removeAndResetChannel.1 := by
  unfold removeAndResetChannel
  split
  · exact extends_assert k false .noChannel
  · rename_i sockfd _
    have hremoved : Extends k { k with registered := k.registered.erase sockfd } :=
      .of_eq rfl rfl (List.Subset.refl _) rfl
    exact hremoved.trans (extends_queueInloop _ (f := .resetChannel sockfd) rfl)

theorem extends_startInLoop (k : Connector) : Extends k k.startInLoop := by
  have hassert := extends_assert k (k.state_ == .kDisconnected) .notDisconnected
  unfold startInLoop
  dsimp only
  split
  · exact ⟨hassert.batch, hassert.pending, hassert.handed, hassert.connect⟩
  · exact hassert

theorem extends_connecting (k : Connector) (sockfd : ℕ) : Extends k (k.connecting sockfd) := by
  have hassert := extends_assert (k.setState .kConnecting) (k.setState .kConnecting).channel_.isNone
    .channelInUse
  exact ⟨hassert.batch, hassert.pending, hassert.handed, hassert.connect⟩

theorem extends_connectReturns (k : Connector) (savedErrno : Errno) :
    Extends k (k.connectReturns savedErrno) := by
  unfold connectReturns
  split
  · exact .refl k
  · rename_i sockfd _
    have hcall : Extends k { k with calling := none } := .of_eq rfl rfl (List.Subset.refl _) rfl
    cases savedErrno with
    | success | EINPROGRESS | EINTR | EISCONN => exact hcall.trans (extends_connecting _ sockfd)
    | EAGAIN | EADDRINUSE | EADDRNOTAVAIL | ECONNREFUSED | ENETUNREACH =>
        exact hcall.trans (extends_retry _ sockfd)
    | EACCES | EPERM | EAFNOSUPPORT | EALREADY | EBADF | EFAULT | ENOTSOCK | other =>
        exact .of_eq rfl rfl (List.Subset.refl _) rfl

theorem extends_stopInLoop (k : Connector) : Extends k k.stopInLoop := by
  have hremove := extends_removeAndResetChannel (k.setState .kDisconnected)
  unfold stopInLoop
  split
  · split
    · rename_i k₁ sockfd heq
      rw [heq] at hremove
      exact Extends.trans ⟨hremove.batch, hremove.pending, hremove.handed, hremove.connect⟩
        (extends_retry k₁ sockfd)
    · rename_i k₁ heq
      rw [heq] at hremove
      exact ⟨hremove.batch, hremove.pending, hremove.handed, hremove.connect⟩
  · exact .refl k

theorem extends_handleError (k : Connector) : Extends k k.handleError := by
  have hremove := extends_removeAndResetChannel k
  unfold handleError
  split
  · split
    · rename_i k₁ heq
      rw [heq] at hremove
      exact hremove
    · rename_i k₁ sockfd heq
      rw [heq] at hremove
      exact hremove.trans (extends_retry k₁ sockfd)
  · exact .refl k

theorem extends_handleWrite (k : Connector) (err : ℕ) (selfConnect : Bool) :
    Extends k (k.handleWrite err selfConnect).1 := by
  have hremove := extends_removeAndResetChannel k
  unfold handleWrite
  split
  · split
    · rename_i k₁ heq
      rw [heq] at hremove
      exact hremove
    · rename_i k₁ sockfd heq
      rw [heq] at hremove
      split
      · exact hremove.trans (extends_retry k₁ sockfd)
      · split
        · exact hremove.trans (extends_retry k₁ sockfd)
        · dsimp only
          split
          · exact hremove.trans (.of_eq rfl rfl (List.subset_append_left _ _) rfl)
          · exact hremove.trans (.of_eq rfl rfl (List.Subset.refl _) rfl)
  · exact extends_assert k _ .whatHappened

theorem extends_restart (k : Connector) : Extends { k with connect_ := true } k.restart := by
  have hstart := extends_startInLoop { k with
    state_ := .kDisconnected, retryDelayMs_ := kInitRetryDelayMs, connect_ := true }
  exact ⟨hstart.batch, hstart.pending, hstart.handed, hstart.connect⟩

theorem Extends.mem_queued (h : Extends k k') {conn : ℕ}
    (hin : .forceCloseInLoop conn ∈ k'.queued) :
    .forceCloseInLoop conn ∈ k.queued := by
  obtain ⟨fs, hfs, hnot⟩ := h.pending
  rw [queued, h.batch, hfs, ← List.append_assoc, List.mem_append] at hin
  rcases hin with hin | hin
  · exact hin
  · exact absurd (hnot _ hin) Bool.false_ne_true

end Extends

/-- Nothing of an earlier attempt is left: no timer will repeat it, and its channel is gone. -/
def Clear (k : Connector) : Prop :=
  k.state_ = .kDisconnected ∧ k.timers = [] ∧ resetsOf k.queued = []

instance (k : Connector) : Decidable k.Clear := by unfold Clear; infer_instance

end Connector

namespace TcpClient

open Connector

/-- `connect` is called, and a queued `startInLoop` runs, when nothing of an earlier attempt is
left; a retry timer fires after `resetChannel`. -/
def clear (c : TcpClient) : Move → Prop
  | .connect true => c.connector_.Clear
  | .functor => c.connector_.batch.head? = some .startInLoop → c.connector_.Clear
  | .timer i => i < c.connector_.timers.length → resetsOf c.connector_.queued = []
  | _ => True

instance (c : TcpClient) (m : Move) : Decidable (c.clear m) := by
  unfold clear
  split <;> infer_instance

/-! ### The invariant -/

/-- `resetChannel` runs before anything can close the connection. -/
structure Ordered (c : TcpClient) (conn : ℕ) : Prop where
  handed : conn ∈ c.connector_.handed
  polled : conn ∈ c.active → resetsOf c.connector_.queued = []
  swapped : c.inEvents = false → resetsOf c.connector_.pending = []
  forced : c.connector_.queued.Pairwise fun f g => f = .forceCloseInLoop conn → resetsOf [g] = []

structure ClientInv (c : TcpClient) : Prop where
  inv : Inv c.connector_ c.connection_
  known : ∀ conn, .forceCloseInLoop conn ∈ c.connector_.queued → conn ∈ c.connector_.handed
  idle : c.inEvents = false → c.active = []
  events : c.inEvents = true → c.connector_.batch = []
  ordered : ∀ conn, c.connection_ = some conn → Ordered c conn

theorem clientInv_new : ClientInv new where
  inv := inv_new
  known _ hin := absurd hin List.not_mem_nil
  idle _ := rfl
  events h := by cases h
  ordered _ h := by cases h

section Moves

variable {c c' : TcpClient}

/-- Without a connection there is no order to keep. -/
theorem ClientInv.of_none (h : ClientInv c) (hinv : Inv c'.connector_ none)
    (hnone : c'.connection_ = none)
    (hext : Extends c.connector_ c'.connector_) (hevents : c'.inEvents = c.inEvents)
    (hactive : c'.active ⊆ c.active) : ClientInv c' where
  inv := hnone ▸ hinv
  known conn hin := hext.handed (h.known conn (hext.mem_queued hin))
  idle hidle := by
    have hnil := h.idle (hevents.symm.trans hidle)
    rw [hnil] at hactive
    exact List.subset_nil.mp hactive
  events hin := hext.batch.trans (h.events (hevents.symm.trans hin))
  ordered conn hconn := by rw [hnone] at hconn; cases hconn

/-- A functor other than `resetChannel` is queued. -/
theorem ClientInv.queueInloop (h : ClientInv c) {f : ClientFunctor} (hf : resetsOf [f] = [])
    (hknown : ∀ conn, f = .forceCloseInLoop conn → conn ∈ c.connector_.handed) :
    ClientInv { c with connector_ := c.connector_.queueInloop f } where
  inv := inv_queueInloop h.inv hf
  known conn hin := by
    rw [queued_queueInloop, List.mem_append, List.mem_singleton] at hin
    rcases hin with hin | rfl
    · exact h.known conn hin
    · exact hknown conn rfl
  idle := h.idle
  events := h.events
  ordered conn hconn := by
    have hord := h.ordered conn hconn
    have hqueued := queued_queueInloop c.connector_ f
    refine ⟨hord.handed, fun hin => ?_, fun hidle => ?_, ?_⟩
    · show resetsOf (c.connector_.queueInloop f).queued = []
      rw [hqueued, resetsOf_append, hord.polled hin, hf, List.append_nil]
    · show resetsOf (c.connector_.pending ++ [f]) = []
      rw [resetsOf_append, hord.swapped hidle, hf, List.append_nil]
    · show (c.connector_.queueInloop f).queued.Pairwise _
      rw [hqueued, List.pairwise_append]
      refine ⟨hord.forced, List.pairwise_singleton _ _, ?_⟩
      intro x _ y hy _
      rw [List.mem_singleton.mp hy]
      exact hf

/-- The shape and the sockets stay, and the functors too: the flags are free. -/
theorem ClientInv.setFlags (h : ClientInv c) (retry_ connect_ want : Bool) (stopping : ℕ) :
    ClientInv { c with
      retry_ := retry_, connect_ := connect_, stopping := stopping,
      connector_ := { c.connector_ with connect_ := want } } where
  inv := h.inv.congr rfl rfl rfl rfl rfl
  known := h.known
  idle := h.idle
  events := h.events
  ordered conn hconn := by
    obtain ⟨hhanded, hpolled, hswapped, hforced⟩ := h.ordered conn hconn
    exact ⟨hhanded, hpolled, hswapped, hforced⟩

theorem clientInv_startInLoop (h : ClientInv c) (hcalling : c.connector_.calling = none)
    (hclear : c.connector_.Clear) :
    ClientInv { c with connector_ := c.connector_.startInLoop } := by
  obtain ⟨hstate, htimers, hresets⟩ := hclear
  obtain ⟨hshape, hnone⟩ := h.inv.mode.of_clear hcalling hstate htimers hresets
  have hinv := h.inv
  rw [hnone] at hinv
  exact h.of_none (inv_startInLoop hinv hshape) hnone (extends_startInLoop _) rfl
    (List.Subset.refl _)

/-! ### The functors -/

theorem resetsOf_cons_eq_nil {f : ClientFunctor} {fs : List ClientFunctor} :
    resetsOf (f :: fs) = [] ↔ resetsOf [f] = [] ∧ resetsOf fs = [] := by
  rw [show f :: fs = [f] ++ fs from rfl, resetsOf_append, List.append_eq_nil_iff]

theorem resetsOf_eq_nil {fs : List ClientFunctor} (h : ∀ f ∈ fs, resetsOf [f] = []) :
    resetsOf fs = [] := by
  induction fs with
  | nil => rfl
  | cons f fs ih =>
      exact resetsOf_cons_eq_nil.mpr
        ⟨h f List.mem_cons_self, ih fun g hg => h g (List.mem_cons_of_mem f hg)⟩

/-- The first functor of the batch has run. -/
theorem ClientInv.pop (h : ClientInv c) {f : ClientFunctor} {rest : List ClientFunctor}
    (hb : c.connector_.batch = f :: rest) {k' : Connector} (hinv : Inv k' c.connection_)
    (hbatch : k'.batch = rest) (hpending : k'.pending = c.connector_.pending)
    (hhanded : k'.handed = c.connector_.handed) : ClientInv { c with connector_ := k' } := by
  have hqueued : c.connector_.queued = f :: k'.queued := by
    rw [queued, queued, hb, hbatch, hpending]
    rfl
  refine ⟨hinv, fun conn hin => ?_, h.idle, fun hevents => ?_, fun conn hconn => ?_⟩
  · show conn ∈ k'.handed
    rw [hhanded]
    exact h.known conn (hqueued ▸ List.mem_cons_of_mem f hin)
  · have hnil := h.events hevents
    rw [hb] at hnil
    cases hnil
  · have hord := h.ordered conn hconn
    refine ⟨hhanded ▸ hord.handed, fun hin => ?_, fun hidle => ?_, ?_⟩
    · have hresets := hord.polled hin
      rw [hqueued] at hresets
      exact (resetsOf_cons_eq_nil.mp hresets).2
    · show resetsOf k'.pending = []
      rw [hpending]
      exact hord.swapped hidle
    · have hpairwise := hord.forced
      rw [hqueued] at hpairwise
      exact (List.pairwise_cons.mp hpairwise).2

/-- A `forceCloseInLoop` that runs has no `resetChannel` behind it. -/
theorem ClientInv.resets_of_forced (h : ClientInv c) {conn : ℕ} {rest : List ClientFunctor}
    (hb : c.connector_.batch = .forceCloseInLoop conn :: rest) (hconn : c.connection_ = some conn) :
    resetsOf (rest ++ c.connector_.pending) = [] := by
  have hpairwise := (h.ordered conn hconn).forced
  rw [queued, hb] at hpairwise
  exact resetsOf_eq_nil fun g hg => (List.pairwise_cons.mp hpairwise).1 g hg rfl

theorem clientInv_stopInLoop (h : ClientInv c) :
    ClientInv { c with connector_ := c.connector_.stopInLoop } := by
  by_cases hstate : c.connector_.state_ = .kConnecting
  · obtain ⟨sockfd, -, hnone⟩ := h.inv.mode.of_connecting hstate
    have hinv := inv_stopInLoop h.inv
    rw [hnone] at hinv
    exact h.of_none hinv hnone (extends_stopInLoop _) rfl (List.Subset.refl _)
  · have hsame : c.connector_.stopInLoop = c.connector_ := if_neg hstate
    rw [hsame]
    exact h

/-- The connection is removed when the channel of its attempt is gone. -/
theorem clientInv_removeConnection (h : ClientInv c) {conn : ℕ} (hconn : c.connection_ = some conn)
    (hresets : resetsOf c.connector_.queued = []) : ClientInv (c.removeConnection conn) := by
  have hinv := inv_queueInloop (f := .connectDestroyed conn) h.inv rfl
  have hresets' : (c.connector_.queueInloop (.connectDestroyed conn)).shape.resets = [] := by
    show resetsOf (c.connector_.batch ++ (c.connector_.pending ++ [.connectDestroyed conn])) = []
    rw [← List.append_assoc, resetsOf_append]
    show resetsOf c.connector_.queued ++ _ = []
    rw [hresets]
    rfl
  rw [hconn] at hinv
  unfold removeConnection
  dsimp only
  split
  · have hext := extends_queueInloop { c.connector_ with connect_ := true }
      (f := .connectDestroyed conn) rfl
    exact (h.setFlags c.retry_ c.connect_ true c.stopping).of_none (inv_restart hinv hresets') rfl
      (hext.trans (extends_restart (c.connector_.queueInloop (.connectDestroyed conn)))) rfl
      (List.Subset.refl _)
  · exact h.of_none ⟨hinv.mode.drop, hinv.books, hinv.faults⟩ rfl (extends_queueInloop _ rfl) rfl
      (List.Subset.refl _)

theorem clientInv_handleClose (h : ClientInv c) {conn : ℕ}
    (hresets : c.connection_ = some conn → resetsOf c.connector_.queued = []) :
    ClientInv (c.handleClose conn) := by
  unfold handleClose
  split
  · rename_i hconn
    exact clientInv_removeConnection h hconn (hresets hconn)
  · exact h

theorem clientInv_functor (h : ClientInv c) (hcalling : c.connector_.calling = none)
    (hclear : c.clear .functor) : ClientInv (c.perform .functor) := by
  simp only [perform]
  split
  swap
  · exact h
  rename_i f rest hb
  have hpop : ∀ {g : ClientFunctor}, c.connector_.batch = g :: rest → resetsOf [g] = [] →
      ClientInv { c with connector_ := { c.connector_ with batch := rest } } :=
    fun hb hg => h.pop hb (inv_pop h.inv hb hg) rfl rfl rfl
  cases f with
  | startInLoop =>
      obtain ⟨hstate, htimers, hresets⟩ := hclear (by rw [hb]; rfl)
      refine clientInv_startInLoop (hpop hb rfl) hcalling ⟨hstate, htimers, ?_⟩
      rw [queued_pop hb, resetsOf_append, List.append_eq_nil_iff] at hresets
      exact hresets.2
  | stopInLoop => exact clientInv_stopInLoop (hpop hb rfl)
  | resetChannel sockfd => exact h.pop hb (inv_resetChannel h.inv hb) rfl rfl rfl
  | forceCloseInLoop conn =>
      exact clientInv_handleClose (hpop hb rfl) fun hconn => h.resets_of_forced hb hconn
  | connectDestroyed conn => exact hpop hb rfl

/-! ### The handlers -/

theorem ClientInv.setActive (h : ClientInv c) {active : List ℕ} (hsub : active ⊆ c.active) :
    ClientInv { c with active := active } where
  inv := h.inv
  known := h.known
  idle hidle := List.subset_nil.mp (h.idle hidle ▸ hsub)
  events := h.events
  ordered conn hconn := by
    obtain ⟨hhanded, hpolled, hswapped, hforced⟩ := h.ordered conn hconn
    exact ⟨hhanded, fun hin => hpolled (hsub hin), hswapped, hforced⟩

/-- The current socket has not been handed over. -/
theorem notMem_handed {k : Connector} (h : Books k) {sockfd : ℕ}
    (hcurrent : k.current = some sockfd) :
    sockfd ∉ k.handed := by
  intro hin
  have hcount := h.count sockfd
  rw [if_neg (fun hand => hand.2 hcurrent), List.count_eq_zero] at hcount
  exact hcount (List.mem_append_right _ hin)

theorem clientInv_handleEvent (h : ClientInv c) {sockfd : ℕ}
    (hshape : c.connector_.shape = ⟨none, .kConnecting, some sockfd, [sockfd], [], []⟩)
    (hnone : c.connection_ = none) (hactive : sockfd ∉ c.active) (hevents : c.inEvents = true)
    (error write : Bool) (err : ℕ) (selfConnect : Bool) :
    ClientInv (c.handleEvent error write err selfConnect) := by
  have hinv := h.inv
  rw [hnone] at hinv
  unfold handleEvent
  cases error with
  | true =>
      obtain ⟨hinv', hstate⟩ := inv_handleError hinv hshape
      have hdone : ClientInv { c with connector_ := c.connector_.handleError } :=
        h.of_none hinv' hnone (extends_handleError _) rfl (List.Subset.refl _)
      cases write with
      | true =>
          rw [if_pos rfl, if_pos rfl, handleWrite_of_disconnected hstate]
          exact hdone
      | false => exact hdone
  | false =>
      cases write with
      | false => exact h
      | true =>
          have hwrite := inv_handleWrite hinv hshape err selfConnect
          have hext := extends_handleWrite c.connector_ err selfConnect
          rw [if_neg Bool.false_ne_true, if_pos rfl]
          split
          · rename_i k₁ sockfd' heq
            obtain ⟨hsame, hhanded⟩ :=
              handleWrite_handed (congrArg Shape.channel_ hshape) (congrArg Prod.snd heq)
            subst hsame
            rw [heq] at hwrite hext hhanded
            refine ⟨hwrite, fun conn hin => hext.handed (h.known conn (hext.mem_queued hin)),
              h.idle, fun hin => hext.batch.trans (h.events hin), fun conn hconn => ?_⟩
            obtain rfl := Option.some.inj hconn
            refine ⟨hhanded, fun hin => absurd hin hactive, fun hidle => ?_, ?_⟩
            · cases hevents.symm.trans hidle
            · -- no `forceCloseInLoop` can know this connection yet
              refine List.pairwise_of_forall_mem_list fun f hf g _ hforced => ?_
              rw [hforced] at hf
              refine absurd (h.known _ (hext.mem_queued hf)) (notMem_handed h.inv.books ?_)
              rw [current, hshape]
              rfl
          · rename_i k₁ heq
            rw [heq] at hwrite hext
            exact h.of_none hwrite hnone hext rfl (List.Subset.refl _)

theorem clientInv_event (h : ClientInv c) (sockfd : ℕ) (error write : Bool) (err : ℕ)
    (selfConnect : Bool) :
    ClientInv (c.perform (.event sockfd error write err selfConnect)) := by
  simp only [perform]
  split
  · rename_i hin
    obtain ⟨hshape, hnone⟩ := h.inv.mode.of_registered hin.2
    have hevents : c.inEvents = true := by
      by_contra hidle
      have hnil := h.idle (Bool.not_eq_true _ ▸ hidle)
      rw [hnil] at hin
      exact absurd hin.1 List.not_mem_nil
    refine clientInv_handleEvent (h.setActive (List.filter_subset_self _)) hshape hnone
      ?_ hevents _ _ _ _
    simp
  · exact h

theorem clientInv_close (h : ClientInv c) (conn : ℕ) : ClientInv (c.perform (.close conn)) := by
  simp only [perform]
  split
  · rename_i hin
    exact clientInv_handleClose (h.setActive (List.filter_subset_self _))
      fun hconn => (h.ordered conn hconn).polled hin
  · exact h

theorem clientInv_timer (h : ClientInv c) (i : ℕ) (hclear : c.clear (.timer i)) :
    ClientInv (c.perform (.timer i)) := by
  simp only [perform]
  split
  swap
  · exact h
  rename_i hfires
  rw [Bool.and_eq_true, decide_eq_true_eq] at hfires
  have hlt : i < c.connector_.timers.length := hfires.2
  obtain ⟨htimers, hnone, hshape⟩ := h.inv.mode.of_timer (List.getElem_mem hlt)
  have hshape' := hshape.resolve_right fun hended => by
    have hresets : resetsOf c.connector_.queued = [_] := congrArg Shape.resets hended
    rw [hclear hlt] at hresets
    cases hresets
  replace htimers : c.connector_.timers = [c.connector_.timers[i]] := htimers
  have hinv := h.inv
  rw [hnone] at hinv
  have herase : c.connector_.timers.eraseIdx i = [] := by
    have hone : c.connector_.timers.length = 1 := by rw [htimers]; rfl
    obtain rfl : i = 0 := by omega
    rw [htimers]
    rfl
  have hafter : ({ c.connector_ with timers := c.connector_.timers.eraseIdx i } : Connector).shape =
      ⟨none, .kDisconnected, none, [], [], []⟩ := by
    show { c.connector_.shape with timers := c.connector_.timers.eraseIdx i } = _
    rw [hshape', herase]
  have hinv' : Inv { c.connector_ with timers := c.connector_.timers.eraseIdx i } none := by
    refine ⟨hafter ▸ .idle [] (Nat.zero_le 1), hinv.books.congr ?_ rfl rfl rfl, hinv.faults⟩
    rfl
  have hext : Extends c.connector_ { c.connector_ with timers := c.connector_.timers.eraseIdx i } :=
    .of_eq rfl rfl (List.Subset.refl _) rfl
  exact h.of_none (inv_startInLoop hinv' hafter) hnone (hext.trans (extends_startInLoop _)) rfl
    (List.Subset.refl _)

theorem clientInv_poll (h : ClientInv c) : ClientInv (c.perform .poll) := by
  simp only [perform]
  split
  · rename_i hpoll
    rw [Bool.and_eq_true, Bool.not_eq_true', List.isEmpty_iff] at hpoll
    obtain ⟨hidle, hbatch⟩ := hpoll
    refine ⟨h.inv, h.known, fun hfalse => (nomatch hfalse), fun _ => hbatch, fun conn hconn => ?_⟩
    have hord := h.ordered conn hconn
    refine ⟨hord.handed, fun _ => ?_, fun hfalse => (nomatch hfalse), hord.forced⟩
    -- the batch has run, and nothing was queued meanwhile
    show resetsOf (c.connector_.batch ++ c.connector_.pending) = []
    rw [hbatch]
    exact hord.swapped hidle
  · exact h

theorem clientInv_doPendingFunctors (h : ClientInv c) :
    ClientInv (c.perform .doPendingFunctors) := by
  simp only [perform]
  split
  · rename_i hevents
    have hqueued := queued_swap (h.events hevents)
    refine ⟨h.inv.congr (shape_swap (h.events hevents)) rfl rfl rfl rfl,
      fun conn hin => h.known conn (hqueued ▸ hin), fun _ => rfl, fun hfalse => (nomatch hfalse),
      fun conn hconn => ⟨(h.ordered conn hconn).handed, fun hin => absurd hin List.not_mem_nil,
        fun _ => rfl, ?_⟩⟩
    show List.Pairwise _ (Connector.queued _)
    rw [hqueued]
    exact (h.ordered conn hconn).forced
  · exact h

theorem clientInv_connectReturns (h : ClientInv c) (savedErrno : Errno) :
    ClientInv (c.perform (.connectReturns savedErrno)) := by
  cases hcalling : c.connector_.calling with
  | none =>
      have hsame : c.connector_.connectReturns savedErrno = c.connector_ := by
        unfold connectReturns
        rw [hcalling]
      simp only [perform, hsame]
      exact h
  | some sockfd =>
      obtain ⟨-, hnone⟩ := h.inv.mode.of_calling hcalling
      have hinv := inv_connectReturns h.inv savedErrno
      rw [hnone] at hinv
      exact h.of_none hinv hnone (extends_connectReturns _ savedErrno) rfl (List.Subset.refl _)

/-- **Every clear move keeps the invariant.** -/
theorem clientInv_step (h : ClientInv c) (m : Move) (hclear : c.clear m) :
    ClientInv (c.step m) := by
  unfold step
  split
  · exact h
  rename_i hfree
  have hcalling : m.onLoop = true → c.connector_.calling = none := by
    intro hloop
    rw [hloop, Bool.true_and, Option.isSome_iff_ne_none, not_not] at hfree
    exact hfree
  cases m with
  | enableRetry => exact h.setFlags true c.connect_ c.connector_.connect_ c.stopping
  | connect inLoopThread =>
      have hflags := h.setFlags c.retry_ true true c.stopping
      cases inLoopThread with
      | true => exact clientInv_startInLoop hflags (hcalling rfl) hclear
      | false => exact hflags.queueInloop (f := .startInLoop) rfl fun _ hf => by cases hf
  | disconnect => exact h.setFlags c.retry_ false c.connector_.connect_ c.stopping
  | stop =>
      exact (h.setFlags c.retry_ false false c.stopping).queueInloop (f := .stopInLoop) rfl
        fun _ hf => by cases hf
  | stopStore => exact h.setFlags c.retry_ false false (c.stopping + 1)
  | stopQueue =>
      simp only [perform]
      split
      · exact (h.setFlags c.retry_ c.connect_ c.connector_.connect_ (c.stopping - 1)).queueInloop
          (f := .stopInLoop) rfl fun _ hf => by cases hf
      · exact h
  | forceClose =>
      simp only [perform]
      split
      · rename_i conn hconn
        refine h.queueInloop rfl fun conn' hf => ?_
        cases hf
        exact (h.ordered conn hconn).handed
      · exact h
  | poll => exact clientInv_poll h
  | doPendingFunctors => exact clientInv_doPendingFunctors h
  | functor => exact clientInv_functor h (hcalling rfl) hclear
  | event sockfd error write err selfConnect =>
      exact clientInv_event h sockfd error write err selfConnect
  | close conn => exact clientInv_close h conn
  | timer i => exact clientInv_timer h i hclear
  | connectReturns savedErrno => exact clientInv_connectReturns h savedErrno

theorem clientInv_along {run : List Move} (hclear : Along step clear new run) :
    ClientInv (exec step new run) :=
  along_invariant ClientInv (fun _ m h hm => clientInv_step h m hm) clientInv_new hclear

end Moves

/-- **One attempt at a time.**  In every run in which `connect` is called only when nothing of an
earlier attempt is left, and retry timers fire only after the `resetChannel` of their attempt: no
assertion of the connector fails, and at most one connecting channel is in the poller. -/
theorem one_attempt_at_a_time (run : List Move) (hclear : Along step clear new run) :
    (exec step new run).connector_.faults = [] ∧
      (exec step new run).connector_.registered.length ≤ 1 := by
  have hinv := (clientInv_along hclear).inv
  exact ⟨hinv.faults, hinv.mode.registered_le⟩

/-- A refused attempt is repeated by its timer, the connection it leads to is closed, and the client
reconnects. -/
def retried : List Move :=
  [.enableRetry, .connect true, .connectReturns .ECONNREFUSED, .poll, .timer 0,
    .connectReturns .EINPROGRESS,
    .doPendingFunctors, .poll, .event 1 false true 0 false, .doPendingFunctors, .functor,
    .poll, .close 1, .connectReturns .EINPROGRESS]

theorem retried_one_attempt : Along step clear new retried ∧
    (exec step new retried).connector_.faults = [] ∧
      (exec step new retried).connector_.registered.length ≤ 1 :=
  ⟨by decide +kernel, one_attempt_at_a_time retried (by decide +kernel)⟩

/-- A client connects, its connection is closed by the peer, and it calls `connect` again: the state
of the connector is still `kConnected`. -/
theorem reconnect_asserts :
    (exec step new [.connect true, .connectReturns .EINPROGRESS, .poll, .event 0 false true 0 false,
      .doPendingFunctors, .functor, .poll, .close 0]).connection_ = none ∧
    (exec step new [.connect true, .connectReturns .EINPROGRESS, .poll, .event 0 false true 0 false,
      .doPendingFunctors, .functor, .poll, .close 0, .connect true]).connector_.faults =
        [.notDisconnected] := by
  decide +kernel

end TcpClient

end Muduo.Net
