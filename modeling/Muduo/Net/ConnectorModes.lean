import Muduo.Net.Connector

/-!
# The modes of a connector

As long as attempts begin one at a time, a connector is in one of six modes: idle, perhaps with a
retry timer; inside `connect(2)`; connecting, with its channel in the poller; and, after an
attempt has ended in failure or with a connection, waiting for `resetChannel` or done with it.
Each member function is shown once to lead from mode to mode, without a failed assertion, and to
keep account of the sockets.

* `Shape`, `Mode` — the modes, and inversion lemmas for the situations the functions are called in;
* `current`, `Books` — every socket but the current one was closed or handed over, once;
* `Inv` — both, and no fault; `inv_startInLoop`, `inv_connectReturns`, `inv_endAttempt`,
  `inv_handleWrite`, `inv_resetChannel`, `inv_restart`.
-/

namespace Muduo.Net

namespace Connector

/-! ### Modes -/

/-- The attempts whose `resetChannel` is among the functors. -/
def resetsOf (fs : List ClientFunctor) : List ℕ := fs.filterMap fun
  | .resetChannel sockfd => some sockfd
  | _ => none

/-- All functors that have not run, in order. -/
def queued (k : Connector) : List ClientFunctor := k.batch ++ k.pending

structure Shape where
  calling : Option ℕ
  state_ : States
  channel_ : Option ℕ
  registered : List ℕ
  timers : List RetryTimer
  resets : List ℕ

def shape (k : Connector) : Shape :=
  ⟨k.calling, k.state_, k.channel_, k.registered, k.timers, resetsOf k.queued⟩

/-- The modes, with the connection that is alive. -/
inductive Mode : Shape → Option ℕ → Prop where
  | idle (timers : List RetryTimer) : timers.length ≤ 1 →
      Mode ⟨none, .kDisconnected, none, [], timers, []⟩ none
  | calling (sockfd : ℕ) : Mode ⟨some sockfd, .kDisconnected, none, [], [], []⟩ none
  | connecting (sockfd : ℕ) : Mode ⟨none, .kConnecting, some sockfd, [sockfd], [], []⟩ none
  /-- An attempt has failed or was stopped. -/
  | ended (sockfd : ℕ) (timers : List RetryTimer) : timers.length ≤ 1 →
      (∀ t ∈ timers, t.attempt = sockfd) →
      Mode ⟨none, .kDisconnected, some sockfd, [], timers, [sockfd]⟩ none
  /-- An attempt has succeeded. -/
  | established (sockfd : ℕ) (conn : Option ℕ) :
      Mode ⟨none, .kConnected, some sockfd, [], [], [sockfd]⟩ conn
  | connected (conn : Option ℕ) : Mode ⟨none, .kConnected, none, [], [], []⟩ conn

section Inversion

variable {sh : Shape} {conn : Option ℕ}

theorem Mode.of_connecting (h : Mode sh conn) (hstate : sh.state_ = .kConnecting) :
    ∃ sockfd, sh = ⟨none, .kConnecting, some sockfd, [sockfd], [], []⟩ ∧ conn = none := by
  cases h with
  | connecting sockfd => exact ⟨sockfd, rfl, rfl⟩
  | idle | calling | ended | established | connected => cases hstate

theorem Mode.of_registered (h : Mode sh conn) {sockfd : ℕ} (hreg : sockfd ∈ sh.registered) :
    sh = ⟨none, .kConnecting, some sockfd, [sockfd], [], []⟩ ∧ conn = none := by
  cases h with
  | connecting sockfd' =>
      obtain rfl := List.mem_singleton.mp hreg
      exact ⟨rfl, rfl⟩
  | idle | calling | ended | established | connected => exact absurd hreg List.not_mem_nil

theorem Mode.registered_le (h : Mode sh conn) : sh.registered.length ≤ 1 := by
  cases h with
  | connecting => exact le_rfl
  | idle | calling | ended | established | connected => exact Nat.zero_le 1

theorem Mode.of_calling (h : Mode sh conn) {sockfd : ℕ} (hcalling : sh.calling = some sockfd) :
    sh = ⟨some sockfd, .kDisconnected, none, [], [], []⟩ ∧ conn = none := by
  cases h with
  | calling sockfd' =>
      obtain rfl := Option.some.inj hcalling
      exact ⟨rfl, rfl⟩
  | idle | connecting | ended | established | connected => cases hcalling

/-- Nothing of an earlier attempt is left. -/
theorem Mode.of_clear (h : Mode sh conn) (hcalling : sh.calling = none)
    (hstate : sh.state_ = .kDisconnected) (htimers : sh.timers = []) (hresets : sh.resets = []) :
    sh = ⟨none, .kDisconnected, none, [], [], []⟩ ∧ conn = none := by
  cases h with
  | idle timers _ =>
      obtain rfl : timers = [] := htimers
      exact ⟨rfl, rfl⟩
  | calling => cases hcalling
  | connecting | established | connected => cases hstate
  | ended => cases hresets

theorem Mode.of_timer (h : Mode sh conn) {t : RetryTimer} (ht : t ∈ sh.timers) :
    sh.timers = [t] ∧ conn = none ∧ (sh = ⟨none, .kDisconnected, none, [], [t], []⟩ ∨
      sh = ⟨none, .kDisconnected, some t.attempt, [], [t], [t.attempt]⟩) := by
  have hone : ∀ {timers : List RetryTimer}, timers.length ≤ 1 → t ∈ timers → timers = [t] := by
    intro timers hlen hmem
    obtain ⟨u, rfl⟩ := List.length_eq_one_iff.mp
      (le_antisymm hlen (List.length_pos_of_mem hmem))
    rw [List.mem_singleton.mp hmem]
  cases h with
  | idle timers hlen =>
      obtain rfl := hone hlen ht
      exact ⟨rfl, rfl, Or.inl rfl⟩
  | ended sockfd timers hlen hattempt =>
      obtain rfl := hone hlen ht
      obtain rfl := hattempt t List.mem_cons_self
      exact ⟨rfl, rfl, Or.inr rfl⟩
  | calling | connecting | established | connected => exact absurd ht List.not_mem_nil

theorem Mode.of_connection {sockfd : ℕ} (h : Mode sh (some sockfd)) (hresets : sh.resets = []) :
    sh = ⟨none, .kConnected, none, [], [], []⟩ := by
  cases h with
  | established => cases hresets
  | connected => rfl

/-- The end of the connection does not concern the connector. -/
theorem Mode.drop (h : Mode sh conn) : Mode sh none := by
  cases h with
  | idle timers hlen => exact .idle timers hlen
  | calling sockfd => exact .calling sockfd
  | connecting sockfd => exact .connecting sockfd
  | ended sockfd timers hlen hattempt => exact .ended sockfd timers hlen hattempt
  | established sockfd conn => exact .established sockfd none
  | connected conn => exact .connected none

/-- `resetChannel` ends the attempt for good. -/
theorem Mode.reset (h : Mode sh conn) {sockfd : ℕ} {rest : List ℕ}
    (hresets : sh.resets = sockfd :: rest) :
    Mode { sh with channel_ := none, resets := rest } conn := by
  cases h with
  | ended sockfd' timers hlen _ =>
      obtain ⟨rfl, rfl⟩ := List.cons.inj hresets
      exact .idle timers hlen
  | established sockfd' conn =>
      obtain ⟨rfl, rfl⟩ := List.cons.inj hresets
      exact .connected conn
  | idle | calling | connecting | connected => cases hresets

end Inversion

/-! ### Books -/

/-- The socket of the attempt that is going on. -/
def Shape.current (sh : Shape) : Option ℕ := sh.calling.or sh.registered.head?

def current (k : Connector) : Option ℕ := k.shape.current

structure Books (k : Connector) : Prop where
  current_lt : ∀ sockfd, k.current = some sockfd → sockfd < k.created
  count : ∀ j, (k.closed ++ k.handed).count j = if j < k.created ∧ k.current ≠ some j then 1 else 0

section Books

variable {k k' : Connector}

theorem Books.congr (h : Books k) (hcurrent : k'.current = k.current)
    (hcreated : k'.created = k.created)
    (hclosed : k'.closed = k.closed) (hhanded : k'.handed = k.handed) : Books k' where
  current_lt := by rw [hcurrent, hcreated]; exact h.current_lt
  count := by rw [hcurrent, hcreated, hclosed, hhanded]; exact h.count

/-- A socket is created. -/
theorem Books.create (h : Books k) (hbefore : k.current = none)
    (hafter : k'.current = some k.created)
    (hcreated : k'.created = k.created + 1) (hclosed : k'.closed = k.closed)
    (hhanded : k'.handed = k.handed) : Books k' where
  current_lt := by
    rw [hafter, hcreated]
    rintro sockfd ⟨⟩
    exact Nat.lt_succ_self _
  count j := by
    rw [hclosed, hhanded, h.count, hbefore, hafter, hcreated]
    by_cases hj : j < k.created
    · have hne : k.created ≠ j := hj.ne'
      simp [hj, hne, hj.trans (Nat.lt_succ_self _)]
    · by_cases heq : k.created = j
      · simp [heq]
      · have hnot : ¬ j < k.created + 1 := by omega
        simp [hj, hnot]

/-- The current socket is closed or handed over. -/
theorem Books.dispose (h : Books k) {sockfd : ℕ} (hbefore : k.current = some sockfd)
    (hafter : k'.current = none) (hcreated : k'.created = k.created)
    (hlog : k'.closed = k.closed ++ [sockfd] ∧ k'.handed = k.handed ∨
      k'.closed = k.closed ∧ k'.handed = k.handed ++ [sockfd]) : Books k' where
  current_lt := by
    rw [hafter]
    intro _ hnone
    cases hnone
  count j := by
    have hlt := h.current_lt sockfd hbefore
    have hcount : (k'.closed ++ k'.handed).count j =
        (k.closed ++ k.handed).count j + [sockfd].count j := by
      rcases hlog with ⟨hclosed, hhanded⟩ | ⟨hclosed, hhanded⟩
      · rw [hclosed, hhanded, List.count_append, List.count_append, List.count_append]
        omega
      · rw [hclosed, hhanded, List.count_append, List.count_append, List.count_append]
        omega
    rw [hcount, List.count_singleton, h.count, hbefore, hafter, hcreated]
    by_cases heq : sockfd = j
    · subst heq
      simp [hlt]
    · simp [heq]

end Books

/-! ### The invariant -/

structure Inv (k : Connector) (conn : Option ℕ) : Prop where
  mode : Mode k.shape conn
  books : Books k
  faults : k.faults = []

section Functions

variable {k : Connector} {conn : Option ℕ} {sockfd : ℕ}

theorem inv_new : Inv new none where
  mode := .idle [] (by decide)
  books := ⟨fun _ hcurrent => by simp [current, shape, Shape.current, new] at hcurrent,
    fun j => by simp [new]⟩
  faults := rfl

theorem resetsOf_append (fs gs : List ClientFunctor) :
    resetsOf (fs ++ gs) = resetsOf fs ++ resetsOf gs :=
  List.filterMap_append

/-- Changes to `connect_` and the functors, other than `resetChannel`, do not matter. -/
theorem Inv.congr (h : Inv k conn) {k' : Connector} (hshape : k'.shape = k.shape)
    (hcreated : k'.created = k.created) (hclosed : k'.closed = k.closed)
    (hhanded : k'.handed = k.handed) (hfaults : k'.faults = k.faults) : Inv k' conn where
  mode := hshape ▸ h.mode
  books := h.books.congr (congrArg Shape.current hshape) hcreated hclosed hhanded
  faults := hfaults.trans h.faults

theorem queued_queueInloop (k : Connector) (f : ClientFunctor) :
    (k.queueInloop f).queued = k.queued ++ [f] :=
  (List.append_assoc ..).symm

theorem shape_queueInloop (k : Connector) {f : ClientFunctor} (hf : resetsOf [f] = []) :
    (k.queueInloop f).shape = k.shape := by
  simp only [shape, queued, queueInloop, resetsOf_append, hf, List.append_nil]

theorem inv_queueInloop (h : Inv k conn) {f : ClientFunctor} (hf : resetsOf [f] = []) :
    Inv (k.queueInloop f) conn := h.congr (shape_queueInloop k hf) rfl rfl rfl rfl

/-- The first functor of the batch is taken out. -/
theorem queued_pop {f : ClientFunctor} {rest : List ClientFunctor} (hb : k.batch = f :: rest) :
    k.queued = [f] ++ { k with batch := rest }.queued := by
  rw [queued, hb]
  rfl

theorem shape_pop {f : ClientFunctor} {rest : List ClientFunctor} (hb : k.batch = f :: rest)
    (hf : resetsOf [f] = []) : shape { k with batch := rest } = k.shape := by
  simp only [shape, queued_pop hb, resetsOf_append [f], hf, List.nil_append]

theorem inv_pop (h : Inv k conn) {f : ClientFunctor} {rest : List ClientFunctor}
    (hb : k.batch = f :: rest) (hf : resetsOf [f] = []) : Inv { k with batch := rest } conn :=
  h.congr (shape_pop hb hf) rfl rfl rfl rfl

/-- `doPendingFunctors` swaps out what is pending. -/
theorem queued_swap (hb : k.batch = []) :
    queued { k with batch := k.pending, pending := [] } = k.queued := by
  rw [queued, queued, hb]
  exact List.append_nil _

theorem shape_swap (hb : k.batch = []) :
    shape { k with batch := k.pending, pending := [] } = k.shape := by
  simp only [shape, queued_swap hb]

/-- The attempt begins when nothing is left of an earlier one. -/
theorem inv_startInLoop (h : Inv k none)
    (hshape : k.shape = ⟨none, .kDisconnected, none, [], [], []⟩) :
    Inv k.startInLoop none := by
  have hassert : k.assert (k.state_ == .kDisconnected) .notDisconnected = k := by
    rw [show k.state_ = .kDisconnected from congrArg Shape.state_ hshape]
    rfl
  unfold startInLoop
  rw [hassert]
  dsimp only
  split
  · have hafter : shape { k with calling := some k.created, created := k.created + 1 } =
        ⟨some k.created, .kDisconnected, none, [], [], []⟩ := by
      show Shape.mk _ k.shape.state_ k.shape.channel_ k.shape.registered k.shape.timers
        k.shape.resets = _
      rw [hshape]
    refine ⟨hafter ▸ .calling k.created, h.books.create ?_ ?_ rfl rfl rfl, h.faults⟩
    · rw [current, hshape]
      rfl
    · rw [current, hafter]
      rfl
  · exact h

/-! ### The end of an attempt -/

theorem shape_retry (k : Connector) (sockfd : ℕ) : ∃ timers : List RetryTimer, timers.length ≤ 1 ∧
    (∀ t ∈ timers, t.attempt = sockfd) ∧ (k.retry sockfd).shape =
      { k.shape with state_ := .kDisconnected, timers := k.shape.timers ++ timers } := by
  unfold retry
  dsimp only
  split
  · refine ⟨[⟨sockfd, k.retryDelayMs_⟩], le_rfl, ?_, rfl⟩
    intro t ht
    rw [List.mem_singleton.mp ht]
  · refine ⟨[], Nat.zero_le 1, fun _ ht => absurd ht List.not_mem_nil, ?_⟩
    rw [List.append_nil]
    rfl

theorem log_retry (k : Connector) (sockfd : ℕ) :
    (k.retry sockfd).created = k.created ∧ (k.retry sockfd).closed = k.closed ++ [sockfd] ∧
      (k.retry sockfd).handed = k.handed ∧ (k.retry sockfd).faults = k.faults := by
  unfold retry
  dsimp only
  split
  · exact ⟨rfl, rfl, rfl, rfl⟩
  · exact ⟨rfl, rfl, rfl, rfl⟩

/-- The current socket is closed by `retry`. -/
theorem inv_retry (h : Inv k conn) (hcurrent : k.current = some sockfd) {k' : Connector}
    (hcreated : k'.created = k.created) (hclosed : k'.closed = k.closed)
    (hhanded : k'.handed = k.handed) (hfaults : k'.faults = k.faults) (hafter : k'.current = none)
    (hmode : ∀ timers : List RetryTimer, timers.length ≤ 1 → (∀ t ∈ timers, t.attempt = sockfd) →
      Mode { k'.shape with state_ := .kDisconnected, timers := k'.shape.timers ++ timers } none) :
    Inv (k'.retry sockfd) none := by
  obtain ⟨timers, hlen, hattempt, hshape⟩ := shape_retry k' sockfd
  obtain ⟨hcreated', hclosed', hhanded', hfaults'⟩ := log_retry k' sockfd
  refine ⟨?_, h.books.dispose hcurrent ?_ (hcreated'.trans hcreated) (Or.inl ⟨?_, ?_⟩), ?_⟩
  · rw [hshape]
    exact hmode timers hlen hattempt
  · rw [current, hshape]
    exact hafter
  · rw [hclosed', hclosed]
  · rw [hhanded', hhanded]
  · rw [hfaults', hfaults, h.faults]

/-- The channel leaves the poller. -/
def detach (k : Connector) (sockfd : ℕ) : Connector :=
  { k with registered := k.registered.erase sockfd }.queueInloop (.resetChannel sockfd)

theorem removeAndResetChannel_eq (hchannel : k.channel_ = some sockfd) :
    k.removeAndResetChannel = (k.detach sockfd, some sockfd) := by
  unfold removeAndResetChannel
  split
  · rename_i hnone
    rw [hchannel] at hnone
    cases hnone
  · rename_i sockfd' hsome
    obtain rfl : sockfd = sockfd' := Option.some.inj (hchannel.symm.trans hsome)
    rfl

theorem shape_detach (hshape : k.shape = ⟨none, .kConnecting, some sockfd, [sockfd], [], []⟩) :
    (k.detach sockfd).shape = ⟨none, .kConnecting, some sockfd, [], [], [sockfd]⟩ := by
  obtain ⟨hcalling, hstate, hchannel, hreg, htimers, hresets⟩ := Shape.mk.inj hshape
  have hqueued : (k.detach sockfd).queued = k.queued ++ [.resetChannel sockfd] :=
    queued_queueInloop _ _
  have hresets' : resetsOf (k.detach sockfd).queued = [sockfd] := by
    rw [hqueued, resetsOf_append, hresets]
    rfl
  show Shape.mk k.calling k.state_ k.channel_ (k.registered.erase sockfd) k.timers
    (resetsOf (k.detach sockfd).queued) = _
  rw [hcalling, hstate, hchannel, hreg, htimers, hresets', List.erase_cons_head]

theorem inv_endAttempt (h : Inv k none)
    (hshape : k.shape = ⟨none, .kConnecting, some sockfd, [sockfd], [], []⟩) :
    Inv ((k.detach sockfd).retry sockfd) none := by
  have hdetach := shape_detach hshape
  refine inv_retry h ?_ rfl rfl rfl rfl ?_ ?_
  · rw [current, hshape]
    rfl
  · rw [current, hdetach]
    rfl
  · intro timers hlen hattempt
    rw [hdetach]
    exact .ended sockfd timers hlen hattempt

theorem inv_stopInLoop (h : Inv k conn) : Inv k.stopInLoop conn := by
  unfold stopInLoop
  split
  · rename_i hstate
    obtain ⟨sockfd, hshape, rfl⟩ := h.mode.of_connecting hstate
    rw [removeAndResetChannel_eq (k := k.setState .kDisconnected) (congrArg Shape.channel_ hshape)]
    -- `retry` sets the state again
    have hsame : ((k.setState .kDisconnected).detach sockfd).retry sockfd =
      (k.detach sockfd).retry sockfd := rfl
    dsimp only
    rw [hsame]
    exact inv_endAttempt h hshape
  · exact h

theorem inv_handleError (h : Inv k none)
    (hshape : k.shape = ⟨none, .kConnecting, some sockfd, [sockfd], [], []⟩) :
    Inv k.handleError none ∧ k.handleError.state_ = .kDisconnected := by
  have hstate : k.state_ = .kConnecting := congrArg Shape.state_ hshape
  unfold handleError
  rw [if_pos hstate, removeAndResetChannel_eq (congrArg Shape.channel_ hshape)]
  refine ⟨inv_endAttempt h hshape, ?_⟩
  obtain ⟨timers, -, -, hretry⟩ := shape_retry (k.detach sockfd) sockfd
  exact congrArg Shape.state_ hretry

/-- After `handleError` in the same dispatch there is nothing to do. -/
theorem handleWrite_of_disconnected (hstate : k.state_ = .kDisconnected) (err : ℕ)
    (selfConnect : Bool) :
    k.handleWrite err selfConnect = (k, none) := by
  unfold handleWrite
  rw [if_neg (by rw [hstate]; decide), hstate]
  rfl

theorem inv_handleWrite (h : Inv k none)
    (hshape : k.shape = ⟨none, .kConnecting, some sockfd, [sockfd], [], []⟩) (err : ℕ)
    (selfConnect : Bool) :
    Inv (k.handleWrite err selfConnect).1 (k.handleWrite err selfConnect).2 := by
  have hdetach := shape_detach hshape
  have hcurrent : k.current = some sockfd := by
    rw [current, hshape]
    rfl
  have hstate : k.state_ = .kConnecting := congrArg Shape.state_ hshape
  unfold handleWrite
  rw [if_pos hstate, removeAndResetChannel_eq (congrArg Shape.channel_ hshape)]
  dsimp only
  split
  · exact inv_endAttempt h hshape
  · split
    · exact inv_endAttempt h hshape
    · have hconnected : ((k.detach sockfd).setState .kConnected).shape =
          ⟨none, .kConnected, some sockfd, [], [], [sockfd]⟩ := by
        show { (k.detach sockfd).shape with state_ := States.kConnected } = _
        rw [hdetach]
      have hafter : ((k.detach sockfd).setState .kConnected).current = none := by
        rw [current, hconnected]
        rfl
      split
      · exact ⟨hconnected ▸ .established sockfd (some sockfd),
          h.books.dispose hcurrent hafter rfl (Or.inr ⟨rfl, rfl⟩), h.faults⟩
      · exact ⟨hconnected ▸ .established sockfd none,
          h.books.dispose hcurrent hafter rfl (Or.inl ⟨rfl, rfl⟩), h.faults⟩

/-- Only the socket of the channel is handed over. -/
theorem handleWrite_handed (hchannel : k.channel_ = some sockfd) {err : ℕ} {selfConnect : Bool}
    {s : ℕ} (hs : (k.handleWrite err selfConnect).2 = some s) :
    s = sockfd ∧ s ∈ (k.handleWrite err selfConnect).1.handed := by
  unfold handleWrite at hs ⊢
  split at hs
  · rename_i hstate
    rw [if_pos hstate]
    rw [removeAndResetChannel_eq hchannel] at hs ⊢
    dsimp only at hs ⊢
    split at hs
    · cases hs
    · rename_i herr
      rw [if_neg herr]
      split at hs
      · cases hs
      · rename_i hself
        rw [if_neg hself]
        split at hs
        · rename_i hconnect
          rw [if_pos hconnect]
          obtain rfl := Option.some.inj hs
          exact ⟨rfl, List.mem_append_right _ List.mem_cons_self⟩
        · cases hs
  · cases hs

theorem inv_connecting (h : Inv k none)
    (hshape : k.shape = ⟨some sockfd, .kDisconnected, none, [], [], []⟩) :
    Inv ({ k with calling := none }.connecting sockfd) none := by
  obtain ⟨-, -, hchannel, hreg, htimers, hresets⟩ := Shape.mk.inj hshape
  have heq : { k with calling := none }.connecting sockfd = { k with
      calling := none
      state_ := .kConnecting
      channel_ := some sockfd
      registered := k.registered ++ [sockfd] } := by
    simp [connecting, setState, assert, hchannel]
  have hafter : ({ k with calling := none }.connecting sockfd).shape =
      ⟨none, .kConnecting, some sockfd, [sockfd], [], []⟩ := by
    rw [heq]
    show Shape.mk none .kConnecting (some sockfd) (k.registered ++ [sockfd]) k.timers
      (resetsOf k.queued) = _
    rw [hreg, htimers, hresets, List.nil_append]
  refine ⟨hafter ▸ .connecting sockfd, h.books.congr ?_ ?_ ?_ ?_, ?_⟩
  · rw [current, hafter, current, hshape]
    rfl
  · rw [heq]
  · rw [heq]
  · rw [heq]
  · rw [heq]
    exact h.faults

/-- `connect(2)` returns. -/
theorem inv_connectReturns (h : Inv k conn) (savedErrno : Errno) :
    Inv (k.connectReturns savedErrno) conn := by
  unfold connectReturns
  split
  · exact h
  · rename_i sockfd hcalling
    obtain ⟨hshape, rfl⟩ := h.mode.of_calling hcalling
    have hcurrent : k.current = some sockfd := by
      rw [current, hshape]
      rfl
    have hreturned :
        shape { k with calling := none } = ⟨none, .kDisconnected, none, [], [], []⟩ := by
      show { k.shape with calling := none } = _
      rw [hshape]
    have hafter : current { k with calling := none } = none := by
      rw [current, hreturned]
      rfl
    have hconnecting : Inv ({ k with calling := none }.connecting sockfd) none :=
      inv_connecting h hshape
    have hretry : Inv ({ k with calling := none }.retry sockfd) none := by
      refine inv_retry h hcurrent rfl rfl rfl rfl hafter ?_
      intro timers hlen _
      rw [hreturned]
      exact .idle timers hlen
    have hclose : Inv ({ k with calling := none }.close sockfd) none :=
      ⟨hreturned ▸ .idle [] (Nat.zero_le 1), h.books.dispose hcurrent hafter rfl
        (Or.inl ⟨rfl, rfl⟩), h.faults⟩
    cases savedErrno with
    | success | EINPROGRESS | EINTR | EISCONN => exact hconnecting
    | EAGAIN | EADDRINUSE | EADDRNOTAVAIL | ECONNREFUSED | ENETUNREACH => exact hretry
    | EACCES | EPERM | EAFNOSUPPORT | EALREADY | EBADF | EFAULT | ENOTSOCK | other => exact hclose

/-! ### Between the attempts -/

theorem inv_resetChannel (h : Inv k conn) {rest : List ClientFunctor}
    (hb : k.batch = .resetChannel sockfd :: rest) :
    Inv ({ k with batch := rest }.resetChannel) conn := by
  have hresets : k.shape.resets = sockfd :: resetsOf { k with batch := rest }.queued := by
    show resetsOf k.queued = _
    rw [queued_pop hb, resetsOf_append]
    rfl
  exact ⟨h.mode.reset hresets, h.books.congr rfl rfl rfl rfl, h.faults⟩

theorem inv_restart {sockfd : ℕ} (h : Inv k (some sockfd)) (hresets : k.shape.resets = []) :
    Inv k.restart none := by
  have hshape := h.mode.of_connection hresets
  set k₁ : Connector := { k with
    state_ := .kDisconnected, retryDelayMs_ := kInitRetryDelayMs, connect_ := true } with hk₁
  have hshape₁ : k₁.shape = ⟨none, .kDisconnected, none, [], [], []⟩ := by
    show { k.shape with state_ := States.kDisconnected } = _
    rw [hshape]
  have hinv : Inv k₁ none :=
    ⟨hshape₁ ▸ .idle [] (Nat.zero_le 1), h.books.congr rfl rfl rfl rfl, h.faults⟩
  exact inv_startInLoop hinv hshape₁

end Functions

end Connector

end Muduo.Net
