import Muduo.Lib.Descriptors
import Muduo.Lib.Runs

/-!
# `muduo::net::Acceptor`

The acceptor in its process: the descriptors, the connections that wait to be accepted, and other
code (other threads, and the connections that have been handed over) that opens and closes
descriptors between any two system calls of `handleRead`.

* `File` — what a descriptor refers to, and by that who may close it: `null` is the descriptor that
  the acceptor holds in reserve, `held` a connection that it is about to close itself, `conn` one
  that has been handed over;
* `AcceptorPhase`, `AcceptorLabel`, `step` — `handleRead`, one system call at a time;
* `Inv`, `inv_step` — who owns which descriptor, and where every connection is;
* `descriptors_accounted` — the acceptor loses no descriptor and closes none that is not its own;
* `handleRead_takes_iff` — when `handleRead` gets a connection out of the backlog.

`withdraw` is a client that gives up while it waits.  `::open` and `::accept` may fail for reasons
of the environment.  What `handleRead` logs is left out, but not that logging may change `errno`.
-/

namespace Muduo.Net

open Muduo.Lib

/-- The errors that `sockets::accept` tells apart. -/
inductive AcceptErrno where
  | EAGAIN
  | ECONNABORTED
  | EINTR
  | EPROTO
  | EPERM
  | EMFILE
  | EBADF
  | EFAULT
  | EINVAL
  | ENFILE
  | ENOBUFS
  | ENOMEM
  | ENOTSOCK
  | EOPNOTSUPP
  | unknown (n : ℕ)
  deriving DecidableEq

/-- The errors after which `sockets::accept` returns; after the others it ends the program. -/
def AcceptErrno.expected : AcceptErrno → Bool
  | .EAGAIN | .ECONNABORTED | .EINTR | .EPROTO | .EPERM | .EMFILE => true
  | _ => false

inductive File where
  | null
  | held (c : ℕ)
  | conn (c : ℕ)
  | other
  deriving DecidableEq

inductive AcceptorPhase where
  /-- In the event loop. -/
  | rest
  /-- Before `acceptSocket_.accept`. -/
  | accepting
  /-- Before `sockets::close(connfd)`, without a callback. -/
  | refusing (connfd : ℕ)
  /-- Before the test of `errno`. -/
  | failed (errno : AcceptErrno)
  /-- Before the first `::close(idleFd_)`. -/
  | closing
  /-- Before `idleFd_ = ::accept(…)`. -/
  | shedding
  /-- Before the second `::close(idleFd_)`. -/
  | dropping
  /-- Before `idleFd_ = ::open(…)`. -/
  | reopening
  deriving DecidableEq

structure Acceptor where
  table : Descriptors File
  /-- The connections that wait to be accepted, by the number of their arrival. -/
  backlog : List ℕ
  /-- `-1` is `none`. -/
  idleFd_ : Option ℕ
  newConnectionCallback_ : Bool
  phase : AcceptorPhase
  arrived : ℕ
  /-- The connections given to the callback. -/
  handed : List ℕ
  /-- The connections accepted and closed. -/
  closed : List ℕ
  withdrawn : List ℕ
  /-- An assertion has failed, or `sockets::accept` has met an error that it does not expect. -/
  ended : Bool
  /-- The acceptor has closed a descriptor that is not its own. -/
  wrong : Bool

inductive AcceptorLabel where
  | arrive
  | withdraw (i : ℕ)
  | openOther
  | closeOther (n : ℕ)
  /-- The loop calls `handleRead`. -/
  | ready
  /-- `handleRead` goes on; `env` is an error of the system call, or what `errno` is after the
  logging. -/
  | go (env : Option AcceptErrno)

namespace Acceptor

/-- The descriptors of a process that uses those with `used`. -/
def processTable (limit : ℕ) (used : ℕ → Bool) : Descriptors File :=
  ⟨limit, fun n => if used n then some .other else none⟩

/-- The constructor. -/
def new (limit : ℕ) (used : ℕ → Bool) (newConnectionCallback : Bool) : Acceptor where
  table :=
    match (processTable limit used).lowest with
    | some n => (processTable limit used).set n (some .null)
    | none => processTable limit used
  backlog := []
  idleFd_ := (processTable limit used).lowest
  newConnectionCallback_ := newConnectionCallback
  phase := .rest
  arrived := 0
  handed := []
  closed := []
  withdrawn := []
  ended := (processTable limit used).lowest.isNone
  wrong := false

/-- `accept(2)`: the new file is `tag c`. -/
def accept (s : Acceptor) (env : Option AcceptErrno) (tag : ℕ → File) :
    AcceptErrno ⊕ (ℕ × ℕ) × Acceptor :=
  match env, s.table.lowest, s.backlog with
  | some errno, _, _ => .inl errno
  | none, none, _ => .inl .EMFILE
  | none, some _, [] => .inl .EAGAIN
  | none, some n, c :: backlog =>
      .inr ((n, c), { s with table := s.table.set n (some (tag c)), backlog := backlog })

/-- `close(2)` by the acceptor. -/
def close (s : Acceptor) : Option ℕ → Acceptor
  | none => s
  | some n =>
      match s.table.file n with
      | some .null | some (.held _) => { s with table := s.table.set n none }
      | some (.conn _) | some .other => { s with table := s.table.set n none, wrong := true }
      | none => { s with wrong := true }

/-- `open("/dev/null")`. -/
def reopen (s : Acceptor) (env : Option AcceptErrno) : Acceptor :=
  match env, s.table.lowest with
  | none, some n => { s with table := s.table.set n (some .null), idleFd_ := some n }
  | _, _ => { s with idleFd_ := none }

/-- `handleRead`, up to and including the next system call. -/
def handleRead (s : Acceptor) (env : Option AcceptErrno) : Acceptor :=
  match s.phase with
  | .rest => s
  | .accepting =>
      match s.accept env (if s.newConnectionCallback_ then .conn else .held) with
      | .inl errno =>
          if errno.expected then { s with phase := .failed errno } else { s with ended := true }
      | .inr ((n, c), s') =>
          if s.newConnectionCallback_ then { s' with phase := .rest, handed := s'.handed ++ [c] }
          else { s' with phase := .refusing n, closed := s'.closed ++ [c] }
  | .refusing n => { s.close (some n) with phase := .rest }
  | .failed errno => { s with phase := if env.getD errno = .EMFILE then .closing else .rest }
  | .closing => { s.close s.idleFd_ with phase := .shedding }
  | .shedding =>
      match s.accept env .held with
      | .inl _ => { s with phase := .dropping, idleFd_ := none }
      | .inr ((n, c), s') =>
          { s' with phase := .dropping, idleFd_ := some n, closed := s'.closed ++ [c] }
  | .dropping => { s.close s.idleFd_ with phase := .reopening }
  | .reopening => { s.reopen env with phase := .rest }

def step (s : Acceptor) (l : AcceptorLabel) : Acceptor :=
  if s.ended then s
  else
    match l with
    | .arrive => { s with backlog := s.backlog ++ [s.arrived], arrived := s.arrived + 1 }
    | .withdraw i =>
        { s with backlog := s.backlog.eraseIdx i, withdrawn := s.withdrawn ++ s.backlog[i]?.toList }
    | .openOther =>
        match s.table.lowest with
        | some n => { s with table := s.table.set n (some .other) }
        | none => s
    | .closeOther n =>
        match s.table.file n with
        | some .other | some (.conn _) => { s with table := s.table.set n none }
        | _ => s
    | .ready => if s.phase = .rest then { s with phase := .accepting } else s
    | .go env => s.handleRead env

/-! ### Who owns which descriptor -/

/-- The two kinds of files that the acceptor owns. -/
inductive OwnKind where
  | reserve
  | held
  deriving DecidableEq

def File.kind : Option File → Option OwnKind
  | some .null => some .reserve
  | some (.held _) => some .held
  | some (.conn _) | some .other | none => none

/-- What the acceptor owns under a descriptor, by its phase and `idleFd_`. -/
def AcceptorPhase.own (p : AcceptorPhase) (idleFd : Option ℕ) (n : ℕ) : Option OwnKind :=
  match p with
  | .rest | .accepting | .failed _ | .closing => if idleFd = some n then some .reserve else none
  | .refusing connfd =>
      if n = connfd then some .held else if idleFd = some n then some .reserve else none
  | .dropping => if idleFd = some n then some .held else none
  | .shedding | .reopening => none

structure Inv (s : Acceptor) : Prop where
  own : ∀ n, File.kind (s.table.file n) = AcceptorPhase.own s.phase s.idleFd_ n
  apart : ∀ n, s.phase = .refusing n → s.idleFd_ ≠ some n
  conn : ∀ n c, s.table.file n = some (.conn c) → c ∈ s.handed
  bound : ∀ n, s.idleFd_ = some n → n < s.table.limit
  accounted : (s.handed ++ s.closed ++ s.withdrawn ++ s.backlog).Perm (List.range s.arrived)
  right : s.wrong = false

theorem kind_set (d : Descriptors File) (n k : ℕ) (f : Option File) :
    File.kind ((d.set n f).file k) = if k = n then File.kind f else File.kind (d.file k) := by
  split
  · rename_i h
    rw [h, Descriptors.set_file_self]
  · rename_i h
    rw [Descriptors.set_file_of_ne d h]

theorem kind_processTable (limit : ℕ) (used : ℕ → Bool) (n : ℕ) :
    File.kind ((processTable limit used).file n) = none := by
  simp only [processTable]
  split <;> rfl

theorem file_processTable {limit : ℕ} {used : ℕ → Bool} {n : ℕ} {x : File}
    (h : (processTable limit used).file n = some x) : x = .other := by
  simp only [processTable] at h
  split at h
  · exact (Option.some.inj h).symm
  · cases h

theorem inv_new (limit : ℕ) (used : ℕ → Bool) (cb : Bool) : Inv (new limit used cb) := by
  cases hlowest : (processTable limit used).lowest with
  | none =>
      refine ⟨fun n => ?_, fun n h => (by cases h), fun n c h => ?_, fun n h => ?_,
        List.Perm.refl _, rfl⟩
      · simp only [new, hlowest, AcceptorPhase.own, kind_processTable]
        rfl
      · simp only [new, hlowest] at h
        cases file_processTable h
      · simp only [new, hlowest] at h
        cases h
  | some k =>
      refine ⟨fun n => ?_, fun n h => (by cases h), fun n c h => ?_, fun n h => ?_,
        List.Perm.refl _, rfl⟩
      · simp only [new, hlowest, AcceptorPhase.own, kind_set, kind_processTable, Option.some.injEq,
          eq_comm (a := k)]
        rfl
      · simp only [new, hlowest] at h
        rcases Descriptors.set_file_eq_some h with ⟨-, hx⟩ | ⟨-, hx⟩
        · cases hx
        · cases file_processTable hx
      · simp only [new, hlowest, Descriptors.set_limit] at h ⊢
        rw [← Option.some.inj h]
        exact (Descriptors.file_lowest hlowest).1

variable {s : Acceptor}

/-- What a successful `accept(2)` has done. -/
theorem accept_inr {env : Option AcceptErrno} {tag : ℕ → File} {n c : ℕ} {s' : Acceptor}
    (h : s.accept env tag = .inr ((n, c), s')) :
    s.table.lowest = some n ∧ ∃ backlog, s.backlog = c :: backlog ∧
      s' = { s with table := s.table.set n (some (tag c)), backlog := backlog } := by
  unfold accept at h
  split at h
  · cases h
  · cases h
  · cases h
  · rename_i hlowest hbacklog
    simp only [Sum.inr.injEq, Prod.mk.injEq] at h
    obtain ⟨⟨rfl, rfl⟩, rfl⟩ := h
    exact ⟨hlowest, _, hbacklog, rfl⟩

/-- A connection goes from the backlog to another list. -/
theorem perm_handed {handed closed withdrawn backlog all : List ℕ} {c : ℕ}
    (h : (handed ++ closed ++ withdrawn ++ c :: backlog).Perm all) :
    (handed ++ [c] ++ closed ++ withdrawn ++ backlog).Perm all := by
  refine List.Perm.trans ?_ h
  rw [List.perm_iff_count]
  intro a
  simp only [List.count_append, List.count_cons, List.count_nil]
  omega

theorem perm_closed {handed closed withdrawn backlog all : List ℕ} {c : ℕ}
    (h : (handed ++ closed ++ withdrawn ++ c :: backlog).Perm all) :
    (handed ++ (closed ++ [c]) ++ withdrawn ++ backlog).Perm all := by
  refine List.Perm.trans ?_ h
  rw [List.perm_iff_count]
  intro a
  simp only [List.count_append, List.count_cons, List.count_nil]
  omega

theorem perm_withdrawn {handed closed withdrawn backlog all : List ℕ} (i : ℕ)
    (h : (handed ++ closed ++ withdrawn ++ backlog).Perm all) :
    (handed ++ closed ++ (withdrawn ++ backlog[i]?.toList) ++ backlog.eraseIdx i).Perm all := by
  refine List.Perm.trans ?_ h
  have hsplit : (backlog[i]?.toList ++ backlog.eraseIdx i).Perm backlog := by
    by_cases hi : i < backlog.length
    · rw [List.getElem?_eq_getElem hi]
      exact List.getElem_cons_eraseIdx_perm hi
    · rw [List.getElem?_eq_none (by omega), List.eraseIdx_of_length_le (by omega)]
      exact List.Perm.refl _
  simpa only [List.append_assoc] using (hsplit.append_left withdrawn).append_left (handed ++ closed)

/-- A descriptor of other code is opened or closed. -/
theorem Inv.other (h : Inv s) {n : ℕ} {f : Option File} (hf : f = none ∨ f = some .other)
    (hn : File.kind (s.table.file n) = none) : Inv { s with table := s.table.set n f } := by
  have hkind : File.kind f = none := by rcases hf with rfl | rfl <;> rfl
  refine ⟨fun k => ?_, h.apart, fun k c hk => ?_, h.bound, h.accounted, h.right⟩
  · show File.kind ((s.table.set n f).file k) = AcceptorPhase.own s.phase s.idleFd_ k
    rw [kind_set, ← h.own k]
    split
    · rename_i hkn
      rw [hkind, hkn, hn]
    · rfl
  · rcases Descriptors.set_file_eq_some hk with ⟨-, hx⟩ | ⟨-, hx⟩
    · rcases hf with rfl | rfl <;> cases hx
    · exact h.conn k c hx

/-- The phase changes, and with it nothing that the acceptor owns. -/
theorem Inv.plain (h : Inv s) {p : AcceptorPhase}
    (hp : ∀ n, AcceptorPhase.own p s.idleFd_ n = AcceptorPhase.own s.phase s.idleFd_ n)
    (hr : ∀ n, p ≠ .refusing n) : Inv { s with phase := p } :=
  ⟨fun n => by rw [h.own n, ← hp n], fun n hn => absurd hn (hr n), h.conn, h.bound,
    h.accounted, h.right⟩

/-- The end of the program changes nothing else. -/
theorem Inv.ended (h : Inv s) : Inv { s with ended := true } :=
  ⟨h.own, h.apart, h.conn, h.bound, h.accounted, h.right⟩

/-- A descriptor that is free is not the one in reserve. -/
theorem Inv.idle_ne_of_free (h : Inv s) (hs : s.phase = .accepting) {n : ℕ}
    (hfree : s.table.file n = none) :
    s.idleFd_ ≠ some n := by
  intro hidle
  have hown := h.own n
  rw [hfree, hs, AcceptorPhase.own, if_pos hidle] at hown
  cases hown

/-- A connection is accepted and handed over. -/
theorem Inv.hand (h : Inv s) (hs : s.phase = .accepting) {n c : ℕ} {backlog : List ℕ}
    (hlowest : s.table.lowest = some n) (hbacklog : s.backlog = c :: backlog) :
    Inv { s with
      table := s.table.set n (some (.conn c)), backlog := backlog, phase := .rest
      handed := s.handed ++ [c] } := by
  have hfree := (Descriptors.file_lowest hlowest).2
  have hidle := h.idle_ne_of_free hs hfree
  have haccounted := h.accounted
  rw [hbacklog] at haccounted
  refine ⟨fun k => ?_, fun k hk => (by cases hk), fun k d hk => ?_, h.bound, perm_handed haccounted,
    h.right⟩
  · show File.kind ((s.table.set n (some (.conn c))).file k) = AcceptorPhase.own .rest s.idleFd_ k
    rw [kind_set]
    split
    · rename_i hkn
      rw [hkn, AcceptorPhase.own, if_neg hidle]
      rfl
    · rw [h.own k, hs]
      rfl
  · rcases Descriptors.set_file_eq_some hk with ⟨-, hx⟩ | ⟨-, hx⟩
    · cases hx
      exact List.mem_append_right _ List.mem_cons_self
    · exact List.mem_append_left _ (h.conn k d hx)

/-- A connection is accepted that the acceptor closes again. -/
theorem Inv.hold (h : Inv s) {n c : ℕ} {backlog : List ℕ} (hlowest : s.table.lowest = some n)
    (hbacklog : s.backlog = c :: backlog) {p : AcceptorPhase} {idleFd : Option ℕ}
    (hp : ∀ k, AcceptorPhase.own p idleFd k =
      if k = n then some .held else AcceptorPhase.own s.phase s.idleFd_ k)
    (hidle : idleFd = s.idleFd_ ∨ idleFd = some n) (hr : ∀ k, p = .refusing k → idleFd ≠ some k) :
    Inv { s with
      table := s.table.set n (some (.held c)), backlog := backlog, phase := p, idleFd_ := idleFd
      closed := s.closed ++ [c] } := by
  have haccounted := h.accounted
  rw [hbacklog] at haccounted
  refine ⟨fun k => ?_, hr, fun k d hk => ?_, fun k hk => ?_, perm_closed haccounted, h.right⟩
  · show File.kind ((s.table.set n (some (.held c))).file k) = AcceptorPhase.own p idleFd k
    rw [kind_set, hp k, h.own k]
    rfl
  · rcases Descriptors.set_file_eq_some hk with ⟨-, hx⟩ | ⟨-, hx⟩
    · cases hx
    · exact h.conn k d hx
  · replace hk : idleFd = some k := hk
    rcases hidle with rfl | rfl
    · exact h.bound k hk
    · rw [← Option.some.inj hk]
      exact (Descriptors.file_lowest hlowest).1

/-- The acceptor closes a descriptor that it owns. -/
theorem close_own {n : ℕ} {x : OwnKind} (hx : File.kind (s.table.file n) = some x) :
    s.close (some n) = { s with table := s.table.set n none } := by
  cases hfile : s.table.file n with
  | none => simp [hfile, File.kind] at hx
  | some f =>
      cases f with
      | null | held c => simp only [close, hfile]
      | conn c | other => simp [hfile, File.kind] at hx

/-- The acceptor closes what it owns, and does not own it any more. -/
theorem Inv.close (h : Inv s) {n : ℕ} {x : OwnKind}
    (hx : AcceptorPhase.own s.phase s.idleFd_ n = some x) {p : AcceptorPhase}
    (hp : ∀ k, AcceptorPhase.own p s.idleFd_ k =
      if k = n then none else AcceptorPhase.own s.phase s.idleFd_ k)
    (hr : ∀ k, p ≠ .refusing k) : Inv { s.close (some n) with phase := p } := by
  rw [close_own (by rw [h.own n, hx])]
  refine ⟨fun k => ?_, fun k hk => absurd hk (hr k), fun k d hk => ?_, h.bound,
    h.accounted, h.right⟩
  · show File.kind ((s.table.set n none).file k) = AcceptorPhase.own p s.idleFd_ k
    rw [kind_set, hp k, h.own k]
    rfl
  · rcases Descriptors.set_file_eq_some hk with ⟨-, hx⟩ | ⟨-, hx⟩
    · cases hx
    · exact h.conn k d hx

/-- `::close(idleFd_)`, where `idleFd_` is all that the acceptor owns. -/
theorem Inv.closeIdle (h : Inv s) {x : OwnKind}
    (hs : ∀ k, AcceptorPhase.own s.phase s.idleFd_ k = if s.idleFd_ = some k then some x else none)
    {p : AcceptorPhase} (hp : ∀ k, AcceptorPhase.own p s.idleFd_ k = none)
    (hr : ∀ k, p ≠ .refusing k) :
    Inv { s.close s.idleFd_ with phase := p } := by
  cases hidle : s.idleFd_ with
  | none =>
      refine h.plain (fun k => ?_) hr
      rw [hp k, hs k, hidle, if_neg (by simp)]
  | some n =>
      refine h.close (by rw [hs n, if_pos hidle]) (fun k => ?_) hr
      rw [hp k, hs k, hidle]
      split
      · rfl
      · rename_i hk
        rw [if_neg (by simpa using Ne.symm hk)]

/-- The descriptor in reserve is opened again. -/
theorem Inv.reopen (h : Inv s) (hs : s.phase = .reopening) (env : Option AcceptErrno) :
    Inv { s.reopen env with phase := .rest } := by
  have hnothing : ∀ k, File.kind (s.table.file k) = none := by
    intro k
    rw [h.own k, hs]
    rfl
  unfold Acceptor.reopen
  split
  · rename_i n hlowest
    refine ⟨fun k => ?_, fun k hk => (by cases hk), fun k d hk => ?_, fun k hk => ?_,
      h.accounted, h.right⟩
    · show File.kind ((s.table.set n (some .null)).file k) = AcceptorPhase.own .rest (some n) k
      rw [kind_set, hnothing k, AcceptorPhase.own]
      simp only [Option.some.injEq, eq_comm (a := n)]
      rfl
    · rcases Descriptors.set_file_eq_some hk with ⟨-, hx⟩ | ⟨-, hx⟩
      · cases hx
      · exact h.conn k d hx
    · rw [← Option.some.inj hk]
      exact (Descriptors.file_lowest hlowest).1
  · refine ⟨fun k => ?_, fun k hk => (by cases hk), h.conn, fun k hk => (by cases hk),
      h.accounted, h.right⟩
    rw [hnothing k]
    rfl

/-- `acceptSocket_.accept`, and what follows up to the next system call. -/
theorem Inv.accepting (h : Inv s) (hs : s.phase = .accepting) (env : Option AcceptErrno) :
    Inv (s.handleRead env) := by
  simp only [handleRead, hs]
  split
  · split
    · exact h.plain (fun k => by rw [hs]; rfl) (by simp)
    · simpa only [hs] using h.ended
  · rename_i n c s' haccept
    obtain ⟨hlowest, backlog, hbacklog, rfl⟩ := accept_inr haccept
    have hidle := h.idle_ne_of_free hs (Descriptors.file_lowest hlowest).2
    cases hcb : s.newConnectionCallback_ with
    | true =>
        simpa [hcb] using h.hand hs hlowest hbacklog
    | false =>
        have hhold := h.hold hlowest hbacklog (p := .refusing n) (fun k => by rw [hs]; rfl)
          (Or.inl rfl) (fun k hk => by cases hk; exact hidle)
        simpa [hcb] using hhold

theorem inv_handleRead (h : Inv s) (env : Option AcceptErrno) : Inv (s.handleRead env) := by
  cases hs : s.phase with
  | rest =>
      simp only [handleRead, hs]
      exact h
  | accepting => exact h.accepting hs env
  | refusing n =>
      simp only [handleRead, hs]
      refine h.close (by rw [hs]; exact if_pos rfl) (fun k => ?_) (by simp)
      rw [hs]
      by_cases hk : k = n
      · rw [if_pos hk, hk]
        exact if_neg (h.apart n hs)
      · rw [if_neg hk]
        exact (if_neg hk).symm
  | failed errno =>
      simp only [handleRead, hs]
      refine h.plain (fun k => ?_) (fun k => ?_)
      · rw [hs]
        split <;> rfl
      · split <;> simp
  | closing =>
      simp only [handleRead, hs]
      exact h.closeIdle (fun k => by rw [hs]; rfl) (fun k => rfl) (by simp)
  | shedding =>
      simp only [handleRead, hs]
      split
      · refine ⟨fun k => ?_, fun k hk => (by cases hk), h.conn, fun k hk => ?_,
          h.accounted, h.right⟩
        · show File.kind (s.table.file k) = none
          rw [h.own k, hs]
          rfl
        · cases hk
      · rename_i n c s' haccept
        obtain ⟨hlowest, backlog, hbacklog, rfl⟩ := accept_inr haccept
        refine h.hold hlowest hbacklog (fun k => ?_) (Or.inr rfl) (by simp)
        rw [hs]
        simp only [AcceptorPhase.own, Option.some.injEq, eq_comm (a := n)]
  | dropping =>
      simp only [handleRead, hs]
      exact h.closeIdle (fun k => by rw [hs]; rfl) (fun k => rfl) (by simp)
  | reopening =>
      simp only [handleRead, hs]
      exact h.reopen hs env

theorem inv_step (h : Inv s) (l : AcceptorLabel) : Inv (s.step l) := by
  unfold step
  split
  · exact h
  cases l with
  | arrive =>
      refine ⟨h.own, h.apart, h.conn, h.bound, ?_, h.right⟩
      show (s.handed ++ s.closed ++ s.withdrawn ++ (s.backlog ++ [s.arrived])).Perm
        (List.range (s.arrived + 1))
      rw [← List.append_assoc, List.range_succ]
      exact h.accounted.append_right _
  | withdraw i => exact ⟨h.own, h.apart, h.conn, h.bound, perm_withdrawn i h.accounted, h.right⟩
  | openOther =>
      dsimp only
      split
      · rename_i n hlowest
        exact h.other (Or.inr rfl) (by rw [(Descriptors.file_lowest hlowest).2]; rfl)
      · exact h
  | closeOther n =>
      dsimp only
      split
      · rename_i hfile
        exact h.other (Or.inl rfl) (by rw [hfile]; rfl)
      · rename_i hfile
        exact h.other (Or.inl rfl) (by rw [hfile]; rfl)
      · exact h
  | ready =>
      dsimp only
      split
      · rename_i hs
        exact h.plain (fun k => by rw [hs]; rfl) (by simp)
      · exact h
  | go env => exact inv_handleRead h env

theorem inv_exec (limit : ℕ) (used : ℕ → Bool) (cb : Bool) (run : List AcceptorLabel) :
    Inv (exec step (new limit used cb) run) :=
  exec_invariant Inv (fun _ l h => inv_step h l) run (inv_new limit used cb)

/-- Between two calls of `handleRead` the descriptor in `idleFd_` is the one in reserve. -/
theorem Inv.null_of_idle (h : Inv s) (hs : s.phase = .rest) {n : ℕ} (hidle : s.idleFd_ = some n) :
    s.table.file n = some .null := by
  have hown := h.own n
  rw [hs, AcceptorPhase.own, if_pos hidle] at hown
  cases hfile : s.table.file n with
  | none => simp [hfile, File.kind] at hown
  | some f =>
      cases f with
      | null => rfl
      | _ => simp [hfile, File.kind] at hown

/-- **The descriptors of the acceptor.**  Whatever other code does with the descriptors of the
process between two system calls of `handleRead`: the acceptor closes no descriptor that is not its
own; between two calls of `handleRead` it owns the descriptor in `idleFd_`, if that is not `-1`, and
no other; every connection that is open has been handed over; and every client that has arrived
waits, was handed over, was closed or has given up, exactly once. -/
theorem descriptors_accounted (limit : ℕ) (used : ℕ → Bool) (cb : Bool) (run : List AcceptorLabel) :
    let s := exec step (new limit used cb) run
    s.wrong = false ∧
    (s.phase = .rest → ∀ n, (s.table.file n = some .null ↔ s.idleFd_ = some n) ∧
      ∀ c, s.table.file n ≠ some (.held c)) ∧
    (∀ n c, s.table.file n = some (.conn c) → c ∈ s.handed) ∧
    (s.handed ++ s.closed ++ s.withdrawn ++ s.backlog).Perm (List.range s.arrived) := by
  intro s
  have h : Inv s := inv_exec limit used cb run
  refine ⟨h.right, fun hs n => ?_, h.conn, h.accounted⟩
  have hown := h.own n
  rw [hs, AcceptorPhase.own] at hown
  refine ⟨⟨fun hnull => ?_, fun hidle => h.null_of_idle hs hidle⟩, fun c hheld => ?_⟩
  · by_contra hidle
    rw [hnull, if_neg hidle] at hown
    cases hown
  · rw [hheld] at hown
    split at hown <;> cases hown

/-! ### Getting a connection out of the backlog -/

/-- A call of `handleRead` in which nothing comes between and no system call fails
without a reason. -/
def pass : List AcceptorLabel := .ready :: List.replicate 6 (.go none)

/-- What an undisturbed call of `handleRead` comes to. -/
structure Passed (s s' : Acceptor) (backlog : List ℕ) : Prop where
  rest : s'.phase = .rest
  ended : s'.ended = false
  backlog : s'.backlog = backlog
  idle : s.idleFd_ ≠ none → s'.idleFd_ ≠ none

/-- There is a free descriptor. -/
theorem passed_free (hended : s.ended = false) (hs : s.phase = .rest) {n : ℕ}
    (hlowest : s.table.lowest = some n) : Passed s (exec step s pass) s.backlog.tail := by
  obtain ⟨table, backlog, idleFd, cb, phase, arrived, handed, closed, withdrawn, ended, wrong⟩ := s
  simp only at hended hs hlowest
  subst hended hs
  cases backlog with
  | nil =>
      constructor <;>
        simp [pass, List.replicate, step, handleRead, accept, hlowest, AcceptErrno.expected]
  | cons c backlog =>
      cases cb with
      | true =>
          constructor <;> simp [pass, List.replicate, step, handleRead, accept, hlowest]
      | false =>
          constructor <;> simp [pass, List.replicate, step, handleRead, accept, hlowest, close]

/-- There is none, but the one in reserve can be given up for a moment. -/
theorem passed_reserve (hended : s.ended = false) (hs : s.phase = .rest)
    (hfull : s.table.lowest = none) {k : ℕ}
    (hidle : s.idleFd_ = some k) (hnull : s.table.file k = some .null) (hk : k < s.table.limit) :
    Passed s (exec step s pass) s.backlog.tail := by
  obtain ⟨table, backlog, idleFd, cb, phase, arrived, handed, closed, withdrawn, ended, wrong⟩ := s
  simp only at hended hs hfull hidle hnull hk
  subst hended hs hidle
  obtain ⟨m, hm⟩ := Option.ne_none_iff_exists'.mp (Descriptors.lowest_set_none hk)
  cases backlog with
  | nil =>
      constructor <;>
        simp [pass, List.replicate, step, handleRead, accept, hfull, hm, hnull,
          AcceptErrno.expected, close, reopen]
  | cons c backlog =>
      have hlimit := (Descriptors.file_lowest hm).1
      obtain ⟨m', hm'⟩ := Option.ne_none_iff_exists'.mp
        (Descriptors.lowest_set_none (d := (table.set k none).set m (some (.held c))) hlimit)
      constructor <;>
        simp [pass, List.replicate, step, handleRead, accept, hfull, hm, hm', hnull,
          AcceptErrno.expected, close, reopen]

/-- Without a free descriptor and without the one in reserve nothing happens, and the
connection keeps waiting. -/
theorem pass_stuck (hended : s.ended = false) (hs : s.phase = .rest) (hfull : s.table.lowest = none)
    (hidle : s.idleFd_ = none) : exec step s pass = s := by
  obtain ⟨table, backlog, idleFd, cb, phase, arrived, handed, closed, withdrawn, ended, wrong⟩ := s
  simp only at hended hs hfull hidle
  subst hended hs hidle
  simp [pass, List.replicate, step, handleRead, accept, hfull, AcceptErrno.expected, close, reopen]

/-! ### The reserve -/

/-- While the acceptor has given up its reserve, other code opens no descriptor and
`open` does not fail. -/
def Undisturbed (s : Acceptor) : AcceptorLabel → Prop
  | .openOther => s.phase ≠ .shedding ∧ s.phase ≠ .dropping ∧ s.phase ≠ .reopening
  | .go env => s.phase = .reopening → env = none
  | _ => True

/-- Where the reserve is. -/
def Reserved (s : Acceptor) : Prop :=
  match s.phase with
  | .shedding | .reopening => s.table.lowest ≠ none
  | .dropping => s.idleFd_ ≠ none ∨ s.table.lowest ≠ none
  | .rest | .accepting | .refusing _ | .failed _ | .closing => s.idleFd_ ≠ none

/-- Closing the descriptor that `idleFd_` names makes room. -/
theorem Inv.lowest_close (h : Inv s) {n : ℕ} {x : OwnKind} (hidle : s.idleFd_ = some n)
    (hown : AcceptorPhase.own s.phase s.idleFd_ n = some x) :
    (s.close s.idleFd_).table.lowest ≠ none := by
  rw [hidle, close_own (by rw [h.own n, hown])]
  exact Descriptors.lowest_set_none (h.bound n hidle)

@[simp] theorem close_idleFd (s : Acceptor) (fd : Option ℕ) : (s.close fd).idleFd_ = s.idleFd_ := by
  unfold close
  split
  · rfl
  · split <;> rfl

theorem reserved_handleRead (h : Inv s) (hres : Reserved s) {env : Option AcceptErrno}
    (henv : s.phase = .reopening → env = none) : Reserved (s.handleRead env) := by
  unfold Reserved at hres
  cases hs : s.phase with
  | rest =>
      rw [hs] at hres
      simp only [handleRead, hs, Reserved]
      exact hres
  | accepting =>
      rw [hs] at hres
      simp only [handleRead, hs]
      split
      · split
        · exact hres
        · exact hres
      · rename_i n c s' haccept
        obtain ⟨-, backlog, -, rfl⟩ := accept_inr haccept
        split
        · exact hres
        · exact hres
  | refusing n =>
      rw [hs] at hres
      simp only [handleRead, hs, Reserved, close_idleFd]
      exact hres
  | failed errno =>
      rw [hs] at hres
      simp only [handleRead, hs]
      split
      · exact hres
      · exact hres
  | closing =>
      rw [hs] at hres
      simp only [handleRead, hs, Reserved]
      obtain ⟨n, hidle⟩ := Option.ne_none_iff_exists'.mp hres
      refine h.lowest_close (x := .reserve) hidle ?_
      rw [hs]
      exact if_pos hidle
  | shedding =>
      rw [hs] at hres
      simp only [handleRead, hs]
      split
      · exact Or.inr hres
      · exact Or.inl (by simp)
  | dropping =>
      rw [hs] at hres
      simp only [handleRead, hs, Reserved]
      cases hidle : s.idleFd_ with
      | none => exact hres.resolve_left (by simp [hidle])
      | some n =>
          have hlowest := h.lowest_close (x := .held) hidle (by rw [hs]; exact if_pos hidle)
          rw [hidle] at hlowest
          exact hlowest
  | reopening =>
      rw [hs] at hres
      obtain ⟨n, hlowest⟩ := Option.ne_none_iff_exists'.mp hres
      simp [handleRead, hs, Reserved, reopen, henv hs, hlowest]

theorem reserved_step (h : Inv s) (hres : Reserved s) {l : AcceptorLabel} (hl : Undisturbed s l) :
    Reserved (s.step l) := by
  unfold step
  split
  · exact hres
  cases l with
  | arrive => exact hres
  | withdraw i => exact hres
  | go env => exact reserved_handleRead h hres hl
  | ready =>
      dsimp only
      split
      · rename_i hs
        simp only [Reserved, hs] at hres
        exact hres
      · exact hres
  | openOther =>
      dsimp only
      split
      · unfold Reserved at hres ⊢
        obtain ⟨hshed, hdrop, hreopen⟩ := hl
        split <;> simp_all
      · exact hres
  | closeOther n =>
      dsimp only
      have hset : Reserved { s with table := s.table.set n none } := by
        unfold Reserved at hres ⊢
        dsimp only
        cases hs : s.phase with
        | shedding | reopening =>
            rw [hs] at hres
            exact Descriptors.lowest_set_none_of_free hres n
        | dropping =>
            rw [hs] at hres
            exact hres.imp id fun hfree => Descriptors.lowest_set_none_of_free hfree n
        | _ =>
            rw [hs] at hres
            exact hres
      split
      · exact hset
      · exact hset
      · exact hres

theorem reserved_new {limit : ℕ} {used : ℕ → Bool} {cb : Bool}
    (hended : (new limit used cb).ended = false) :
    Reserved (new limit used cb) := by
  intro hnone
  have hlowest : (processTable limit used).lowest = none := hnone
  simp [new, hlowest] at hended

/-- Nothing brings the program back. -/
theorem ended_of_step {l : AcceptorLabel} (h : (s.step l).ended = false) : s.ended = false := by
  cases hended : s.ended with
  | false => rfl
  | true => simp [step, hended] at h

theorem reserved_exec {limit : ℕ} {used : ℕ → Bool} {cb : Bool} {run : List AcceptorLabel}
    (h : Along step Undisturbed (new limit used cb) run)
    (hended : (exec step (new limit used cb) run).ended = false) :
    Reserved (exec step (new limit used cb) run) := by
  induction run using List.reverseRecOn with
  | nil => exact reserved_new hended
  | append_singleton run l ih =>
      obtain ⟨hrun, hl, -⟩ := (along_append _ _ _).mp h
      rw [exec_concat] at hended ⊢
      exact reserved_step (inv_exec limit used cb run) (ih hrun (ended_of_step hended)) hl

/-- **Accepting.**  Between two calls of `handleRead`, at every point of every run: an undisturbed
call gets the first connection out of the backlog if and only if there is a free descriptor or the
one in reserve, and otherwise leaves everything as it is, so that the loop calls it again and again.
The reserve is there as long as no other code has opened a descriptor just when the acceptor had
given it up, and the `::open` that takes it back has not failed for a reason of its own. -/
theorem handleRead_takes_iff (limit : ℕ) (used : ℕ → Bool) (cb : Bool) (run : List AcceptorLabel)
    (hrest : (exec step (new limit used cb) run).phase = .rest)
    (hended : (exec step (new limit used cb) run).ended = false)
    (hbacklog : (exec step (new limit used cb) run).backlog ≠ []) :
    let s := exec step (new limit used cb) run
    ((exec step s pass).backlog = s.backlog.tail ↔
      (∃ n, n < s.table.limit ∧ s.table.file n = none) ∨ s.idleFd_ ≠ none) ∧
    (s.idleFd_ = none → (∀ n, n < s.table.limit → s.table.file n ≠ none) → exec step s pass = s) ∧
    (s.idleFd_ ≠ none → (exec step s pass).idleFd_ ≠ none) ∧
    (Along step Undisturbed (new limit used cb) run → s.idleFd_ ≠ none) := by
  intro s
  have h : Inv s := inv_exec limit used cb run
  have hpass :
      s.table.lowest ≠ none ∨ s.idleFd_ ≠ none → Passed s (exec step s pass) s.backlog.tail := by
    intro hroom
    cases hlowest : s.table.lowest with
    | some n => exact passed_free hended hrest hlowest
    | none =>
        obtain ⟨k, hidle⟩ := Option.ne_none_iff_exists'.mp (hroom.resolve_left (by simp [hlowest]))
        exact passed_reserve hended hrest hlowest hidle (h.null_of_idle hrest hidle)
          (h.bound k hidle)
  have hfull : (∃ n, n < s.table.limit ∧ s.table.file n = none) ↔ s.table.lowest ≠ none := by
    rw [ne_eq, Descriptors.lowest_eq_none_iff]
    simp
  refine ⟨⟨fun htail => ?_, fun hroom => ?_⟩, fun hidle hused => ?_, fun hidle => ?_,
    fun hrun => ?_⟩
  · by_contra hnone
    rw [hfull, not_or, not_ne_iff, not_ne_iff] at hnone
    rw [pass_stuck hended hrest hnone.1 hnone.2] at htail
    -- a list that is its own tail is empty
    cases hb : s.backlog with
    | nil => exact hbacklog hb
    | cons c backlog =>
        rw [hb, List.tail_cons] at htail
        exact List.cons_ne_self c backlog htail
  · rw [hfull] at hroom
    exact (hpass hroom).backlog
  · exact pass_stuck hended hrest ((Descriptors.lowest_eq_none_iff _).mpr hused) hidle
  · exact (hpass (Or.inr hidle)).idle hidle
  · have hres := reserved_exec hrun hended
    unfold Reserved at hres
    rw [hrest] at hres
    exact hres

/-- Two descriptors, one in use and one in reserve; a client arrives, and other code opens a
descriptor just after the acceptor has given up the reserve. -/
def reserveTaken : List AcceptorLabel :=
  [.arrive, .ready, .go none, .go none, .go none, .openOther, .go none, .go none, .go none]

theorem handleRead_takes_iff_reserveTaken :
    exec step (exec step (new 2 (fun n => n == 0) true) reserveTaken) pass =
      exec step (new 2 (fun n => n == 0) true) reserveTaken :=
  (handleRead_takes_iff 2 (fun n => n == 0) true reserveTaken (by decide) (by decide)
    (by decide)).2.1 (by decide) (by decide)

end Acceptor

end Muduo.Net
