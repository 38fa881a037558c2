import Muduo.Net.TcpServerFlow

/-!
# The life cycle of a server's connections

* `nameOf_injective` — `char buf[64]` holds every name, so the names are different;
* `Listed` — `_connections` holds the connections whose removal has not run; only `newConnection`
  and `removeConnectionInLoop` touch the `ledger` it speaks about;
* `connection_life_cycle` — the result for every interleaving.
-/

namespace Muduo.Net

open Muduo.Lib

namespace TcpServer

/-! ### Names -/

theorem toIpPort_length (addr : InetAddress) : addr.toIpPort.length ≤ 51 := by
  have hport : (formatNat addr.port).length ≤ 5 :=
    formatNat_length (by omega) (addr.port_lt.trans (by norm_num))
  have hip := addr.ip_le
  rw [InetAddress.toIpPort, snprintf, List.length_append, List.length_take, List.length_cons]
  omega

/-- The name of the connection with this number. -/
def nameOf (s : TcpServer) (id : ℤ) : List Char :=
  s._name ++ snprintf 64 ('-' :: s._ip_port ++ '#' :: formatInt id)

/-- **The 64 characters are enough**, so different numbers give different names. -/
theorem nameOf_injective {s : TcpServer} (hip : s._ip_port.length ≤ 51) {a b : ℕ} (ha : a < 2 ^ 31)
    (hb : b < 2 ^ 31) (h : s.nameOf a = s.nameOf b) : a = b := by
  have hfits : ∀ n : ℕ, n < 2 ^ 31 →
      snprintf 64 ('-' :: s._ip_port ++ '#' :: formatInt n) = '-' :: s._ip_port ++ '#' ::
      formatNat n := by
    intro n hn
    have hdigits : (formatNat n).length ≤ 10 := formatNat_length (by omega) (hn.trans (by norm_num))
    refine List.take_of_length_le ?_
    show ('-' :: s._ip_port ++ '#' :: formatNat n).length ≤ 63
    simp only [List.length_append, List.length_cons]
    omega
  rw [nameOf, nameOf, hfits a ha, hfits b hb] at h
  have htail := List.append_cancel_left (List.append_cancel_left h)
  exact formatNat_injective (List.cons.inj htail).2

/-! ### The map of connections -/

def isRemoval (n : Note) : Bool := n.kind = .removeConnectionInLoop

/-- What the map is about. -/
def ledger (s : TcpServer) :
    List Char × List Char × ℤ × Map (List Char) ℕ × List (List Char) × List Note :=
  (s._name, s._ip_port, s._next_conn_id, s._connections, s.conns.map Connection.name_,
    s.log.filter isRemoval)

structure Listed (s : TcpServer) : Prop where
  ip_port : s._ip_port.length ≤ 51
  next_id : s._next_conn_id = ((s.conns.length : ℤ) + 1).bmod (2 ^ 32)
  names : s.conns.map Connection.name_ = (List.range s.conns.length).map fun k =>
    s.nameOf (k + 1 : ℕ)
  connections : ∀ name c, s._connections.get? name = some c ↔
    (s.conns.map Connection.name_)[c]? = some name ∧ times s.log .removeConnectionInLoop c = 0
  erased : ∀ c n, .removeConnectionInLoop c n ∈ s.log → n = 1

theorem times_removal (log : List Note) (c : ℕ) :
    times log .removeConnectionInLoop c = times (log.filter isRemoval) .removeConnectionInLoop
      c := by
  rw [times, times, List.countP_filter]
  refine List.countP_congr fun n _ => ?_
  simp only [isRemoval, Bool.and_eq_true, decide_eq_true_iff]
  exact ⟨fun hn => ⟨hn, hn.1⟩, fun hn => hn.1⟩

theorem Listed.of_ledger {s s' : TcpServer} (h : Listed s) (hledger : s'.ledger = s.ledger) :
    Listed s' := by
  simp only [ledger, Prod.mk.injEq] at hledger
  obtain ⟨hname, hip, hid, hmap, hnames, hlog⟩ := hledger
  have hlen : s'.conns.length = s.conns.length := by
    simpa using congrArg List.length hnames
  have hnameOf : s'.nameOf = s.nameOf := by
    funext id
    rw [nameOf, nameOf, hname, hip]
  refine ⟨?_, ?_, ?_, ?_, ?_⟩
  · rw [hip]
    exact h.ip_port
  · rw [hid, hlen]
    exact h.next_id
  · rw [hnames, hlen, hnameOf]
    exact h.names
  · intro name c
    rw [hmap, hnames, times_removal, hlog, ← times_removal]
    exact h.connections name c
  · intro c n hn
    have hmem : Note.removeConnectionInLoop c n ∈ s'.log.filter isRemoval :=
      List.mem_filter.mpr ⟨hn, rfl⟩
    rw [hlog] at hmem
    exact h.erased c n (List.mem_of_mem_filter hmem)

section Ledger

variable (s : TcpServer) (c : ℕ)

theorem ledger_note {n : Note} (hn : n.kind ≠ .removeConnectionInLoop) :
    (s.note n).ledger = s.ledger := by
  simp [ledger, note, isRemoval, hn]

theorem ledger_modifyConn {f : Connection → Connection} (hf : ∀ conn, (f conn).name_ = conn.name_) :
    (s.modifyConn c f).ledger = s.ledger := by
  have hnames : (s.conns.modify c f).map Connection.name_ = s.conns.map Connection.name_ := by
    refine List.ext_getElem? fun k => ?_
    rw [List.getElem?_map, List.getElem?_map, List.getElem?_modify]
    cases s.conns[k]? with
    | none => rfl
    | some conn =>
        by_cases hk : c = k
        · simp [hk, hf]
        · simp [hk]
  simp only [ledger, modifyConn, hnames]

theorem ledger_connectEstablished : (s.connectEstablished c).ledger = s.ledger :=
  (ledger_modifyConn (s.note _) c
    (f := fun conn => { conn with state_ := .kConnected, added := true })
    fun _ => rfl).trans (ledger_note s (by simp [Note.kind]))

theorem ledger_handleClose : (s.handleClose c).ledger = s.ledger :=
  (ledger_modifyConn (s.note _) c (f := fun conn => { conn with state_ := .kDisconnected })
    fun _ => rfl).trans (ledger_note s (by simp [Note.kind]))

theorem ledger_connectDestroyed : (s.connectDestroyed c).ledger = s.ledger := by
  have hnote : (s.note (.connectDestroyed c)).ledger = s.ledger :=
    ledger_note s (by simp [Note.kind])
  unfold connectDestroyed
  dsimp only
  split
  · exact (ledger_modifyConn (s.note _) c (f := fun conn => { conn with state_ := .kDisconnected })
      fun _ => rfl).trans hnote
  · exact (ledger_modifyConn (s.note _) c (f := fun conn => { conn with added := false })
      fun _ => rfl).trans hnote

end Ledger

section Listed

variable {s : TcpServer} {c : ℕ}

/-- A new connection gets a new name. -/
theorem listed_create (h : Listed s) (hflow : Flow s []) (hfew : s.conns.length + 1 < 2 ^ 31) :
    Listed s.createConnection := by
  have hid : s._next_conn_id = (s.conns.length + 1 : ℕ) := by
    rw [h.next_id, Int.bmod_eq_of_le (by omega) (by omega)]
    norm_num
  have hname : s.connectName = s.nameOf (s.conns.length + 1 : ℕ) := by rw [connectName, nameOf, hid]
  have hlen : s.createConnection.conns.length = s.conns.length + 1 := List.length_append
  have hnames : s.createConnection.conns.map Connection.name_ =
      s.conns.map Connection.name_ ++ [s.connectName] := List.map_append
  have hnew : ∀ k : ℕ, (s.conns.map Connection.name_)[k]? ≠ some s.connectName := by
    intro k hk
    have hlt : k < s.conns.length := by
      have := (List.getElem?_eq_some_iff.mp hk).1
      simpa using this
    rw [h.names, List.getElem?_map, List.getElem?_range hlt, hname] at hk
    have := nameOf_injective h.ip_port (by omega) hfew (Option.some.inj hk)
    omega
  refine ⟨h.ip_port, ?_, ?_, ?_, h.erased⟩
  · show (s._next_conn_id + 1).bmod (2 ^ 32) = _
    rw [hid, hlen]
  · rw [hnames, hlen, List.range_succ, List.map_append, List.map_singleton, hname, h.names]
    rfl
  · intro name c'
    show (s._connections.insert s.connectName s.conns.length).get? name = some c' ↔ _
    rw [Map.get?_insert, hnames, show s.createConnection.log = s.log from rfl]
    by_cases hk : name = s.connectName
    · subst hk
      rw [if_pos rfl, Option.some.injEq]
      constructor
      · rintro rfl
        refine ⟨?_, hflow.times_eq_zero le_rfl _⟩
        rw [List.getElem?_append_right (by simp)]
        simp
      · rintro ⟨hc, -⟩
        rcases lt_trichotomy c' s.conns.length with hlt | heq | hgt
        · rw [List.getElem?_append_left (by simpa using hlt)] at hc
          exact absurd hc (hnew c')
        · exact heq.symm
        · rw [List.getElem?_eq_none (by simp; omega)] at hc
          cases hc
    · rw [if_neg hk, h.connections]
      refine and_congr_left fun _ => ?_
      rcases lt_or_ge c' s.conns.length with hlt | hge
      · rw [List.getElem?_append_left (by simpa using hlt)]
      · rw [List.getElem?_eq_none (by simpa using hge),
          List.getElem?_append_right (by simpa using hge)]
        rw [List.getElem?_singleton]
        split
        · simp [Ne.symm hk]
        · simp

/-- **`removeConnectionInLoop` finds its entry.** -/
theorem listed_remove (h : Listed s) (hfew : s.conns.length < 2 ^ 31)
    (hinv : Inv s [.removeConnectionInLoop c]) : Listed (s.removeConnectionInLoop c) := by
  have hlt : c < s.conns.length := hinv.flow.hand_lt _ List.mem_cons_self
  have hzero : times s.log .removeConnectionInLoop c = 0 := by
    have h₁ := hinv.flow.closed c
    have h₂ := hinv.flow.closed_le c
    have h₃ := hinv.flow.established_le c
    rw [inFlight_eq, List.count_singleton_self] at h₁
    omega
  have hinj : ∀ {a b : ℕ} {name : List Char}, (s.conns.map Connection.name_)[a]? = some name →
      (s.conns.map Connection.name_)[b]? = some name → a = b := by
    intro a b name ha hb
    have hla : a < s.conns.length := by simpa using (List.getElem?_eq_some_iff.mp ha).1
    have hlb : b < s.conns.length := by simpa using (List.getElem?_eq_some_iff.mp hb).1
    rw [h.names, List.getElem?_map, List.getElem?_range hla] at ha
    rw [h.names, List.getElem?_map, List.getElem?_range hlb] at hb
    have := nameOf_injective h.ip_port (by omega) (by omega)
      ((Option.some.inj ha).trans (Option.some.inj hb).symm)
    omega
  obtain ⟨conn, hconn⟩ : ∃ conn, s.conns[c]? = some conn := ⟨_, List.getElem?_eq_getElem hlt⟩
  have hcname : (s.conns.map Connection.name_)[c]? = some conn.name_ := by
    rw [List.getElem?_map, hconn]
    rfl
  have hfound : s._connections.get? conn.name_ = some c := (h.connections _ _).mpr ⟨hcname, hzero⟩
  have hresult : s.removeConnectionInLoop c =
      (({ s with _connections := s._connections.erase conn.name_ } : TcpServer).note
        (.removeConnectionInLoop c 1)).queueInloop (s.getLoop c) (.connectDestroyed c) := by
    simp [removeConnectionInLoop, eraseConnection, hconn, hfound]
  rw [hresult]
  refine ⟨h.ip_port, h.next_id, h.names, ?_, ?_⟩
  · intro name c'
    show (s._connections.erase conn.name_).get? name = some c' ↔
      _ ∧ times (s.log ++ [.removeConnectionInLoop c 1]) .removeConnectionInLoop c' = 0
    rw [Map.get?_erase, times_concat]
    by_cases hk : name = conn.name_
    · subst hk
      rw [if_pos rfl]
      refine iff_of_false (by simp) ?_
      rintro ⟨hc', htimes⟩
      obtain rfl := hinj hcname hc'
      simp [Note.of, Note.kind, Note.conn] at htimes
    · rw [if_neg hk, h.connections]
      refine and_congr_right fun hc' => ?_
      have hne : c ≠ c' := by
        rintro rfl
        exact hk (Option.some.inj (hc'.symm.trans hcname))
      simp [Note.of, Note.kind, Note.conn, hne]
  · intro c' n hn
    rcases List.mem_append.mp hn with hn | hn
    · exact h.erased c' n hn
    · exact (Note.removeConnectionInLoop.inj (List.mem_singleton.mp hn)).2

theorem listed_execute {m : Message} (h : Listed s) (hfew : s.conns.length < 2 ^ 31)
    (hinv : Inv s [m]) :
    Listed (s.execute m) := by
  cases m with
  | connectEstablished c => exact h.of_ledger (ledger_connectEstablished s c)
  | removeConnectionInLoop c => exact listed_remove h hfew hinv
  | connectDestroyed c => exact h.of_ledger (ledger_connectDestroyed s c)

theorem listed_runInLoop {m : Message} (h : Listed s) (hfew : s.conns.length < 2 ^ 31)
    (hinv : Inv s [m]) (caller l : ℕ) : Listed (s.runInLoop caller l m) := by
  unfold runInLoop
  split
  · exact listed_execute h hfew hinv
  · exact h.of_ledger rfl

theorem length_execute (s : TcpServer) (m : Message) :
    (s.execute m).conns.length = s.conns.length := by
  cases m with
  | connectEstablished c => exact List.length_modify ..
  | removeConnectionInLoop c =>
      obtain ⟨m, hm⟩ := eraseConnection_eq s c
      show (s.eraseConnection c).1.conns.length = _
      rw [hm]
  | connectDestroyed c =>
      show (s.connectDestroyed c).conns.length = _
      unfold connectDestroyed
      dsimp only
      split <;> exact List.length_modify ..

theorem length_runInLoop (s : TcpServer) (caller l : ℕ) (m : Message) :
    (s.runInLoop caller l m).conns.length = s.conns.length := by
  unfold runInLoop
  split
  · exact length_execute s m
  · rfl

theorem length_newConnection (s : TcpServer) :
    s.newConnection.conns.length = s.conns.length + 1 := by
  rw [newConnection, length_runInLoop]
  exact List.length_append

theorem length_step (s : TcpServer) (m : Move) : s.conns.length ≤ (s.step m).conns.length := by
  obtain heq | ⟨-, heq⟩ | ⟨c, -, heq⟩ | ⟨c, -, heq⟩ | ⟨l, f, rest, -, -, heq⟩ | ⟨l, t, -, heq⟩ :=
    step_cases s m <;> rw [heq]
  · rw [length_newConnection]
    exact Nat.le_succ _
  · exact (List.length_modify ..).ge
  · exact (List.length_modify ..).ge
  · rw [length_execute]
  · cases t with
    | connectEstablished c => exact le_rfl
    | handleClose c => exact (length_runInLoop (s.setTask l none) l 0 _).ge
    | connectDestroyed c => exact (List.length_modify ..).ge

/-- **Every move keeps the map right.** -/
theorem listed_step (h : Listed s) (hinv : Inv s []) {m : Move}
    (hfew : (s.step m).conns.length < 2 ^ 31) : Listed (s.step m) := by
  have hfew' : s.conns.length < 2 ^ 31 := (length_step s m).trans_lt hfew
  obtain heq | ⟨-, heq⟩ | ⟨c, -, heq⟩ | ⟨c, -, heq⟩ | ⟨l, f, rest, -, hq, heq⟩ | ⟨l, t, ht, heq⟩ :=
    step_cases s m <;> rw [heq] at hfew ⊢
  · exact h
  · rw [length_newConnection] at hfew
    refine listed_runInLoop (listed_create h hinv.flow hfew) ?_ (inv_create hinv) 0 _
    rw [show s.createConnection.conns.length = s.conns.length + 1 from List.length_append]
    exact hfew
  · exact h.of_ledger (ledger_handleClose s c)
  · exact h.of_ledger (ledger_modifyConn s c fun _ => rfl)
  · have hpop : Listed { s with queue := Function.update s.queue l rest } := h.of_ledger rfl
    exact listed_execute hpop hfew' (hinv.update (flow_pop hinv.flow hq) rfl rfl)
  · have hset : Listed (s.setTask l none) := h.of_ledger rfl
    cases t with
    | connectEstablished c => exact hset
    | handleClose c => exact listed_runInLoop hset hfew' (inv_leave hinv ht) l 0
    | connectDestroyed c =>
        exact hset.of_ledger (ledger_modifyConn (s.setTask l none) c fun _ => rfl)

end Listed

/-! ### The result -/

structure LifeCycle (s : TcpServer) : Prop where
  names_distinct : (s.conns.map Connection.name_).Nodup
  established_once : ∀ c, times s.log .connectEstablished c ≤ 1
  established_connecting : ∀ c state, .connectEstablished c state ∈ s.log → state = .kConnecting
  established_before_close : ∀ c,
    Precedes (Note.of .connectEstablished c) (Note.of .handleClose c) s.log
  established_before_destroy : ∀ c,
    Precedes (Note.of .connectEstablished c) (Note.of .connectDestroyed c) s.log
  erases_one : ∀ c n, .removeConnectionInLoop c n ∈ s.log → n = 1
  destroyed_once : ∀ c, times s.log .connectDestroyed c ≤ 1
  erased_before_destroy : ∀ c,
    Precedes (Note.of .removeConnectionInLoop c) (Note.of .connectDestroyed c) s.log
  connections : ∀ name c, s._connections.get? name = some c ↔
    (∃ conn, s.conns[c]? = some conn ∧ conn.name_ = name) ∧
    times s.log .removeConnectionInLoop c = 0

theorem LifeCycle.of_inv {s : TcpServer} (h : Inv s []) (hl : Listed s)
    (hfew : s.conns.length < 2 ^ 31) : LifeCycle s where
  names_distinct := by
    rw [hl.names]
    refine List.Nodup.map_on (fun a ha b hb heq => ?_) List.nodup_range
    have := nameOf_injective hl.ip_port (by have := List.mem_range.mp ha; omega)
      (by have := List.mem_range.mp hb; omega) heq
    omega
  established_once := h.flow.established_le
  established_connecting := h.connecting
  established_before_close := h.ordered.close
  established_before_destroy := h.ordered.destroy
  erases_one := hl.erased
  destroyed_once := by
    intro c
    have h₁ := h.flow.removed c
    have h₂ := h.flow.closed c
    have h₃ := h.flow.closed_le c
    have h₄ := h.flow.established_le c
    omega
  erased_before_destroy := h.ordered.erase
  connections := by
    intro name c
    rw [hl.connections, List.getElem?_map, Option.map_eq_some_iff]

theorem inv_new (name : List Char) (listen_addr : InetAddress) (loops : ℕ) :
    Inv (new name listen_addr loops) [] where
  flow := by constructor <;> simp [new, inFlight, closing, times]
  waiting := by simp [new]
  ordered := ⟨fun _ => precedes_nil _ _, fun _ => precedes_nil _ _, fun _ => precedes_nil _ _⟩
  connecting := by simp [new]

theorem listed_new (name : List Char) (listen_addr : InetAddress) (loops : ℕ) :
    Listed (new name listen_addr loops) where
  ip_port := toIpPort_length listen_addr
  next_id := show (1 : ℤ) = (((0 : ℕ) : ℤ) + 1).bmod (2 ^ 32) by decide
  names := rfl
  connections := by simp [new]
  erased := by simp [new]

/-- **The life cycle of connections.**  For a server of any name and address with any number of I/O
loops, in every interleaving of accepts, closes, queue steps and ends of callbacks in which no
connection is closed twice and fewer than `2 ^ 31` connections are accepted. -/
theorem connection_life_cycle (name : List Char) (listen_addr : InetAddress) (loops : ℕ)
    (run : List Move) (honce : Along step CloseOnce (new name listen_addr loops) run)
    (hfew : (exec step (new name listen_addr loops) run).conns.length < 2 ^ 31) :
    LifeCycle (exec step (new name listen_addr loops) run) := by
  have hrun : Inv (exec step (new name listen_addr loops) run) [] ∧
      ((exec step (new name listen_addr loops) run).conns.length < 2 ^ 31 →
        Listed (exec step (new name listen_addr loops) run)) :=
    along_invariant (fun s : TcpServer => Inv s [] ∧ (s.conns.length < 2 ^ 31 → Listed s))
      (fun s m ⟨hinv, hlisted⟩ hm => ⟨inv_step hinv hm, fun hlen =>
        listed_step (hlisted ((length_step s m).trans_lt hlen)) hinv hlen⟩)
      ⟨inv_new name listen_addr loops, fun _ => listed_new name listen_addr loops⟩ honce
  exact LifeCycle.of_inv hrun.1 (hrun.2 hfew) hfew

/-- One connection on an I/O loop and one that is still up, with the closing of the first
interleaved with the accept of the second. -/
theorem connection_life_cycle_one_loop :
    LifeCycle (exec step (new "web".toList ⟨"0.0.0.0".toList, 8000, by decide, by decide⟩ 1)
      [.accept, .functor 1, .return_ 1, .closeEvent 0, .accept, .return_ 1, .functor 0, .functor 1,
        .return_ 1, .functor 1]) ∧
    (exec step (new "web".toList ⟨"0.0.0.0".toList, 8000, by decide, by decide⟩ 1)
      [.accept, .functor 1, .return_ 1, .closeEvent 0, .accept, .return_ 1, .functor 0, .functor 1,
        .return_ 1, .functor 1]).log =
      [.connectEstablished 0 .kConnecting, .handleClose 0, .removeConnectionInLoop 0 1,
        .connectEstablished 1 .kConnecting, .connectDestroyed 0] :=
  ⟨connection_life_cycle _ _ _ _ (by decide +kernel) (by decide +kernel), by decide +kernel⟩

end TcpServer

end Muduo.Net
