import Muduo.Lib.Runs
import Muduo.Net.EPollPoller
import Muduo.Net.TcpConnection

/-!
# The output stream of a connection

Bytes leave a connection on two paths: a direct `write` in `sendInLoop` and, for what the kernel did
not take, `handleWrite` out of `outputBuffer_`.  This file proves that the two together are one FIFO
stream, for every interleaving of loop-thread steps and every behaviour of `write(2)`.

The invariant is that the channel has write interest exactly when `outputBuffer_` holds bytes: the
direct path is taken only when nothing waits, so it never overtakes buffered bytes.  It is claimed
while `state_` is not `kDisconnected`; after `handleClose` the buffer keeps what was not sent.

A message is given up when its direct write has failed and `errno` is `EPIPE` or
`ECONNRESET`.  That test comes after `LOG_SYSERR`, so it is about the `errno` the logging
leaves, not the one of `write(2)`.

* `step` — the loop-thread steps, user code and foreign threads choosing the order;
* `refused`, `faulted` — what `write(2)` said, and what `sendInLoop` takes it for;
* `OutInv` — the invariant, with `outInv_step` for every step;
* `output_stream_integrity` — the result for whole runs; `logging_loses_message` — a message
  that the logging costs.
-/

namespace Muduo.Net

open Muduo.Lib

namespace TcpConnection

/-- The bytes the kernel accepted. -/
def accepted (log : List Event) : List Byte := log.flatMap fun
  | .write _ bytes => bytes
  | _ => []

/-- A direct write failed with `EPIPE` or `ECONNRESET`. -/
def refused (log : List Event) : Bool := log.any fun
  | .writeError true _ errno _ => errno == EPIPE || errno == ECONNRESET
  | _ => false

/-- A direct write of some bytes failed, other than with `EWOULDBLOCK`, and `errno` was `EPIPE` or
`ECONNRESET` once that had been logged: `faultError`. -/
def faulted (log : List Event) : Bool := log.any fun
  | .writeError true len errno logged =>
      len != 0 && (errno != EWOULDBLOCK && (logged == EPIPE || logged == ECONNRESET))
  | _ => false

/-- A step of the loop thread.  What user code does inside a callback are further steps; a call of
`shutdown`, `forceClose` or `forceCloseWithDelay` is one step, also from another thread. -/
inductive LoopStep where
  | sendInLoop (data : List Byte) (r : WriteResult)
  | handleWrite (r : WriteResult)
  | handleRead (r : Buffer.ReadvResult)
  | startReadInLoop
  | stopReadInLoop
  | shutdownInLoop
  | forceCloseInLoop
  | connectDestroyed
  | removeChannel
  | shutdown (inLoopThread : Bool)
  | forceClose
  | forceCloseWithDelay
  | setWriteCompleteCallback
  | setHighWaterMarkCallback (highWaterMark : ℕ)

variable {P : Type*} (poller : Poller P Unit)

def step (c : TcpConnection P) : LoopStep → TcpConnection P
  | .sendInLoop data r => c.sendInLoop poller data r
  | .handleWrite r => c.handleWrite poller r
  | .handleRead r => (c.handleRead poller r).1
  | .startReadInLoop => c.startReadInLoop poller
  | .stopReadInLoop => c.stopReadInLoop poller
  | .shutdownInLoop => c.shutdownInLoop
  | .forceCloseInLoop => (c.forceCloseInLoop poller).1
  | .connectDestroyed => (c.connectDestroyed poller).1
  | .removeChannel => { c with loop := Channel.remove poller c.loop () }
  | .shutdown inLoopThread => c.shutdown inLoopThread
  | .forceClose => c.forceClose
  | .forceCloseWithDelay => c.forceCloseWithDelay
  | .setWriteCompleteCallback => c.setWriteCompleteCallback
  | .setHighWaterMarkCallback n => c.setHighWaterMarkCallback n

/-- The messages passed to `sendInLoop` in a run, concatenated in call order. -/
def messages (run : List LoopStep) : List Byte := run.flatMap fun
  | .sendInLoop data _ => data
  | _ => []

@[simp] theorem messages_append (run₁ run₂ : List LoopStep) :
    messages (run₁ ++ run₂) = messages run₁ ++ messages run₂ := List.flatMap_append

@[simp] theorem accepted_append (l₁ l₂ : List Event) :
    accepted (l₁ ++ l₂) = accepted l₁ ++ accepted l₂ := List.flatMap_append

@[simp] theorem faulted_append (l₁ l₂ : List Event) :
    faulted (l₁ ++ l₂) = (faulted l₁ || faulted l₂) := List.any_append

/-! ### The invariant -/

/-- Write interest and buffered bytes go together. -/
def Interest (c : TcpConnection P) : Prop := c.isWriting = true ↔ c.outputBuffer_.readable ≠ []

/-- What was sent has been accepted by the kernel or waits in `outputBuffer_`. -/
def Stream (sent : List Byte) (c : TcpConnection P) : Prop :=
  faulted c.log = false → accepted c.log ++ c.outputBuffer_.readable = sent

/-- A fault has cost at least a byte. -/
def Short (sent : List Byte) (c : TcpConnection P) : Prop :=
  faulted c.log = true → (accepted c.log ++ c.outputBuffer_.readable).length < sent.length

/-- Every half close was made with nothing left to send. -/
def CleanShutdown (log : List Event) : Prop :=
  ∀ st unsent, Event.shutdownWrite st unsent ∈ log → st ≠ .kDisconnected → unsent = []

structure OutInv (sent : List Byte) (c : TcpConnection P) : Prop where
  interest : c.state_ ≠ .kDisconnected → Interest c
  stream : c.state_ ≠ .kDisconnected → Stream sent c
  clean : CleanShutdown c.log
  short : c.state_ ≠ .kDisconnected → Short sent c

theorem cleanShutdown_concat {log : List Event} (h : CleanShutdown log) {e : Event}
    (he : ∀ st unsent, e = .shutdownWrite st unsent → st ≠ .kDisconnected → unsent = []) :
    CleanShutdown (log ++ [e]) := by
  intro st unsent hmem hst
  rcases List.mem_append.mp hmem with hold | hnew
  · exact h st unsent hold hst
  · exact he st unsent (List.mem_singleton.mp hnew).symm hst

/-- The invariant reads the state, the write interest, the output buffer and the log, and nothing
else. -/
theorem OutInv.congr {sent : List Byte} {c d : TcpConnection P} (h : OutInv sent c)
    (hstate : d.state_ = .kDisconnected ∨ c.state_ ≠ .kDisconnected ∧ d.isWriting = c.isWriting)
    (hout : d.outputBuffer_ = c.outputBuffer_) (hlog : d.log = c.log) : OutInv sent d := by
  refine ⟨fun hd => ?_, fun hd => ?_, hlog ▸ h.clean, fun hd => ?_⟩
  · obtain ⟨hc, hw⟩ := hstate.resolve_left hd
    unfold Interest
    rw [hw, hout]
    exact h.interest hc
  · obtain ⟨hc, -⟩ := hstate.resolve_left hd
    unfold Stream
    rw [hlog, hout]
    exact h.stream hc
  · obtain ⟨hc, -⟩ := hstate.resolve_left hd
    unfold Short
    rw [hlog, hout]
    exact h.short hc

/-- Nothing is made up. -/
theorem OutInv.length_le {sent : List Byte} {c : TcpConnection P} (h : OutInv sent c)
    (hopen : c.state_ ≠ .kDisconnected) :
    (accepted c.log ++ c.outputBuffer_.readable).length ≤ sent.length := by
  cases hf : faulted c.log with
  | true => exact (h.short hopen hf).le
  | false => rw [h.stream hopen hf]

theorem isWriting_enableReading (c : TcpConnection P) :
    ((Channel.enableReading poller c.loop ()).chan ()).isWriting = c.isWriting := by
  simp [Channel.enableReading, Channel.isWriting, isWriting, channel_]

theorem isWriting_disableReading (c : TcpConnection P) :
    ((Channel.disableReading poller c.loop ()).chan ()).isWriting = c.isWriting := by
  simp [Channel.disableReading, Channel.isWriting, isWriting, channel_]

/-! ### Output steps -/

section Steps

variable {sent : List Byte} {c : TcpConnection P}

theorem appendOutput_state_ (rest : List Byte) :
    (c.appendOutput poller rest).state_ = c.state_ := by
  unfold appendOutput
  dsimp only
  split_ifs <;> rfl

theorem appendOutput_log (rest : List Byte) : (c.appendOutput poller rest).log = c.log := by
  unfold appendOutput
  dsimp only
  split_ifs <;> rfl

theorem appendOutput_readable (rest : List Byte) :
    (c.appendOutput poller rest).outputBuffer_.readable = c.outputBuffer_.readable ++ rest := by
  rw [← Buffer.readable_append]
  unfold appendOutput
  dsimp only
  split_ifs <;> rfl

theorem appendOutput_isWriting (rest : List Byte) :
    (c.appendOutput poller rest).isWriting = true := by
  unfold appendOutput
  dsimp only
  split_ifs
  all_goals first
    | assumption
    | simp [isWriting, channel_, Channel.isWriting, Channel.enableWriting]

theorem outInv_appendOutput (h : OutInv sent c) {rest : List Byte} (hrest : rest ≠ []) :
    OutInv (sent ++ rest) (c.appendOutput poller rest) := by
  refine ⟨fun _ => ?_, fun hd => ?_, by rw [appendOutput_log]; exact h.clean, fun hd => ?_⟩
  · unfold Interest
    rw [appendOutput_isWriting, appendOutput_readable]
    simp [hrest]
  · rw [appendOutput_state_] at hd
    intro hf
    rw [appendOutput_log] at hf ⊢
    rw [appendOutput_readable, ← List.append_assoc, h.stream hd hf]
  · rw [appendOutput_state_] at hd
    intro hf
    rw [appendOutput_log] at hf ⊢
    have hold := h.short hd hf
    rw [appendOutput_readable]
    simp only [List.length_append] at hold ⊢
    omega

theorem OutInv.queueInloop (h : OutInv sent c) (f : Functor) : OutInv sent (c.queueInloop f) :=
  ⟨h.interest, h.stream, h.clean, h.short⟩

theorem OutInv.ite {d : TcpConnection P} (h : OutInv sent c) (h' : OutInv sent d) (p : Prop)
    [Decidable p] : OutInv sent (if p then c else d) := by
  split
  · exact h
  · exact h'

/-- An event that is neither a write nor a fault. -/
theorem OutInv.record (h : OutInv sent c) {e : Event} (hacc : accepted [e] = [])
    (hfault : faulted [e] = false) (hclean : CleanShutdown (c.log ++ [e])) :
    OutInv sent (c.record e) := by
  have hlog : accepted (c.log ++ [e]) = accepted c.log := by
    rw [accepted_append, hacc, List.append_nil]
  have hsame : faulted (c.log ++ [e]) = faulted c.log := by
    rw [faulted_append, hfault, Bool.or_false]
  refine ⟨h.interest, fun hd hf => ?_, hclean, fun hd hf => ?_⟩
  · show accepted (c.log ++ [e]) ++ c.outputBuffer_.readable = sent
    rw [hlog]
    exact h.stream hd (hsame ▸ hf)
  · show (accepted (c.log ++ [e]) ++ c.outputBuffer_.readable).length < sent.length
    rw [hlog]
    exact h.short hd (hsame ▸ hf)

/-- The direct write takes the first `nwrote` bytes; a fault takes the message, and is on record. -/
theorem outInv_writeDirectly (h : OutInv sent c) (hopen : c.state_ ≠ .kDisconnected)
    (hempty : c.outputBuffer_.readable = []) (data : List Byte) (r : WriteResult) :
    OutInv
      (sent ++ if (c.writeDirectly data r).2.2 then data else data.take (c.writeDirectly data r).2.1)
      (c.writeDirectly data r).1 := by
  cases r with
  | accepted n =>
      have hbase : OutInv (sent ++ data.take (min n data.length))
          (c.record (.write true (data.take (min n data.length)))) := by
        have hlog : accepted (c.log ++ [.write true (data.take (min n data.length))]) =
            accepted c.log ++ data.take (min n data.length) := by simp [accepted]
        have hsame :
            faulted (c.log ++ [.write true (data.take (min n data.length))]) = faulted c.log := by
          simp [faulted]
        refine ⟨fun hd => h.interest hd, fun hd hf => ?_, cleanShutdown_concat h.clean (by simp),
          fun hd hf => ?_⟩
        · have hold := h.stream hd (hsame ▸ hf)
          rw [hempty, List.append_nil] at hold
          show accepted (c.log ++ [_]) ++ c.outputBuffer_.readable = _
          rw [hlog, hempty, List.append_nil, hold]
        · have hold := h.short hd (hsame ▸ hf)
          rw [hempty, List.append_nil] at hold
          show (accepted (c.log ++ [_]) ++ c.outputBuffer_.readable).length < _
          rw [hlog, hempty, List.append_nil, List.length_append, List.length_append]
          exact Nat.add_lt_add_right hold _
      exact (hbase.queueInloop _).ite hbase _
  | error errno logged =>
      have hclean : CleanShutdown (c.log ++ [.writeError true data.length errno logged]) :=
        cleanShutdown_concat h.clean (by simp)
      have hfault : faulted [.writeError true data.length errno logged] =
          (data.length != 0 && (c.writeDirectly data (.error errno logged)).2.2) := Bool.or_false _
      cases hdrop : (c.writeDirectly data (.error errno logged)).2.2 with
      | false =>
          rw [hdrop, Bool.and_false] at hfault
          rw [if_neg Bool.false_ne_true, show (c.writeDirectly data (.error errno logged)).2.1 =
            0 from rfl, List.take_zero, List.append_nil]
          exact h.record rfl hfault hclean
      | true =>
          rw [if_pos rfl]
          rw [hdrop, Bool.and_true] at hfault
          cases data with
          | nil =>
              rw [List.append_nil]
              exact h.record rfl hfault hclean
          | cons b data =>
              have hfaulted :
                  faulted (c.log ++ [.writeError true (b :: data).length errno logged]) = true := by
                rw [faulted_append, hfault]
                exact Bool.or_true _
              refine ⟨h.interest, fun _ hf => absurd (hfaulted.symm.trans hf) Bool.true_eq_false.mp,
                hclean, fun _ _ => ?_⟩
              have hle := h.length_le hopen
              show (accepted (c.log ++ [_]) ++ c.outputBuffer_.readable).length < _
              rw [accepted_append, show accepted [Event.writeError ..] = [] from rfl,
                List.append_nil]
              simp only [List.length_append, List.length_cons] at hle ⊢
              omega

theorem outInv_sendInLoop (h : OutInv sent c) (data : List Byte) (r : WriteResult) :
    OutInv (sent ++ data) (c.sendInLoop poller data r) := by
  unfold sendInLoop
  split
  · rename_i hdis
    exact ⟨fun hd => absurd hdis hd, fun hd => absurd hdis hd, h.clean, fun hd => absurd hdis hd⟩
  · rename_i hopen
    by_cases hdirect : (!c.isWriting && c.outputBuffer_.readableBytes == 0) = true
    · have hempty : c.outputBuffer_.readable = [] := by
        rw [Buffer.readableBytes_eq] at hdirect
        simpa using (Bool.and_eq_true_iff.mp hdirect).2
      have hw := outInv_writeDirectly h hopen hempty data r
      rw [if_pos hdirect]
      generalize hres : c.writeDirectly data r = res at hw
      obtain ⟨c₁, nwrote, fault⟩ := res
      simp only at hw ⊢
      cases hfault : fault with
      | true => simpa [hfault] using hw
      | false =>
          rw [hfault, if_neg Bool.false_ne_true] at hw
          by_cases hrem : 0 < data.length - nwrote
          · have hne : data.drop nwrote ≠ [] := by
              rw [Ne, List.drop_eq_nil_iff]
              omega
            have := outInv_appendOutput poller hw hne
            rw [List.append_assoc, List.take_append_drop] at this
            simpa [hrem] using this
          · rw [List.take_of_length_le (by omega)] at hw
            simpa [hrem] using hw
    · -- bytes wait already: the whole message joins them
      rw [if_neg hdirect]
      by_cases hrem : 0 < data.length
      · simpa [hrem] using outInv_appendOutput poller h (List.ne_nil_of_length_pos hrem)
      · obtain rfl : data = [] := List.eq_nil_of_length_eq_zero (by omega)
        simpa using h

theorem outInv_shutdownInLoop (h : OutInv sent c) : OutInv sent c.shutdownInLoop := by
  unfold shutdownInLoop
  split
  · exact h
  · rename_i hw
    refine h.record rfl rfl (cleanShutdown_concat h.clean ?_)
    rintro st unsent he hst
    obtain ⟨rfl, rfl⟩ := Event.shutdownWrite.inj he
    by_contra hne
    exact hw ((h.interest hst).mpr hne)

/-- When everything is out, write interest is dropped and a pending half close is made. -/
theorem outInv_outputDrained (hstream : c.state_ ≠ .kDisconnected → Stream sent c)
    (hclean : CleanShutdown c.log) (hshort : c.state_ ≠ .kDisconnected → Short sent c)
    (hempty : c.outputBuffer_.readable = []) : OutInv sent (c.outputDrained poller) := by
  have hoff : OutInv sent { c with loop := Channel.disableWriting poller c.loop () } := by
    refine ⟨fun _ => ?_, hstream, hclean, hshort⟩
    unfold Interest
    simp [isWriting, channel_, Channel.isWriting, Channel.disableWriting, hempty]
  have hqueued := (hoff.queueInloop .writeCompleteCallback_).ite hoff c.writeCompleteCallback_
  exact (outInv_shutdownInLoop hqueued).ite hqueued (_ = StateE.kDisconnecting)

theorem outInv_handleWrite (h : OutInv sent c) (r : WriteResult) :
    OutInv sent (c.handleWrite poller r) := by
  unfold handleWrite
  split
  swap
  · exact h
  rename_i hw
  cases r with
  | error errno logged => exact h.record rfl rfl (cleanShutdown_concat h.clean (by simp))
  | accepted k =>
      simp only
      generalize hn : min k c.outputBuffer_.readable.length = n
      -- the accepted bytes move from the buffer to the kernel
      have hmoved : ∀ d : TcpConnection P, d.state_ = c.state_ →
          d.log = c.log ++ [.write false (c.outputBuffer_.readable.take n)] →
          d.outputBuffer_.readable = c.outputBuffer_.readable.drop n →
          (d.state_ ≠ .kDisconnected → Stream sent d) ∧
          (d.state_ ≠ .kDisconnected → Short sent d) := by
        intro d hstate hlog hbuf
        have hall : accepted d.log ++ d.outputBuffer_.readable =
            accepted c.log ++ c.outputBuffer_.readable := by
          rw [hlog, hbuf, accepted_append]
          simp [accepted]
        have hsame : faulted d.log = faulted c.log := by
          rw [hlog]
          simp [faulted]
        refine ⟨fun hd hf => ?_, fun hd hf => ?_⟩
        · rw [hall]
          exact h.stream (hstate ▸ hd) (hsame ▸ hf)
        · rw [hall]
          exact h.short (hstate ▸ hd) (hsame ▸ hf)
      have hclean : CleanShutdown (c.log ++ [.write false (c.outputBuffer_.readable.take n)]) :=
        cleanShutdown_concat h.clean (by simp)
      split
      swap
      · rename_i hpos
        obtain ⟨hstream, hshort⟩ :=
          hmoved (c.record (.write false (c.outputBuffer_.readable.take n))) rfl
          rfl (by simp [TcpConnection.record, show n = 0 by omega])
        exact ⟨h.interest, hstream, hclean, hshort⟩
      obtain ⟨hstream, hshort⟩ := hmoved
        { c.record (.write false (c.outputBuffer_.readable.take n)) with
          outputBuffer_ := c.outputBuffer_.retrieve n } rfl rfl
            (c.outputBuffer_.readable_retrieve n)
      split
      · rename_i hall
        rw [Buffer.readableBytes_eq, List.length_eq_zero_iff] at hall
        exact outInv_outputDrained poller hstream hclean hshort hall
      · -- some bytes are left, and so is the write interest
        rename_i hsome
        rw [Buffer.readableBytes_eq, List.length_eq_zero_iff] at hsome
        exact ⟨fun _ => ⟨fun _ => hsome, fun _ => hw⟩, hstream, hclean, hshort⟩

/-! ### The other steps -/

theorem outInv_startReadInLoop (h : OutInv sent c) : OutInv sent (c.startReadInLoop poller) := by
  unfold startReadInLoop
  split
  · refine h.congr ?_ rfl rfl
    by_cases hd : c.state_ = .kDisconnected
    · exact Or.inl hd
    · exact Or.inr ⟨hd, isWriting_enableReading poller c⟩
  · exact h

theorem outInv_stopReadInLoop (h : OutInv sent c) : OutInv sent (c.stopReadInLoop poller) := by
  unfold stopReadInLoop
  split
  · refine h.congr ?_ rfl rfl
    by_cases hd : c.state_ = .kDisconnected
    · exact Or.inl hd
    · exact Or.inr ⟨hd, isWriting_disableReading poller c⟩
  · exact h

theorem outInv_handleClose (h : OutInv sent c) : OutInv sent (c.handleClose poller).1 :=
  ⟨fun hd => absurd rfl hd, fun hd => absurd rfl hd, cleanShutdown_concat h.clean (by simp),
    fun hd => absurd rfl hd⟩

theorem outInv_handleRead (h : OutInv sent c) (r : Buffer.ReadvResult) :
    OutInv sent (c.handleRead poller r).1 := by
  unfold handleRead
  have hread : OutInv sent { c with inputBuffer_ := (c.inputBuffer_.readFd r).1 } :=
    ⟨h.interest, h.stream, h.clean, h.short⟩
  dsimp only
  split
  · exact hread
  · exact outInv_handleClose poller hread
  · exact hread

theorem outInv_setState (h : OutInv sent c) (hc : c.state_ ≠ .kDisconnected) (s : StateE) :
    OutInv sent (c.setState s) := h.congr (Or.inr ⟨hc, rfl⟩) rfl rfl

theorem outInv_shutdown (h : OutInv sent c) (inLoopThread : Bool) :
    OutInv sent (c.shutdown inLoopThread) := by
  unfold shutdown
  split
  · rename_i hc
    have hset := outInv_setState h (by simp [hc]) .kDisconnecting
    exact (outInv_shutdownInLoop hset).ite (hset.queueInloop _) _
  · exact h

theorem outInv_forceClose (h : OutInv sent c) : OutInv sent c.forceClose := by
  unfold forceClose
  split
  · rename_i hc
    exact (outInv_setState h (by rcases hc with hc | hc <;> simp [hc]) _).queueInloop _
  · exact h

theorem outInv_forceCloseWithDelay (h : OutInv sent c) : OutInv sent c.forceCloseWithDelay := by
  unfold forceCloseWithDelay
  split
  · rename_i hc
    exact outInv_setState h (by rcases hc with hc | hc <;> simp [hc]) _
  · exact h

theorem outInv_forceCloseInLoop (h : OutInv sent c) :
    OutInv sent (c.forceCloseInLoop poller).1 := by
  unfold forceCloseInLoop
  split
  · exact outInv_handleClose poller h
  · exact h

theorem outInv_connectDestroyed (h : OutInv sent c) :
    OutInv sent (c.connectDestroyed poller).1 := by
  unfold connectDestroyed
  split
  · exact ⟨fun hd => absurd rfl hd, fun hd => absurd rfl hd, h.clean, fun hd => absurd rfl hd⟩
  · exact h

theorem outInv_removeChannel (h : OutInv sent c) :
    OutInv sent { c with loop := Channel.remove poller c.loop () } := by
  refine h.congr ?_ rfl rfl
  by_cases hd : c.state_ = .kDisconnected
  · exact Or.inl hd
  · exact Or.inr ⟨hd, by simp [isWriting, channel_, Channel.isWriting]⟩

/-- Every step but `sendInLoop` keeps the invariant for the same stream. -/
theorem outInv_step_of_silent (h : OutInv sent c) {a : LoopStep}
    (ha : ∀ data r, a ≠ .sendInLoop data r) : OutInv sent (step poller c a) := by
  cases a with
  | sendInLoop data r => exact absurd rfl (ha data r)
  | handleWrite r => exact outInv_handleWrite poller h r
  | handleRead r => exact outInv_handleRead poller h r
  | startReadInLoop => exact outInv_startReadInLoop poller h
  | stopReadInLoop => exact outInv_stopReadInLoop poller h
  | shutdownInLoop => exact outInv_shutdownInLoop h
  | forceCloseInLoop => exact outInv_forceCloseInLoop poller h
  | connectDestroyed => exact outInv_connectDestroyed poller h
  | removeChannel => exact outInv_removeChannel poller h
  | shutdown inLoopThread => exact outInv_shutdown h inLoopThread
  | forceClose => exact outInv_forceClose h
  | forceCloseWithDelay => exact outInv_forceCloseWithDelay h
  | setWriteCompleteCallback => exact ⟨h.interest, h.stream, h.clean, h.short⟩
  | setHighWaterMarkCallback n => exact ⟨h.interest, h.stream, h.clean, h.short⟩

/-- **Every loop-thread step keeps the invariant**, with the message of `sendInLoop` added to the
stream. -/
theorem outInv_step (h : OutInv sent c) (a : LoopStep) :
    OutInv (sent ++ messages [a]) (step poller c a) := by
  by_cases hsend : ∃ data r, a = .sendInLoop data r
  · obtain ⟨data, r, rfl⟩ := hsend
    rw [show messages [.sendInLoop data r] = data by simp [messages]]
    exact outInv_sendInLoop poller h data r
  · push Not at hsend
    have hnone : messages [a] = [] := by
      cases a <;> first | rfl | exact absurd rfl (hsend _ _)
    rw [hnone, List.append_nil]
    exact outInv_step_of_silent poller h hsend

end Steps

/-! ### Whole runs -/

/-- A connection on which `connectEstablished` has just run, over any poller. -/
def established (fd : ℕ) (p : P) : TcpConnection P := ((new fd p).connectEstablished poller).1

theorem outInv_established (fd : ℕ) (p : P) : OutInv [] (established poller fd p) where
  interest _ := by
    unfold Interest
    simp [established, connectEstablished, new, setState, isWriting, channel_, Channel.isWriting,
      Channel.enableReading, Channel.new, Buffer.readable_ofSize, Mask.has]
    decide
  stream _ _ := by
    simp [established, connectEstablished, new, setState, accepted, Buffer.readable_ofSize]
  clean := by simp [established, connectEstablished, new, setState, CleanShutdown]
  short _ hf := by cases hf

/-- **The output is one FIFO stream.**  After every run of loop-thread steps, with every sequence of
results of `write(2)` and whatever the logging does to `errno`: while `state_` is not
`kDisconnected`, the bytes accepted by the kernel followed by the bytes of `outputBuffer_` are the
messages passed to `sendInLoop`, in order, if and only if no direct write of some bytes failed,
other than with `EWOULDBLOCK`, and had `EPIPE` or `ECONNRESET` for its errno after it had been
logged; the channel has write interest exactly when `outputBuffer_` is not empty; and every half
close issued outside `kDisconnected` happened with an empty `outputBuffer_`. -/
theorem output_stream_integrity (fd : ℕ) (p : P) (run : List LoopStep) :
    let c := exec (step poller) (established poller fd p) run
    (c.state_ ≠ .kDisconnected →
      (accepted c.log ++ c.outputBuffer_.readable = messages run ↔ faulted c.log = false)) ∧
    (c.state_ ≠ .kDisconnected → (c.isWriting = true ↔ c.outputBuffer_.readable ≠ [])) ∧
    ∀ st unsent, Event.shutdownWrite st unsent ∈ c.log → st ≠ .kDisconnected → unsent = [] := by
  have h : OutInv (messages run) (exec (step poller) (established poller fd p) run) := by
    refine exec_history (fun run c => OutInv (messages run) c) (outInv_established poller fd p) ?_
      run
    intro run c a hc
    rw [messages_append]
    exact outInv_step poller hc a
  refine ⟨fun hopen => ⟨fun hall => ?_, h.stream hopen⟩, h.interest, h.clean⟩
  by_contra hfault
  have hshort := h.short hopen (Bool.eq_true_of_not_eq_false hfault)
  rw [hall] at hshort
  exact lt_irrefl _ hshort

def ENOBUFS : ℕ := 105

/-- The kernel is short of buffers, standard output is a broken pipe; then the next
message is sent. -/
def brokenLog : List LoopStep :=
  [.sendInLoop [1, 2] (.error ENOBUFS EPIPE), .sendInLoop [3] (.accepted 1)]

/-- **Logging loses a message**: no direct write failed with `EPIPE` or `ECONNRESET`, and the
connection is up; the first message is gone, and the second one is written. -/
theorem logging_loses_message :
    let c := exec (step EPollPoller.impl) (established EPollPoller.impl 7 ⟨.empty, .empty⟩)
      brokenLog
    c.state_ = .kConnected ∧ refused c.log = false ∧
      accepted c.log ++ c.outputBuffer_.readable = [3] ∧ messages brokenLog = [1, 2, 3] := by
  decide

end TcpConnection

end Muduo.Net
