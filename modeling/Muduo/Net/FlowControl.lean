import Muduo.Net.TcpConnectionShutdown

/-!
# Flow control

A producer that writes faster than the peer reads stops when `highWaterMarkCallback_` is called and
goes on when `writeCompleteCallback_` is.  The two are queued as functors by `sendInLoop` and
`handleWrite`, so what the producer does follows from the order in which they are queued.

* `paused` — the producer, after the callbacks in the queue have run;
* `Flows`, `flows_step` — what a step does to the bytes that wait and to the callbacks: nothing new,
  a write-complete, or a rise with a callback exactly if the mark is reached;
* `crosses` — the steps at which the bytes that wait reach the mark;
* `flow_control` — the producer, after the queued callbacks, never sleeps on an empty buffer, and
  never runs while the mark is reached.
-/

namespace Muduo.Net

open Muduo.Lib

namespace TcpConnection

/-- A producer that the callbacks stop and start. -/
def producer (paused : Bool) : Functor → Bool
  | .highWaterMarkCallback_ _ => true
  | .writeCompleteCallback_ => false
  | _ => paused

/-- Whether it is stopped when the queued functors have run. -/
def paused (fs : List Functor) : Bool := fs.foldl producer false

/-- The high-water marks in the queue, with the lengths passed to the callback. -/
def highs (fs : List Functor) : List ℕ := fs.filterMap fun
  | .highWaterMarkCallback_ len => some len
  | _ => none

theorem paused_append_quiet (fs : List Functor) {gs : List Functor}
    (h : ∀ f ∈ gs, f.isCallback = false) :
    paused (fs ++ gs) = paused fs := by
  rw [paused, List.foldl_append, ← paused]
  induction gs with
  | nil => rfl
  | cons g gs ih =>
      have hg : producer (paused fs) g = paused fs := by
        have := h g List.mem_cons_self
        cases g <;> first | rfl | cases this
      rw [List.foldl_cons, hg]
      exact ih fun f hf => h f (List.mem_cons_of_mem g hf)

theorem highs_append_quiet (fs : List Functor) {gs : List Functor}
    (h : ∀ f ∈ gs, f.isCallback = false) :
    highs (fs ++ gs) = highs fs := by
  have hnone : highs gs = [] := by
    refine List.filterMap_eq_nil_iff.mpr fun f hf => ?_
    have := h f hf
    cases f <;> first | rfl | cases this
  rw [highs, List.filterMap_append, ← highs, ← highs, hnone, List.append_nil]

variable {P : Type*} (poller : Poller P Unit)

/-- The bytes that wait. -/
def waiting (c : TcpConnection P) : ℕ := c.outputBuffer_.readableBytes

/-- What the producer has set up. -/
def settings (c : TcpConnection P) : ℕ × Bool × Bool :=
  (c.highWaterMark_, c.highWaterMarkCallback_, c.writeCompleteCallback_)

/-- The callbacks are set, with this mark. -/
def Armed (mark : ℕ) (c : TcpConnection P) : Prop := c.settings = (mark, true, true)

/-! ### One step -/

/-- What a step does to the bytes that wait and to the callbacks. -/
inductive Flows (mark : ℕ) (c c' : TcpConnection P) : Prop where
  | quiet (fs : List Functor) : c'.pending = c.pending ++ fs → (∀ f ∈ fs, f.isCallback = false) →
      (c'.waiting = c.waiting ∨ 0 < c'.waiting ∧ c'.waiting ≤ c.waiting) → Flows mark c c'
  | completed : c'.pending = c.pending ++ [.writeCompleteCallback_] → c'.waiting = 0 →
      Flows mark c c'
  | rose : c'.pending = c.pending ++
        (if c.waiting < mark ∧ mark ≤ c'.waiting then [.highWaterMarkCallback_ c'.waiting]
          else []) →
      c.waiting ≤ c'.waiting → 0 < c'.waiting → Flows mark c c'

section Steps

variable {mark : ℕ} {c : TcpConnection P}

/-- The queue and the output buffer are left alone. -/
theorem flows_same {c' : TcpConnection P} (hpending : c'.pending = c.pending)
    (hout : c'.outputBuffer_ = c.outputBuffer_) : Flows mark c c' := by
  refine .quiet [] ?_ (fun _ hf => absurd hf List.not_mem_nil) (Or.inl ?_)
  · rw [hpending, List.append_nil]
  · rw [waiting, waiting, hout]

theorem flows_refl (mark : ℕ) (c : TcpConnection P) : Flows mark c c := flows_same rfl rfl

/-- Another functor is queued. -/
theorem flows_queueInloop {c' : TcpConnection P} {f : Functor}
    (hpending : c'.pending = c.pending ++ [f])
    (hf : f.isCallback = false) (hout : c'.outputBuffer_ = c.outputBuffer_) : Flows mark c c' := by
  refine .quiet [f] hpending (fun g hg => ?_) (Or.inl ?_)
  · rw [List.mem_singleton.mp hg, hf]
  · rw [waiting, waiting, hout]

theorem waiting_appendOutput (c : TcpConnection P) (rest : List Byte) :
    (c.appendOutput poller rest).waiting = c.waiting + rest.length := by
  rw [waiting, waiting, Buffer.readableBytes_eq, appendOutput_readable, List.length_append,
    Buffer.readableBytes_eq]

theorem pending_appendOutput (h : Armed mark c) (rest : List Byte) :
    (c.appendOutput poller rest).pending = c.pending ++
      if c.waiting < mark ∧ mark ≤ c.waiting + rest.length then
        [.highWaterMarkCallback_ (c.waiting + rest.length)] else [] := by
  obtain ⟨hmark, hhigh, -⟩ : c.highWaterMark_ = mark ∧ c.highWaterMarkCallback_ = true ∧ _ := by
    simpa [Armed, settings] using h
  have hqueue : (c.appendOutput poller rest).pending =
      if mark ≤ c.waiting + rest.length ∧ c.waiting < mark then
        c.pending ++ [.highWaterMarkCallback_ (c.waiting + rest.length)] else c.pending := by
    unfold appendOutput waiting
    dsimp only
    rw [hmark, hhigh]
    simp only [and_true]
    split_ifs <;> rfl
  rw [hqueue]
  split_ifs with h₁ h₂ h₂
  · rfl
  · exact absurd ⟨h₁.2, h₁.1⟩ h₂
  · exact absurd ⟨h₂.2, h₂.1⟩ h₁
  · exact (List.append_nil _).symm

theorem flows_appendOutput (h : Armed mark c) {rest : List Byte} (hrest : rest ≠ []) :
    Flows mark c (c.appendOutput poller rest) := by
  have hlen := waiting_appendOutput poller c rest
  have hpos := List.length_pos_of_ne_nil hrest
  refine .rose ?_ (by omega) (by omega)
  rw [hlen]
  exact pending_appendOutput poller h rest

/-- An entry on the log changes nothing. -/
theorem Flows.of_record {e : Event} {c' : TcpConnection P} (h : Flows mark (c.record e) c') :
    Flows mark c c' := by
  cases h with
  | quiet fs hpending hfs hlen => exact .quiet fs hpending hfs hlen
  | completed hpending hlen => exact .completed hpending hlen
  | rose hpending hle hpos => exact .rose hpending hle hpos

theorem flows_sendInLoop (h : Armed mark c) (data : List Byte) (r : WriteResult) :
    Flows mark c (c.sendInLoop poller data r) := by
  obtain ⟨-, -, hwc⟩ : c.highWaterMark_ = mark ∧ c.highWaterMarkCallback_ = true ∧
      c.writeCompleteCallback_ = true := by
    simpa [Armed, settings] using h
  have hne : ∀ {k : ℕ}, 0 < data.length - k → data.drop k ≠ [] := fun hk hnil => by
    rw [List.drop_eq_nil_iff] at hnil
    omega
  unfold sendInLoop
  split
  · exact flows_refl mark c
  by_cases hdirect : (!c.isWriting && c.outputBuffer_.readableBytes == 0) = true
  · have hzero : c.waiting = 0 := beq_iff_eq.mp (Bool.and_eq_true_iff.mp hdirect).2
    rw [if_pos hdirect]
    cases r with
    | accepted n =>
        dsimp only [writeDirectly]
        by_cases hall : data.length - min n data.length = 0
        · -- the whole message is out
          have hcomplete :
              Flows mark c ((c.record (.write true (data.take (min n data.length)))).queueInloop
                .writeCompleteCallback_) := .completed rfl hzero
          simpa [hall, hwc, record] using hcomplete
        · have hrest := flows_appendOutput poller
            (c := c.record (.write true (data.take (min n data.length)))) h
            (hne (Nat.pos_of_ne_zero hall))
          simpa [hall, Nat.pos_of_ne_zero hall] using hrest.of_record
    | error errno logged =>
        dsimp only [writeDirectly]
        split_ifs with hrem
        · have hpos : 0 < data.length - 0 := by simpa using (Bool.and_eq_true_iff.mp hrem).2
          exact (flows_appendOutput poller
            (c := c.record (.writeError true data.length errno logged)) h (hne hpos)).of_record
        · exact flows_same rfl rfl
  · -- bytes wait already
    rw [if_neg hdirect]
    dsimp only
    split_ifs with hrem
    · exact flows_appendOutput poller h (hne (by simpa using hrem))
    · exact flows_refl mark c

theorem flows_outputDrained (hwc : c.writeCompleteCallback_ = true) (hempty : c.waiting = 0) :
    (c.outputDrained poller).pending = c.pending ++ [.writeCompleteCallback_] ∧
      (c.outputDrained poller).waiting = 0 := by
  have hout : (c.outputDrained poller).pending = c.pending ++ [.writeCompleteCallback_] ∧
      (c.outputDrained poller).outputBuffer_ = c.outputBuffer_ := by
    unfold outputDrained shutdownInLoop
    dsimp only
    simp only [if_pos hwc]
    split_ifs <;> exact ⟨rfl, rfl⟩
  refine ⟨hout.1, ?_⟩
  rw [waiting, hout.2]
  exact hempty

theorem flows_handleWrite (h : Armed mark c) (r : WriteResult) :
    Flows mark c (c.handleWrite poller r) := by
  obtain ⟨-, -, hwc⟩ : c.highWaterMark_ = mark ∧ c.highWaterMarkCallback_ = true ∧
      c.writeCompleteCallback_ = true := by
    simpa [Armed, settings] using h
  unfold handleWrite
  split
  swap
  · exact flows_refl mark c
  cases r with
  | error errno logged => exact flows_same rfl rfl
  | accepted k =>
      dsimp only
      generalize hn : min k c.outputBuffer_.readable.length = n
      have hlen : (c.outputBuffer_.retrieve n).readableBytes = c.waiting - n := by
        rw [waiting, Buffer.readableBytes_eq, Buffer.readable_retrieve, List.length_drop,
          Buffer.readableBytes_eq]
      split_ifs with hpos hall
      · -- the last byte is out
        obtain ⟨hpending, hempty⟩ := flows_outputDrained poller
          (c := { c.record (.write false (c.outputBuffer_.readable.take n)) with
            outputBuffer_ := c.outputBuffer_.retrieve n }) hwc hall
        exact .completed hpending hempty
      · refine .quiet [] (List.append_nil _).symm (fun _ hf => absurd hf List.not_mem_nil)
          (Or.inr ⟨?_, ?_⟩)
        · exact Nat.pos_of_ne_zero hall
        · exact hlen.trans_le (Nat.sub_le ..)
      · exact flows_same rfl rfl

theorem flows_handleClose (mark : ℕ) (c : TcpConnection P) :
    Flows mark c (c.handleClose poller).1 :=
  flows_same rfl rfl

/-- **What a step does.** -/
theorem flows_step (h : Armed mark c) (a : LoopStep) : Flows mark c (step poller c a) := by
  cases a with
  | sendInLoop data r => exact flows_sendInLoop poller h data r
  | handleWrite r => exact flows_handleWrite poller h r
  | handleRead r =>
      show Flows mark c (c.handleRead poller r).1
      unfold handleRead
      dsimp only
      split <;> exact flows_same rfl rfl
  | startReadInLoop =>
      show Flows mark c (c.startReadInLoop poller)
      unfold startReadInLoop
      split_ifs
      · exact flows_same rfl rfl
      · exact flows_refl mark c
  | stopReadInLoop =>
      show Flows mark c (c.stopReadInLoop poller)
      unfold stopReadInLoop
      split_ifs
      · exact flows_same rfl rfl
      · exact flows_refl mark c
  | shutdownInLoop =>
      show Flows mark c c.shutdownInLoop
      unfold shutdownInLoop
      split_ifs
      · exact flows_refl mark c
      · exact flows_same rfl rfl
  | forceCloseInLoop =>
      show Flows mark c (c.forceCloseInLoop poller).1
      unfold forceCloseInLoop
      split_ifs
      · exact flows_handleClose poller mark c
      · exact flows_refl mark c
  | connectDestroyed =>
      show Flows mark c (c.connectDestroyed poller).1
      unfold connectDestroyed
      split_ifs
      · exact flows_same rfl rfl
      · exact flows_refl mark c
  | removeChannel => exact flows_same rfl rfl
  | shutdown inLoopThread =>
      show Flows mark c (c.shutdown inLoopThread)
      unfold shutdown shutdownInLoop
      dsimp only
      split_ifs
      · exact flows_same rfl rfl
      · exact flows_same rfl rfl
      · exact flows_queueInloop rfl rfl rfl
      · exact flows_refl mark c
  | forceClose =>
      show Flows mark c c.forceClose
      unfold forceClose
      split_ifs
      · exact flows_queueInloop rfl rfl rfl
      · exact flows_refl mark c
  | forceCloseWithDelay =>
      show Flows mark c c.forceCloseWithDelay
      unfold forceCloseWithDelay
      split_ifs
      · exact flows_same rfl rfl
      · exact flows_refl mark c
  | setWriteCompleteCallback => exact flows_same rfl rfl
  | setHighWaterMarkCallback n => exact flows_same rfl rfl

/-- The step sets the mark. -/
def LoopStep.setsMark : LoopStep → Bool
  | .setHighWaterMarkCallback _ => true
  | _ => false

theorem settings_sendInLoop (c : TcpConnection P) (data : List Byte) (r : WriteResult) :
    (c.sendInLoop poller data r).settings = c.settings := by
  unfold sendInLoop appendOutput
  cases r <;>
  · dsimp only [writeDirectly]
    split_ifs <;> rfl

theorem settings_shutdownInLoop (c : TcpConnection P) : c.shutdownInLoop.settings = c.settings := by
  unfold shutdownInLoop
  split_ifs <;> rfl

theorem settings_handleWrite (c : TcpConnection P) (r : WriteResult) :
    (c.handleWrite poller r).settings = c.settings := by
  unfold handleWrite outputDrained shutdownInLoop
  cases r <;>
  · dsimp only
    split_ifs <;> rfl

theorem armed_step (h : Armed mark c) {a : LoopStep} (ha : a.setsMark = false) :
    Armed mark (step poller c a) := by
  cases a with
  | sendInLoop data r => exact (settings_sendInLoop poller c data r).trans h
  | handleWrite r => exact (settings_handleWrite poller c r).trans h
  | handleRead r =>
      refine Eq.trans ?_ h
      show (c.handleRead poller r).1.settings = c.settings
      unfold handleRead
      dsimp only
      split <;> rfl
  | startReadInLoop =>
      refine Eq.trans ?_ h
      show (c.startReadInLoop poller).settings = c.settings
      unfold startReadInLoop
      split_ifs <;> rfl
  | stopReadInLoop =>
      refine Eq.trans ?_ h
      show (c.stopReadInLoop poller).settings = c.settings
      unfold stopReadInLoop
      split_ifs <;> rfl
  | shutdownInLoop => exact (settings_shutdownInLoop c).trans h
  | forceCloseInLoop =>
      refine Eq.trans ?_ h
      show (c.forceCloseInLoop poller).1.settings = c.settings
      unfold forceCloseInLoop
      split_ifs <;> rfl
  | connectDestroyed =>
      refine Eq.trans ?_ h
      show (c.connectDestroyed poller).1.settings = c.settings
      unfold connectDestroyed
      split_ifs <;> rfl
  | removeChannel => exact h
  | shutdown inLoopThread =>
      refine Eq.trans ?_ h
      show (c.shutdown inLoopThread).settings = c.settings
      unfold shutdown shutdownInLoop
      dsimp only
      split_ifs <;> rfl
  | forceClose =>
      refine Eq.trans ?_ h
      show c.forceClose.settings = c.settings
      unfold forceClose
      split_ifs <;> rfl
  | forceCloseWithDelay =>
      refine Eq.trans ?_ h
      show c.forceCloseWithDelay.settings = c.settings
      unfold forceCloseWithDelay
      split_ifs <;> rfl
  | setWriteCompleteCallback =>
      simp only [Armed, settings, Prod.mk.injEq] at h
      simp only [Armed, settings, step, setWriteCompleteCallback, h.1, h.2.1]
  | setHighWaterMarkCallback n => cases ha

/-! ### The producer -/

/-- The bytes that wait reach the mark, and how many they are then. -/
def crosses (mark : ℕ) (c : TcpConnection P) (a : LoopStep) : Option ℕ :=
  if c.waiting < mark ∧ mark ≤ (step poller c a).waiting then some (step poller c a).waiting
  else none

theorem Flows.highs_eq {c' : TcpConnection P} (h : Flows mark c c') :
    highs c'.pending = highs c.pending ++
      if c.waiting < mark ∧ mark ≤ c'.waiting then [c'.waiting] else [] := by
  cases h with
  | quiet fs hpending hfs hlen =>
      rw [hpending, highs_append_quiet c.pending hfs, if_neg (by omega), List.append_nil]
  | completed hpending hlen =>
      rw [hpending, if_neg (by omega)]
      simp [highs]
  | rose hpending hle hpos =>
      rw [hpending]
      split_ifs <;> simp [highs]

/-- The producer is stopped while the mark is reached, and runs while nothing waits. -/
structure Steered (mark : ℕ) (c : TcpConnection P) : Prop where
  stops : mark ≤ c.waiting → paused c.pending = true
  runs : c.waiting = 0 → paused c.pending = false

theorem Flows.steered {c' : TcpConnection P} (hmark : 0 < mark) (h : Flows mark c c')
    (hs : Steered mark c) :
    Steered mark c' := by
  cases h with
  | quiet fs hpending hfs hlen =>
      constructor
      · intro hge
        rw [hpending, paused_append_quiet c.pending hfs]
        exact hs.stops (by omega)
      · intro hzero
        rw [hpending, paused_append_quiet c.pending hfs]
        exact hs.runs (by omega)
  | completed hpending hlen =>
      constructor
      · intro hge
        omega
      · intro _
        rw [hpending, paused, List.foldl_concat]
        rfl
  | rose hpending hle hpos =>
      constructor
      · intro hge
        rw [hpending]
        split_ifs with hcross
        · rw [paused, List.foldl_concat]
          rfl
        · rw [List.append_nil]
          exact hs.stops (by omega)
      · intro hzero
        omega

theorem highs_step (h : Armed mark c) (a : LoopStep) :
    highs (step poller c a).pending = highs c.pending ++ (crosses poller mark c a).toList := by
  rw [(flows_step poller h a).highs_eq, crosses]
  split_ifs <;> rfl

end Steps

/-- A connection whose user has set both callbacks. -/
def withCallbacks (fd : ℕ) (p : P) (mark : ℕ) : TcpConnection P :=
  ((established poller fd p).setWriteCompleteCallback).setHighWaterMarkCallback mark

/-- **Flow control.**  On a connection with both callbacks and a positive mark, in every run that
leaves the mark alone: `highWaterMarkCallback_` is queued exactly at the steps at which the bytes
that wait reach the mark, with their number.  A producer that these callbacks stop and
`writeCompleteCallback_` starts again, looked at when the callbacks queued so far have run, is
stopped whenever the mark is reached, and runs whenever nothing waits. -/
theorem flow_control (fd : ℕ) (p : P) (mark : ℕ) (hmark : 0 < mark) (run : List LoopStep)
    (hrun : ∀ a ∈ run, a.setsMark = false) :
    let c := exec (step poller) (withCallbacks poller fd p mark) run
    highs c.pending = outputs (step poller) (crosses poller mark) (withCallbacks poller fd p mark)
      run ∧
    (mark ≤ c.outputBuffer_.readableBytes → paused c.pending = true) ∧
    (c.outputBuffer_.readableBytes = 0 → paused c.pending = false) := by
  intro c
  have hinit : Armed mark (withCallbacks poller fd p mark) := rfl
  have hempty : (withCallbacks poller fd p mark).waiting = 0 := by
    show (Buffer.ofSize kInitialSize).readableBytes = 0
    rw [Buffer.readableBytes_eq, Buffer.readable_ofSize, List.length_nil]
  have hstart : Steered mark (withCallbacks poller fd p mark) := ⟨fun hge => by omega, fun _ => rfl⟩
  have hall : Armed mark c ∧ Steered mark c ∧ highs c.pending =
      outputs (step poller) (crosses poller mark) (withCallbacks poller fd p mark) run := by
    refine along_outputs (fun lens c => Armed mark c ∧ Steered mark c ∧ highs c.pending = lens) ?_
      ⟨hinit, hstart, rfl⟩ (along_of_forall_mem hrun)
    rintro lens c a ⟨harmed, hsteered, rfl⟩ ha
    exact ⟨armed_step poller harmed ha, (flows_step poller harmed a).steered hmark hsteered,
      highs_step poller harmed a⟩
  exact ⟨hall.2.2, hall.2.1.stops, hall.2.1.runs⟩

/-- A peer that takes nothing at first: three bytes wait, past a mark of two, and
are then written. -/
def slowPeer : List LoopStep :=
  [.sendInLoop [1, 2, 3] (.error EWOULDBLOCK EWOULDBLOCK), .handleWrite (.accepted 2),
    .handleWrite (.accepted 1)]

theorem flow_control_slowPeer :
    highs (exec (step EPollPoller.impl) (withCallbacks EPollPoller.impl 7 ⟨.empty, .empty⟩ 2)
      slowPeer).pending = [3] ∧
    paused (exec (step EPollPoller.impl) (withCallbacks EPollPoller.impl 7 ⟨.empty, .empty⟩ 2)
      slowPeer).pending = false := by
  have h := flow_control EPollPoller.impl 7 ⟨.empty, .empty⟩ 2 (by decide) slowPeer (by decide)
  exact ⟨h.1.trans (by decide +kernel), h.2.2 (by decide +kernel)⟩

end TcpConnection

end Muduo.Net
