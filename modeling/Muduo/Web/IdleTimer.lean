import Muduo.Net.EventDispatch
import Muduo.Web.TimeWheel

/-!
# The idle timer of the server

A connection owns a weak pointer to its `TimeWheelEntry`; the strong ones are in the slots of the
wheel, in the functors that `insertEntry` queues on the timer's loop, and for a moment in
`onConnection` and `onRequest`, which run on the loop of the connection.  When the last of them
goes, the destructor of the entry shuts the connection down.  `onRequest` calls `lock()` twice: the
first result is dropped before the second call, and between the two the entry may go.

* `expiry` — the tick that drops an insertion; `expiry_tick` — it is the one that clears its slot;
* `Slots`, `slots_step` — after any calls the slots of a wheel hold the insertions that have not
  expired;
* `IdleServer` — the wheel, the queue and the threads of the connections, in every interleaving;
* `wheelOp`, `wheel_step` — the calls that the steps make on the wheel;
* `Pre`, `Inv`, `inv_step` — an entry is there as long as something holds it;
* `entry_alive_iff` — all runs.
-/

namespace Muduo.Web

open Muduo.Lib Muduo.Net

/-! ### The wheel along its calls -/

namespace TimerWheel

/-- `entry` was inserted when the wheel had ticked `t` times. -/
def InsertedAfter {ε : Type*} (entry : ε) (t : ℕ) (ops : List (WheelOp ε)) : Prop :=
  ∃ before after, ops = before ++ .insertEntryInLoop entry :: after ∧ ticks before = t

/-- The number of ticks at which an insertion made after `t` ticks is dropped, on a
wheel of `N` slots. -/
def expiry (N t : ℕ) : ℕ := if t % N = 0 then t + 1 else t + N

/-- The slots hold the insertions that have not expired. -/
structure Slots {ε : Type*} (N : ℕ) (ops : List (WheelOp ε)) (w : TimerWheel ε) : Prop where
  size : w.max_second = N
  cursor : w.next_second = ticks ops % N
  slots : ∀ entry i, i < N → (entry ∈ w.slot i ↔
    ∃ t, InsertedAfter entry t ops ∧ insertIndex (t % N) = i ∧ ticks ops < expiry N t)

theorem lt_expiry {N : ℕ} (hN : 0 < N) (t : ℕ) : t < expiry N t := by
  unfold expiry
  split <;> omega

/-- **The tick at which an insertion is dropped is the one that clears its slot.** -/
theorem expiry_tick {N t T : ℕ} (hN : 0 < N) (hle : t ≤ T) (hlt : T < expiry N t) :
    insertIndex (t % N) = T % N ↔ expiry N t = T + 1 := by
  unfold expiry at hlt ⊢
  split at hlt
  · rename_i hzero
    obtain rfl : T = t := by omega
    simp [hzero, insertIndex_zero]
  · rename_i hpos
    obtain ⟨k, hk⟩ := Nat.exists_eq_succ_of_ne_zero hpos
    obtain ⟨d, rfl⟩ := Nat.exists_eq_add_of_le hle
    have hkN : k + 1 < N := by
      have := Nat.mod_lt t hN
      omega
    rw [if_neg hpos, hk, Nat.succ_eq_add_one, insertIndex_succ, Nat.add_mod, hk,
      Nat.mod_eq_of_lt (show d < N by omega)]
    rcases Nat.lt_or_ge (k.succ + d) N with hsmall | hlarge
    · rw [Nat.mod_eq_of_lt hsmall]
      omega
    · rw [Nat.mod_eq_sub_mod hlarge, Nat.mod_eq_of_lt (show k.succ + d - N < N by omega)]
      omega

section Slots

variable {ε : Type*} {N : ℕ} {ops : List (WheelOp ε)} {w : TimerWheel ε} {entry : ε} {t : ℕ}

theorem ticks_append (ops ops' : List (WheelOp ε)) : ticks (ops ++ ops') = ticks ops + ticks ops' :=
  List.countP_append

theorem InsertedAfter.le (h : InsertedAfter entry t ops) : t ≤ ticks ops := by
  obtain ⟨before, after, rfl, rfl⟩ := h
  rw [ticks_append]
  omega

theorem insertedAfter_concat (op : WheelOp ε) : InsertedAfter entry t (ops ++ [op]) ↔
    InsertedAfter entry t ops ∨ op = .insertEntryInLoop entry ∧ ticks ops = t := by
  constructor
  · rintro ⟨before, after, hops, ht⟩
    rcases List.eq_nil_or_concat after with rfl | ⟨after, last, rfl⟩
    · obtain ⟨rfl, hop⟩ := List.append_inj' hops rfl
      exact Or.inr ⟨List.singleton_inj.mp hop, ht⟩
    · rw [List.concat_eq_append, ← List.cons_append, ← List.append_assoc] at hops
      exact Or.inl ⟨before, after, (List.append_inj' hops rfl).1, ht⟩
  · rintro (⟨before, after, rfl, ht⟩ | ⟨rfl, ht⟩)
    · exact ⟨before, after ++ [op], by rw [List.append_assoc, List.cons_append], ht⟩
    · exact ⟨ops, [], rfl, ht⟩

theorem Slots.pos (h : Slots N ops w) : 0 < N := by
  rw [← h.size]
  exact Nat.zero_lt_of_lt w.cursor

theorem slots_new (n : ℕ) : Slots (n + 1) [] (new (n + 1) n.succ_pos : TimerWheel ε) where
  size := rfl
  cursor := rfl
  slots entry i hi := by
    have hempty : (new (n + 1) n.succ_pos : TimerWheel ε).slot i = [] := by
      show (List.replicate (n + 1) []).getD i [] = []
      simp [List.getD_eq_getElem?_getD, hi]
    rw [hempty]
    simp [InsertedAfter]

theorem Slots.insertEntryInLoop (h : Slots N ops w) (other : ε) :
    Slots N (ops ++ [.insertEntryInLoop other]) (w.insertEntryInLoop other) := by
  have hticks : ticks (ops ++ [.insertEntryInLoop other]) = ticks ops := ticks_append ops _
  refine ⟨h.size, by rw [hticks]; exact h.cursor, fun entry i hi => ?_⟩
  have hold := h.slots entry i hi
  have hslot := slot_insertEntryInLoop w other i
  rw [h.cursor] at hslot
  simp only [insertedAfter_concat, WheelOp.insertEntryInLoop.injEq, hticks]
  rw [hslot]
  by_cases hentry : other = entry
  · -- one more reference, in the slot behind the cursor
    subst hentry
    have hnew := lt_expiry h.pos (ticks ops)
    split
    · rename_i hidx
      subst hidx
      simp only [List.mem_append, List.mem_singleton, or_true, true_iff]
      exact ⟨ticks ops, Or.inr ⟨trivial, rfl⟩, rfl, hnew⟩
    · rename_i hidx
      rw [hold]
      constructor
      · rintro ⟨t, ht, hit, hlt⟩
        exact ⟨t, Or.inl ht, hit, hlt⟩
      · rintro ⟨t, ht | ⟨-, rfl⟩, hit, hlt⟩
        · exact ⟨t, ht, hit, hlt⟩
        · exact absurd hit.symm hidx
  · simp only [hentry, false_and, or_false]
    split
    · rw [List.mem_append, List.mem_singleton, or_iff_left (Ne.symm hentry)]
      exact hold
    · exact hold

theorem Slots.onTimer (h : Slots N ops w) : Slots N (ops ++ [.onTimer]) w.onTimer := by
  have hticks : ticks (ops ++ [.onTimer]) = ticks ops + 1 := ticks_append ops _
  refine ⟨h.size, ?_, fun entry i hi => ?_⟩
  · show (w.next_second + 1) % w.max_second = ticks (ops ++ [.onTimer]) % N
    rw [hticks, h.cursor, h.size, Nat.mod_add_mod]
  · have hslot := slot_onTimer w i
    rw [h.cursor] at hslot
    simp only [insertedAfter_concat, reduceCtorEq, false_and, or_false, hticks]
    rw [hslot]
    by_cases hi' : i = ticks ops % N
    · -- the slot is cleared, and everything in it expires now
      rw [if_pos hi']
      simp only [List.not_mem_nil, false_iff, not_exists, not_and, not_lt]
      intro t ht hit
      by_contra hlate
      have hexp := (expiry_tick h.pos ht.le (by omega)).mp (hit.trans hi')
      omega
    · rw [if_neg hi', h.slots entry i hi]
      refine exists_congr fun t => and_congr_right fun ht => and_congr_right fun hit => ?_
      constructor
      · intro hlt
        have hne : expiry N t ≠ ticks ops + 1 := fun hexp =>
          hi' (hit.symm.trans ((expiry_tick h.pos ht.le hlt).mpr hexp))
        omega
      · intro hlt
        omega

theorem slots_step (ops : List (WheelOp ε)) (w : TimerWheel ε) (op : WheelOp ε)
    (h : Slots N ops w) :
    Slots N (ops ++ [op]) (w.step op) := by
  cases op with
  | onTimer => exact h.onTimer
  | insertEntryInLoop other => exact h.insertEntryInLoop other

/-- An entry is somewhere in the wheel exactly if one of its insertions has not expired. -/
theorem Slots.mem_iff (h : Slots N ops w) (entry : ε) : (∃ i < w.max_second, entry ∈ w.slot i) ↔
    ∃ t, InsertedAfter entry t ops ∧ ticks ops < expiry N t := by
  rw [h.size]
  constructor
  · rintro ⟨i, hi, hslot⟩
    obtain ⟨t, ht, -, hlt⟩ := (h.slots entry i hi).mp hslot
    exact ⟨t, ht, hlt⟩
  · rintro ⟨t, ht, hlt⟩
    have hi : insertIndex (t % N) < N := insertIndex_lt (Nat.mod_lt t h.pos)
    exact ⟨_, hi, (h.slots entry _ hi).mpr ⟨t, ht, rfl, hlt⟩⟩

end Slots

end TimerWheel

/-! ### The server -/

/-- Where the thread of a connection is. -/
inductive EntryPhase where
  | idle
  /-- In `onConnection`, before `insertEntry`: `context` holds the entry. -/
  | created
  /-- Behind `insertEntry`, with a reference that goes at the end of the scope. -/
  | leaving
  /-- In the condition of `onRequest`: the result of the first `lock()` is still there. -/
  | tested
  /-- Before the second `lock()`. -/
  | relock
  /-- In the call of `insertEntry`; the argument may be null. -/
  | calling (entry : Bool)
  deriving DecidableEq

/-- The thread holds a reference. -/
def EntryPhase.holds : EntryPhase → Bool
  | .created | .leaving | .tested | .calling true => true
  | _ => false

structure IdleServer (ι : Type*) where
  /-- The slots hold entries, or null pointers. -/
  wheel : TimerWheel (Option ι)
  run_ : Bool
  /-- The calls of `insertEntryInLoop` queued on the timer's loop. -/
  queue : List (Option ι)
  phase : ι → EntryPhase
  /-- The `TimeWheelEntry` of a connection. -/
  life : ι → ObjectLife
  /-- The `TcpConnection` has not been destroyed. -/
  exists_ : ι → Bool
  /-- How often the destructor of the entry has called `shutdown()`. -/
  shutdowns : ι → ℕ

inductive IdleLabel (ι : Type*) where
  | connect (c : ι)
  /-- `insertEntry`, from the thread of the timer's loop or from another one. -/
  | insert (c : ι) (inLoopThread : Bool)
  | leave (c : ι)
  /-- A request on a connection that is kept: the first `lock()`. -/
  | request (c : ι)
  | drop (c : ι)
  | relock (c : ι)
  /-- The timer's loop runs the next queued insertion. -/
  | functor
  /-- `onTimer`; also after `stop`, as the timer may fire before it is cancelled. -/
  | tick
  | stop
  /-- The `TcpConnection` is destroyed. -/
  | gone (c : ι)

namespace IdleServer

variable {ι : Type*} [DecidableEq ι]

/-- A server with `n + 1` slots whose timer has been started. -/
def init (n : ℕ) : IdleServer ι where
  wheel := .new (n + 1) n.succ_pos
  run_ := true
  queue := []
  phase _ := .idle
  life _ := .unborn
  exists_ _ := false
  shutdowns _ := 0

def setPhase (s : IdleServer ι) (c : ι) (p : EntryPhase) : IdleServer ι :=
  { s with phase := Function.update s.phase c p }

def insertEntryInLoop (s : IdleServer ι) (entry : Option ι) : IdleServer ι :=
  { s with wheel := s.wheel.insertEntryInLoop entry }

def insertEntry (s : IdleServer ι) (entry : Option ι) (inLoopThread : Bool) : IdleServer ι :=
  if s.run_ then
    if inLoopThread then s.insertEntryInLoop entry else { s with queue := s.queue ++ [entry] }
  else s

/-- What a step does before the references it drops are looked at. -/
def act (s : IdleServer ι) : IdleLabel ι → IdleServer ι
  | .connect c =>
      if s.phase c = .idle ∧ s.life c = .unborn then
        { s.setPhase c .created with
          life := Function.update s.life c .alive, exists_ := Function.update s.exists_ c true }
      else s
  | .insert c inLoopThread =>
      match s.phase c with
      | .created => (s.insertEntry (some c) inLoopThread).setPhase c .leaving
      | .calling true => (s.insertEntry (some c) inLoopThread).setPhase c .leaving
      | .calling false => (s.insertEntry none inLoopThread).setPhase c .idle
      | _ => s
  | .leave c => if s.phase c = .leaving then s.setPhase c .idle else s
  | .request c => if s.phase c = .idle ∧ s.life c = .alive then s.setPhase c .tested else s
  | .drop c => if s.phase c = .tested then s.setPhase c .relock else s
  | .relock c => if s.phase c = .relock then s.setPhase c (.calling (s.life c = .alive)) else s
  | .functor =>
      match s.queue with
      | [] => s
      | entry :: rest => ({ s with queue := rest } : IdleServer ι).insertEntryInLoop entry
  | .tick => { s with wheel := s.wheel.onTimer }
  | .stop => { s with run_ := false }
  | .gone c => if s.phase c = .idle then { s with exists_ := Function.update s.exists_ c false }
      else s

/-- Some strong pointer to the entry is left. -/
def held (s : IdleServer ι) (c : ι) : Bool :=
  0 < s.wheel.references (some c) || some c ∈ s.queue || (s.phase c).holds

/-- The destructors of the entries that nothing holds any more. -/
def settle (s : IdleServer ι) : IdleServer ι :=
  { s with
    life := fun c => if s.life c = .alive ∧ s.held c = false then .destroyed else s.life c
    shutdowns := fun c =>
      if s.life c = .alive ∧ s.held c = false ∧ s.exists_ c = true then s.shutdowns c + 1
      else s.shutdowns c }

def step (s : IdleServer ι) (l : IdleLabel ι) : IdleServer ι := (s.act l).settle

/-- The call that a step makes on the wheel. -/
def wheelOp (s : IdleServer ι) : IdleLabel ι → Option (TimerWheel.WheelOp (Option ι))
  | .insert c true =>
      match s.run_, s.phase c with
      | true, .created | true, .calling true => some (.insertEntryInLoop (some c))
      | true, .calling false => some (.insertEntryInLoop none)
      | _, _ => none
  | .functor => s.queue.head?.map .insertEntryInLoop
  | .tick => some .onTimer
  | _ => none

variable {s : IdleServer ι}

theorem wheel_step (s : IdleServer ι) (l : IdleLabel ι) :
    (s.step l).wheel = (s.wheelOp l).elim s.wheel s.wheel.step := by
  show (s.act l).wheel = _
  cases l with
  | insert c inLoopThread =>
      rw [IdleServer.act]
      cases inLoopThread <;> cases hrun : s.run_ <;> split <;>
        simp_all [IdleServer.wheelOp, IdleServer.insertEntry, IdleServer.setPhase,
          IdleServer.insertEntryInLoop, TimerWheel.step]
  | functor =>
      rw [IdleServer.act, IdleServer.wheelOp]
      cases s.queue with
      | nil => rfl
      | cons entry rest => rfl
  | connect c | leave c | request c | drop c | relock c | gone c =>
      rw [IdleServer.act]
      split_ifs <;> rfl
  | tick | stop => rfl

/-! ### The entries -/

/-- What holds before the destructors run. -/
structure Pre (s : IdleServer ι) : Prop where
  alive : ∀ c, s.held c = true → s.life c = .alive
  quiet : ∀ c, s.life c ≠ .destroyed → s.shutdowns c = 0
  once : ∀ c, s.life c = .destroyed → s.shutdowns c ≤ 1 ∧ (s.exists_ c = true → s.shutdowns c = 1)

structure Inv (s : IdleServer ι) : Prop extends Pre s where
  held : ∀ c, s.life c = .alive → s.held c = true

theorem held_iff (s : IdleServer ι) (c : ι) : s.held c = true ↔
    (∃ i < s.wheel.max_second, some c ∈ s.wheel.slot i) ∨ some c ∈ s.queue ∨
    (s.phase c).holds = true := by
  simp only [IdleServer.held, Bool.or_eq_true, decide_eq_true_eq, TimerWheel.references_pos_iff,
    or_assoc]

/-- **The destructors**: afterwards an entry is there exactly if something holds it. -/
theorem Pre.settle (h : Pre s) : Inv s.settle := by
  have hheld : ∀ c, s.settle.held c = s.held c := fun c => rfl
  refine ⟨⟨fun c hc => ?_, fun c hc => ?_, fun c hc => ?_⟩, fun c hc => ?_⟩
  · have hc' : s.held c = true := hc
    show (if s.life c = .alive ∧ s.held c = false then ObjectLife.destroyed else s.life c) = .alive
    rw [if_neg (by simp [hc']), h.alive c hc']
  · by_cases hgo : s.life c = .alive ∧ s.held c = false
    · exact absurd (if_pos hgo) hc
    · have hlife : s.settle.life c = s.life c := if_neg hgo
      rw [hlife] at hc
      show (if s.life c = .alive ∧ s.held c = false ∧
        s.exists_ c = true then _ else s.shutdowns c) = 0
      rw [if_neg fun hall => hgo ⟨hall.1, hall.2.1⟩, h.quiet c hc]
  · by_cases hgo : s.life c = .alive ∧ s.held c = false
    · -- it goes now, and has not been shut down before
      have hzero := h.quiet c (by rw [hgo.1]; decide)
      show (if s.life c = .alive ∧ s.held c = false ∧ s.exists_ c = true then s.shutdowns c + 1
        else s.shutdowns c) ≤ 1 ∧
          (s.exists_ c = true → (if _ then s.shutdowns c + 1 else s.shutdowns c) = 1)
      simp [hgo.1, hgo.2, hzero]
      split <;> omega
    · have hlife : s.settle.life c = s.life c := if_neg hgo
      have hshut : s.settle.shutdowns c = s.shutdowns c := if_neg fun hall => hgo ⟨hall.1, hall.2.1⟩
      rw [hlife] at hc
      rw [hshut]
      exact h.once c hc
  · by_contra hnot
    have hfalse : s.held c = false := Bool.eq_false_iff.mpr hnot
    by_cases hlife : s.life c = .alive
    · have hdead : s.settle.life c = .destroyed := if_pos ⟨hlife, hfalse⟩
      rw [hdead] at hc
      cases hc
    · have hsame : s.settle.life c = s.life c := if_neg fun hall => hlife hall.1
      exact hlife (hsame ▸ hc)

/-! ### One step -/

theorem Pre.alive_of_slot (h : Pre s) {c : ι} {i : ℕ} (hi : i < s.wheel.max_second)
    (hc : some c ∈ s.wheel.slot i) : s.life c = .alive :=
  h.alive c ((held_iff s c).mpr (Or.inl ⟨i, hi, hc⟩))

theorem Pre.alive_of_queued (h : Pre s) {c : ι} (hc : some c ∈ s.queue) : s.life c = .alive :=
  h.alive c ((held_iff s c).mpr (Or.inr (Or.inl hc)))

theorem Pre.alive_of_holds (h : Pre s) {c : ι} (hc : (s.phase c).holds = true) :
    s.life c = .alive :=
  h.alive c ((held_iff s c).mpr (Or.inr (Or.inr hc)))

theorem Pre.setPhase (h : Pre s) {c : ι} {p : EntryPhase} (hp : p.holds = true →
    s.life c = .alive) :
    Pre (s.setPhase c p) := by
  refine ⟨fun d hd => ?_, h.quiet, h.once⟩
  rcases (held_iff _ d).mp hd with ⟨i, hi, hslot⟩ | hqueue | hphase
  · exact h.alive_of_slot hi hslot
  · exact h.alive_of_queued hqueue
  · by_cases hdc : d = c
    · subst hdc
      exact hp (by simpa [IdleServer.setPhase] using hphase)
    · have hsame : (s.setPhase c p).phase d = s.phase d := Function.update_of_ne hdc _ _
      exact h.alive_of_holds (hsame ▸ hphase)

/-- An insertion adds a reference to an entry that is there. -/
theorem Pre.insertEntryInLoop (h : Pre s) {entry : Option ι}
    (he : ∀ c, entry = some c → s.life c = .alive) : Pre (s.insertEntryInLoop entry) := by
  refine ⟨fun d hd => ?_, h.quiet, h.once⟩
  rcases (held_iff _ d).mp hd with ⟨i, hi, hslot⟩ | hqueue | hphase
  · rw [show (s.insertEntryInLoop entry).wheel.slot i = _ from
      TimerWheel.slot_insertEntryInLoop s.wheel entry i] at hslot
    split at hslot
    · rcases List.mem_append.mp hslot with hold | hnew
      · exact h.alive_of_slot hi hold
      · exact he d (List.mem_singleton.mp hnew).symm
    · exact h.alive_of_slot hi hslot
  · exact h.alive_of_queued hqueue
  · exact h.alive_of_holds hphase

/-- Likewise for the queue, which also loses references when its functors run. -/
theorem Pre.setQueue (h : Pre s) {queue : List (Option ι)}
    (hq : ∀ c, some c ∈ queue → s.life c = .alive) : Pre { s with queue := queue } := by
  refine ⟨fun d hd => ?_, h.quiet, h.once⟩
  rcases (held_iff _ d).mp hd with ⟨i, hi, hslot⟩ | hqueue | hphase
  · exact h.alive_of_slot hi hslot
  · exact hq d hqueue
  · exact h.alive_of_holds hphase

theorem Pre.insertEntry (h : Pre s) {entry : Option ι} (he : ∀ c, entry = some c →
    s.life c = .alive) (inLoopThread : Bool) : Pre (s.insertEntry entry inLoopThread) := by
  unfold IdleServer.insertEntry
  split_ifs
  · exact h.insertEntryInLoop he
  · refine h.setQueue fun c hc => ?_
    rcases List.mem_append.mp hc with hold | hnew
    · exact h.alive_of_queued hold
    · exact he c (List.mem_singleton.mp hnew).symm
  · exact h

omit [DecidableEq ι] in
theorem life_insertEntry (s : IdleServer ι) (entry : Option ι) (inLoopThread : Bool) :
    (s.insertEntry entry inLoopThread).life = s.life := by
  unfold IdleServer.insertEntry
  split_ifs <;> rfl

/-- The new entry is held by `context`. -/
theorem Pre.connect (h : Pre s) {c : ι} (hc : s.life c = .unborn) :
    Pre { s.setPhase c .created with
      life := Function.update s.life c .alive, exists_ := Function.update s.exists_ c true } := by
  refine ⟨fun d hd => ?_, fun d hd => ?_, fun d hd => ?_⟩
  · by_cases hdc : d = c
    · subst hdc
      exact Function.update_self ..
    · have hsame : Function.update s.phase c .created d = s.phase d := Function.update_of_ne hdc _ _
      refine (Function.update_of_ne hdc _ _).trans ?_
      rcases (held_iff _ d).mp hd with ⟨i, hi, hslot⟩ | hqueue | hphase
      · exact h.alive_of_slot hi hslot
      · exact h.alive_of_queued hqueue
      · exact h.alive_of_holds (hsame ▸ hphase)
  · by_cases hdc : d = c
    · subst hdc
      exact h.quiet d (by rw [hc]; decide)
    · exact h.quiet d (by simpa [Function.update_of_ne hdc] using hd)
  · by_cases hdc : d = c
    · subst hdc
      simp at hd
    · simpa [Function.update_of_ne hdc, IdleServer.setPhase] using
        h.once d (by simpa [Function.update_of_ne hdc] using hd)

theorem Pre.onTimer (h : Pre s) : Pre { s with wheel := s.wheel.onTimer } := by
  refine ⟨fun d hd => ?_, h.quiet, h.once⟩
  rcases (held_iff _ d).mp hd with ⟨i, hi, hslot⟩ | hqueue | hphase
  · rw [TimerWheel.slot_onTimer] at hslot
    split at hslot
    · cases hslot
    · exact h.alive_of_slot hi hslot
  · exact h.alive_of_queued hqueue
  · exact h.alive_of_holds hphase

theorem Pre.gone (h : Pre s) (c : ι) :
    Pre { s with exists_ := Function.update s.exists_ c false } := by
  refine ⟨h.alive, h.quiet, fun d hd => ⟨(h.once d hd).1, fun hexists => ?_⟩⟩
  by_cases hdc : d = c
  · subst hdc
    simp at hexists
  · exact (h.once d hd).2 (by simpa [Function.update_of_ne hdc] using hexists)

theorem Pre.act (h : Pre s) (l : IdleLabel ι) : Pre (s.act l) := by
  cases l with
  | connect c =>
      rw [IdleServer.act]
      split_ifs with hc
      · exact h.connect hc.2
      · exact h
  | insert c inLoopThread =>
      -- the thread's own reference says that the entry is there
      have hinsert : (s.phase c).holds = true → ∀ p,
          Pre ((s.insertEntry (some c) inLoopThread).setPhase c p) := fun hp p => by
        have halive := h.alive_of_holds hp
        have hpre := h.insertEntry (fun d hd => Option.some.inj hd ▸ halive) inLoopThread
        exact hpre.setPhase fun _ => by rw [life_insertEntry, halive]
      rw [IdleServer.act]
      split
      · exact hinsert (by simp [EntryPhase.holds, *]) _
      · exact hinsert (by simp [EntryPhase.holds, *]) _
      · exact (h.insertEntry (fun d hd => by cases hd) inLoopThread).setPhase fun hp => by cases hp
      · exact h
  | leave c =>
      rw [IdleServer.act]
      split_ifs with hc
      · exact h.setPhase fun hp => by cases hp
      · exact h
  | request c =>
      rw [IdleServer.act]
      split_ifs with hc
      · exact h.setPhase fun _ => hc.2
      · exact h
  | drop c =>
      rw [IdleServer.act]
      split_ifs with hc
      · exact h.setPhase fun hp => by cases hp
      · exact h
  | relock c =>
      rw [IdleServer.act]
      split_ifs with hc
      · refine h.setPhase fun hp => ?_
        by_contra hdead
        simp [EntryPhase.holds, hdead] at hp
      · exact h
  | functor =>
      rw [IdleServer.act]
      split
      · exact h
      · rename_i entry rest hqueue
        have halive : ∀ c, some c ∈ entry :: rest → s.life c = .alive := fun c hc =>
          h.alive_of_queued (hqueue ▸ hc)
        have hrest := h.setQueue fun c hc => halive c (List.mem_cons_of_mem _ hc)
        exact hrest.insertEntryInLoop fun c hc => halive c (hc ▸ List.mem_cons_self)
  | tick => exact h.onTimer
  | stop => exact ⟨h.alive, h.quiet, h.once⟩
  | gone c =>
      rw [IdleServer.act]
      split_ifs with hc
      · exact h.gone c
      · exact h

theorem inv_step (s : IdleServer ι) (l : IdleLabel ι) (h : Inv s) : Inv (s.step l) :=
  (h.toPre.act l).settle

theorem inv_init (n : ℕ) : Inv (init n : IdleServer ι) := by
  refine ⟨⟨fun c hc => ?_, fun c _ => rfl, fun c hc => by cases hc⟩, fun c hc => by cases hc⟩
  rcases (held_iff _ c).mp hc with hwheel | hqueue | hphase
  · obtain ⟨t, ⟨before, after, hops, -⟩, -⟩ := ((TimerWheel.slots_new n).mem_iff (some c)).mp hwheel
    cases before <;> cases hops
  · exact absurd hqueue List.not_mem_nil
  · cases hphase

/-! ### All runs -/

/-- **The idle timer.**  Whatever the threads do, the wheel is the one that the calls of
`insertEntryInLoop` and `onTimer` made in the run leave behind.  The entry of a connection is there
exactly as long as one of its insertions has not expired, one is queued, or the thread of the
connection holds a reference.  An insertion expires when the cursor comes round, `n + 1` ticks
later, but at the next tick if the cursor was at slot 0.  When the entry goes, the connection is
shut down if it still exists: once, and never before. -/
theorem entry_alive_iff (n : ℕ) (ls : List (IdleLabel ι)) (c : ι) :
    let s := exec step (init n) ls
    let ops := outputs step wheelOp (init n) ls
    s.wheel = exec TimerWheel.step (.new (n + 1) n.succ_pos) ops ∧
    (s.life c = .alive ↔
      (∃ t, TimerWheel.InsertedAfter (some c) t ops ∧
        TimerWheel.ticks ops < TimerWheel.expiry (n + 1) t) ∨
      some c ∈ s.queue ∨ (s.phase c).holds = true) ∧
    (s.life c ≠ .destroyed → s.shutdowns c = 0) ∧
    (s.life c = .destroyed → s.shutdowns c ≤ 1 ∧ (s.exists_ c = true → s.shutdowns c = 1)) := by
  intro s ops
  have h : Inv s := exec_invariant Inv inv_step ls (inv_init n)
  have hwheel : s.wheel = exec TimerWheel.step (.new (n + 1) n.succ_pos) ops := by
    refine exec_outputs (fun ops (s : IdleServer ι) =>
      s.wheel = exec TimerWheel.step (.new (n + 1) n.succ_pos) ops) (fun ops s l hs => ?_) rfl ls
    rw [exec_concat_toList, wheel_step, hs]
  have hslots : TimerWheel.Slots (n + 1) ops s.wheel := by
    rw [hwheel]
    exact exec_history (TimerWheel.Slots (n + 1)) (TimerWheel.slots_new n) TimerWheel.slots_step ops
  refine ⟨hwheel, ?_, h.quiet c, h.once c⟩
  rw [← hslots.mem_iff (some c), ← held_iff]
  exact ⟨h.held c, h.alive c⟩

end IdleServer

end Muduo.Web
