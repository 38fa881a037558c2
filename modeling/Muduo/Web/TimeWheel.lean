import Muduo.Lib.Runs

/-!
# The idle timeout of `TimerWheel`

A wheel of `max_second` slots with a cursor `next_second`.  Every second `onTimer` clears the
slot at the cursor and moves on; `insertEntryInLoop` puts a reference to a connection's entry
into the slot behind the cursor.  When the last reference to an entry goes, its destructor
shuts the connection down.

* `lifetime w i` — the number of ticks slot `i` survives;
* `mem_slot_run` — what is in a slot after a run, from the lifetime;
* `idle_timeout_iff` — an inserted entry is kept for exactly `max_second - 1` ticks and dropped by
  the next one, if and only if the cursor was not 0 at the insertion.

At cursor 0 the slot behind it is the last one, but the code adds 1 instead of `max_second` to the
negative index and takes slot 0, which is the very next one to be cleared.
-/

namespace Muduo.Web

open Muduo.Lib

/-- `max_second` is the number of slots, and the cursor points into the wheel. -/
structure TimerWheel (ε : Type*) where
  max_second : ℕ
  next_second : ℕ
  wheel_ : List (List ε)
  size : wheel_.length = max_second
  cursor : next_second < max_second

namespace TimerWheel

variable {ε : Type*}

/-- The constructor. -/
def new (second : ℕ) (h : 0 < second) : TimerWheel ε where
  max_second := second
  next_second := 0
  wheel_ := List.replicate second []
  size := List.length_replicate
  cursor := h

def onTimer (w : TimerWheel ε) : TimerWheel ε where
  max_second := w.max_second
  next_second := (w.next_second + 1) % w.max_second
  wheel_ := w.wheel_.set w.next_second []
  size := by rw [List.length_set, w.size]
  cursor := Nat.mod_lt _ (Nat.zero_lt_of_lt w.cursor)

/-- The slot `insertEntryInLoop` uses, computed on `int` as in the source. -/
def insertIndex (next_second : ℕ) : ℕ :=
  let next : ℤ := next_second - 1
  (if next < 0 then next + 1 else next).toNat

def insertEntryInLoop (w : TimerWheel ε) (entry : ε) : TimerWheel ε where
  max_second := w.max_second
  next_second := w.next_second
  wheel_ := w.wheel_.modify (insertIndex w.next_second) (· ++ [entry])
  size := by rw [List.length_modify, w.size]
  cursor := w.cursor

inductive WheelOp (ε : Type*) where
  | onTimer
  | insertEntryInLoop (entry : ε)
  deriving DecidableEq

def step (w : TimerWheel ε) : WheelOp ε → TimerWheel ε
  | .onTimer => w.onTimer
  | .insertEntryInLoop entry => w.insertEntryInLoop entry

def ticks (run : List (WheelOp ε)) : ℕ := run.countP fun
  | .onTimer => true
  | _ => false

/-- The contents of slot `i`. -/
def slot (w : TimerWheel ε) (i : ℕ) : List ε := w.wheel_.getD i []

/-- The references the wheel holds to an entry. -/
def references [DecidableEq ε] (w : TimerWheel ε) (entry : ε) : ℕ := w.wheel_.flatten.count entry

/-- How many ticks slot `i` survives. -/
def lifetime (w : TimerWheel ε) (i : ℕ) : ℕ := (i + w.max_second - w.next_second) % w.max_second

/-! ### One operation -/

theorem insertIndex_zero : insertIndex 0 = 0 := rfl

theorem insertIndex_succ (n : ℕ) : insertIndex (n + 1) = n := by
  have hpos : ¬ ((n + 1 : ℕ) : ℤ) - 1 < 0 := by omega
  simp only [insertIndex, if_neg hpos]
  omega

theorem insertIndex_lt {n N : ℕ} (h : n < N) : insertIndex n < N := by
  cases n with
  | zero => exact h
  | succ n =>
      rw [insertIndex_succ]
      omega

theorem slot_onTimer (w : TimerWheel ε) (i : ℕ) :
    w.onTimer.slot i = if i = w.next_second then [] else w.slot i := by
  have hlen : w.next_second < w.wheel_.length := w.size ▸ w.cursor
  show (w.wheel_.set w.next_second []).getD i [] = _
  rw [List.getD_eq_getElem?_getD, List.getElem?_set]
  by_cases hi : i = w.next_second
  · subst hi
    simp [hlen]
  · rw [if_neg (fun h => hi h.symm), if_neg hi, slot, List.getD_eq_getElem?_getD]

theorem slot_insertEntryInLoop (w : TimerWheel ε) (entry : ε) (i : ℕ) :
    (w.insertEntryInLoop entry).slot i =
      if i = insertIndex w.next_second then w.slot i ++ [entry] else w.slot i := by
  have hlen : insertIndex w.next_second < w.wheel_.length := w.size ▸ insertIndex_lt w.cursor
  show (w.wheel_.modify (insertIndex w.next_second) (· ++ [entry])).getD i [] = _
  rw [List.getD_eq_getElem?_getD, List.getElem?_modify]
  by_cases hi : i = insertIndex w.next_second
  · subst hi
    simp [slot, List.getElem?_eq_getElem hlen, List.getD_eq_getElem?_getD]
  · rw [if_neg hi, slot, List.getD_eq_getElem?_getD]
    simp [Ne.symm hi]

theorem references_pos_iff [DecidableEq ε] (w : TimerWheel ε) (entry : ε) :
    0 < w.references entry ↔ ∃ i < w.max_second, entry ∈ w.slot i := by
  rw [references, List.count_pos_iff, List.mem_flatten, ← w.size]
  constructor
  · rintro ⟨l, hl, he⟩
    obtain ⟨i, hi, rfl⟩ := List.getElem_of_mem hl
    exact ⟨i, hi, by rwa [slot, List.getD_eq_getElem _ _ hi]⟩
  · rintro ⟨i, hi, he⟩
    rw [slot, List.getD_eq_getElem _ _ hi] at he
    exact ⟨_, List.getElem_mem hi, he⟩

/-- A tick shortens every lifetime by one and renews the slot it clears. -/
theorem lifetime_onTimer (w : TimerWheel ε) {i : ℕ} (hi : i < w.max_second)
    (hne : i ≠ w.next_second) : w.onTimer.lifetime i + 1 = w.lifetime i := by
  have hc := w.cursor
  show (i + w.max_second - (w.next_second + 1) % w.max_second) % w.max_second + 1 =
    (i + w.max_second - w.next_second) % w.max_second
  rcases Nat.lt_or_gt_of_ne hne with hlt | hgt
  · rcases Nat.lt_or_ge (w.next_second + 1) w.max_second with hn | hn
    · rw [Nat.mod_eq_of_lt hn, Nat.mod_eq_of_lt (show _ < w.max_second by omega),
        Nat.mod_eq_of_lt (show _ < w.max_second by omega)]
      omega
    · rw [show w.next_second + 1 = w.max_second by omega, Nat.mod_self, Nat.sub_zero,
        Nat.add_mod_right, Nat.mod_eq_of_lt hi, Nat.mod_eq_of_lt (show _ < w.max_second by omega)]
      omega
  · rw [Nat.mod_eq_of_lt (show w.next_second + 1 < w.max_second by omega),
      show i + w.max_second - w.next_second = (i - w.next_second) + w.max_second by omega,
      show i + w.max_second - (w.next_second + 1) = (i - w.next_second - 1) + w.max_second by omega,
      Nat.add_mod_right, Nat.add_mod_right, Nat.mod_eq_of_lt (show _ < w.max_second by omega),
      Nat.mod_eq_of_lt (show _ < w.max_second by omega)]
    omega

theorem lifetime_cursor (w : TimerWheel ε) : w.lifetime w.next_second = 0 := by
  rw [lifetime, Nat.add_sub_cancel_left, Nat.mod_self]

theorem lifetime_lt (w : TimerWheel ε) (i : ℕ) : w.lifetime i < w.max_second :=
  Nat.mod_lt _ (Nat.zero_lt_of_lt w.cursor)

/-! ### Whole runs -/

theorem max_second_exec (w : TimerWheel ε) (run : List (WheelOp ε)) :
    (exec step w run).max_second = w.max_second := by
  refine exec_invariant (fun v : TimerWheel ε => v.max_second = w.max_second) ?_ run rfl
  intro v op hv
  cases op <;> exact hv

/-- **What a run leaves in a slot.**  An entry that is not inserted again is in slot `i` exactly if
it was there and the slot has outlived the ticks of the run. -/
theorem mem_slot_run {w : TimerWheel ε} {entry : ε} {run : List (WheelOp ε)}
    (hrun : .insertEntryInLoop entry ∉ run) {i : ℕ} (hi : i < w.max_second) :
    entry ∈ (exec step w run).slot i ↔ entry ∈ w.slot i ∧ ticks run ≤ w.lifetime i := by
  induction run generalizing w with
  | nil => simp [ticks]
  | cons op run ih =>
      rw [List.mem_cons, not_or] at hrun
      have hi' : i < (w.step op).max_second := by
        cases op <;> exact hi
      rw [exec_cons, ih hrun.2 hi']
      cases op with
      | onTimer =>
          show entry ∈ w.onTimer.slot i ∧ ticks run ≤ w.onTimer.lifetime i ↔ _
          rw [show ticks (.onTimer :: run) = ticks run + 1 from List.countP_cons_of_pos rfl,
            slot_onTimer]
          by_cases hc : i = w.next_second
          · rw [if_pos hc, hc, lifetime_cursor]
            simp
          · rw [if_neg hc, ← lifetime_onTimer w hi hc, Nat.succ_le_succ_iff]
      | insertEntryInLoop other =>
          show entry ∈ (w.insertEntryInLoop other).slot i ∧ ticks run ≤ w.lifetime i ↔ _
          have hne : entry ≠ other := fun h => hrun.1 (h ▸ rfl)
          have hmem : entry ∈ (w.insertEntryInLoop other).slot i ↔ entry ∈ w.slot i := by
            rw [slot_insertEntryInLoop]
            split <;> simp [hne]
          rw [hmem, show ticks (.insertEntryInLoop other :: run) = ticks run from
            List.countP_cons_of_neg (by simp)]

/-- The last slot is never used. -/
theorem slot_last_run {N : ℕ} (hN : 2 ≤ N) (run : List (WheelOp ε)) :
    (exec step (new N (by omega) : TimerWheel ε) run).slot (N - 1) = [] := by
  have h : ∀ (v : TimerWheel ε) op, v.max_second = N ∧ v.slot (N - 1) = [] →
      (v.step op).max_second = N ∧ (v.step op).slot (N - 1) = [] := by
    rintro v op ⟨hm, hs⟩
    cases op with
    | onTimer =>
        refine ⟨hm, ?_⟩
        show v.onTimer.slot (N - 1) = []
        rw [slot_onTimer, hs, ite_self]
    | insertEntryInLoop entry =>
        refine ⟨hm, ?_⟩
        show (v.insertEntryInLoop entry).slot (N - 1) = []
        have hc := v.cursor
        have hne : N - 1 ≠ insertIndex v.next_second := by
          cases hn : v.next_second with
          | zero =>
              rw [insertIndex_zero]
              omega
          | succ n =>
              rw [insertIndex_succ]
              omega
        rw [slot_insertEntryInLoop, if_neg hne, hs]
  refine (exec_invariant (fun v : TimerWheel ε => v.max_second = N ∧ v.slot (N - 1) = []) h run
    ?_).2
  refine ⟨rfl, ?_⟩
  show (List.replicate N []).getD (N - 1) [] = []
  simp [List.getD_eq_getElem?_getD, show N - 1 < N by omega]

section Timeout

variable [DecidableEq ε]

/-- **The idle timeout is uniform except at cursor 0.**  For every wheel of at least two
slots, every history and every entry: the references of an entry inserted now are all dropped
by exactly the `N`-th tick after its last insertion, in every continuation, if and only if
the cursor is not 0. -/
theorem idle_timeout_iff (N : ℕ) (hN : 2 ≤ N) (before : List (WheelOp ε)) (entry : ε) :
    let w := exec step (new N (by omega) : TimerWheel ε) before
    (∀ after, .insertEntryInLoop entry ∉ after →
      (0 < (exec step (w.insertEntryInLoop entry) after).references entry ↔ ticks after < N)) ↔
    w.next_second ≠ 0 := by
  intro w
  have hmax : w.max_second = N := max_second_exec _ before
  have hc := w.cursor
  -- the entry's references after a run are the slots that outlive it
  have hrefs : ∀ after, .insertEntryInLoop entry ∉ after →
      (0 < (exec step (w.insertEntryInLoop entry) after).references entry ↔
        ∃ i < N, entry ∈ (w.insertEntryInLoop entry).slot i ∧ ticks after ≤ w.lifetime i) := by
    intro after hafter
    rw [references_pos_iff, max_second_exec,
      show (w.insertEntryInLoop entry).max_second = N from hmax]
    refine exists_congr fun i => and_congr_right fun hi => ?_
    exact mem_slot_run hafter (show i < w.max_second from hmax ▸ hi)
  constructor
  · intro h hzero
    -- from cursor 0 the last slot lives longest, and it is empty: one tick too few
    have hticks : ticks (List.replicate (N - 1) (WheelOp.onTimer : WheelOp ε)) = N - 1 := by
      simp [ticks, List.countP_replicate]
    have hno : WheelOp.insertEntryInLoop entry ∉ List.replicate (N - 1)
        (WheelOp.onTimer : WheelOp ε) := by
      simp [List.mem_replicate]
    obtain ⟨i, hi, hmem, hlife⟩ := (hrefs _ hno).mp ((h _ hno).mpr (by omega))
    rw [hticks, lifetime, hzero, Nat.sub_zero, hmax, Nat.add_mod_right,
      Nat.mod_eq_of_lt hi] at hlife
    obtain rfl : i = N - 1 := by omega
    rw [slot_insertEntryInLoop, if_neg (by rw [hzero, insertIndex_zero]; omega)] at hmem
    rw [show w.slot (N - 1) = [] from slot_last_run hN before] at hmem
    exact absurd hmem List.not_mem_nil
  · intro hpos after hafter
    rw [hrefs after hafter]
    constructor
    · rintro ⟨i, -, -, hlife⟩
      have := w.lifetime_lt i
      omega
    · intro ht
      -- the slot behind the cursor lives for all but one tick of a whole turn
      obtain ⟨n, hn⟩ := Nat.exists_eq_succ_of_ne_zero hpos
      have hlife : w.lifetime n = N - 1 := by
        rw [lifetime, hn, hmax, show n + N - (n + 1) = N - 1 by omega,
          Nat.mod_eq_of_lt (by omega)]
      refine ⟨n, by omega, ?_, by omega⟩
      rw [slot_insertEntryInLoop, if_pos (by rw [hn, insertIndex_succ])]
      exact List.mem_append_right _ List.mem_cons_self

end Timeout

/-- After one tick the cursor of an 8-slot wheel is 1, and an entry inserted there stays for 7
ticks. -/
theorem idle_timeout_after_first_tick :
    0 < (exec step ((exec step (new 8 (by omega) : TimerWheel ℕ) [.onTimer]).insertEntryInLoop 3)
      (List.replicate 7 .onTimer)).references 3 :=
  ((idle_timeout_iff 8 (by omega) [.onTimer] 3).mpr (by decide) (List.replicate 7 .onTimer)
    (by decide)).mpr (by decide)

/-- On a fresh 8-slot wheel an entry is dropped by the first tick after its insertion. -/
theorem dropped_by_first_tick :
    (exec step ((new 8 (by omega) : TimerWheel ℕ).insertEntryInLoop 3) [.onTimer]).references 3 =
    0 ∧
    ticks ([.onTimer] : List (WheelOp ℕ)) < 8 := by
  decide

end TimerWheel

end Muduo.Web
