import Mathlib

/-!
# `FileUtil::AppendFile`: writing a line

`append` calls `fwrite_unlocked` until the whole line is taken, or until a call after the first
takes nothing.  The number of bytes each call takes is chosen by the environment (`Answers`);
`accepted` adds them up.

`append_counts_accepted_iff` is the result: the stream gets a prefix of the line in any case, and
`writtenBytes_` grows by the length of that prefix exactly if no call stalls — the whole line is
added to it whatever was taken.
-/

namespace Muduo.Base

/-- How many of `n` bytes the `k`-th call of `fwrite_unlocked` takes. -/
structure Answers where
  count : ℕ → ℕ → ℕ
  count_le : ∀ k n, count k n ≤ n

namespace Answers

/-- The bytes of a line of length `len` taken before the `k`-th call. -/
def accepted (answers : Answers) (len : ℕ) : ℕ → ℕ
  | 0 => 0
  | k + 1 => answers.accepted len k + answers.count k (len - answers.accepted len k)

/-- A call after the first, with bytes left, takes none of them. -/
def Stalled (answers : Answers) (len : ℕ) : Prop :=
  ∃ k, 1 ≤ k ∧ answers.accepted len k < len ∧ answers.count k (len - answers.accepted len k) = 0

/-- Every call takes everything. -/
def all : Answers := ⟨fun _ n => n, fun _ _ => le_rfl⟩

theorem accepted_mono (answers : Answers) (len : ℕ) : Monotone (answers.accepted len) :=
  monotone_nat_of_le_succ fun _ => Nat.le_add_right _ _

theorem not_stalled_all (len : ℕ) : ¬ all.Stalled len := by
  rintro ⟨k, hk, hlt, -⟩
  have hmono := all.accepted_mono len hk
  have hfirst : all.accepted len 1 = len := by simp [accepted, all]
  omega

end Answers

structure AppendFile where
  filename : List Char
  /-- The bytes the stream `fp_` has taken. -/
  sent : List UInt8
  writtenBytes_ : ℤ
  deriving DecidableEq

namespace AppendFile

/-- `write(logline, len)` when `x` bytes are taken. -/
def write (f : AppendFile) (logline : List UInt8) (x : ℕ) : AppendFile :=
    { f with sent := f.sent ++ logline.take x }

/-- The loop of `append`: `n` bytes are taken, the next call is the `k`-th. -/
def retry (answers : Answers) (logline : List UInt8) : ℕ → ℕ → ℕ → AppendFile → Option AppendFile
  | 0, _, _, _ => none
  | fuel + 1, k, n, f =>
    let remain := logline.length - n
    if 0 < remain then
      let x := answers.count k remain
      -- the error is reported on `stderr`
      if x = 0 then some f
      else retry answers logline fuel (k + 1) (n + x) (f.write (logline.drop n) x)
    else some f

def append (answers : Answers) (f : AppendFile) (logline : List UInt8) : Option AppendFile :=
  let len := logline.length
  let n := answers.count 0 len
  (retry answers logline (len + 1) 1 n (f.write logline n)).map fun f =>
    { f with writtenBytes_ := f.writtenBytes_ + len }

section Retry

variable {answers : Answers} {logline : List UInt8}

/-- Two blocks, the second one from where the first one ends, are one block. -/
theorem write_write (f : AppendFile) (logline : List UInt8) {n x a : ℕ} (h : n + x ≤ a) :
    (f.write (logline.drop n) x).write (logline.drop (n + x)) (a - (n + x)) = f.write
    (logline.drop n) (a - n) := by
  have hsum : a - n = x + (a - (n + x)) := by omega
  rw [write, write, write, hsum, List.take_add, List.drop_drop, List.append_assoc]

/-- The loop ends, having sent the bytes from `n` to some `a`; it stops short of the end
exactly if a call stalls. -/
theorem retry_eq {fuel k n : ℕ} (f : AppendFile) (hn : answers.accepted logline.length k = n)
    (hle : n ≤ logline.length) (hfuel : logline.length - n < fuel) :
    ∃ a, retry answers logline fuel k n f = some (f.write (logline.drop n) (a - n)) ∧ n ≤ a ∧
    a ≤ logline.length ∧
      (a = logline.length ↔ ∀ j, k ≤ j → answers.accepted logline.length j < logline.length →
        answers.count j (logline.length - answers.accepted logline.length j) ≠ 0) := by
  induction fuel generalizing k n f with
  | zero => omega
  | succ fuel ih =>
    have hstop : f = f.write (logline.drop n) (n - n) := by
      rw [Nat.sub_self, write, List.take_zero, List.append_nil]
    rw [retry]
    by_cases hremain : 0 < logline.length - n
    · rw [if_pos hremain]
      by_cases hzero : answers.count k (logline.length - n) = 0
      · rw [if_pos hzero]
        refine ⟨n, congrArg some hstop, le_rfl, hle, ?_⟩
        refine iff_of_false (by omega) fun h => ?_
        exact h k le_rfl (by omega) (by rw [hn, hzero])
      · rw [if_neg hzero]
        have hcount := answers.count_le k (logline.length - n)
        have hnext : answers.accepted logline.length (k + 1) = n + answers.count k
            (logline.length - n) := by
          rw [Answers.accepted, hn]
        obtain ⟨a, hrun, hge, hale, hend⟩ :=
          ih (f.write (logline.drop n) (answers.count k (logline.length - n))) hnext
            (by omega) (by omega)
        refine ⟨a, ?_, by omega, hale, hend.trans ?_⟩
        · rw [hrun, write_write f logline hge]
        · constructor
          · intro h j hj hlt
            rcases Nat.eq_or_lt_of_le hj with rfl | hlt'
            · rwa [hn]
            · exact h j hlt' hlt
          · intro h j hj hlt
            exact h j (by omega) hlt
    · rw [if_neg hremain]
      refine ⟨n, congrArg some hstop, le_rfl, hle, ?_⟩
      refine iff_of_true (by omega) fun j hj hlt => ?_
      have hmono := answers.accepted_mono logline.length hj
      omega

end Retry

/-- The stream gets the first `a` bytes, and the whole line is counted. -/
theorem append_eq (answers : Answers) (f : AppendFile) (logline : List UInt8) :
    ∃ a, append answers f logline =
        some ⟨f.filename, f.sent ++ logline.take a, f.writtenBytes_ + logline.length⟩ ∧
      a ≤ logline.length ∧ (a = logline.length ↔ ¬ answers.Stalled logline.length) := by
  have hcount := answers.count_le 0 logline.length
  have hfirst : answers.accepted logline.length 1 = answers.count 0 logline.length := by
    simp only [Answers.accepted, Nat.zero_add, Nat.sub_zero]
  obtain ⟨a, hrun, hge, hale, hend⟩ :=
    retry_eq (f.write logline (answers.count 0 logline.length)) hfirst hcount
    (show _ < logline.length + 1 by omega)
  refine ⟨a, ?_, hale, ?_⟩
  · rw [append, hrun]
    simp only [write, Option.map_some]
    rw [List.append_assoc, ← List.take_add, Nat.add_sub_cancel' hge]
  · rw [hend, Answers.Stalled]
    push Not
    rfl

/-- Where every call takes something the line is sent as a whole. -/
theorem append_of_not_stalled {answers : Answers} {logline : List UInt8}
    (h : ¬ answers.Stalled logline.length) (f : AppendFile) :
    append answers f logline = some ⟨f.filename, f.sent ++ logline,
      f.writtenBytes_ + logline.length⟩ := by
  obtain ⟨a, hrun, -, hend⟩ := append_eq answers f logline
  rw [hrun, hend.mpr h, List.take_length]

/-- `append` ends and the stream gets a prefix of the line, the whole line unless a call
after the first takes nothing; what it adds to `writtenBytes_` is the length of that prefix
exactly if no call does. -/
theorem append_counts_accepted_iff (answers : Answers) (f : AppendFile) (logline : List UInt8) :
    ∃ f' a, append answers f logline = some f' ∧ a ≤ logline.length ∧
    f'.sent = f.sent ++ logline.take a ∧
      (a ≠ logline.length → answers.Stalled logline.length) ∧
      (f'.writtenBytes_ = f.writtenBytes_ + a ↔ ¬ answers.Stalled logline.length) := by
  obtain ⟨a, hrun, hale, hend⟩ := append_eq answers f logline
  refine ⟨_, a, hrun, hale, rfl, fun hne => ?_, ?_⟩
  · by_contra h
    exact hne (hend.mpr h)
  · rw [← hend]
    dsimp only
    omega

/-- The disk is full behind the first byte. -/
def diskFull : Answers where
  count k n := if k = 0 then min 1 n else 0
  count_le k n := by split_ifs <;> omega

/-- One byte is taken and two are counted. -/
theorem short_write_counted_whole :
    ∃ f', append diskFull ⟨[], [], 0⟩ [97, 98] = some f' ∧ f'.sent = [97] ∧ f'.writtenBytes_ = 2 :=
  ⟨⟨[], [97], 2⟩, by decide, rfl, rfl⟩

end AppendFile

end Muduo.Base
