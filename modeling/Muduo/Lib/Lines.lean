import Muduo.Lib.Arrays

/-!
# Delimited lines of a growing text

A text is read line by line, a line being what stands before the next occurrence of a
delimiter.  When the text grows at its end, the lines found so far stay, and the search goes on
in what was left over.

* `lines pat l` — the complete lines of `l`; `leftover pat l` — what follows the last delimiter;
* `lines_induction` — the induction over the lines of a text;
* `lines_append` — the lines of a text that has grown;
* `unlines pat ls` — the text with the lines `ls`; `unlines_lines`, `lines_unlines_append` — the two
  are inverse to each other;
* `length_lines_concat` — one more symbol completes at most one line;
* `length_le_flatten_map`, `eq_of_prefix_of_flatten_le` — texts one after the other, and their
  length.
-/

namespace Muduo.Lib

variable {α : Type*} [DecidableEq α]

/-- The first `n` lines and what follows them. -/
def splitLines (pat : List α) : ℕ → List α → List (List α) × List α
  | 0, l => ([], l)
  | n + 1, l =>
      match search pat l with
      | none => ([], l)
      | some i =>
          let (ls, rest) := splitLines pat n (l.drop (i + pat.length))
          (l.take i :: ls, rest)

/-- A text of `k` symbols has at most `k` lines. -/
def lines (pat l : List α) : List (List α) := (splitLines pat l.length l).1

def leftover (pat l : List α) : List α := (splitLines pat l.length l).2

section Lines

variable {pat : List α} {l : List α}

theorem splitLines_none (h : search pat l = none) (n : ℕ) : splitLines pat n l = ([], l) := by
  cases n with
  | zero => rfl
  | succ n => rw [splitLines, h]

theorem splitLines_succ {i : ℕ} (h : search pat l = some i) (n : ℕ) :
    splitLines pat (n + 1) l = (l.take i :: (splitLines pat n (l.drop (i + pat.length))).1,
      (splitLines pat n (l.drop (i + pat.length))).2) := by
  rw [splitLines, h]

theorem length_drop_lt (hpat : pat ≠ []) {i : ℕ} (h : search pat l = some i) :
    (l.drop (i + pat.length)).length < l.length := by
  have hbound := search_bound h
  have hpos : 0 < pat.length := List.length_pos_iff.mpr hpat
  rw [List.length_drop]
  omega

/-- **The induction over the lines of a text.** -/
theorem lines_induction (hpat : pat ≠ []) {P : List α → Prop}
    (hnone : ∀ l, search pat l = none → P l)
    (hsome : ∀ l i, search pat l = some i → P (l.drop (i + pat.length)) → P l) (l : List α) :
    P l := by
  induction hn : l.length using Nat.strong_induction_on generalizing l with
  | _ n ih =>
      cases h : search pat l with
      | none => exact hnone l h
      | some i => exact hsome l i h (ih _ (hn ▸ length_drop_lt hpat h) _ rfl)

/-- More steps than symbols change nothing. -/
theorem splitLines_of_le (hpat : pat ≠ []) {n : ℕ} (hn : l.length ≤ n) :
    splitLines pat n l = (lines pat l, leftover pat l) := by
  have hgen : ∀ m n, l.length ≤ m → l.length ≤ n → splitLines pat m l = splitLines pat n l := by
    clear hn
    induction l using lines_induction hpat with
    | hnone l h =>
        intro m n _ _
        rw [splitLines_none h, splitLines_none h]
    | hsome l i h ih =>
        intro m n hm hn
        have hlt := length_drop_lt hpat h
        cases m with
        | zero => omega
        | succ m =>
            cases n with
            | zero => omega
            | succ n => rw [splitLines_succ h, splitLines_succ h, ih m n (by omega) (by omega)]
  exact hgen n l.length hn le_rfl

theorem lines_of_none (h : search pat l = none) : lines pat l = [] := by
  rw [lines, splitLines_none h]

theorem leftover_of_none (h : search pat l = none) : leftover pat l = l := by
  rw [leftover, splitLines_none h]

theorem splitLines_some (hpat : pat ≠ []) {i : ℕ} (h : search pat l = some i) :
    splitLines pat l.length l = (l.take i :: lines pat (l.drop (i + pat.length)),
      leftover pat (l.drop (i + pat.length))) := by
  have hlt := length_drop_lt hpat h
  cases hn : l.length with
  | zero => omega
  | succ n => rw [splitLines_succ h, splitLines_of_le hpat (show _ ≤ n by omega)]

theorem lines_of_some (hpat : pat ≠ []) {i : ℕ} (h : search pat l = some i) :
    lines pat l = l.take i :: lines pat (l.drop (i + pat.length)) := by
  rw [lines, splitLines_some hpat h]

theorem leftover_of_some (hpat : pat ≠ []) {i : ℕ} (h : search pat l = some i) :
    leftover pat l = leftover pat (l.drop (i + pat.length)) := by
  rw [leftover, splitLines_some hpat h]

theorem length_lines_le (pat l : List α) : (lines pat l).length ≤ l.length := by
  have hgen : ∀ n l, (splitLines pat n l).1.length ≤ n := by
    intro n
    induction n with
    | zero => exact fun l => le_rfl
    | succ n ih =>
        intro l
        cases h : search pat l with
        | none =>
            rw [splitLines_none h]
            exact Nat.zero_le _
        | some i =>
            rw [splitLines_succ h, List.length_cons]
            exact Nat.succ_le_succ (ih _)
  exact hgen l.length l

/-- No line is left over. -/
theorem search_leftover (hpat : pat ≠ []) (l : List α) : search pat (leftover pat l) = none := by
  induction l using lines_induction hpat with
  | hnone l h => rwa [leftover_of_none h]
  | hsome l i h ih => rwa [leftover_of_some hpat h]

/-- What is found in a text is found in its extension. -/
theorem drop_append_of_search {i : ℕ} (h : search pat l = some i) (m : List α) :
    (l ++ m).drop (i + pat.length) = l.drop (i + pat.length) ++ m :=
  List.drop_append_of_le_length (search_bound h)

theorem take_append_of_search {i : ℕ} (h : search pat l = some i) (m : List α) :
    (l ++ m).take i = l.take i :=
  List.take_append_of_le_length (by have := search_bound h; omega)

/-- **The lines of a text that has grown** are the old ones and those found from the leftover on. -/
theorem lines_append (hpat : pat ≠ []) (l m : List α) :
    lines pat (l ++ m) = lines pat l ++ lines pat (leftover pat l ++ m) := by
  induction l using lines_induction hpat with
  | hnone l h => rw [lines_of_none h, leftover_of_none h, List.nil_append]
  | hsome l i h ih =>
      rw [lines_of_some hpat (search_append h m), drop_append_of_search h, take_append_of_search h,
        ih, lines_of_some hpat h, leftover_of_some hpat h, List.cons_append]

/-- A line does not contain the delimiter. -/
theorem not_infix_of_mem_lines (hpat : pat ≠ []) {line : List α} (h : line ∈ lines pat l) :
    ¬ pat <:+: line := by
  induction l using lines_induction hpat with
  | hnone l hl =>
      rw [lines_of_none hl] at h
      cases h
  | hsome l i hl ih =>
      rw [lines_of_some hpat hl, List.mem_cons] at h
      rcases h with rfl | h
      · rw [← search_eq_none_iff]
        cases hline : search pat (l.take i) with
        | none => rfl
        | some j =>
            -- it would have been found there
            have hfound := search_append hline (l.drop i)
            rw [List.take_append_drop, hl] at hfound
            cases hfound
            have hbound := search_bound hline
            have hpos : 0 < pat.length := List.length_pos_iff.mpr hpat
            rw [List.length_take] at hbound
            omega
      · exact ih h

/-- A line without the first symbol of the delimiter is found whole. -/
theorem search_line {p q : α} {line : List α} (h : p ∉ line) (more : List α) :
    search [p, q] (line ++ ([p, q] ++ more)) = some line.length ∧
      (line ++ ([p, q] ++ more)).take line.length = line ∧
      (line ++ ([p, q] ++ more)).drop (line.length + 2) = more := by
  refine ⟨search_append_cons h more, List.take_left, ?_⟩
  rw [← List.drop_drop, List.drop_left]
  rfl

/-! ### Texts made of lines -/

/-- The lines, each ended by the delimiter. -/
def unlines (pat : List α) (ls : List (List α)) : List α := (ls.map (· ++ pat)).flatten

omit [DecidableEq α] in
@[simp] theorem unlines_nil (pat : List α) : unlines pat [] = [] := rfl

omit [DecidableEq α] in
@[simp] theorem unlines_cons (pat line : List α) (ls : List (List α)) :
    unlines pat (line :: ls) = line ++ (pat ++ unlines pat ls) := by
  rw [unlines, List.map_cons, List.flatten_cons, List.append_assoc]
  rfl

omit [DecidableEq α] in
theorem unlines_append (pat : List α) (ls ms : List (List α)) :
    unlines pat (ls ++ ms) = unlines pat ls ++ unlines pat ms := by
  rw [unlines, List.map_append, List.flatten_append]
  rfl

/-- **A text is its lines and its leftover.** -/
theorem unlines_lines (hpat : pat ≠ []) (l : List α) :
    unlines pat (lines pat l) ++ leftover pat l = l := by
  induction l using lines_induction hpat with
  | hnone l h => rw [lines_of_none h, leftover_of_none h, unlines_nil, List.nil_append]
  | hsome l i h ih =>
      rw [lines_of_some hpat h, leftover_of_some hpat h, unlines_cons, List.append_assoc,
        List.append_assoc, ih]
      exact take_append_search h

/-- Lines without the delimiter are found again. -/
theorem lines_unlines_append {p q : α} (hpq : p ≠ q) {ls : List (List α)}
    (h : ∀ line ∈ ls, ¬ [p, q] <:+: line) (m : List α) :
    lines [p, q] (unlines [p, q] ls ++ m) = ls ++ lines [p, q] m := by
  have hpat : [p, q] ≠ [] := List.cons_ne_nil _ _
  induction ls with
  | nil => rw [unlines_nil, List.nil_append, List.nil_append]
  | cons line ls ih =>
      have hfind := search_append_pair hpq (h line List.mem_cons_self) (unlines [p, q] ls ++ m)
      have htext :
          unlines [p, q] (line :: ls) ++ m = line ++ p :: q :: (unlines [p, q] ls ++ m) := by
        rw [unlines_cons, List.append_assoc, List.append_assoc]
        rfl
      rw [htext, lines_of_some hpat hfind, List.take_left, ← List.drop_drop, List.drop_left,
        List.cons_append]
      exact congrArg (line :: ·) (ih fun l hl => h l (List.mem_cons_of_mem line hl))

/-- **One more symbol completes at most one line.** -/
theorem length_lines_concat (hpat : pat ≠ []) (h : search pat l = none) (x : α) :
    (lines pat (l ++ [x])).length ≤ 1 := by
  cases hx : search pat (l ++ [x]) with
  | none =>
      rw [lines_of_none hx]
      exact Nat.zero_le 1
  | some i =>
      -- the delimiter was not there before, so it ends the text
      have hend : l.length < i + pat.length := by
        by_contra hle
        have htake := search_take hx (not_lt.mp hle)
        rw [List.take_left, h] at htake
        cases htake
      have hbound := search_bound hx
      rw [List.length_append, List.length_singleton] at hbound
      rw [lines_of_some hpat hx, List.drop_eq_nil_of_le (by simp; omega)]
      exact le_rfl

end Lines

/-! ### Texts one after the other -/

omit [DecidableEq α] in
/-- There are at most as many texts as symbols in them, provided that none is empty. -/
theorem length_le_flatten_map {β : Type*} {f : β → List α} (hne : ∀ x, f x ≠ []) (xs : List β) :
    xs.length ≤ (xs.map f).flatten.length := by
  have hone : ∀ n ∈ (xs.map f).map List.length, 1 ≤ n := by
    intro n hn
    rw [List.map_map, List.mem_map] at hn
    obtain ⟨x, -, rfl⟩ := hn
    exact List.length_pos_iff.mpr (hne x)
  have hlen := List.length_le_sum_of_one_le _ hone
  rwa [List.length_map, List.length_map, ← List.length_flatten] at hlen

omit [DecidableEq α] in
/-- The first texts of a list are all of them if they are as long together, provided
that none is empty. -/
theorem eq_of_prefix_of_flatten_le {ts us : List (List α)} (h : ts <+: us) (hne : ∀ t ∈ us, t ≠ [])
    (hlen : us.flatten.length ≤ ts.flatten.length) : ts = us := by
  obtain ⟨rest, rfl⟩ := h
  cases rest with
  | nil => exact (List.append_nil ts).symm
  | cons t rest =>
      have hpos : 0 < t.length := List.length_pos_iff.mpr (hne t (by simp))
      rw [List.flatten_append, List.flatten_cons, List.length_append, List.length_append] at hlen
      omega

end Muduo.Lib
