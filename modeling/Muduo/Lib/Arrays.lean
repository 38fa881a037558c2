import Mathlib

/-!
# Contiguous storage

A `std::vector` of bytes is a list; the two ways a program writes into it are `resize`, which keeps
the front and fills with a default, and a block copy, which replaces a contiguous range.  `window`
is the range `[lo, hi)` a pair of indices designates.  `search` is `std::search`: the offset of the
first occurrence of a pattern.

The lemmas are the ones a program that keeps a window inside a vector needs: what a copy does to a
window before it, inside it and just behind it, and how the first occurrence of a pattern behaves
when the text grows at its end.
-/

namespace Muduo.Lib

variable {α : Type*}

/-- The elements with index in `[lo, hi)`. -/
def window (l : List α) (lo hi : ℕ) : List α := (l.drop lo).take (hi - lo)

/-- `std::vector::resize`: keep the first `n` elements, fill up with `d`. -/
def resize (l : List α) (n : ℕ) (d : α) : List α := l.take n ++ List.replicate (n - l.length) d

/-- `std::copy` of the block `xs` to position `pos` (the block fits). -/
def overwrite (l : List α) (pos : ℕ) (xs : List α) : List α :=
  l.take pos ++ xs ++ l.drop (pos + xs.length)

@[simp] theorem window_self (l : List α) (i : ℕ) : window l i i = [] := by
  simp [window]

theorem length_window (l : List α) {lo hi : ℕ} (h : hi ≤ l.length) :
    (window l lo hi).length = hi - lo := by
  rw [window, List.length_take, List.length_drop]
  omega

theorem drop_window (l : List α) (lo hi n : ℕ) :
    (window l lo hi).drop n = window l (lo + n) hi := by
  rw [window, window, List.drop_take, List.drop_drop]
  congr 1
  omega

theorem window_append (l : List α) {lo mid hi : ℕ} (h₁ : lo ≤ mid) (h₂ : mid ≤ hi) :
    window l lo hi = window l lo mid ++ window l mid hi := by
  have hsplit := List.take_append_drop (mid - lo) (window l lo hi)
  rw [drop_window, show lo + (mid - lo) = mid from by omega] at hsplit
  rw [← hsplit]
  congr 1
  rw [window, window, List.take_take, show min (mid - lo) (hi - lo) = mid - lo from by omega]

theorem length_resize (l : List α) (n : ℕ) (d : α) : (resize l n d).length = n := by
  rw [resize, List.length_append, List.length_take, List.length_replicate]
  omega

/-- Growing a vector leaves every window of it unchanged. -/
theorem window_resize (l : List α) {lo hi n : ℕ} (d : α) (hhi : hi ≤ l.length)
    (hn : l.length ≤ n) : window (resize l n d) lo hi = window l lo hi := by
  rw [window, window, resize, List.take_of_length_le hn, ← List.drop_take, ← List.drop_take,
    List.take_append_of_le_length hhi]

theorem length_overwrite (l : List α) {pos : ℕ} {xs : List α} (h : pos + xs.length ≤ l.length) :
    (overwrite l pos xs).length = l.length := by
  rw [overwrite, List.length_append, List.length_append, List.length_take, List.length_drop]
  omega

/-- The copied block is what stands at its destination. -/
theorem window_overwrite_block (l : List α) {pos : ℕ} {xs : List α}
    (h : pos + xs.length ≤ l.length) :
    window (overwrite l pos xs) pos (pos + xs.length) = xs := by
  have hpos : (l.take pos).length = pos := by rw [List.length_take]; omega
  rw [window, overwrite, List.append_assoc,
    show pos + xs.length - pos = xs.length from by omega]
  rw [List.drop_left' hpos, List.take_left]

/-- A window that ends before the destination of a copy is untouched by it. -/
theorem window_overwrite_before (l : List α) {lo hi pos : ℕ} {xs : List α} (h : hi ≤ pos)
    (hpos : pos ≤ l.length) : window (overwrite l pos xs) lo hi = window l lo hi := by
  have hlen : hi ≤ (l.take pos).length := by rw [List.length_take]; omega
  rw [window, window, overwrite, List.append_assoc, ← List.drop_take, ← List.drop_take,
    List.take_append_of_le_length hlen, List.take_take, Nat.min_eq_left h]

/-- A window that starts behind the copied block is untouched by it. -/
theorem window_overwrite_after (l : List α) {lo hi pos : ℕ} {xs : List α} (h : pos + xs.length ≤ lo)
    (hlen : pos + xs.length ≤ l.length) : window (overwrite l pos xs) lo hi = window l lo hi := by
  have hpos : (l.take pos ++ xs).length = pos + xs.length := by
    rw [List.length_append, List.length_take]
    omega
  rw [window, window, overwrite, List.drop_append, List.drop_eq_nil_of_le (by omega), hpos,
    List.nil_append, List.drop_drop, show pos + xs.length + (lo - (pos + xs.length)) =
    lo from by omega]

/-! ### Removing an element by swapping it with the last one -/

/-- `iter_swap(begin() + i, begin() + j)`. -/
def iterSwap (l : List α) (i j : ℕ) : List α :=
  match l[i]?, l[j]? with
  | some x, some y => (l.set i y).set j x
  | _, _ => l

@[simp] theorem length_iterSwap (l : List α) (i j : ℕ) : (iterSwap l i j).length = l.length := by
  unfold iterSwap
  split <;> simp

/-- After swapping position `i` with the last one and dropping the last one, position `i` holds what
was last and every other remaining position holds what it held. -/
theorem getElem?_swap_dropLast (l : List α) {i : ℕ} (hi : i + 1 < l.length) (j : ℕ) :
    (iterSwap l i (l.length - 1)).dropLast[j]? =
      if j = i then l[l.length - 1]? else if j + 1 < l.length then l[j]? else none := by
  obtain ⟨x, hx⟩ : ∃ x, l[i]? = some x := ⟨l[i], List.getElem?_eq_getElem (by omega)⟩
  obtain ⟨y, hy⟩ : ∃ y, l[l.length - 1]? = some y :=
    ⟨l[l.length - 1], List.getElem?_eq_getElem (by omega)⟩
  simp only [iterSwap, hx, hy, List.getElem?_dropLast, List.length_set, List.getElem?_set]
  split_ifs <;> first | rfl | omega

/-! ### First occurrence of a symbol -/

theorem idxOf_append_cons [DecidableEq α] {l : List α} {a : α} (h : a ∉ l) (m : List α) :
    (l ++ a :: m).idxOf a = l.length := by
  rw [List.idxOf_append_of_notMem h, List.idxOf_cons_self, Nat.add_zero]

theorem length_ne_append_cons (l : List α) (a : α) (m : List α) :
    l.length ≠ (l ++ a :: m).length := by
  rw [List.length_append, List.length_cons]
  omega

theorem drop_append_cons (l : List α) (a : α) (m : List α) :
    (l ++ a :: m).drop (l.length + 1) = m := by
  rw [← List.drop_drop, List.drop_left, List.drop_succ_cons, List.drop_zero]

/-- Up to the first element without `p` there is one way to cut a list. -/
theorem append_cons_inj_of_first {p : α → Prop} {l l' m m' : List α} {a a' : α} (hl : ∀ x ∈ l, p x)
    (hl' : ∀ x ∈ l', p x) (ha : ¬ p a) (ha' : ¬ p a') (h : l ++ a :: m = l' ++ a' :: m') :
    l = l' ∧ a = a' ∧ m = m' := by
  induction l generalizing l' with
  | nil =>
      cases l' with
      | nil =>
          cases h
          exact ⟨rfl, rfl, rfl⟩
      | cons x l' =>
          cases h
          exact absurd (hl' a List.mem_cons_self) ha
  | cons x l ih =>
      cases l' with
      | nil =>
          cases h
          exact absurd (hl a' List.mem_cons_self) ha'
      | cons y l' =>
          rw [List.cons_append, List.cons_append, List.cons.injEq] at h
          obtain ⟨rfl, rest⟩ := ih (fun z hz => hl z (List.mem_cons_of_mem x hz))
            (fun z hz => hl' z (List.mem_cons_of_mem y hz)) h.2
          exact ⟨by rw [h.1], rest⟩

/-- A text that ends with `w` does not end with `w` and something more that lacks the
first symbol of `w`. -/
theorem not_suffix_append_self [DecidableEq α] {c w u : List α} {a : α} (hw : w.head? = some a)
    (hu : u ≠ []) (ha : a ∉ u) :
    ¬ w ++ u <:+ c ++ w := by
  rintro ⟨e', he⟩
  have hlen := congrArg List.length he
  simp only [List.length_append] at hlen
  -- the part `e` of `c` in front of the last `w`, with `e ++ w = w ++ u`
  obtain ⟨e, rfl⟩ : ∃ e, c = e' ++ e := by
    have hprefix : e' <+: c :=
      List.prefix_of_prefix_length_le (he ▸ List.prefix_append _ _ : e' <+: c ++ w)
        (List.prefix_append _ _) (by omega)
    obtain ⟨e, rfl⟩ := hprefix
    exact ⟨e, rfl⟩
  rw [List.append_assoc, List.append_right_inj] at he
  obtain ⟨w', rfl⟩ : ∃ w', w = a :: w' := by
    cases w with
    | nil => cases hw
    | cons b w' => exact ⟨w', by rw [Option.some.inj hw]⟩
  cases e with
  | nil =>
    rw [List.length_append, List.length_nil] at hlen
    exact hu (List.length_eq_zero_iff.mp (by omega))
  | cons x e =>
    have hcount := congrArg (List.count a) he
    rw [List.count_append, List.count_append, List.count_eq_zero_of_not_mem ha] at hcount
    rw [List.cons_append, List.cons_append, List.cons.injEq] at he
    have hpos : 0 < (x :: e).count a := List.count_pos_iff.mpr (he.1 ▸ List.mem_cons_self)
    omega

/-! ### First occurrence of a pattern -/

/-- `std::search`: the offset of the first occurrence of `pat`. -/
def search [DecidableEq α] (pat : List α) : List α → Option ℕ
  | [] => if pat = [] then some 0 else none
  | x :: xs => if pat <+: x :: xs then some 0 else (search pat xs).map (· + 1)

section Search

variable [DecidableEq α] {pat : List α}

theorem search_bound {l : List α} {i : ℕ} (h : search pat l = some i) :
    i + pat.length ≤ l.length := by
  induction l generalizing i with
  | nil =>
      simp only [search] at h
      split at h
      · rename_i hp
        cases h
        simp [hp]
      · cases h
  | cons x xs ih =>
      simp only [search] at h
      split at h
      · rename_i hp
        cases h
        simpa using hp.length_le
      · obtain ⟨j, hj, rfl⟩ := Option.map_eq_some_iff.mp h
        have := ih hj
        simp only [List.length_cons]
        omega

/-- What is found is the pattern. -/
theorem take_append_search {l : List α} {i : ℕ} (h : search pat l = some i) :
    l.take i ++ (pat ++ l.drop (i + pat.length)) = l := by
  induction l generalizing i with
  | nil =>
      simp only [search] at h
      split at h
      · rename_i hp
        subst hp
        simp
      · cases h
  | cons x xs ih =>
      simp only [search] at h
      split at h
      · rename_i hp
        cases h
        rw [List.take_zero, List.nil_append, Nat.zero_add]
        exact List.prefix_append_drop hp |>.symm
      · obtain ⟨j, hj, rfl⟩ := Option.map_eq_some_iff.mp h
        rw [List.take_succ_cons, Nat.add_right_comm, List.drop_succ_cons, List.cons_append, ih hj]

theorem search_eq_none_iff (pat l : List α) : search pat l = none ↔ ¬ pat <:+: l := by
  induction l with
  | nil => simp [search]
  | cons x xs ih =>
      rw [List.infix_cons_iff, not_or, ← ih, search]
      split
      · rename_i hp
        simp [hp]
      · rename_i hp
        simp [hp]

/-- A delimiter of two symbols behind a line that does not contain it. -/
theorem search_append_pair {p q : α} (hpq : p ≠ q) {l : List α} (h : ¬ [p, q] <:+: l) (m : List α) :
    search [p, q] (l ++ p :: q :: m) = some l.length := by
  induction l with
  | nil =>
      rw [List.nil_append, search, if_pos (by simp)]
      rfl
  | cons x xs ih =>
      rw [List.infix_cons_iff, not_or] at h
      rw [List.cons_append, search, if_neg, ih h.2]
      · rfl
      · -- the delimiter would begin at `x`: inside the line, or across its end
        intro hp
        cases xs with
        | nil =>
            rw [List.nil_append, List.cons_prefix_cons, List.cons_prefix_cons] at hp
            exact hpq hp.2.1.symm
        | cons y ys =>
            rw [List.cons_append, List.cons_prefix_cons, List.cons_prefix_cons] at hp
            apply h.1
            rw [List.cons_prefix_cons, List.cons_prefix_cons]
            exact ⟨hp.1, hp.2.1, List.nil_prefix⟩

/-- In front of the pattern nothing that contains its first symbol. -/
theorem search_append_cons {p : α} {ps l : List α} (h : p ∉ l) (m : List α) :
    search (p :: ps) (l ++ (p :: ps ++ m)) = some l.length := by
  induction l with
  | nil =>
      rw [List.nil_append, List.cons_append, search, if_pos (by simp)]
      rfl
  | cons x xs ih =>
      rw [List.mem_cons, not_or] at h
      rw [List.cons_append, search, if_neg, ih h.2]
      · rfl
      · rw [List.cons_prefix_cons]
        exact fun hp => h.1 hp.1

/-- An occurrence that is found stays the first one when the text is extended. -/
theorem search_append {l : List α} {i : ℕ} (h : search pat l = some i) (m : List α) :
    search pat (l ++ m) = some i := by
  induction l generalizing i with
  | nil =>
      simp only [search] at h
      split at h
      · rename_i hp
        cases h
        subst hp
        cases m <;> simp [search]
      · cases h
  | cons x xs ih =>
      simp only [search, List.cons_append] at h ⊢
      split at h
      · rename_i hp
        rw [if_pos (hp.trans (by simp))]
        exact h
      · rename_i hp
        obtain ⟨j, hj, rfl⟩ := Option.map_eq_some_iff.mp h
        have hlen := search_bound hj
        -- a longer text can only make `pat` a head if `pat` reached past the old end
        rw [if_neg, ih hj]
        · rfl
        · intro hp'
          apply hp
          rw [← List.cons_append] at hp'
          exact List.prefix_of_prefix_length_le hp' (List.prefix_append _ _)
            (by simp only [List.length_cons]; omega)

/-- The first occurrence is found already in any text that contains it. -/
theorem search_take {l : List α} {i n : ℕ} (h : search pat l = some i)
    (hn : i + pat.length ≤ n) : search pat (l.take n) = some i := by
  induction l generalizing i n with
  | nil => simpa using h
  | cons x xs ih =>
      simp only [search] at h
      cases n with
      | zero =>
          -- only the empty pattern fits in no text at all
          have hp : pat = [] := List.length_eq_zero_iff.mp (by omega)
          subst hp
          rw [if_pos (by simp)] at h
          simpa [search] using h
      | succ n =>
          rw [List.take_succ_cons, search]
          split at h
          · rename_i hp
            cases h
            rw [if_pos]
            rw [← List.take_succ_cons]
            exact List.prefix_take_iff.mpr ⟨hp, by omega⟩
          · rename_i hp
            obtain ⟨j, hj, rfl⟩ := Option.map_eq_some_iff.mp h
            rw [if_neg, ih hj (by omega)]
            · rfl
            · intro hp'
              rw [← List.take_succ_cons] at hp'
              exact hp (hp'.trans (by exact List.take_prefix _ _))

end Search

end Muduo.Lib
