import Mathlib

/-!
# Descriptor tables

The descriptors of a process: below a limit, each is free or refers to a file.  A new file gets the
lowest free descriptor; when there is none, opening fails.

* `Descriptors`, `set` — the table, and a change of one descriptor;
* `lowest`, `lowest_eq_none_iff`, `file_lowest` — the descriptor that the next file gets.
-/

namespace Muduo.Lib

structure Descriptors (φ : Type*) where
  limit : ℕ
  file : ℕ → Option φ

namespace Descriptors

variable {φ : Type*}

/-- The descriptor that the next file gets. -/
def lowest (d : Descriptors φ) : Option ℕ := (List.range d.limit).find? fun n => (d.file n).isNone

def set (d : Descriptors φ) (n : ℕ) (f : Option φ) : Descriptors φ :=
  { d with file := Function.update d.file n f }

@[simp] theorem set_limit (d : Descriptors φ) (n : ℕ) (f : Option φ) :
    (d.set n f).limit = d.limit := rfl

@[simp] theorem set_file_self (d : Descriptors φ) (n : ℕ) (f : Option φ) : (d.set n f).file n = f :=
  Function.update_self _ _ _

theorem set_file_of_ne (d : Descriptors φ) {n k : ℕ} (h : k ≠ n) (f : Option φ) :
    (d.set n f).file k = d.file k := Function.update_of_ne h _ _

/-- A descriptor after a change is the changed one, or as it was. -/
theorem set_file_eq_some {d : Descriptors φ} {n k : ℕ} {f : Option φ} {x : φ}
    (h : (d.set n f).file k = some x) : (k = n ∧ f = some x) ∨ (k ≠ n ∧ d.file k = some x) := by
  by_cases hk : k = n
  · rw [hk, set_file_self] at h
    exact Or.inl ⟨hk, h⟩
  · rw [set_file_of_ne d hk] at h
    exact Or.inr ⟨hk, h⟩

theorem file_lowest {d : Descriptors φ} {n : ℕ} (h : d.lowest = some n) : n < d.limit ∧
    d.file n = none := by
  have hfree := List.find?_some h
  have hmem := List.mem_of_find?_eq_some h
  exact ⟨List.mem_range.mp hmem, by simpa using hfree⟩

theorem lowest_eq_none_iff (d : Descriptors φ) :
    d.lowest = none ↔ ∀ n, n < d.limit → d.file n ≠ none := by
  rw [lowest, List.find?_eq_none]
  simp only [List.mem_range, Option.isNone_iff_eq_none]

/-- A descriptor that has just been closed can be had again. -/
theorem lowest_set_none {d : Descriptors φ} {n : ℕ} (h : n < d.limit) :
    (d.set n none).lowest ≠ none := by
  intro hnone
  rw [lowest_eq_none_iff] at hnone
  exact hnone n h (set_file_self _ _ _)

theorem lowest_set_none_of_free {d : Descriptors φ} (h : d.lowest ≠ none) (n : ℕ) :
    (d.set n none).lowest ≠ none := by
  intro hnone
  rw [lowest_eq_none_iff] at hnone
  refine h ((lowest_eq_none_iff d).mpr fun k hk hfree => hnone k hk ?_)
  by_cases hkn : k = n
  · rw [hkn, set_file_self]
  · rw [set_file_of_ne d hkn, hfree]

end Descriptors

end Muduo.Lib
