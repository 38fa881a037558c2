import Mathlib

/-!
# Ordered sets

`std::set` over a linear order, as a strictly increasing list.  The order is carried by the
structure, so iteration, `lower_bound` and the uniqueness of elements need no further invariant.

* `insert`, `erase` — with membership lemmas;
* `below s x` — the elements before `lower_bound(x)`, in order, and `dropBelow s x` the set without
  them.
-/

namespace Muduo.Lib

structure OrderedSet (α : Type*) [LinearOrder α] where
  toList : List α
  sorted : toList.Pairwise (· < ·)

namespace OrderedSet

variable {α : Type*} [LinearOrder α]

instance : Membership α (OrderedSet α) := ⟨fun s a => a ∈ s.toList⟩

instance (a : α) (s : OrderedSet α) : Decidable (a ∈ s) :=
    inferInstanceAs (Decidable (a ∈ s.toList))

theorem mem_def {a : α} {s : OrderedSet α} : a ∈ s ↔ a ∈ s.toList := Iff.rfl

theorem nodup (s : OrderedSet α) : s.toList.Nodup := s.sorted.imp ne_of_lt

def empty : OrderedSet α := ⟨[], List.Pairwise.nil⟩

def size (s : OrderedSet α) : ℕ := s.toList.length

theorem pairwise_orderedInsert {l : List α} (hl : l.Pairwise (· < ·)) {a : α} (ha : a ∉ l) :
    (l.orderedInsert (· ≤ ·) a).Pairwise (· < ·) := by
  have hle : (l.orderedInsert (· ≤ ·) a).Pairwise (· ≤ ·) :=
    List.Pairwise.orderedInsert a l (hl.imp le_of_lt)
  have hnd : (l.orderedInsert (· ≤ ·) a).Nodup :=
    (List.perm_orderedInsert _ a l).nodup_iff.mpr (List.nodup_cons.mpr ⟨ha, hl.imp ne_of_lt⟩)
  exact (hle.and hnd).imp fun h => lt_of_le_of_ne h.1 h.2

def insert (s : OrderedSet α) (a : α) : OrderedSet α :=
  if h : a ∈ s.toList then s
  else ⟨s.toList.orderedInsert (· ≤ ·) a, pairwise_orderedInsert s.sorted h⟩

def erase (s : OrderedSet α) (a : α) : OrderedSet α :=
  ⟨s.toList.erase a, s.sorted.sublist List.erase_sublist⟩

/-- The elements before `lower_bound(x)`. -/
def below (s : OrderedSet α) (x : α) : List α := s.toList.takeWhile (· < x)

/-- The set from `lower_bound(x)` on. -/
def dropBelow (s : OrderedSet α) (x : α) : OrderedSet α :=
  ⟨s.toList.dropWhile (· < x), s.sorted.sublist (List.dropWhile_sublist _)⟩

@[simp] theorem notMem_empty (a : α) : a ∉ (empty : OrderedSet α) := List.not_mem_nil

@[simp] theorem mem_insert {s : OrderedSet α} {a b : α} : b ∈ s.insert a ↔ b = a ∨ b ∈ s := by
  unfold insert
  split
  · rename_i h
    refine ⟨Or.inr, ?_⟩
    rintro (rfl | hb)
    · exact h
    · exact hb
  · exact List.mem_orderedInsert _

@[simp] theorem mem_erase {s : OrderedSet α} {a b : α} : b ∈ s.erase a ↔ b ≠ a ∧ b ∈ s :=
  s.nodup.mem_erase_iff

theorem perm_insert {s : OrderedSet α} {a : α} (h : a ∉ s) :
    (s.insert a).toList.Perm (a :: s.toList) := by
  rw [insert, dif_neg (mem_def.not.mp h)]
  exact List.perm_orderedInsert _ a s.toList

theorem perm_erase {s : OrderedSet α} {a : α} (h : a ∈ s) :
    s.toList.Perm (a :: (s.erase a).toList) := List.perm_cons_erase h

theorem below_append_dropBelow (s : OrderedSet α) (x : α) :
    s.below x ++ (s.dropBelow x).toList = s.toList := List.takeWhile_append_dropWhile

/-- In a sorted list, what `takeWhile` stops at and everything after it is not below `x`. -/
theorem le_of_mem_dropBelow {s : OrderedSet α} {x a : α} (h : a ∈ s.dropBelow x) : x ≤ a := by
  obtain ⟨l, hl⟩ := s
  replace h : a ∈ l.dropWhile (· < x) := h
  induction l with
  | nil => exact absurd h List.not_mem_nil
  | cons b l ih =>
      rw [List.dropWhile_cons] at h
      rw [List.pairwise_cons] at hl
      split at h
      · exact ih hl.2 h
      · rename_i hb
        have hxb : x ≤ b := by simpa using hb
        rcases List.mem_cons.mp h with rfl | hm
        · exact hxb
        · exact hxb.trans (hl.1 a hm).le

@[simp] theorem mem_below {s : OrderedSet α} {x a : α} : a ∈ s.below x ↔ a ∈ s ∧ a < x := by
  constructor
  · intro h
    exact ⟨(List.takeWhile_sublist _).subset h, by simpa using List.mem_takeWhile_imp h⟩
  · rintro ⟨hs, hlt⟩
    rw [mem_def, ← s.below_append_dropBelow x, List.mem_append] at hs
    exact hs.resolve_right fun hd => not_le_of_gt hlt (le_of_mem_dropBelow hd)

@[simp] theorem mem_dropBelow {s : OrderedSet α} {x a : α} : a ∈ s.dropBelow x ↔ a ∈ s ∧ x ≤ a := by
  constructor
  · intro h
    exact ⟨(List.dropWhile_sublist _).subset h, le_of_mem_dropBelow h⟩
  · rintro ⟨hs, hle⟩
    rw [mem_def, ← s.below_append_dropBelow x, List.mem_append] at hs
    exact hs.resolve_left fun hb => not_lt_of_ge hle (mem_below.mp hb).2

end OrderedSet

end Muduo.Lib
