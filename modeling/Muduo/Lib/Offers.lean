import Muduo.Lib.Runs

/-!
# All-or-nothing appends to a bounded text

A writer with a fixed capacity is offered texts one after the other.  An offer names the room it
asks for, which is more than its text takes; it is accepted whole when that much room is left, and
otherwise nothing of it is written.

* `accept` — one offer;
* `keep` — the offers accepted so far: the text is their texts, in order (`texts_keep`);
* the text stays below the capacity (`length_accept_lt`).
-/

namespace Muduo.Lib

variable {α : Type*}

structure Offer (α : Type*) where
  need : ℕ
  text : List α
  text_lt : text.length < need

/-- The least room that can be asked for. -/
def Offer.whole (text : List α) : Offer α := ⟨text.length + 1, text, Nat.lt_succ_self _⟩

@[simp] theorem Offer.whole_need (text : List α) : (Offer.whole text).need = text.length + 1 := rfl

@[simp] theorem Offer.whole_text (text : List α) : (Offer.whole text).text = text := rfl

section Capacity

variable (cap : ℕ)

def Offer.Fits (c : List α) (o : Offer α) : Prop := c.length + o.need ≤ cap

instance Offer.decidableFits (c : List α) (o : Offer α) : Decidable (o.Fits cap c) :=
    inferInstanceAs (Decidable (_ ≤ _))

def accept (c : List α) (o : Offer α) : List α := if o.Fits cap c then c ++ o.text else c

/-- The texts of the offers, one after the other. -/
def texts (os : List (Offer α)) : List α := os.flatMap Offer.text

/-- The offers accepted so far, with one more made. -/
def keep (os : List (Offer α)) (o : Offer α) : List (Offer α) :=
    if o.Fits cap (texts os) then os ++ [o] else os

variable {cap} {c : List α} {o : Offer α}

theorem accept_of_fits (h : c.length + o.need ≤ cap) : accept cap c o = c ++ o.text := if_pos h

theorem accept_of_not_fits (h : cap < c.length + o.need) : accept cap c o = c :=
    if_neg (not_le.mpr h)

/-- The room left, before and after an offer that fits. -/
theorem accept_of_le {room : ℕ} (hroom : c.length + room = cap) (h : o.need ≤ room) :
    accept cap c o = c ++ o.text ∧ (c ++ o.text).length + (room - o.text.length) = cap := by
  have htext := o.text_lt
  refine ⟨accept_of_fits (by omega), ?_⟩
  rw [List.length_append]
  omega

theorem accept_of_lt {room : ℕ} (hroom : c.length + room = cap) (h : room < o.need) :
    accept cap c o = c :=
  accept_of_not_fits (by omega)

theorem length_accept_lt (h : c.length < cap) : (accept cap c o).length < cap := by
  unfold accept
  split_ifs with hfits
  · have hneed : c.length + o.need ≤ cap := hfits
    have htext := o.text_lt
    rw [List.length_append]
    omega
  · exact h

/-- Texts that fit together are all accepted. -/
theorem exec_accept_whole (ts : List (List α)) (h : c.length + ts.flatten.length < cap) :
    exec (accept cap) c (ts.map Offer.whole) = c ++ ts.flatten := by
  induction ts generalizing c with
  | nil => simp
  | cons t ts ih =>
    rw [List.flatten_cons, List.length_append] at h
    rw [List.map_cons, exec_cons, accept_of_fits (by rw [Offer.whole_need]; omega),
      Offer.whole_text,
      ih (by rw [List.length_append]; omega), List.flatten_cons, List.append_assoc]

theorem texts_keep (os : List (Offer α)) : texts (keep cap os o) = accept cap (texts os) o := by
  unfold keep accept
  split_ifs
  · simp [texts]
  · rfl

end Capacity

end Muduo.Lib
