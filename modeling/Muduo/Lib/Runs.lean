import Mathlib

/-!
# Runs of a step function

A system is a total step function `step : σ → α → σ`; the label `α` carries everything the
environment chooses (a callback's next call, the result of a system call, the thread that moves), so
a run is a list of labels and all nondeterminism is in that list.  A guard, an environment
assumption or a condition under which a step behaves is a predicate `Q : σ → α → Prop` on the state
before the step and its label.

* `exec step s as` — the state after the run `as`;
* `Along step Q s as` — `Q` holds at every step of the run;
* `along_invariant` — the induction over runs, done once: a predicate kept by every `Q`-step that
  holds at the start holds at the end;
* `exec_simulation` — the induction over runs for two systems and an abstraction function;
* `outputs step out s as` — what the steps of the run put out; `forall_mem_outputs`, `along_outputs`
  — the invariant rules for it;
* `exists_first_break` — a run that is not `Q` throughout has a first step where `Q` fails;
* `Precedes p q log` — in a log, every entry with `q` comes after one with `p`.

Nothing here mentions a particular system.
-/

namespace Muduo.Lib

variable {σ α : Type*} {step : σ → α → σ} {Q R : σ → α → Prop}

/-- The state reached from `s` by performing the labels of `as` in order. -/
def exec (step : σ → α → σ) (s : σ) (as : List α) : σ := as.foldl step s

/-- `Q` holds of the current state and the next label at every step of the run `as` from `s`. -/
def Along (step : σ → α → σ) (Q : σ → α → Prop) : σ → List α → Prop
  | _, [] => True
  | s, a :: as => Q s a ∧ Along step Q (step s a) as

@[simp] theorem exec_nil (s : σ) : exec step s [] = s := rfl

@[simp] theorem exec_cons (s : σ) (a : α) (as : List α) :
    exec step s (a :: as) = exec step (step s a) as := rfl

theorem exec_append (s : σ) (as bs : List α) :
    exec step s (as ++ bs) = exec step (exec step s as) bs := by
  simp only [exec, List.foldl_append]

theorem exec_concat (s : σ) (as : List α) (a : α) :
    exec step s (as ++ [a]) = step (exec step s as) a := by
  rw [exec_append, exec_cons, exec_nil]

@[simp] theorem along_nil (s : σ) : Along step Q s [] := trivial

@[simp] theorem along_cons (s : σ) (a : α) (as : List α) :
    Along step Q s (a :: as) ↔ Q s a ∧ Along step Q (step s a) as := Iff.rfl

theorem along_append (s : σ) (as bs : List α) :
    Along step Q s (as ++ bs) ↔ Along step Q s as ∧ Along step Q (exec step s as) bs := by
  induction as generalizing s with
  | nil => simp
  | cons a as ih =>
      rw [List.cons_append, along_cons, along_cons, exec_cons, ih, and_assoc]

theorem Along.mono (h : ∀ s a, Q s a → R s a) {s : σ} {as : List α}
    (hq : Along step Q s as) : Along step R s as := by
  induction as generalizing s with
  | nil => trivial
  | cons a as ih => exact ⟨h s a hq.1, ih hq.2⟩

/-- A condition on the labels alone. -/
theorem along_of_forall_mem {p : α → Prop} {s : σ} {as : List α} (h : ∀ a ∈ as, p a) :
    Along step (fun _ a => p a) s as := by
  induction as generalizing s with
  | nil => trivial
  | cons a as ih =>
      exact ⟨h a List.mem_cons_self, ih fun b hb => h b (List.mem_cons_of_mem a hb)⟩

theorem Along.and {s : σ} {as : List α} (hq : Along step Q s as) (hr : Along step R s as) :
    Along step (fun s a => Q s a ∧ R s a) s as := by
  induction as generalizing s with
  | nil => trivial
  | cons a as ih => exact ⟨⟨hq.1, hr.1⟩, ih hq.2 hr.2⟩

theorem Along.left {s : σ} {as bs : List α} (h : Along step Q s (as ++ bs)) :
    Along step Q s as := ((along_append s as bs).mp h).1

/-- **The invariant rule.**  A predicate that holds at the start and is kept by every step at which
`Q` holds, holds at the end of every run along which `Q` holds. -/
theorem along_invariant (I : σ → Prop) (hstep : ∀ s a, I s → Q s a → I (step s a))
    {s : σ} {as : List α} (h0 : I s) (hq : Along step Q s as) : I (exec step s as) := by
  induction as generalizing s with
  | nil => exact h0
  | cons a as ih => exact ih (hstep s a h0 hq.1) hq.2

/-- The invariant rule for steps that need no guard. -/
theorem exec_invariant (I : σ → Prop) (hstep : ∀ s a, I s → I (step s a))
    {s : σ} (as : List α) (h0 : I s) : I (exec step s as) := by
  induction as generalizing s with
  | nil => exact h0
  | cons a as ih => exact ih (hstep s a h0)

/-- What follows from an invariant holds at every step. -/
theorem along_of_invariant (I : σ → Prop) (hstep : ∀ s a, I s → I (step s a))
    (hq : ∀ s a, I s → Q s a) {s : σ} (h0 : I s) (as : List α) : Along step Q s as := by
  induction as generalizing s with
  | nil => trivial
  | cons a as ih => exact ⟨hq s a h0, ih (hstep s a h0)⟩

/-- The invariant rule for a predicate that also speaks about the labels performed so far. -/
theorem exec_history (I : List α → σ → Prop) {s : σ} (h0 : I [] s)
    (hstep : ∀ as t a, I as t → I (as ++ [a]) (step t a)) (as : List α) :
    I as (exec step s as) := by
  induction as using List.reverseRecOn with
  | nil => exact h0
  | append_singleton as a ih =>
      rw [exec_concat]
      exact hstep as _ a ih

/-- **The simulation rule.**  When every `Q`-step of one system is a step of another one under
`abs`, a run of the first is a run of the second. -/
theorem exec_simulation {τ : Type*} {step' : τ → α → τ} (abs : σ → τ)
    (hstep : ∀ s a, Q s a → abs (step s a) = step' (abs s) a) {s : σ} {as : List α}
    (hq : Along step Q s as) : abs (exec step s as) = exec step' (abs s) as := by
  induction as generalizing s with
  | nil => rfl
  | cons a as ih =>
      rw [exec_cons, exec_cons, ih hq.2, hstep s a hq.1]

/-- A run that is not `Q` throughout has a first step at which `Q` fails. -/
theorem exists_first_break {s : σ} {as : List α} (h : ¬ Along step Q s as) :
    ∃ pre a post, as = pre ++ a :: post ∧ Along step Q s pre ∧ ¬ Q (exec step s pre) a := by
  induction as generalizing s with
  | nil => exact absurd trivial h
  | cons a as ih =>
      by_cases ha : Q s a
      · obtain ⟨pre, b, post, rfl, hpre, hb⟩ := ih (s := step s a) (fun hr => h ⟨ha, hr⟩)
        exact ⟨a :: pre, b, post, rfl, ⟨ha, hpre⟩, hb⟩
      · exact ⟨[], a, as, rfl, trivial, ha⟩

instance Along.decidable [∀ s a, Decidable (Q s a)] :
    ∀ (s : σ) (as : List α), Decidable (Along step Q s as)
  | _, [] => inferInstanceAs (Decidable True)
  | s, a :: as =>
      letI := Along.decidable (step s a) as
      inferInstanceAs (Decidable (Q s a ∧ Along step Q (step s a) as))

/-! ### What a run puts out -/

section Outputs

variable {β : Type*} {out : σ → α → Option β}

/-- What the steps of the run `as` from `s` put out, in order. -/
def outputs (step : σ → α → σ) (out : σ → α → Option β) : σ → List α → List β
  | _, [] => []
  | s, a :: as => (out s a).toList ++ outputs step out (step s a) as

@[simp] theorem outputs_nil (s : σ) : outputs step out s [] = [] := rfl

@[simp] theorem outputs_cons (s : σ) (a : α) (as : List α) :
    outputs step out s (a :: as) = (out s a).toList ++ outputs step out (step s a) as := rfl

/-- What is put out at every state of an invariant has the property that the invariant gives it. -/
theorem forall_mem_outputs (I : σ → Prop) (hstep : ∀ s a, I s → I (step s a)) {P : β → Prop}
    (hout : ∀ s a b, I s → out s a = some b → P b) {s : σ} (h0 : I s) (as : List α) :
    ∀ b ∈ outputs step out s as, P b := by
  induction as generalizing s with
  | nil => exact fun b hb => absurd hb List.not_mem_nil
  | cons a as ih =>
      intro b hb
      rw [outputs_cons, List.mem_append, Option.mem_toList] at hb
      rcases hb with hnow | hlater
      · exact hout s a b h0 hnow
      · exact ih (hstep s a h0) b hlater

/-- **The invariant rule for what is put out**: a predicate that also speaks about what the
`Q`-steps performed so far have put out. -/
theorem along_outputs (I : List β → σ → Prop)
    (hstep : ∀ bs s a, I bs s → Q s a → I (bs ++ (out s a).toList) (step s a)) {s : σ} {as : List α}
    (h0 : I [] s) (hq : Along step Q s as) : I (outputs step out s as) (exec step s as) := by
  -- what was put out before the state `s` comes first
  have hgen : ∀ bs, I bs s → I (bs ++ outputs step out s as) (exec step s as) := by
    clear h0
    induction as generalizing s with
    | nil =>
        intro bs h
        rw [outputs_nil, List.append_nil]
        exact h
    | cons a as ih =>
        intro bs h
        rw [exec_cons, outputs_cons, ← List.append_assoc]
        exact ih hq.2 _ (hstep bs s a h hq.1)
  exact hgen [] h0

/-- The same for steps that need no guard. -/
theorem exec_outputs (I : List β → σ → Prop)
    (hstep : ∀ bs s a, I bs s → I (bs ++ (out s a).toList) (step s a)) {s : σ} (h0 : I [] s)
    (as : List α) : I (outputs step out s as) (exec step s as) :=
  along_outputs I (fun bs s a h _ => hstep bs s a h) h0
    (along_of_forall_mem (p := fun _ => True) fun _ _ => trivial)

/-- One system driven by what another one puts out. -/
theorem exec_concat_toList {τ : Type*} (next : τ → β → τ) (t : τ) (bs : List β) (b : Option β) :
    exec next t (bs ++ b.toList) = b.elim (exec next t bs) (next (exec next t bs)) := by
  cases b with
  | none => rw [Option.toList_none, List.append_nil, Option.elim_none]
  | some b => rw [Option.toList_some, exec_concat, Option.elim_some]

/-- A log to which every step adds what it puts out. -/
theorem log_exec {γ : Type*} (log : σ → List γ) (g : β → γ)
    (hstep : ∀ s a, log (step s a) = log s ++ (out s a).toList.map g) (s : σ) (as : List α) :
    log (exec step s as) = log s ++ (outputs step out s as).map g := by
  induction as generalizing s with
  | nil => simp
  | cons a as ih => rw [exec_cons, ih, hstep, outputs_cons, List.map_append, List.append_assoc]

end Outputs

/-! ### Order in a log -/

/-- Every entry with `q` comes after an entry with `p`. -/
def Precedes (p q : α → Prop) (log : List α) : Prop :=
  ∀ l₁ x l₂, log = l₁ ++ x :: l₂ → q x → ∃ y ∈ l₁, p y

theorem precedes_nil (p q : α → Prop) : Precedes p q [] := by
  intro l₁ x l₂ hlog
  simp at hlog

/-- A log grows at its end, so only the new entry is to be looked at. -/
theorem Precedes.concat {p q : α → Prop} {log : List α} (h : Precedes p q log) {x : α}
    (hx : q x → ∃ y ∈ log, p y) : Precedes p q (log ++ [x]) := by
  intro l₁ z l₂ hlog hz
  rcases List.eq_nil_or_concat l₂ with rfl | ⟨l₂, w, rfl⟩
  · obtain ⟨rfl, hxz⟩ := List.append_inj' hlog rfl
    obtain rfl := List.singleton_inj.mp hxz
    exact hx hz
  · rw [List.concat_eq_append, ← List.cons_append, ← List.append_assoc] at hlog
    obtain ⟨hpre, -⟩ := List.append_inj' hlog rfl
    exact h l₁ z l₂ hpre hz

end Muduo.Lib
