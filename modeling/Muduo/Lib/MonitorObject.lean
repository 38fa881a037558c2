import Muduo.Lib.Fair
import Muduo.Lib.Monitor
import Muduo.Lib.Runs

/-!
# Monitor objects

An object whose methods are critical sections of one mutex, with one condition variable: a
method takes the mutex, waits in a `while` as long as its condition says so, changes the data,
notifies, and gives the mutex back.  `Methods` is what an object has to say about itself;
finitely many threads then call the methods in any order, interleaved at every access to the
mutex and to the condition variable.

* `MonitorObject`, `step`, `Trans`, `trans_step` — the machine, and what a step can do;
* `Inv`, `inv_exec` — mutual exclusion, and **the methods are atomic**: the data are what the calls
  of the log, one after the other, make of the data at the beginning;
* `Broadcasts`, `Heard` and `Tokens`, `Covered` — two ways to notify enough, and the invariants that
  they give: nobody sleeps although there is something for them;
* `fair_rest` — **the calls come to an end**: under a fair schedule, after the last call, every
  thread is out or asleep; `fair_rest_broadcasts`, `fair_rest_tokens` — and who is asleep has to be.
-/

namespace Muduo.Lib

/-- What a method does with the condition variable at its end. -/
inductive Signal where
  | none
  /-- `notify()`. -/
  | one
  /-- `notifyAll()`. -/
  | all
  deriving DecidableEq

/-- What the critical section of a call leaves behind. -/
structure Outcome (σ ρ : Type*) where
  data : σ
  result : ρ
  signal : Signal

/-- The methods of an object with the data `σ`: its calls `κ` and their results `ρ`. -/
structure Methods (σ κ ρ : Type*) where
  /-- The condition of the `while` in which a call waits. -/
  blocked : κ → σ → Bool
  /-- What a call does behind the `while`. -/
  body : κ → σ → Outcome σ ρ

namespace MonitorObject

/-- Where a thread is in a call. -/
inductive Phase (κ : Type*) where
  | idle
  /-- Before the mutex has been taken. -/
  | entering (c : κ)
  /-- At the condition of the `while`. -/
  | testing (c : κ)
  /-- Asleep on the condition variable. -/
  | waiting (c : κ)
  /-- Awake again, without the mutex. -/
  | woken (c : κ)
  /-- Before `notify()`. -/
  | notifying
  /-- Before `notifyAll()`. -/
  | notifyingAll
  /-- Before the mutex is given back. -/
  | leaving
  deriving DecidableEq

inductive Label (κ τ : Type*) where
  | call (t : τ) (c : κ)
  /-- A thread gets the mutex. -/
  | lock (t : τ)
  /-- A thread that holds the mutex goes on. -/
  | advance (t : τ)
  /-- A thread notifies; `w` is the waiter that the notification reaches. -/
  | notify (t w : τ)
  /-- A wakeup without reason. -/
  | spurious (t : τ)

/-- The thread that makes the step. -/
def Label.actor {κ τ : Type*} : Label κ τ → τ
  | .call t _ | .lock t | .advance t | .notify t _ | .spurious t => t

/-- The steps that a thread makes on its own, once it has called. -/
def Label.internal {κ τ : Type*} : Label κ τ → Prop
  | .lock _ | .advance _ | .notify _ _ => True
  | .call _ _ | .spurious _ => False

namespace Phase

variable {κ : Type*}

def holds : Phase κ → Bool
  | .testing _ | .notifying | .notifyingAll | .leaving => true
  | _ => false

def waits : Phase κ → Bool
  | .waiting _ => true
  | _ => false

/-- In a call, and not asleep. -/
def runnable : Phase κ → Bool
  | .idle | .waiting _ => false
  | _ => true

def wakeUp : Phase κ → Phase κ
  | .waiting c => .woken c
  | p => p

/-- Where a call goes from its critical section. -/
def after : Signal → Phase κ
  | .none => .leaving
  | .one => .notifying
  | .all => .notifyingAll

@[simp] theorem holds_wakeUp (p : Phase κ) : p.wakeUp.holds = p.holds := by
  cases p <;> rfl

@[simp] theorem waits_wakeUp (p : Phase κ) : p.wakeUp.waits = false := by
  cases p <;> rfl

@[simp] theorem holds_after (n : Signal) : (after n : Phase κ).holds = true := by
  cases n <;> rfl

@[simp] theorem waits_after (n : Signal) : (after n : Phase κ).waits = false := by
  cases n <;> rfl

end Phase

end MonitorObject

open MonitorObject in
/-- The object and the threads that use it. -/
structure MonitorObject (σ κ ρ τ : Type*) where
  data : σ
  mutex : Option τ
  phase : τ → Phase κ
  /-- The critical sections so far: who, which call, which result. -/
  log : List (τ × κ × ρ)

namespace MonitorObject

variable {σ κ ρ τ : Type*}

def new (data : σ) : MonitorObject σ κ ρ τ where
  data := data
  mutex := none
  phase := fun _ => .idle
  log := []

variable [DecidableEq τ] (m : Methods σ κ ρ)

def setPhase (s : MonitorObject σ κ ρ τ) (t : τ) (p : Phase κ) : MonitorObject σ κ ρ τ :=
  { s with phase := Function.update s.phase t p }

/-- The critical section of a call, behind the `while`. -/
def act (s : MonitorObject σ κ ρ τ) (t : τ) (c : κ) : MonitorObject σ κ ρ τ where
  data := (m.body c s.data).data
  mutex := s.mutex
  phase := Function.update s.phase t (.after (m.body c s.data).signal)
  log := s.log ++ [(t, c, (m.body c s.data).result)]

def advance (s : MonitorObject σ κ ρ τ) (t : τ) : MonitorObject σ κ ρ τ :=
  match s.phase t with
  | .testing c =>
      if m.blocked c s.data then { s.setPhase t (.waiting c) with mutex := none } else s.act m t c
  | .notifyingAll => { s with phase := Function.update (Phase.wakeUp ∘ s.phase) t .leaving }
  | .leaving => { s.setPhase t .idle with mutex := none }
  | _ => s

/-- A notification reaches one of the waiters, and is lost only if nobody waits. -/
def notify [Fintype τ] (s : MonitorObject σ κ ρ τ) (t w : τ) : MonitorObject σ κ ρ τ :=
  match s.phase t, s.phase w with
  | .notifying, .waiting c => (s.setPhase w (.woken c)).setPhase t .leaving
  | .notifying, _ => if ∃ u, (s.phase u).waits = true then s else s.setPhase t .leaving
  | _, _ => s

def step [Fintype τ] (s : MonitorObject σ κ ρ τ) : Label κ τ → MonitorObject σ κ ρ τ
  | .call t c =>
      match s.phase t with
      | .idle => s.setPhase t (.entering c)
      | _ => s
  | .lock t =>
      match s.phase t, s.mutex with
      | .entering c, none | .woken c, none => { s.setPhase t (.testing c) with mutex := some t }
      | _, _ => s
  | .advance t => s.advance m t
  | .notify t w => s.notify t w
  | .spurious t =>
      match s.phase t with
      | .waiting c => s.setPhase t (.woken c)
      | _ => s

/-! ### What a step can do -/

inductive Trans (s : MonitorObject σ κ ρ τ) : Label κ τ → MonitorObject σ κ ρ τ → Prop where
  | stay {l : Label κ τ} : Trans s l s
  | call {t : τ} {c : κ} (h : s.phase t = .idle) : Trans s (.call t c) (s.setPhase t (.entering c))
  | lock {t : τ} {c : κ} (h : s.phase t = .entering c ∨ s.phase t = .woken c)
      (hfree : s.mutex = none) :
      Trans s (.lock t) { s.setPhase t (.testing c) with mutex := some t }
  | wait {t : τ} {c : κ} (h : s.phase t = .testing c) (hb : m.blocked c s.data = true) :
      Trans s (.advance t) { s.setPhase t (.waiting c) with mutex := none }
  | act {t : τ} {c : κ} (h : s.phase t = .testing c) (hb : m.blocked c s.data = false) :
      Trans s (.advance t) (s.act m t c)
  | wake {t w : τ} {c : κ} (h : s.phase t = .notifying) (hw : s.phase w = .waiting c) :
      Trans s (.notify t w) ((s.setPhase w (.woken c)).setPhase t .leaving)
  | unheard {t w : τ} (h : s.phase t = .notifying) (hnone : ∀ u, (s.phase u).waits = false) :
      Trans s (.notify t w) (s.setPhase t .leaving)
  | broadcast {t : τ} (h : s.phase t = .notifyingAll) :
      Trans s (.advance t) { s with phase := Function.update (Phase.wakeUp ∘ s.phase) t .leaving }
  | leave {t : τ} (h : s.phase t = .leaving) :
      Trans s (.advance t) { s.setPhase t .idle with mutex := none }
  | spurious {t : τ} {c : κ} (h : s.phase t = .waiting c) :
      Trans s (.spurious t) (s.setPhase t (.woken c))

variable {m} {s s' : MonitorObject σ κ ρ τ} {l : Label κ τ}

theorem trans_advance (s : MonitorObject σ κ ρ τ) (t : τ) :
    Trans m s (.advance t) (s.advance m t) := by
  unfold advance
  split <;> rename_i h
  · split
    · rename_i hb
      exact .wait h hb
    · rename_i hb
      exact .act h (by simpa using hb)
  · exact .broadcast h
  · exact .leave h
  · exact .stay

variable [Fintype τ]

theorem trans_notify (s : MonitorObject σ κ ρ τ) (t w : τ) :
    Trans m s (.notify t w) (s.notify t w) := by
  unfold notify
  split
  · rename_i h hw
    exact .wake h hw
  · rename_i h _
    split
    · exact .stay
    · rename_i hnone
      exact .unheard h (by simpa using hnone)
  · exact .stay

theorem trans_step (s : MonitorObject σ κ ρ τ) (l : Label κ τ) : Trans m s l (s.step m l) := by
  cases l with
  | call t c =>
      simp only [step]
      split
      · rename_i h
        exact .call h
      · exact .stay
  | lock t =>
      simp only [step]
      split
      · rename_i h hfree
        exact .lock (Or.inl h) hfree
      · rename_i h hfree
        exact .lock (Or.inr h) hfree
      · exact .stay
  | advance t => exact trans_advance s t
  | notify t w => exact trans_notify s t w
  | spurious t =>
      simp only [step]
      split
      · rename_i h
        exact .spurious h
      · exact .stay

/-! ### The methods are atomic -/

/-- One call after the other, without threads. -/
def serialStep (m : Methods σ κ ρ) (d : σ) (e : τ × κ × ρ) : σ := (m.body e.2.1 d).data

/-- The call could be made on the data, and has this result. -/
def Legal (m : Methods σ κ ρ) (d : σ) (e : τ × κ × ρ) : Prop :=
  m.blocked e.2.1 d = false ∧ (m.body e.2.1 d).result = e.2.2

structure Inv (m : Methods σ κ ρ) (d₀ : σ) (s : MonitorObject σ κ ρ τ) : Prop where
  mutex : Owned Phase.holds s.phase s.mutex
  legal : Along (serialStep m) (Legal m) d₀ s.log
  data : exec (serialStep m) d₀ s.log = s.data

omit [DecidableEq τ] [Fintype τ] in
theorem inv_new (m : Methods σ κ ρ) (d₀ : σ) : Inv m d₀ (new d₀ : MonitorObject σ κ ρ τ) where
  mutex t := by simp [new, Phase.holds]
  legal := trivial
  data := rfl

variable {d₀ : σ}

omit [DecidableEq τ] [Fintype τ] in
/-- A step that leaves data and log alone. -/
theorem Inv.setPhase (h : Inv m d₀ s) {phase : τ → Phase κ} {mutex : Option τ}
    (hmutex : Owned Phase.holds phase mutex) : Inv m d₀ { s with phase := phase, mutex := mutex } :=
  ⟨hmutex, h.legal, h.data⟩

omit [Fintype τ] in
/-- Who has the mutex may give it back. -/
theorem Inv.release (h : Inv m d₀ s) {t : τ} (ht : (s.phase t).holds = true) {p : Phase κ}
    (hp : p.holds = false) : Owned Phase.holds (Function.update s.phase t p) none := by
  have hmutex := h.mutex
  rw [(h.mutex t).mp ht] at hmutex
  exact hmutex.release hp

omit [Fintype τ] in
theorem Inv.act (h : Inv m d₀ s) {t : τ} {c : κ} (hp : s.phase t = .testing c)
    (hb : m.blocked c s.data = false) : Inv m d₀ (s.act m t c) := by
  refine ⟨h.mutex.keep (by rw [hp]; exact Phase.holds_after _), ?_, ?_⟩
  · refine (along_append _ _ _).mpr ⟨h.legal, ?_, trivial⟩
    rw [h.data]
    exact ⟨hb, rfl⟩
  · show exec (serialStep m) d₀ (s.log ++ [(t, c, (m.body c s.data).result)]) =
      (m.body c s.data).data
    rw [exec_concat, h.data]
    rfl

omit [Fintype τ] in
theorem Inv.trans (h : Inv m d₀ s) (ht : Trans m s l s') : Inv m d₀ s' := by
  cases ht with
  | stay => exact h
  | call hp => exact h.setPhase (h.mutex.keep (by rw [hp]; rfl))
  | lock hp hfree =>
      have hmutex := h.mutex
      rw [hfree] at hmutex
      exact h.setPhase (hmutex.acquire rfl)
  | wait hp hb => exact h.setPhase (h.release (by rw [hp]; rfl) rfl)
  | act hp hb => exact h.act hp hb
  | @wake t w c hp hw =>
      have htw : t ≠ w := by
        rintro rfl
        rw [hp] at hw
        cases hw
      have hmutex : Owned Phase.holds (Function.update s.phase w (.woken c)) s.mutex :=
        h.mutex.keep (by rw [hw]; rfl)
      exact h.setPhase (hmutex.keep (by rw [Function.update_of_ne htw, hp]; rfl))
  | unheard hp hnone => exact h.setPhase (h.mutex.keep (by rw [hp]; rfl))
  | broadcast hp =>
      exact h.setPhase
        ((h.mutex.map Phase.holds_wakeUp).keep (by rw [Function.comp_apply, hp]; rfl))
  | leave hp => exact h.setPhase (h.release (by rw [hp]; rfl) rfl)
  | spurious hp => exact h.setPhase (h.mutex.keep (by rw [hp]; rfl))

theorem inv_step (l : Label κ τ) (h : Inv m d₀ s) : Inv m d₀ (s.step m l) :=
    h.trans (trans_step s l)

theorem inv_exec (m : Methods σ κ ρ) (d₀ : σ) (run : List (Label κ τ)) :
    Inv m d₀ (exec (step m) (new d₀) run) :=
  exec_invariant (Inv m d₀) (fun _ l h => inv_step l h) run (inv_new m d₀)

/-! ### Notifying everybody -/

/-- A call that ends what another call waits for notifies all waiters. -/
def Broadcasts (m : Methods σ κ ρ) : Prop :=
  ∀ c d x, m.blocked c x = true → m.blocked d x = false → m.blocked c (m.body d x).data = false →
    (m.body d x).signal = .all

/-- Who sleeps has a reason, or is about to be woken up. -/
def Heard (m : Methods σ κ ρ) (s : MonitorObject σ κ ρ τ) : Prop :=
  ∀ t c, s.phase t = .waiting c → m.blocked c s.data = true ∨ ∃ u, s.phase u = .notifyingAll

omit [DecidableEq τ] [Fintype τ] in
theorem heard_new (m : Methods σ κ ρ) (d₀ : σ) : Heard m (new d₀ : MonitorObject σ κ ρ τ) := by
  intro t c hp
  cases hp

omit [Fintype τ] in
/-- One thread moves, does not fall asleep and was not about to notify. -/
theorem Heard.update (h : Heard m s) {t : τ} {p : Phase κ} {mutex : Option τ} (hp : p.waits = false)
    (ht : s.phase t ≠ .notifyingAll) :
    Heard m { s with phase := Function.update s.phase t p, mutex := mutex } := by
  intro u c hu
  replace hu : Function.update s.phase t p u = .waiting c := hu
  by_cases hut : u = t
  · rw [hut, Function.update_self] at hu
    rw [hu] at hp
    cases hp
  · rw [Function.update_of_ne hut] at hu
    refine (h u c hu).imp id ?_
    rintro ⟨v, hv⟩
    have hvt : v ≠ t := fun e => ht (e ▸ hv)
    exact ⟨v, by rw [← hv]; exact Function.update_of_ne hvt _ _⟩

omit [Fintype τ] in
theorem Heard.wait (h : Heard m s) {t : τ} {c : κ} (hp : s.phase t = .testing c)
    (hb : m.blocked c s.data = true) :
    Heard m { s.setPhase t (.waiting c) with mutex := none } := by
  intro u d hu
  replace hu : Function.update s.phase t (.waiting c) u = .waiting d := hu
  by_cases hut : u = t
  · rw [hut, Function.update_self] at hu
    cases hu
    exact Or.inl hb
  · rw [Function.update_of_ne hut] at hu
    refine (h u d hu).imp id ?_
    rintro ⟨v, hv⟩
    have hvt : v ≠ t := by
      rintro rfl
      rw [hp] at hv
      cases hv
    exact ⟨v, by rw [← hv]; exact Function.update_of_ne hvt _ _⟩

omit [Fintype τ] in
/-- The critical section: whose condition it ends will hear of it. -/
theorem Heard.act (hm : Broadcasts m) (h : Heard m s) (hinv : Inv m d₀ s) {t : τ} {c : κ}
    (hp : s.phase t = .testing c) (hb : m.blocked c s.data = false) : Heard m (s.act m t c) := by
  intro u d hu
  replace hu : Function.update s.phase t (.after (m.body c s.data).signal) u = .waiting d := hu
  have hut : u ≠ t := by
    rintro rfl
    rw [Function.update_self] at hu
    have hw := Phase.waits_after (κ := κ) (m.body c s.data).signal
    rw [hu] at hw
    cases hw
  rw [Function.update_of_ne hut] at hu
  have hblocked : m.blocked d s.data = true := by
    rcases h u d hu with hd | ⟨v, hv⟩
    · exact hd
    · -- the notifier would hold the mutex beside the thread that acts
      obtain rfl :=
        hinv.mutex.eq_of_holds (by rw [hv]; rfl) (by rw [hp]; rfl : (s.phase t).holds = true)
      rw [hp] at hv
      cases hv
  by_cases hd : m.blocked d (m.body c s.data).data = true
  · exact Or.inl hd
  · refine Or.inr ⟨t, ?_⟩
    show Function.update s.phase t (.after (m.body c s.data).signal) t = .notifyingAll
    rw [Function.update_self, hm d c s.data hblocked hb (by simpa using hd)]
    rfl

omit [Fintype τ] in
theorem Heard.trans (hm : Broadcasts m) (h : Heard m s) (hinv : Inv m d₀ s) (ht : Trans m s l s') :
    Heard m s' := by
  cases ht with
  | stay => exact h
  | call hp => exact h.update rfl (by simp [hp])
  | lock hp hfree => exact h.update rfl (by rcases hp with hp | hp <;> simp [hp])
  | wait hp hb => exact h.wait hp hb
  | act hp hb => exact h.act hm hinv hp hb
  | @wake t w c hp hw =>
      have htw : t ≠ w := by
        rintro rfl
        rw [hp] at hw
        cases hw
      have hfirst : Heard m (s.setPhase w (.woken c)) := h.update rfl (by simp [hw])
      refine hfirst.update rfl ?_
      show Function.update s.phase w (.woken c) t ≠ .notifyingAll
      simp [Function.update_of_ne htw, hp]
  | unheard hp hnone => exact h.update rfl (by simp [hp])
  | @broadcast t hp =>
      intro u c hu
      replace hu : Function.update (Phase.wakeUp ∘ s.phase) t .leaving u = .waiting c := hu
      by_cases hut : u = t
      · rw [hut, Function.update_self] at hu
        cases hu
      · rw [Function.update_of_ne hut] at hu
        have hw := Phase.waits_wakeUp (s.phase u)
        rw [← Function.comp_apply (f := Phase.wakeUp), hu] at hw
        cases hw
  | leave hp => exact h.update rfl (by simp [hp])
  | spurious hp => exact h.update rfl (by simp [hp])

/-! ### Notifying one -/

/-- Some calls are consumers: each of them waits while there is nothing and takes one away; who
adds one notifies one. -/
structure Tokens (m : Methods σ κ ρ) (consumer : κ → Bool) (avail : σ → ℕ) : Prop where
  blocked : ∀ c x, m.blocked c x = true → consumer c = true ∧ avail x = 0
  body : ∀ c x, m.blocked c x = false →
    avail (m.body c x).data + (consumer c).toNat ≤ avail x +
    ((m.body c x).signal = .one : Bool).toNat
  signal : ∀ c x, (m.body c x).signal ≠ .all

/-- Awake for what there is. -/
def Phase.active (consumer : κ → Bool) : Phase κ → Bool
  | .testing c | .woken c => consumer c
  | _ => false

def Phase.notifies : Phase κ → Bool
  | .notifying => true
  | _ => false

/-- What a thread adds to the consumers awake and the notifications to come. -/
def Phase.share (consumer : κ → Bool) (p : Phase κ) : ℕ :=
  (p.active consumer).toNat + p.notifies.toNat

/-- While somebody sleeps, the `n` things there are have a consumer awake or a
notification to come each. -/
def Covered (consumer : κ → Bool) (phase : τ → Phase κ) (n : ℕ) : Prop :=
  0 < count Phase.waits phase → n ≤ count (Phase.active consumer) phase + count Phase.notifies phase

variable {consumer : κ → Bool} {avail : σ → ℕ}

/-- One thread moves and does not fall asleep: what it gives up it takes along, or
leaves to nobody. -/
theorem Covered.update {phase : τ → Phase κ} {n n' : ℕ} (h : Covered consumer phase n)
    {t : τ} {p : Phase κ}
    (hwait : p.waits = false) (hshare : n' + (phase t).share consumer ≤ n + p.share consumer) :
    Covered consumer (Function.update phase t p) n' := by
  intro hpos
  have hwaits := count_update Phase.waits phase t p
  have hactive := count_update (Phase.active consumer) phase t p
  have hnotifies := count_update Phase.notifies phase t p
  rw [hwait, Bool.toNat_false] at hwaits
  have hold := h (by omega)
  unfold Phase.share at hshare
  omega

omit [DecidableEq τ] in
theorem covered_new (consumer : κ → Bool) (n : ℕ) : Covered consumer (fun _ : τ => .idle) n := by
  intro hpos
  obtain ⟨t, ht⟩ := (count_pos_iff _ _).mp hpos
  cases ht

/-- The critical section of a call. -/
theorem Covered.act (hm : Tokens m consumer avail) (h : Covered consumer s.phase (avail s.data))
    {t : τ} {c : κ} (hp : s.phase t = .testing c) (hb : m.blocked c s.data = false) :
    Covered consumer (s.act m t c).phase (avail (s.act m t c).data) := by
  refine h.update (Phase.waits_after _) ?_
  have hbody := hm.body c s.data hb
  have hsignal := hm.signal c s.data
  rw [hp]
  show avail (m.body c s.data).data + (consumer c).toNat ≤
    avail s.data + Phase.share consumer (.after (m.body c s.data).signal)
  cases hn : (m.body c s.data).signal with
  | none => simpa [hn, Phase.share, Phase.after, Phase.active, Phase.notifies] using hbody
  | one => simpa [hn, Phase.share, Phase.after, Phase.active, Phase.notifies] using hbody
  | all => exact absurd hn hsignal

/-- Only consumers sleep. -/
def Phase.sleeper (consumer : κ → Bool) : Phase κ → Prop
  | .waiting c => consumer c = true
  | _ => True

omit [Fintype τ] in
theorem sleeper_update {phase : τ → Phase κ} (h : ∀ t, (phase t).sleeper consumer)
    {t : τ} {p : Phase κ}
    (hp : p.sleeper consumer) (u : τ) : (Function.update phase t p u).sleeper consumer := by
  by_cases hut : u = t
  · rw [hut, Function.update_self]
    exact hp
  · rw [Function.update_of_ne hut]
    exact h u

structure Supplied (consumer : κ → Bool) (avail : σ → ℕ) (s : MonitorObject σ κ ρ τ) : Prop where
  asleep : ∀ t, (s.phase t).sleeper consumer
  covered : Covered consumer s.phase (avail s.data)

omit [DecidableEq τ] in
theorem supplied_new (d₀ : σ) : Supplied consumer avail (new d₀ : MonitorObject σ κ ρ τ) where
  asleep _ := trivial
  covered := covered_new consumer _

/-- A step of one thread that leaves the data alone and in which it does not fall asleep. -/
theorem Supplied.update (h : Supplied consumer avail s) {t : τ} {p : Phase κ} {mutex : Option τ}
    (hwait : p.waits = false) (hshare : (s.phase t).share consumer ≤ p.share consumer) :
    Supplied consumer avail { s with phase := Function.update s.phase t p, mutex := mutex } where
  asleep := by
    refine sleeper_update h.asleep ?_
    cases p with
    | waiting c => cases hwait
    | _ => trivial
  covered := h.covered.update hwait (Nat.add_le_add_left hshare _)

/-- **A notification**: the waiter takes the place of the notifier. -/
theorem Supplied.wake (h : Supplied consumer avail s) {t w : τ} {c : κ}
    (hp : s.phase t = .notifying) (hw : s.phase w = .waiting c) :
    Supplied consumer avail ((s.setPhase w (.woken c)).setPhase t .leaving) := by
  have htw : t ≠ w := by
    rintro rfl
    rw [hp] at hw
    cases hw
  have hc : consumer c = true := by
    have hsleeper := h.asleep w
    rw [hw] at hsleeper
    exact hsleeper
  -- first the waiter wakes up and then the notifier goes on
  have hasleep : ∀ u, (Function.update s.phase w (.woken c) u).sleeper consumer :=
    sleeper_update h.asleep trivial
  have hfirst : Covered consumer (Function.update s.phase w (.woken c)) (avail s.data + 1) := by
    refine h.covered.update rfl ?_
    rw [hw]
    show avail s.data + 1 + 0 ≤ avail s.data + ((consumer c).toNat + 0)
    rw [hc]
    exact le_rfl
  refine ⟨sleeper_update hasleep trivial, hfirst.update rfl ?_⟩
  rw [Function.update_of_ne htw, hp]
  exact le_rfl

theorem Supplied.trans (hm : Tokens m consumer avail) (h : Supplied consumer avail s)
    (ht : Trans m s l s') : Supplied consumer avail s' := by
  cases ht with
  | stay => exact h
  | call hp => exact h.update rfl (by rw [hp]; exact Nat.zero_le _)
  | lock hp hfree =>
      refine h.update rfl ?_
      rcases hp with hp | hp <;> rw [hp]
      · exact Nat.zero_le _
      · exact le_rfl
  | @wait t c hp hb =>
      obtain ⟨hc, hnone⟩ := hm.blocked c s.data hb
      refine ⟨sleeper_update h.asleep hc, fun _ => ?_⟩
      show avail s.data ≤ _
      rw [hnone]
      exact Nat.zero_le _
  | @act t c hp hb =>
      refine ⟨sleeper_update h.asleep ?_, h.covered.act hm hp hb⟩
      cases (m.body c s.data).signal <;> trivial
  | wake hp hw => exact h.wake hp hw
  | @unheard t w hp hnone =>
      refine ⟨sleeper_update h.asleep trivial, fun hpos => ?_⟩
      -- nobody waits for this notification
      obtain ⟨u, hu⟩ := (count_pos_iff _ _).mp hpos
      replace hu : (Function.update s.phase t .leaving u).waits = true := hu
      by_cases hut : u = t
      · rw [hut, Function.update_self] at hu
        cases hu
      · rw [Function.update_of_ne hut, hnone u] at hu
        cases hu
  | @broadcast t hp =>
      have hnone : ∀ u, (Function.update (Phase.wakeUp ∘ s.phase) t .leaving u).waits = false := by
        intro u
        by_cases hut : u = t
        · rw [hut, Function.update_self]
          rfl
        · rw [Function.update_of_ne hut]
          exact Phase.waits_wakeUp _
      refine ⟨fun u => ?_, fun hpos => ?_⟩
      · have hu := hnone u
        show Phase.sleeper consumer (Function.update (Phase.wakeUp ∘ s.phase) t .leaving u)
        cases hq : Function.update (Phase.wakeUp ∘ s.phase) t .leaving u with
        | waiting c =>
            rw [hq] at hu
            cases hu
        | _ => trivial
      · obtain ⟨u, hu⟩ := (count_pos_iff _ _).mp hpos
        rw [hnone u] at hu
        cases hu
  | leave hp => exact h.update rfl (by rw [hp]; exact le_rfl)
  | spurious hp => exact h.update rfl (by rw [hp]; exact Nat.zero_le _)

omit [DecidableEq τ] in
/-- When no thread runs, nobody sleeps for what there is. -/
theorem Supplied.none_left (h : Supplied consumer avail s)
    (hrest : ∀ t, (s.phase t).runnable = false)
    {t : τ} (hwaits : (s.phase t).waits = true) : avail s.data = 0 := by
  have hactive : count (Phase.active consumer) s.phase = 0 := by
    rw [count_eq_zero_iff]
    intro u
    have hu := hrest u
    cases hp : s.phase u <;> simp_all [Phase.runnable, Phase.active]
  have hnotifies : count Phase.notifies s.phase = 0 := by
    rw [count_eq_zero_iff]
    intro u
    have hu := hrest u
    cases hp : s.phase u <;> simp_all [Phase.runnable, Phase.notifies]
  have hcovered := h.covered ((count_pos_iff _ _).mpr ⟨t, hwaits⟩)
  omega

/-! ### The calls come to an end -/

/-- How many steps a thread still causes at most, with `n` threads: a notification pays for the
steps of those it wakes up. -/
def Phase.weight (n : ℕ) : Phase κ → ℕ
  | .idle => 0
  | .leaving => 1
  | .notifying => 4
  | .notifyingAll => 2 * n + 2
  | .waiting _ => 2 * n + 4
  | .testing _ => 2 * n + 5
  | .woken _ | .entering _ => 2 * n + 6

def work (s : MonitorObject σ κ ρ τ) : ℕ := ∑ t, (s.phase t).weight (Fintype.card τ)

/-- One thread moves to where it has less to do. -/
theorem work_less (s : MonitorObject σ κ ρ τ) {t : τ} {p : Phase κ}
    (hless : p.weight (Fintype.card τ) < (s.phase t).weight (Fintype.card τ)) :
    ∑ u, (Function.update s.phase t p u).weight (Fintype.card τ) < s.work := by
  have hmove := sum_update (Phase.weight (Fintype.card τ)) s.phase t p
  unfold work
  omega

/-- A notification takes three steps from the notifier and gives two to the waiter. -/
theorem work_wake (s : MonitorObject σ κ ρ τ) {t w : τ} {c : κ} (hp : s.phase t = .notifying)
    (hw : s.phase w = .waiting c) :
    ((s.setPhase w (.woken c)).setPhase t .leaving).work < s.work := by
  have htw : t ≠ w := by
    rintro rfl
    rw [hp] at hw
    cases hw
  have hfirst := sum_update (Phase.weight (Fintype.card τ)) s.phase w (.woken c)
  have hsecond := sum_update (Phase.weight (Fintype.card τ)) (Function.update s.phase w (.woken c))
    t .leaving
  rw [Function.update_of_ne htw, hp] at hsecond
  rw [hw] at hfirst
  have hnotifier : (Phase.notifying : Phase κ).weight (Fintype.card τ) = 4 := rfl
  have hleaver : (Phase.leaving : Phase κ).weight (Fintype.card τ) = 1 := rfl
  have hwaiter :
      (Phase.woken c).weight (Fintype.card τ) = (Phase.waiting c).weight (Fintype.card τ) + 2 := rfl
  simp only [work, setPhase]
  omega

/-- Everybody is woken up: each waiter has two more steps to make. -/
theorem work_broadcast (s : MonitorObject σ κ ρ τ) {t : τ} (hp : s.phase t = .notifyingAll) :
    ∑ u, (Function.update (Phase.wakeUp ∘ s.phase) t .leaving u).weight (Fintype.card τ) <
    s.work := by
  have hwake : ∀ u, ((Phase.wakeUp ∘ s.phase) u).weight (Fintype.card τ) ≤
      (s.phase u).weight (Fintype.card τ) + 2 := by
    intro u
    rw [Function.comp_apply]
    cases s.phase u <;> simp [Phase.wakeUp, Phase.weight]
  have hsum : ∑ u, ((Phase.wakeUp ∘ s.phase) u).weight (Fintype.card τ) ≤ s.work + 2 *
      Fintype.card τ := by
    refine (Finset.sum_le_sum fun u _ => hwake u).trans ?_
    rw [Finset.sum_add_distrib, Finset.sum_const, Finset.card_univ, smul_eq_mul, Nat.mul_comm]
    exact le_rfl
  have hmove := sum_update (Phase.weight (Fintype.card τ)) (Phase.wakeUp ∘ s.phase) t .leaving
  have hnotifier :
      ((Phase.wakeUp ∘ s.phase) t).weight (Fintype.card τ) = 2 * Fintype.card τ + 2 := by
    rw [Function.comp_apply, hp]
    rfl
  have hleaver : (Phase.leaving : Phase κ).weight (Fintype.card τ) = 1 := rfl
  omega

/-- Every step that a thread makes on its own leaves less to do. -/
theorem work_internal (s : MonitorObject σ κ ρ τ) {l : Label κ τ} (hl : l.internal) :
    s.step m l = s ∨ (s.step m l).work < s.work := by
  cases l with
  | call t c => exact hl.elim
  | spurious t => exact hl.elim
  | lock t =>
      simp only [step]
      split
      · rename_i hp hfree
        exact Or.inr (work_less s (by rw [hp]; exact Nat.lt_succ_self _))
      · rename_i hp hfree
        exact Or.inr (work_less s (by rw [hp]; exact Nat.lt_succ_self _))
      · exact Or.inl rfl
  | advance t =>
      simp only [step, advance]
      split
      · rename_i c hp
        right
        split
        · exact work_less s (by rw [hp]; exact Nat.lt_succ_self _)
        · refine work_less s ?_
          rw [hp]
          cases (m.body c s.data).signal <;> simp only [Phase.after, Phase.weight] <;> omega
      · rename_i hp
        exact Or.inr (work_broadcast s hp)
      · rename_i hp
        exact Or.inr (work_less s (by rw [hp]; exact Nat.zero_lt_one))
      · exact Or.inl rfl
  | notify t w =>
      simp only [step, notify]
      split
      · rename_i hp hw
        exact Or.inr (work_wake s hp hw)
      · rename_i hp _
        split
        · exact Or.inl rfl
        · exact Or.inr (work_less s (by rw [hp]; simp only [Phase.weight]; omega))
      · exact Or.inl rfl

omit [Fintype τ] in
/-- A thread that moves is not where it was. -/
theorem phase_ne_of_update {t : τ} {p : Phase κ} (hp : p ≠ s.phase t) {s' : MonitorObject σ κ ρ τ}
    (hs' : s'.phase = Function.update s.phase t p) : s' ≠ s := by
  rintro rfl
  exact hp (by rw [hs', Function.update_self])

/-- As long as a thread runs, some thread can make a step on its own. -/
theorem exists_internal_of_runnable (h : Inv m d₀ s) {t : τ} (ht : (s.phase t).runnable = true) :
    ∃ l : Label κ τ, l.internal ∧ s.step m l ≠ s := by
  cases hmutex : s.mutex with
  | none =>
      -- nobody holds the mutex, so the thread can have it
      refine ⟨.lock t, trivial, ?_⟩
      have hfree : (s.phase t).holds = false := by
        have howned := (h.mutex t).not
        simpa [hmutex] using howned
      cases hp : s.phase t with
      | entering c =>
          exact phase_ne_of_update (t := t) (p := .testing c) (by simp [hp])
            (by simp [step, hp, hmutex, setPhase])
      | woken c =>
          exact phase_ne_of_update (t := t) (p := .testing c) (by simp [hp])
            (by simp [step, hp, hmutex, setPhase])
      | _ => simp_all [Phase.holds, Phase.runnable]
  | some u =>
      have hholds : (s.phase u).holds = true := (h.mutex u).mpr hmutex
      cases hp : s.phase u with
      | testing c =>
          refine ⟨.advance u, trivial, ?_⟩
          by_cases hb : m.blocked c s.data = true
          · exact phase_ne_of_update (t := u) (p := .waiting c) (by simp [hp])
              (by simp [step, advance, hp, hb, setPhase])
          · refine phase_ne_of_update (t := u) (p := .after (m.body c s.data).signal) ?_
              (by simp [step, advance, hp, hb, act])
            rw [hp]
            cases (m.body c s.data).signal <;> simp [Phase.after]
      | leaving =>
          exact ⟨.advance u, trivial, phase_ne_of_update (t := u) (p := .idle) (by simp [hp])
            (by simp [step, advance, hp, setPhase])⟩
      | notifyingAll =>
          refine ⟨.advance u, trivial, fun hsame => ?_⟩
          have hphase := congrArg (fun x => x.phase u) hsame
          simp [step, advance, hp] at hphase
      | notifying =>
          by_cases hwait : ∃ w, (s.phase w).waits = true
          · obtain ⟨w, hw⟩ := hwait
            refine ⟨.notify u w, trivial, fun hsame => ?_⟩
            have hphase := congrArg (fun x => x.phase u) hsame
            cases hq : s.phase w with
            | waiting c => simp [step, notify, hp, hq, setPhase] at hphase
            | _ => simp [hq, Phase.waits] at hw
          · refine ⟨.notify u u, trivial, fun hsame => ?_⟩
            have hphase := congrArg (fun x => x.phase u) hsame
            simp only [step, notify, hp, if_neg hwait, setPhase, Function.update_self] at hphase
            cases hphase
      | _ => simp [hp, Phase.holds] at hholds

/-- **The calls come to an end.**  Under a fair schedule in which no thread calls any more, no
thread runs in the end: each is out, or asleep. -/
theorem fair_rest {I : MonitorObject σ κ ρ τ → Prop} (hI : ∀ s l s', I s → Trans m s l s' → I s')
    (hinv : ∀ s, I s → Inv m d₀ s) (h0 : I s) {sched : ℕ → Label κ τ}
    (hfair : Fair Label.internal sched) :
    ∃ N, I (stateAt (step m) s sched N) ∧
      ∀ t, ((stateAt (step m) s sched N).phase t).runnable = false := by
  obtain ⟨N, hN, hrest⟩ := fair_settles work (fun s l h _ => hI s l _ h (trans_step s l))
    (fun s l _ hl => work_internal s hl) h0 hfair
  refine ⟨N, hN, fun t => ?_⟩
  by_contra ht
  obtain ⟨l, hl, hmoves⟩ := exists_internal_of_runnable (hinv _ hN) (by simpa using ht)
  exact hmoves (hrest l hl)

omit [DecidableEq τ] [Fintype τ] in
theorem Phase.idle_or_waiting {p : Phase κ} (h : p.runnable = false) : p = .idle ∨ ∃ c,
    p = .waiting c := by
  cases p with
  | idle => exact Or.inl rfl
  | waiting c => exact Or.inr ⟨c, rfl⟩
  | _ => cases h

/-- Who notifies everybody leaves asleep only those who have to be. -/
theorem fair_rest_broadcasts (hm : Broadcasts m) (run : List (Label κ τ)) {sched : ℕ → Label κ τ}
    (hfair : Fair Label.internal sched) :
    ∃ N, let s' := stateAt (step m) (exec (step m) (new d₀) run) sched N
      Inv m d₀ s' ∧ ∀ t, s'.phase t = .idle ∨ ∃ c, s'.phase t = .waiting c ∧
      m.blocked c s'.data = true := by
  have hstep : ∀ (s : MonitorObject σ κ ρ τ) (l : Label κ τ), Heard m s ∧ Inv m d₀ s →
      Heard m (s.step m l) ∧ Inv m d₀ (s.step m l) :=
    fun s l h => ⟨h.1.trans hm h.2 (trans_step s l), inv_step l h.2⟩
  have hheard := exec_invariant (fun s => Heard m s ∧ Inv m d₀ s) hstep run
    ⟨heard_new m d₀, inv_new m d₀⟩
  obtain ⟨N, ⟨hN, hinv⟩, hrest⟩ := fair_rest (I := fun s => Heard m s ∧ Inv m d₀ s)
    (fun _ _ _ h ht => ⟨h.1.trans hm h.2 ht, h.2.trans ht⟩) (fun _ h => h.2) hheard hfair
  refine ⟨N, hinv, fun t => (Phase.idle_or_waiting (hrest t)).imp id ?_⟩
  rintro ⟨c, hc⟩
  refine ⟨c, hc, (hN t c hc).resolve_right ?_⟩
  rintro ⟨u, hu⟩
  have hquiet := hrest u
  rw [hu] at hquiet
  cases hquiet

/-- Who notifies one for each thing leaves asleep only consumers, and only when there is nothing. -/
theorem fair_rest_tokens (hm : Tokens m consumer avail) (run : List (Label κ τ))
    {sched : ℕ → Label κ τ} (hfair : Fair Label.internal sched) :
    ∃ N, let s' := stateAt (step m) (exec (step m) (new d₀) run) sched N
      Inv m d₀ s' ∧
        ∀ t, s'.phase t = .idle ∨ ∃ c, s'.phase t = .waiting c ∧ consumer c = true ∧
        avail s'.data = 0 := by
  have hstep :
      ∀ (s : MonitorObject σ κ ρ τ) (l : Label κ τ), Supplied consumer avail s ∧ Inv m d₀ s →
        Supplied consumer avail (s.step m l) ∧ Inv m d₀ (s.step m l) :=
    fun s l h => ⟨h.1.trans hm (trans_step s l), inv_step l h.2⟩
  have hsupplied := exec_invariant (fun s => Supplied consumer avail s ∧ Inv m d₀ s) hstep run
    ⟨supplied_new d₀, inv_new m d₀⟩
  obtain ⟨N, ⟨hN, hinv⟩, hrest⟩ := fair_rest (I := fun s => Supplied consumer avail s ∧ Inv m d₀ s)
    (fun _ _ _ h ht => ⟨h.1.trans hm ht, h.2.trans ht⟩) (fun _ h => h.2) hsupplied hfair
  refine ⟨N, hinv, fun t => (Phase.idle_or_waiting (hrest t)).imp id ?_⟩
  rintro ⟨c, hc⟩
  have hsleeper := hN.asleep t
  rw [hc] at hsleeper
  exact ⟨c, hc, hsleeper, hN.none_left hrest (by rw [hc]; rfl)⟩

end MonitorObject

end Muduo.Lib
