import Mathlib

/-!
# Finite maps

`std::map` with values of one type: Mathlib's `Finmap` at a constant family, under a lookup
whose type does not depend on the key, so that `simp` can rewrite keys.  Every lemma states an
operation through the lookup `get?`, as an `if` on the key; `Map.ext` turns equality of maps
into equality of lookups.

`Tabulates m key val` is the usual invariant of a registry: objects `c` carry distinct keys, and `m`
holds under the key of `c` exactly the entry `val c` (if any), and nothing else.  Registering,
changing and removing one object are `Tabulates.insert` and `Tabulates.erase`.  `Registers m key
val` asks less: only objects with an entry need distinct keys.
-/

namespace Muduo.Lib

def Map (κ ν : Type*) := Finmap fun _ : κ => ν

namespace Map

variable {κ ν : Type*} [DecidableEq κ]

instance [DecidableEq ν] : DecidableEq (Map κ ν) :=
  inferInstanceAs (DecidableEq (Finmap fun _ : κ => ν))

def empty : Map κ ν := (∅ : Finmap fun _ : κ => ν)

def get? (m : Map κ ν) (k : κ) : Option ν := Finmap.lookup k m

def insert (m : Map κ ν) (k : κ) (v : ν) : Map κ ν := Finmap.insert k v m

def erase (m : Map κ ν) (k : κ) : Map κ ν := Finmap.erase k m

theorem ext {m₁ m₂ : Map κ ν} (h : ∀ k, m₁.get? k = m₂.get? k) : m₁ = m₂ :=
  Finmap.ext_lookup h

@[simp] theorem get?_empty (k : κ) : (empty : Map κ ν).get? k = none := Finmap.lookup_empty k

@[simp] theorem get?_insert (m : Map κ ν) (k k' : κ) (v : ν) :
    (m.insert k v).get? k' = if k' = k then some v else m.get? k' := by
  split
  · rename_i h
    subst h
    exact Finmap.lookup_insert _
  · rename_i h
    exact Finmap.lookup_insert_of_ne _ h

@[simp] theorem get?_erase (m : Map κ ν) (k k' : κ) :
    (m.erase k).get? k' = if k' = k then none else m.get? k' := by
  split
  · rename_i h
    subst h
    exact Finmap.lookup_erase _ _
  · rename_i h
    exact Finmap.lookup_erase_ne h

theorem insert_of_get? {m : Map κ ν} {k : κ} {v : ν} (h : m.get? k = some v) :
    m.insert k v = m := by
  apply ext
  intro k'
  rw [get?_insert]
  split
  · rename_i hk
    rw [hk, h]
  · rfl

def keys (m : Map κ ν) : Finset κ := Finmap.keys m

def size (m : Map κ ν) : ℕ := m.keys.card

theorem mem_keys (m : Map κ ν) (k : κ) : k ∈ m.keys ↔ (m.get? k).isSome :=
  Finmap.mem_keys.trans Finmap.lookup_isSome.symm

theorem size_insert {m : Map κ ν} {k : κ} (h : m.get? k = none) (v : ν) :
    (m.insert k v).size = m.size + 1 := by
  have hnew : k ∉ m.keys := by
    rw [mem_keys, h]
    simp
  have hkeys : (m.insert k v).keys = Insert.insert k m.keys := by
    ext k'
    rw [mem_keys, Finset.mem_insert, mem_keys, get?_insert]
    by_cases hk : k' = k <;> simp [hk]
  rw [size, size, hkeys, Finset.card_insert_of_notMem hnew]

theorem size_erase {m : Map κ ν} {k : κ} {v : ν} (h : m.get? k = some v) :
    (m.erase k).size = m.size - 1 := by
  have hin : k ∈ m.keys := by
    rw [mem_keys, h]
    rfl
  have hkeys : (m.erase k).keys = m.keys.erase k := by
    ext k'
    rw [mem_keys, Finset.mem_erase, mem_keys, get?_erase]
    by_cases hk : k' = k <;> simp [hk]
  rw [size, size, hkeys, Finset.card_erase_of_mem hin]

end Map

/-! ### Registries -/

/-- `m` holds under `key c` the entry `val c`, and holds no other key. -/
structure Tabulates {ι κ ν : Type*} [DecidableEq κ] (m : Map κ ν) (key : ι → κ)
    (val : ι → Option ν) : Prop where
  get : ∀ c, m.get? (key c) = val c
  only : ∀ k v, m.get? k = some v → ∃ c, key c = k

namespace Tabulates

variable {ι κ ν : Type*} [DecidableEq ι] [DecidableEq κ] {m : Map κ ν} {key : ι → κ}
  {val : ι → Option ν}

omit [DecidableEq ι] in
theorem empty (key : ι → κ) : Tabulates (Map.empty : Map κ ν) key fun _ => none where
  get c := Map.get?_empty _
  only k v h := by simp at h

theorem insert (hkey : Function.Injective key) (h : Tabulates m key val) (c : ι) (v : ν) :
    Tabulates (m.insert (key c) v) key (Function.update val c (some v)) where
  get d := by
    rw [Map.get?_insert, Function.update_apply]
    by_cases hd : d = c
    · rw [if_pos (by rw [hd]), if_pos hd]
    · rw [if_neg (fun he => hd (hkey he)), if_neg hd, h.get]
  only k u hu := by
    rw [Map.get?_insert] at hu
    split at hu
    · rename_i hk
      exact ⟨c, hk.symm⟩
    · exact h.only k u hu

theorem erase (hkey : Function.Injective key) (h : Tabulates m key val) (c : ι) :
    Tabulates (m.erase (key c)) key (Function.update val c none) where
  get d := by
    rw [Map.get?_erase, Function.update_apply]
    by_cases hd : d = c
    · rw [if_pos (by rw [hd]), if_pos hd]
    · rw [if_neg (fun he => hd (hkey he)), if_neg hd, h.get]
  only k u hu := by
    rw [Map.get?_erase] at hu
    split at hu
    · cases hu
    · exact h.only k u hu

omit [DecidableEq ι] in
/-- What the registry holds is what some object asked for. -/
theorem get?_iff (h : Tabulates m key val) (k : κ) (v : ν) :
    m.get? k = some v ↔ ∃ c, key c = k ∧ val c = some v := by
  constructor
  · intro hk
    obtain ⟨c, rfl⟩ := h.only k v hk
    exact ⟨c, rfl, (h.get c).symm.trans hk⟩
  · rintro ⟨c, rfl, hv⟩
    rw [h.get, hv]

end Tabulates

/-- `m` holds the entries of the objects that have one; objects without an entry may share a
key with another one. -/
def Registers {ι κ ν : Type*} [DecidableEq κ] (m : Map κ ν) (key : ι → κ) (val : ι → Option ν) :
    Prop :=
  ∀ k v, m.get? k = some v ↔ ∃ c, key c = k ∧ val c = some v

namespace Registers

variable {ι κ ν : Type*} [DecidableEq ι] [DecidableEq κ] {m : Map κ ν} {key : ι → κ}
  {val : ι → Option ν}

omit [DecidableEq ι] in
theorem empty (key : ι → κ) : Registers (Map.empty : Map κ ν) key fun _ => none := by
  intro k v
  simp

omit [DecidableEq ι] in
/-- Under the key of an object stands its entry, if no other object has one there. -/
theorem get (h : Registers m key val) {c : ι} (hfree : ∀ d, d ≠ c → key d = key c → val d = none) :
    m.get? (key c) = val c := by
  apply Option.ext
  intro v
  rw [h]
  constructor
  · rintro ⟨d, hkey, hd⟩
    by_cases hdc : d = c
    · rwa [← hdc]
    · rw [hfree d hdc hkey] at hd
      cases hd
  · exact fun hv => ⟨c, rfl, hv⟩

theorem insert (h : Registers m key val) {c : ι} (hfree : ∀ d, d ≠ c → key d = key c → val d = none)
    (v : ν) : Registers (m.insert (key c) v) key (Function.update val c (some v)) := by
  intro k u
  rw [Map.get?_insert]
  by_cases hk : k = key c
  · subst hk
    rw [if_pos rfl]
    constructor
    · exact fun hu => ⟨c, rfl, by rw [Function.update_self, hu]⟩
    · rintro ⟨d, hkey, hd⟩
      by_cases hdc : d = c
      · rwa [hdc, Function.update_self] at hd
      · rw [Function.update_of_ne hdc, hfree d hdc hkey] at hd
        cases hd
  · rw [if_neg hk, h]
    refine exists_congr fun d => and_congr_right fun hkey => ?_
    rw [Function.update_of_ne]
    rintro rfl
    exact hk hkey.symm

theorem erase (h : Registers m key val) {c : ι} (hfree : ∀ d, d ≠ c →
    key d = key c → val d = none) :
    Registers (m.erase (key c)) key (Function.update val c none) := by
  intro k u
  rw [Map.get?_erase]
  by_cases hk : k = key c
  · subst hk
    rw [if_pos rfl]
    refine ⟨fun hu => (nomatch hu), ?_⟩
    rintro ⟨d, hkey, hd⟩
    by_cases hdc : d = c
    · rw [hdc, Function.update_self] at hd
      cases hd
    · rw [Function.update_of_ne hdc, hfree d hdc hkey] at hd
      cases hd
  · rw [if_neg hk, h]
    refine exists_congr fun d => and_congr_right fun hkey => ?_
    rw [Function.update_of_ne]
    rintro rfl
    exact hk hkey.symm

end Registers

/-- Reading a family of which one member was replaced. -/
theorem map_update {ι β γ : Type*} [DecidableEq ι] (f : ι → β → γ) (g : ι → β) (c : ι) (b : β) :
    (fun d => f d (Function.update g c b d)) = Function.update (fun d => f d (g d)) c (f c b) := by
  funext d
  by_cases hd : d = c
  · subst hd
    simp
  · simp [hd]

end Muduo.Lib
