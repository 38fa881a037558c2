import Mathlib

/-!
# Integers as bytes

The `w` bytes of a natural number, in the two orders in which a machine can hold them in memory, and
the conversion to big-endian order that a program applies before it writes an integer to a file or a
socket (`htobe`, and `betoh`, which is the same exchange of bytes).

* `toLE w n`, `ofLE` — bytes, least significant first, and back; inverse on `w` bytes;
* `store`, `load` — an integer to memory and back on a host of the given order;
* `toBE` — the conversion; `store_toBE` and `toBE_load`: after it memory holds the integer in
  big-endian order, on either kind of host.
-/

namespace Muduo.Lib

/-- The `w` low bytes of `n`, least significant first. -/
def toLE : ℕ → ℕ → List UInt8
  | 0, _ => []
  | w + 1, n => UInt8.ofNat n :: toLE w (n / 256)

/-- The number with the given bytes, least significant first. -/
def ofLE : List UInt8 → ℕ
  | [] => 0
  | b :: bytes => b.toNat + 256 * ofLE bytes

@[simp] theorem length_toLE (w n : ℕ) : (toLE w n).length = w := by
  induction w generalizing n with
  | zero => rfl
  | succ w ih => rw [toLE, List.length_cons, ih]

theorem getElem_toLE (w n i : ℕ) (h : i < (toLE w n).length) :
    (toLE w n)[i] = UInt8.ofNat (n / 256 ^ i) := by
  induction w generalizing n i with
  | zero => simp at h
  | succ w ih =>
    rcases i with _ | i
    · simp [toLE]
    · simp only [toLE, List.getElem_cons_succ]
      rw [ih, Nat.div_div_eq_div_mul, pow_succ']

theorem ofLE_toLE (w n : ℕ) : ofLE (toLE w n) = n % 256 ^ w := by
  induction w generalizing n with
  | zero => simp [toLE, ofLE, Nat.mod_one]
  | succ w ih =>
    rw [toLE, ofLE, ih, pow_succ', Nat.mod_mul]
    congr 1

theorem ofLE_lt (bytes : List UInt8) : ofLE bytes < 256 ^ bytes.length := by
  induction bytes with
  | nil => simp [ofLE]
  | cons b bytes ih =>
    have hb : b.toNat < 256 := b.toNat_lt
    rw [ofLE, List.length_cons, pow_succ]
    omega

theorem toLE_ofLE (bytes : List UInt8) : toLE bytes.length (ofLE bytes) = bytes := by
  induction bytes with
  | nil => rfl
  | cons b bytes ih =>
    have hb : b.toNat < 256 := b.toNat_lt
    have hlow : UInt8.ofNat (b.toNat + 256 * ofLE bytes) = b := by
      apply UInt8.toNat_inj.mp
      rw [UInt8.toNat_ofNat']
      omega
    have hhigh : (b.toNat + 256 * ofLE bytes) / 256 = ofLE bytes := by omega
    rw [List.length_cons, ofLE, toLE, hlow, hhigh, ih]

theorem toLE_ofLE_of_length {w : ℕ} {bytes : List UInt8} (h : bytes.length = w) :
    toLE w (ofLE bytes) = bytes := by
  subst h
  exact toLE_ofLE bytes

/-- The order in which a host holds the bytes of an integer. -/
inductive Endian where
  | little
  | big
  deriving DecidableEq, Repr

/-- The bytes of an integer of `w` bytes in memory. -/
def store : Endian → ℕ → ℕ → List UInt8
  | .little, w, n => toLE w n
  | .big, w, n => (toLE w n).reverse

/-- The integer whose bytes are in memory. -/
def load : Endian → List UInt8 → ℕ
  | .little, bytes => ofLE bytes
  | .big, bytes => ofLE bytes.reverse

/-- `htobe` and `betoh` for integers of `w` bytes: exchange the bytes, on a little-endian host. -/
def toBE : Endian → ℕ → ℕ → ℕ
  | .little, w, n => ofLE (toLE w n).reverse
  | .big, _, n => n

@[simp] theorem length_store (host : Endian) (w n : ℕ) : (store host w n).length = w := by
  cases host <;> simp [store]

theorem load_store (host : Endian) (w n : ℕ) : load host (store host w n) = n % 256 ^ w := by
  cases host <;> simp [store, load, ofLE_toLE]

theorem load_lt (host : Endian) (bytes : List UInt8) : load host bytes < 256 ^ bytes.length := by
  cases host with
  | little => exact ofLE_lt bytes
  | big => simpa [load] using ofLE_lt bytes.reverse

theorem store_load (host : Endian) {w : ℕ} {bytes : List UInt8} (h : bytes.length = w) :
    store host w (load host bytes) = bytes := by
  cases host with
  | little => exact toLE_ofLE_of_length h
  | big => rw [store, load, toLE_ofLE_of_length (by rwa [List.length_reverse]),
      List.reverse_reverse]

/-- What a host writes after the conversion is in big-endian order. -/
theorem store_toBE (host : Endian) (w n : ℕ) : store host w (toBE host w n) = store .big w n := by
  cases host with
  | little => exact toLE_ofLE_of_length (by simp)
  | big => rfl

/-- What a host reads, converted, is the integer whose bytes were in big-endian order. -/
theorem toBE_load (host : Endian) {w : ℕ} {bytes : List UInt8} (h : bytes.length = w) :
    toBE host w (load host bytes) = load .big bytes := by
  cases host with
  | little => rw [toBE, load, toLE_ofLE_of_length h, load]
  | big => rfl

end Muduo.Lib
