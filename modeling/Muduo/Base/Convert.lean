import Muduo.Lib.Checked
import Muduo.Lib.Format
import Muduo.Lib.Numeral

/-!
# Integers to text

`convert` and `convertHex`, which `muduo::LogStream` prints integers and addresses with.  The digits
of a negative number are never negated: they come from remainders between -9 and 9, through a table
that is symmetric about its middle, and the text is built from its end and reversed.

`convert_eq` and `convertHex_eq` say that what is written is the canonical numeral, for every value
of every type; `readDecimal_decimal` and `readHexadecimal_hexadecimal` that it can be read back.
-/

namespace Muduo.Base

open Muduo.Lib

/-! ### Integers to text -/

/-- The types `convert` is instantiated at, with the values of their elements: `%` and `/` are those
of the machine, `ofNat` is a literal. -/
class MachineInteger (T : Type) extends Mod T, Div T, LT T where
  ofNat : ℕ → T
  toInt : T → ℤ
  toInt_injective : Function.Injective toInt
  toInt_ofNat : ∀ n ≤ 16, toInt (ofNat n) = n
  toInt_mod : ∀ i j : T, toInt (i % j) = (toInt i).tmod (toInt j)
  toInt_div : ∀ i j : T, toInt j ≠ -1 → toInt (i / j) = (toInt i).tdiv (toInt j)
  lt_iff : ∀ i j : T, i < j ↔ toInt i < toInt j
  range : ∀ i : T, -2 ^ 63 ≤ toInt i ∧ toInt i < 2 ^ 64

open MachineInteger (toInt ofNat)

instance : MachineInteger Int32 where
  ofNat := Int32.ofNat
  toInt := Int32.toInt
  toInt_injective := fun _ _ h => Int32.toInt_inj.mp h
  toInt_ofNat := by decide
  toInt_mod := Int32.toInt_mod
  toInt_div := fun i j h => Int32.toInt_div_of_ne_right i j (fun hj => h (by rw [hj]; rfl))
  lt_iff := fun _ _ => Int32.lt_iff_toInt_lt
  range := fun i => by
    have := i.le_toInt
    have := i.toInt_lt
    omega

instance : MachineInteger Int64 where
  ofNat := Int64.ofNat
  toInt := Int64.toInt
  toInt_injective := fun _ _ h => Int64.toInt_inj.mp h
  toInt_ofNat := by decide
  toInt_mod := Int64.toInt_mod
  toInt_div := fun i j h => Int64.toInt_div_of_ne_right i j (fun hj => h (by rw [hj]; rfl))
  lt_iff := fun _ _ => Int64.lt_iff_toInt_lt
  range := fun i => by
    have := i.le_toInt
    have := i.toInt_lt
    omega

instance : MachineInteger UInt32 where
  ofNat := UInt32.ofNat
  toInt := fun i => i.toNat
  toInt_injective := fun _ _ h => UInt32.toNat_inj.mp (Int.ofNat_inj.mp h)
  toInt_ofNat := by decide
  toInt_mod :=
    fun i j => by rw [UInt32.toNat_mod, Int.natCast_mod, Int.tmod_eq_emod_of_nonneg (by omega)]
  toInt_div :=
    fun i j _ => by rw [UInt32.toNat_div, Int.natCast_div, Int.tdiv_eq_ediv_of_nonneg (by omega)]
  lt_iff := fun i j => by rw [UInt32.lt_iff_toNat_lt, Int.ofNat_lt]
  range := fun i => by
    have := i.toNat_lt
    omega

instance : MachineInteger UInt64 where
  ofNat := UInt64.ofNat
  toInt := fun i => i.toNat
  toInt_injective := fun _ _ h => UInt64.toNat_inj.mp (Int.ofNat_inj.mp h)
  toInt_ofNat := by decide
  toInt_mod :=
    fun i j => by rw [UInt64.toNat_mod, Int.natCast_mod, Int.tmod_eq_emod_of_nonneg (by omega)]
  toInt_div :=
    fun i j _ => by rw [UInt64.toNat_div, Int.natCast_div, Int.tdiv_eq_ediv_of_nonneg (by omega)]
  lt_iff := fun i j => by rw [UInt64.lt_iff_toNat_lt, Int.ofNat_lt]
  range := fun i => by
    have := i.toNat_lt
    omega

def digits : List UInt8 := literal "9876543210123456789"

/-- `zero[lsd]`: the middle of the table, so that a negative remainder finds its digit as well. -/
def zero (lsd : ℤ) : UInt8 := digits.getD (9 + lsd).toNat 0

def digitsHex : List UInt8 := literal "0123456789ABCDEF"

/-- What a conversion leaves in the buffer from `buf` on, and the length it returns. -/
structure Converted where
  written : List UInt8
  length : ℕ
  deriving DecidableEq, Repr

section Convert

variable {T : Type} [MachineInteger T] [DecidableEq T] [DecidableLT T]

/-- The loop of both conversions, the last digit first. -/
def digitLoop (base : T) (glyph : ℤ → UInt8) : ℕ → T → List UInt8
  | 0, _ => []
  | fuel + 1, i =>
    let lsd := narrow 32 (toInt (i % base))
    let i := i / base
    glyph lsd :: if i ≠ ofNat 0 then digitLoop base glyph fuel i else []

def convert (value : T) : Converted :=
  let p := digitLoop (ofNat 10) zero ((toInt value).natAbs + 1) value
  let p := if value < ofNat 0 then p ++ literal "-" else p
  -- the terminator, then `std::reverse(buf, p)`
  ⟨p.reverse ++ [0], p.length⟩

def convertHex (value : UInt64) : Converted :=
  let p := digitLoop (ofNat 16) (fun lsd => digitsHex.getD lsd.toNat 0) (value.toNat + 1) value
  ⟨p.reverse ++ [0], p.length⟩

end Convert

/-! ### The numerals -/

def decimalDigit (d : ℕ) : UInt8 := UInt8.ofNat (48 + d)

def hexDigit (d : ℕ) : UInt8 := if d < 10 then UInt8.ofNat (48 + d) else UInt8.ofNat (55 + d)

def decimal (v : ℤ) : List UInt8 :=
  (if v < 0 then literal "-" else []) ++ (numeral 10 v.natAbs).map decimalDigit

def hexadecimal (n : ℕ) : List UInt8 := (numeral 16 n).map hexDigit

/-- Reading decimal text. -/
def readDecimal (text : List UInt8) : ℤ :=
  if text.head? = some 45 then -(readNumeral 10 (text.tail.map fun c => c.toNat - 48))
  else readNumeral 10 (text.map fun c => c.toNat - 48)

def readHexadecimal (text : List UInt8) : ℕ :=
  readNumeral 16 (text.map fun c => if c.toNat < 65 then c.toNat - 48 else c.toNat - 55)

section Loop

variable {T : Type} [MachineInteger T]

theorem MachineInteger.eq_zero_iff (i : T) : i = ofNat 0 ↔ toInt i = 0 := by
  rw [← MachineInteger.toInt_injective.eq_iff, MachineInteger.toInt_ofNat 0 (by omega)]
  rfl

/-- The loop, read from its end, writes the numeral of the absolute value; the glyphs must not
depend on the sign. -/
theorem reverse_digitLoop [DecidableEq T] {b : ℕ} (hb : 1 < b ∧ b < 2147483648) {base : T}
    (hbase : toInt base = b) {glyph : ℤ → UInt8} {g : ℕ → UInt8} (i : T)
    (hglyph : ∀ k : ℤ, k.natAbs < b → (toInt i < 0 ∨ 0 ≤ k) → glyph k = g k.natAbs) {fuel : ℕ}
    (hfuel : (toInt i).natAbs < fuel) :
    (digitLoop base glyph fuel i).reverse = (numeral b (toInt i).natAbs).map g := by
  induction fuel generalizing i with
  | zero => omega
  | succ fuel ih =>
    have hmod : (toInt (i % base)).natAbs = (toInt i).natAbs % b := by
      rw [MachineInteger.toInt_mod, hbase, Int.natAbs_tmod, Int.natAbs_natCast]
    have hdiv : toInt (i / base) = (toInt i).tdiv b := by
      rw [MachineInteger.toInt_div _ _ (by omega), hbase]
    have hdiv' : (toInt (i / base)).natAbs = (toInt i).natAbs / b := by
      rw [hdiv, Int.natAbs_tdiv, Int.natAbs_natCast]
      rfl
    have hlt : (toInt i).natAbs % b < b := Nat.mod_lt _ (by omega)
    have hsign : toInt i < 0 ∨ 0 ≤ toInt (i % base) := by
      rw [MachineInteger.toInt_mod]
      rcases lt_or_ge (toInt i) 0 with h | h
      · exact .inl h
      · exact .inr (Int.tmod_nonneg _ h)
    have hdigit : glyph (narrow 32 (toInt (i % base))) = g ((toInt i).natAbs % b) := by
      rw [narrow_int (by omega), hglyph _ (by omega) hsign, hmod]
    have hnext : i / base ≠ ofNat 0 ↔ b ≤ (toInt i).natAbs := by
      rw [ne_eq, MachineInteger.eq_zero_iff, ← Int.natAbs_eq_zero, hdiv', Nat.div_eq_zero_iff]
      omega
    rw [digitLoop, List.reverse_cons, hdigit]
    by_cases hle : b ≤ (toInt i).natAbs
    · have hsmaller : (toInt i).natAbs / b < (toInt i).natAbs := Nat.div_lt_self (by omega) hb.1
      have hneg : toInt (i / base) < 0 → toInt i < 0 := by
        intro h
        by_contra hnonneg
        have := Int.tdiv_nonneg (not_lt.mp hnonneg) (Int.natCast_nonneg b)
        omega
      rw [if_pos (hnext.mpr hle), ih (i / base) (fun k hk h => hglyph k hk (h.imp_left hneg))
        (by omega), hdiv', numeral_of_le hb.1 hle, List.map_append]
      rfl
    · rw [if_neg (mt hnext.mp hle), numeral_of_lt (by omega), Nat.mod_eq_of_lt (by omega)]
      rfl

end Loop

theorem zero_eq {k : ℤ} (hk : k.natAbs < 10) : zero k = decimalDigit k.natAbs := by
  obtain ⟨hlo, hhi⟩ : -9 ≤ k ∧ k ≤ 9 := by omega
  interval_cases k <;> decide +kernel

theorem digitsHex_eq {d : ℕ} (hd : d < 16) : digitsHex.getD d 0 = hexDigit d := by
  interval_cases d <;> decide +kernel

section Canonical

variable {T : Type} [MachineInteger T]

theorem convert_eq [DecidableEq T] [DecidableLT T] (v : T) :
    convert v = ⟨decimal (toInt v) ++ [0], (decimal (toInt v)).length⟩ := by
  have hglyph : ∀ k : ℤ, k.natAbs < 10 → (toInt v < 0 ∨ 0 ≤ k) → zero k = decimalDigit k.natAbs :=
    fun k hk _ => zero_eq hk
  have hloop := reverse_digitLoop (b := 10) (by omega) (MachineInteger.toInt_ofNat 10 (by omega)) v
    hglyph (Nat.lt_succ_self _)
  have hsign : v < ofNat 0 ↔ toInt v < 0 := by
    rw [MachineInteger.lt_iff, MachineInteger.toInt_ofNat 0 (by omega)]
    rfl
  have hp : (if v < ofNat 0 then digitLoop (ofNat 10) zero ((toInt v).natAbs + 1) v ++ literal "-"
      else digitLoop (ofNat 10) zero ((toInt v).natAbs + 1) v).reverse = decimal (toInt v) := by
    rw [decimal, ← hloop]
    split_ifs with h h' h'
    · rw [List.reverse_append]
      rfl
    · exact absurd (hsign.mp h) h'
    · exact absurd (hsign.mpr h') h
    · rfl
  rw [convert, hp, ← hp, List.length_reverse]

theorem convertHex_eq (v : UInt64) :
    convertHex v = ⟨hexadecimal v.toNat ++ [0], (hexadecimal v.toNat).length⟩ := by
  have hglyph : ∀ k : ℤ, k.natAbs < 16 → (toInt v < 0 ∨ 0 ≤ k) → digitsHex.getD k.toNat 0 =
      hexDigit k.natAbs := by
    intro k hk h
    have hv : ¬ toInt v < 0 := not_lt.mpr (Int.natCast_nonneg v.toNat)
    rw [show k.toNat = k.natAbs from by omega, digitsHex_eq hk]
  have hloop := reverse_digitLoop (b := 16) (by omega) (MachineInteger.toInt_ofNat 16 (by omega)) v
    hglyph (Nat.lt_succ_self _)
  have hp : (digitLoop (ofNat 16) (fun lsd => digitsHex.getD lsd.toNat 0) (v.toNat + 1) v).reverse =
      hexadecimal v.toNat :=
    hloop
  rw [convertHex, hp, ← hp, List.length_reverse]

theorem length_decimal_le (v : T) : (decimal (toInt v)).length ≤ 20 := by
  have hrange := MachineInteger.range v
  rw [decimal, List.length_append, List.length_map]
  split_ifs with h
  · -- nineteen digits behind the sign
    have hlen := length_numeral_le (b := 10) (n := (toInt v).natAbs) (by omega) (k := 19)
      (by omega) (by omega)
    have hsign : (literal "-").length = 1 := by decide +kernel
    omega
  · have hlen := length_numeral_le (b := 10) (n := (toInt v).natAbs) (by omega) (k := 20)
      (by omega) (by omega)
    rw [List.length_nil]
    omega

theorem length_hexadecimal_le (v : UInt64) : (hexadecimal v.toNat).length ≤ 16 := by
  have hlt := v.toNat_lt
  rw [hexadecimal, List.length_map]
  exact length_numeral_le (by omega) (by omega) (by omega)

end Canonical

theorem toNat_decimalDigit {d : ℕ} (hd : d < 10) : (decimalDigit d).toNat = 48 + d := by
  interval_cases d <;> rfl

/-- Signs and digits are the only characters of a numeral. -/
theorem mem_decimal {v : ℤ} {c : UInt8} (h : c ∈ decimal v) :
    c = 45 ∨ 48 ≤ c.toNat ∧ c.toNat ≤ 57 := by
  rcases List.mem_append.mp h with hsign | hdigits
  · split_ifs at hsign
    · exact .inl (List.mem_singleton.mp hsign)
    · cases hsign
  · obtain ⟨d, hd, rfl⟩ := List.mem_map.mp hdigits
    have hlt := (isNumeral_numeral (b := 10) (n := v.natAbs) (by omega)).digit_lt d hd
    rw [toNat_decimalDigit hlt]
    omega

/-- The last one is a digit. -/
theorem exists_decimal_last (v : ℤ) : ∃ front c, decimal v = front ++ [c] ∧ 48 ≤ c.toNat ∧
    c.toNat ≤ 57 := by
  have hnum := isNumeral_numeral (b := 10) (n := v.natAbs) (by omega)
  have hlast := List.dropLast_append_getLast hnum.ne_nil
  have hlt := hnum.digit_lt _ (List.getLast_mem hnum.ne_nil)
  refine ⟨(if v < 0 then literal "-" else []) ++ ((numeral 10 v.natAbs).dropLast).map decimalDigit,
    decimalDigit ((numeral 10 v.natAbs).getLast hnum.ne_nil), ?_, ?_⟩
  · rw [decimal, List.append_assoc, ← List.map_singleton (f := decimalDigit), ← List.map_append,
      hlast]
  · rw [toNat_decimalDigit hlt]
    omega

/-- A numeral is read back digit by digit. -/
theorem map_decimalDigit_numeral (n : ℕ) :
    ((numeral 10 n).map decimalDigit).map (fun c => c.toNat - 48) = numeral 10 n := by
  rw [List.map_map]
  conv_rhs => rw [← List.map_id (numeral 10 n)]
  apply List.map_congr_left
  intro d hd
  have hlt := (isNumeral_numeral (b := 10) (n := n) (by omega)).digit_lt d hd
  simp only [Function.comp_apply, toNat_decimalDigit hlt, id]
  omega

theorem readDecimal_decimal (v : ℤ) : readDecimal (decimal v) = v := by
  have hvalue := (isNumeral_numeral (b := 10) (n := v.natAbs) (by omega)).value
  rcases lt_or_ge v 0 with hneg | hnonneg
  · have hdec : decimal v = 45 :: (numeral 10 v.natAbs).map decimalDigit := by
      rw [decimal, if_pos hneg]
      rfl
    rw [hdec, readDecimal, List.head?_cons, if_pos rfl, List.tail_cons, map_decimalDigit_numeral,
      hvalue]
    omega
  · have hdec : decimal v = (numeral 10 v.natAbs).map decimalDigit := by
      rw [decimal, if_neg (not_lt.mpr hnonneg), List.nil_append]
    have hhead : ((numeral 10 v.natAbs).map decimalDigit).head? ≠ some 45 := by
      rw [List.head?_map]
      intro h
      obtain ⟨d, hd, h45⟩ := Option.map_eq_some_iff.mp h
      have hlt := (isNumeral_numeral (b := 10) (n := v.natAbs) (by omega)).digit_lt d
        (List.mem_of_mem_head? hd)
      have hnat := toNat_decimalDigit hlt
      rw [h45] at hnat
      have : (45 : UInt8).toNat = 45 := rfl
      omega
    rw [hdec, readDecimal, if_neg hhead, map_decimalDigit_numeral, hvalue]
    omega

theorem readHexadecimal_hexadecimal (n : ℕ) : readHexadecimal (hexadecimal n) = n := by
  have hnum := isNumeral_numeral (b := 16) (n := n) (by omega)
  have hdigit : ∀ d < 16,
      (if (hexDigit d).toNat < 65 then (hexDigit d).toNat - 48 else (hexDigit d).toNat - 55) =
      d := by
    decide +kernel
  rw [readHexadecimal, hexadecimal, List.map_map]
  conv_rhs => rw [← hnum.value, ← List.map_id (numeral 16 n)]
  congr 1
  apply List.map_congr_left
  intro d hd
  exact hdigit d (hnum.digit_lt d hd)

end Muduo.Base
