import Muduo.Base.Convert
import Muduo.Lib.Arrays
import Muduo.Lib.Offers
import Muduo.Lib.Runs

/-!
# `muduo::LogStream`: text in a fixed buffer

`FixedBuffer` is an array with a write position; the operators `<<` of `LogStream` put texts into
it.  A string is copied when the space left is larger than the string; a number is printed in place
when 32 bytes are left, whatever it takes.

A write outside the array sets `outside` and changes nothing else.  An `Offer` is the abstraction of
one operator: the room it tests for and the text it stands for.

* `Took` — what one operator does to the buffer, with `took_insert` for every operator;
* `numbers_print_exactly` — the numerals of all integer types, inside the bytes checked for;
* `stream_keeps_whole_texts` — the buffer over all sequences of calls.
-/

namespace Muduo.Base

open Muduo.Lib
open MachineInteger (toInt ofNat)

/-! ### The buffer -/

def k_small_buffer : ℕ := 4000

def k_max_number_size : ℕ := 32

/-- `memcpy(dst, buf, len)` takes these bytes. -/
def block (buf : ℕ → UInt8) (len : ℕ) : List UInt8 := (List.range len).map buf

@[simp] theorem length_block (buf : ℕ → UInt8) (len : ℕ) : (block buf len).length = len := by
  rw [block, List.length_map, List.length_range]

/-- The characters of a string as its pointer sees them. -/
def c_str (s : List UInt8) (i : ℕ) : UInt8 := s.getD i 0

def strlen (s : List UInt8) : ℕ := (s.takeWhile (· ≠ 0)).length

structure FixedBuffer (SIZE : ℕ) where
  _data : List UInt8
  size_eq : _data.length = SIZE
  /-- `_cur - _data`. -/
  _cur : ℤ
  /-- A byte outside the array has been written. -/
  outside : Bool

namespace FixedBuffer

variable {SIZE : ℕ}

/-- Writing `bytes` from the offset `pos` on. -/
def write (b : FixedBuffer SIZE) (pos : ℤ) (bytes : List UInt8) : FixedBuffer SIZE :=
  if h : 0 ≤ pos ∧ pos + bytes.length ≤ SIZE then
    { b with
      _data := overwrite b._data pos.toNat bytes
      size_eq := by rw [length_overwrite _ (by rw [b.size_eq]; omega), b.size_eq] }
  else { b with outside := true }

/-- The constructor leaves the array as it finds it. -/
def new (memory : List.Vector UInt8 SIZE) : FixedBuffer SIZE := ⟨memory.1, memory.2, 0, false⟩

def length (b : FixedBuffer SIZE) : ℤ := narrow 32 b._cur

def avail (b : FixedBuffer SIZE) : ℤ := narrow 32 (SIZE - b._cur)

/-- `_cur += len`, on a machine with addresses of 64 bits. -/
def add (b : FixedBuffer SIZE) (len : ℕ) : FixedBuffer SIZE :=
  { b with _cur := b._cur + narrow 64 len }

def reset (b : FixedBuffer SIZE) : FixedBuffer SIZE := { b with _cur := 0 }

def append (b : FixedBuffer SIZE) (buf : ℕ → UInt8) (len : ℕ) : FixedBuffer SIZE :=
  -- the space left, as a `size_t`
  if len < (b.avail % 2 ^ 64).toNat then (b.write b._cur (block buf len)).add len else b

def debugString (b : FixedBuffer SIZE) : FixedBuffer SIZE := b.write b._cur [0]

def toStringPiece (b : FixedBuffer SIZE) : List UInt8 := b._data.take (b.length % 2 ^ 64).toNat

def formatInteger {T : Type} [MachineInteger T] [DecidableEq T] [DecidableLT T]
    (b : FixedBuffer SIZE) (v : T) :
    FixedBuffer SIZE :=
  if k_max_number_size ≤ b.avail then
    let converted := convert v
    (b.write b._cur converted.written).add converted.length
  else b

/-- `operator<<(const void*)`. -/
def formatPointer (b : FixedBuffer SIZE) (v : UInt64) : FixedBuffer SIZE :=
  if k_max_number_size ≤ b.avail then
    let converted := convertHex v
    (b.write b._cur (literal "0x" ++ converted.written)).add (converted.length + 2)
  else b

/-- The text written so far. -/
def content (b : FixedBuffer SIZE) : List UInt8 := b._data.take b._cur.toNat

/-- The position is inside the array, and so was every write. -/
structure WF (b : FixedBuffer SIZE) : Prop where
  start : 0 ≤ b._cur
  lt : b._cur < SIZE
  inside : b.outside = false

theorem length_content {b : FixedBuffer SIZE} (h : b.WF) : (b.content.length : ℤ) = b._cur := by
  have hstart := h.start
  have hlt := h.lt
  rw [content, List.length_take, b.size_eq]
  omega

theorem write_of_inside (b : FixedBuffer SIZE) {pos : ℤ} {bytes : List UInt8}
    (h : 0 ≤ pos ∧ pos + bytes.length ≤ SIZE) :
    (b.write pos bytes)._data = overwrite b._data pos.toNat bytes ∧
    (b.write pos bytes)._cur = b._cur ∧
      (b.write pos bytes).outside = b.outside := by
  rw [write, dif_pos h]
  exact ⟨rfl, rfl, rfl⟩

/-- The room for the terminator is there. -/
theorem debugString_inside {b : FixedBuffer SIZE} (h : b.WF) : b.debugString.outside = false := by
  have hlt := h.lt
  rw [debugString, (b.write_of_inside ⟨h.start, by rw [List.length_singleton]; omega⟩).2.2]
  exact h.inside

/-- `b'` is `b` after the offer `o`: accepted whole or not at all, and nothing written behind
the room asked for. -/
structure Took (b b' : FixedBuffer SIZE) (o : Offer UInt8) : Prop where
  wf : b'.WF
  content : b'.content = accept SIZE b.content o
  rest : b'._data.drop (b._cur.toNat + o.need) = b._data.drop (b._cur.toNat + o.need)

theorem took_of_not_fits {b : FixedBuffer SIZE} (h : b.WF) {o : Offer UInt8}
    (hfits : SIZE < b.content.length + o.need) :
    Took b b o :=
  ⟨h, (accept_of_not_fits hfits).symm, rfl⟩

section Size

variable (hSIZE : SIZE < 2147483648)
include hSIZE

theorem avail_eq {b : FixedBuffer SIZE} (h : b.WF) : b.avail = SIZE - b._cur := by
  have hstart := h.start
  have hlt := h.lt
  exact narrow_int (by omega)

theorem toStringPiece_eq {b : FixedBuffer SIZE} (h : b.WF) : b.toStringPiece = b.content := by
  have hstart := h.start
  have hlt := h.lt
  rw [toStringPiece, content, length, narrow_int (by omega), Int.emod_eq_of_lt hstart (by omega)]

/-- Writing the text, with at most a terminator behind it, and advancing over the text. -/
theorem took_of_fits {b : FixedBuffer SIZE} (h : b.WF) {o : Offer UInt8}
    (hfits : b.content.length + o.need ≤ SIZE)
    {bytes : List UInt8} (hbytes : o.text <+: bytes) (hlen : bytes.length ≤ o.need) :
    Took b ((b.write b._cur bytes).add o.text.length) o := by
  have hcur := length_content h
  have hstart := h.start
  have htext := o.text_lt
  have hsize := b.size_eq
  have hinside : 0 ≤ b._cur ∧ b._cur + bytes.length ≤ SIZE := ⟨hstart, by omega⟩
  obtain ⟨hdata, hcur', hout⟩ := b.write_of_inside hinside
  have hadd : narrow 64 o.text.length = o.text.length := Int.bmod_eq_of_le (by omega) (by omega)
  refine ⟨⟨?_, ?_, ?_⟩, ?_, ?_⟩
  · rw [add, hadd, hcur']
    dsimp only
    omega
  · rw [add, hadd, hcur']
    dsimp only
    omega
  · rw [add, hout]
    exact h.inside
  · -- the front is kept, the text stands behind it
    obtain ⟨rest, rfl⟩ := hbytes
    rw [accept_of_fits hfits, content, content, add, hadd, hcur']
    dsimp only
    rw [hdata, overwrite, show (b._cur + o.text.length).toNat = b._cur.toNat +
      o.text.length from by omega, ← List.append_assoc, List.append_assoc, List.take_left' ?_]
    rw [List.length_append, List.length_take]
    omega
  · change List.drop _ (b.write b._cur bytes)._data = _
    rw [hdata]
    have hafter :
        window (overwrite b._data b._cur.toNat bytes) (b._cur.toNat + o.need) b._data.length =
          window b._data (b._cur.toNat + o.need) b._data.length :=
      window_overwrite_after b._data (by omega) (by omega)
    rw [window, window, List.take_of_length_le, List.take_of_length_le] at hafter
    · exact hafter
    · rw [List.length_drop]
    · rw [List.length_drop, length_overwrite _ (by omega)]

theorem took_append {b : FixedBuffer SIZE} (h : b.WF) (buf : ℕ → UInt8) (len : ℕ) :
    Took b (b.append buf len) (.whole (block buf len)) := by
  have hcur := length_content h
  have hstart := h.start
  have hlt := h.lt
  have hblock := length_block buf len
  have havail : (b.avail % 2 ^ 64).toNat = SIZE - b._cur.toNat := by
    rw [avail_eq hSIZE h, Int.emod_eq_of_lt (by omega) (by omega)]
    omega
  rw [append, havail]
  split_ifs with hroom
  · have htook :=
      took_of_fits hSIZE h (o := .whole (block buf len)) (by rw [Offer.whole_need]; omega)
      (List.prefix_refl _) (by rw [Offer.whole_need, Offer.whole_text]; omega)
    rwa [Offer.whole_text, hblock] at htook
  · exact took_of_not_fits h (by rw [Offer.whole_need]; omega)

/-- A number and its terminator, where 32 bytes are left. -/
theorem took_number {b : FixedBuffer SIZE} (h : b.WF) {text : List UInt8}
    (htext : text.length < k_max_number_size) :
    Took b
      (if k_max_number_size ≤ b.avail then (b.write b._cur (text ++ [0])).add text.length else b)
      ⟨k_max_number_size, text, htext⟩ := by
  have hcur := length_content h
  have hneed :
      ((k_max_number_size : ℕ) : ℤ) ≤ b.avail ↔ b.content.length + k_max_number_size ≤ SIZE := by
    rw [avail_eq hSIZE h]
    omega
  split_ifs with hroom
  · exact took_of_fits hSIZE h (o := ⟨k_max_number_size, text, htext⟩) (hneed.mp hroom)
      (List.prefix_append _ _) (by rw [List.length_append, List.length_singleton]; exact htext)
  · exact took_of_not_fits h (not_le.mp (mt hneed.mpr hroom))

end Size

end FixedBuffer

/-- A number, as the operators reserve room for it. -/
def decimalOffer {T : Type} [MachineInteger T] (v : T) : Offer UInt8 :=
  ⟨k_max_number_size, decimal (toInt v), (length_decimal_le v).trans_lt (by decide)⟩

theorem length_pointer_lt (v : UInt64) :
    (literal "0x" ++ hexadecimal v.toNat).length < k_max_number_size := by
  have hlen := length_hexadecimal_le v
  have hx : (literal "0x").length = 2 := by decide +kernel
  rw [List.length_append, k_max_number_size]
  omega

def pointerOffer (v : UInt64) : Offer UInt8 :=
  ⟨k_max_number_size, literal "0x" ++ hexadecimal v.toNat, length_pointer_lt v⟩

namespace FixedBuffer

variable {SIZE : ℕ} (hSIZE : SIZE < 2147483648)
include hSIZE

theorem took_formatInteger {T : Type} [MachineInteger T] [DecidableEq T] [DecidableLT T]
    {b : FixedBuffer SIZE} (h : b.WF) (v : T) : Took b (b.formatInteger v) (decimalOffer v) := by
  rw [formatInteger, convert_eq]
  exact took_number hSIZE h ((length_decimal_le v).trans_lt (by decide))

theorem took_formatPointer {b : FixedBuffer SIZE} (h : b.WF) (v : UInt64) :
    Took b (b.formatPointer v) (pointerOffer v) := by
  have htook := took_number hSIZE h (length_pointer_lt v)
  have hx : (literal "0x").length = 2 := by decide +kernel
  rw [List.append_assoc, List.length_append, hx, Nat.add_comm] at htook
  rw [formatPointer, convertHex_eq]
  exact htook

end FixedBuffer

/-! ### What the conversions write -/

/-- The text of a conversion is `sign` and the canonical numeral of `n`, of at most `max`
characters; the terminator is the only other byte it writes. -/
structure PrintsExactly (base : ℕ) (glyph : ℕ → UInt8) (sign : List UInt8) (n max : ℕ)
    (r : Converted) : Prop where
  numeral : ∃ ds, IsNumeral base n ds ∧ r.written = sign ++ ds.map glyph ++ [0] ∧
    r.length = (sign ++ ds.map glyph).length
  length_le : r.length ≤ max
  written_le : r.written.length ≤ max + 1

/-- The text without the terminator. -/
def Converted.text (r : Converted) : List UInt8 := r.written.take r.length

/-- A conversion that writes a numeral and the terminator, and returns the length of the numeral. -/
theorem printsExactly_of_eq {base n max : ℕ} {glyph : ℕ → UInt8} {sign : List UInt8}
    {r : Converted} {ds : List ℕ}
    (hds : IsNumeral base n ds)
    (hr : r = ⟨sign ++ ds.map glyph ++ [0], (sign ++ ds.map glyph).length⟩)
    (hmax : (sign ++ ds.map glyph).length ≤ max) : PrintsExactly base glyph sign n max r := by
  subst hr
  refine ⟨⟨ds, hds, rfl, rfl⟩, hmax, ?_⟩
  rw [List.length_append]
  exact Nat.add_le_add_right hmax 1

section Conversions

variable {T : Type} [MachineInteger T] [DecidableEq T] [DecidableLT T]

theorem printsExactly_convert (v : T) :
    PrintsExactly 10 decimalDigit (if toInt v < 0 then literal "-" else []) (toInt v).natAbs
      20 (convert v) :=
  printsExactly_of_eq (isNumeral_numeral (by omega)) (convert_eq v) (length_decimal_le v)

theorem printsExactly_convertHex (p : UInt64) :
    PrintsExactly 16 hexDigit [] p.toNat 16 (convertHex p) :=
  printsExactly_of_eq (isNumeral_numeral (by omega)) (convertHex_eq p) (length_hexadecimal_le p)

theorem text_convert (v : T) : (convert v).text = decimal (toInt v) := by
  rw [Converted.text, convert_eq, List.take_left]

theorem text_convertHex (p : UInt64) : (convertHex p).text = hexadecimal p.toNat := by
  rw [Converted.text, convertHex_eq, List.take_left]

end Conversions

/-- From `_cur` on, an operator wrote only into the bytes it had checked for. -/
structure InReserve {SIZE : ℕ} (b b' : FixedBuffer SIZE) : Prop where
  inside : b'.outside = false
  before : b'._data.take b._cur.toNat = b._data.take b._cur.toNat
  behind : b'._data.drop (b._cur.toNat + k_max_number_size) = b._data.drop
    (b._cur.toNat + k_max_number_size)

theorem FixedBuffer.Took.inReserve {SIZE : ℕ} {b b' : FixedBuffer SIZE} {o : Offer UInt8} (h : b.WF)
    (htook : Took b b' o) (hneed : o.need = k_max_number_size) : InReserve b b' := by
  refine ⟨htook.wf.inside, ?_, hneed ▸ htook.rest⟩
  have hcur := length_content h
  have hkept : b.content <+: b'.content := by
    rw [htook.content, accept]
    split_ifs
    · exact List.prefix_append _ _
    · exact List.prefix_refl _
  have htake := List.prefix_iff_eq_take.mp (hkept.trans (List.take_prefix _ _))
  rw [show b.content.length = b._cur.toNat from by omega] at htake
  exact htake.symm

/-- For every integer type of the machine: the decimal numeral, to be read back; for every address:
the hexadecimal one; and neither operator leaves the bytes it has checked for. -/
theorem numbers_print_exactly (T : Type) [MachineInteger T] [DecidableEq T] [DecidableLT T] :
    (∀ v : T, PrintsExactly 10 decimalDigit (if toInt v < 0 then literal "-" else [])
      (toInt v).natAbs 20 (convert v) ∧
      readDecimal (convert v).text = toInt v) ∧
    (∀ v w : T, (convert v).text = (convert w).text → v = w) ∧
    (∀ p : UInt64, PrintsExactly 16 hexDigit [] p.toNat 16 (convertHex p) ∧
      readHexadecimal (convertHex p).text = p.toNat) ∧
    (∀ p q : UInt64, (convertHex p).text = (convertHex q).text → p = q) ∧
    ∀ b : FixedBuffer k_small_buffer, b.WF →
      (∀ v : T, InReserve b (b.formatInteger v)) ∧ ∀ p : UInt64,
      InReserve b (b.formatPointer p) := by
  refine ⟨fun v => ⟨printsExactly_convert v, ?_⟩, fun v w h => ?_,
    fun p => ⟨printsExactly_convertHex p, ?_⟩,
    fun p q h => ?_, fun b h => ⟨fun v => ?_, fun p => ?_⟩⟩
  · rw [text_convert, readDecimal_decimal]
  · have hread := congrArg readDecimal h
    rw [text_convert, text_convert, readDecimal_decimal, readDecimal_decimal] at hread
    exact MachineInteger.toInt_injective hread
  · rw [text_convertHex, readHexadecimal_hexadecimal]
  · have hread := congrArg readHexadecimal h
    rw [text_convertHex, text_convertHex, readHexadecimal_hexadecimal,
      readHexadecimal_hexadecimal] at hread
    exact UInt64.toNat_inj.mp hread
  · exact (FixedBuffer.took_formatInteger (by decide) h v).inReserve h rfl
  · exact (FixedBuffer.took_formatPointer (by decide) h p).inReserve h rfl

theorem FixedBuffer.wf_new {SIZE : ℕ} (hSIZE : 0 < SIZE) (memory : List.Vector UInt8 SIZE) :
    (new memory).WF :=
  ⟨le_rfl, Int.natCast_pos.mpr hSIZE, rfl⟩

/-- The least `int`, into a new buffer. -/
theorem numbers_print_exactly_int_min :
    readDecimal (convert Int32.minValue).text = -2147483648 ∧
      InReserve (FixedBuffer.new (List.Vector.replicate k_small_buffer 0))
        ((FixedBuffer.new (List.Vector.replicate k_small_buffer 0)).formatInteger
          Int32.minValue) := by
  obtain ⟨hconvert, -, -, -, hreserve⟩ := numbers_print_exactly Int32
  exact ⟨(hconvert Int32.minValue).2,
    (hreserve _ (FixedBuffer.wf_new (by decide) _)).1 Int32.minValue⟩

example : convert Int64.minValue = ⟨literal "-9223372036854775808" ++ [0], 20⟩ := by decide +kernel

/-! ### The stream -/

/-- What `snprintf(_buffer.current(), k_max_number_size, "%.12g", v)` is assumed to print. -/
structure DoubleText where
  text : List UInt8
  one_le : 1 ≤ text.length
  le : text.length ≤ 31

namespace LogStream

abbrev Buffer := FixedBuffer k_small_buffer

/-- The arguments of the operators `<<`, and of `append`, which the operators for other classes
call. -/
inductive Item where
  | bool (v : Bool)
  | short (v : Int16)
  | unsignedShort (v : UInt16)
  | int (v : Int32)
  | unsignedInt (v : UInt32)
  | long (v : Int64)
  | unsignedLong (v : UInt64)
  | longLong (v : Int64)
  | unsignedLongLong (v : UInt64)
  | pointer (p : UInt64)
  | double (v : Float)
  | float (v : Float32)
  | char (v : UInt8)
  | cstring (str : Option (List UInt8))
  | unsignedCstring (str : Option (List UInt8))
  | string (v : List UInt8)
  | stringPiece (v : List UInt8)
  | buffer (v : {b : Buffer // b.WF})
  | append (data : ℕ → UInt8) (len : Int32)

section Operators

variable (snprintf : Float → DoubleText)

def insertDouble (b : Buffer) (v : Float) : Buffer :=
  if k_max_number_size ≤ b.avail then
    let len := (snprintf v).text.length
    (b.write b._cur ((snprintf v).text.take (k_max_number_size - 1) ++ [0])).add len
  else b

def insertCstring (b : Buffer) : Option (List UInt8) → Buffer
  | some str => b.append (c_str str) (strlen str)
  | none => b.append (c_str (literal "(null)")) 6

/-- `append(const char*, int)`: the length becomes a `size_t`. -/
def append (b : Buffer) (data : ℕ → UInt8) (len : Int32) : Buffer :=
    b.append data (len.toInt % 2 ^ 64).toNat

/-- The operator for each type. -/
def insert (b : Buffer) : Item → Buffer
  | .bool v => b.append (c_str (if v then literal "1" else literal "0")) 1
  | .short v => b.formatInteger v.toInt32
  | .unsignedShort v => b.formatInteger v.toUInt32
  | .int v => b.formatInteger v
  | .unsignedInt v => b.formatInteger v
  | .long v => b.formatInteger v
  | .unsignedLong v => b.formatInteger v
  | .longLong v => b.formatInteger v
  | .unsignedLongLong v => b.formatInteger v
  | .pointer p => b.formatPointer p
  | .double v => insertDouble snprintf b v
  | .float v => insertDouble snprintf b v.toFloat
  | .char v => b.append (c_str [v]) 1
  | .cstring str => insertCstring b str
  | .unsignedCstring str => insertCstring b str
  | .string v => b.append (c_str v) v.length
  | .stringPiece v => b.append (c_str v) v.length
  | .buffer v => b.append (c_str v.val.toStringPiece) v.val.toStringPiece.length
  | .append data len => append b data len

inductive Call where
  | insert (i : Item)
  | resetBuffer

def step (b : Buffer) : Call → Buffer
  | .insert i => insert snprintf b i
  | .resetBuffer => b.reset

/-! ### What the stream is for -/

def doubleOffer (v : Float) : Offer UInt8 :=
  ⟨k_max_number_size, (snprintf v).text, Nat.lt_succ_of_le (snprintf v).le⟩

def cstringText : Option (List UInt8) → List UInt8
  | some str => str.takeWhile (· ≠ 0)
  | none => literal "(null)"

/-- The text each argument stands for, and the room its operator asks for. -/
def Item.offer : Item → Offer UInt8
  | .bool v => .whole (if v then literal "1" else literal "0")
  | .short v => decimalOffer v.toInt32
  | .unsignedShort v => decimalOffer v.toUInt32
  | .int v => decimalOffer v
  | .unsignedInt v => decimalOffer v
  | .long v => decimalOffer v
  | .unsignedLong v => decimalOffer v
  | .longLong v => decimalOffer v
  | .unsignedLongLong v => decimalOffer v
  | .pointer p => pointerOffer p
  | .double v => doubleOffer snprintf v
  | .float v => doubleOffer snprintf v.toFloat
  | .char v => .whole [v]
  | .cstring str => .whole (cstringText str)
  | .unsignedCstring str => .whole (cstringText str)
  | .string v => .whole v
  | .stringPiece v => .whole v
  | .buffer v => .whole v.val.content
  | .append data len => .whole (block data (len.toInt % 2 ^ 64).toNat)

/-- The offers that fitted since the last reset. -/
def kept (os : List (Offer UInt8)) : Call → List (Offer UInt8)
  | .insert i => keep k_small_buffer os (i.offer snprintf)
  | .resetBuffer => []

end Operators

theorem block_c_str (s : List UInt8) {n : ℕ} (hn : n ≤ s.length) :
    block (c_str s) n = s.take n := by
  apply List.ext_getElem
  · rw [length_block, List.length_take, Nat.min_eq_left hn]
  · intro i h₁ h₂
    rw [List.length_take] at h₂
    rw [List.getElem_take]
    simp only [block, c_str, List.getElem_map, List.getElem_range]
    exact List.getD_eq_getElem s 0 (by omega)

theorem block_c_str_length (s : List UInt8) : block (c_str s) s.length = s := by
  rw [block_c_str s le_rfl, List.take_length]

theorem block_c_str_strlen (s : List UInt8) : block (c_str s) (strlen s) = s.takeWhile (· ≠ 0) := by
  have hprefix := List.takeWhile_prefix (l := s) (· ≠ 0)
  rw [strlen, block_c_str s hprefix.length_le]
  exact (List.prefix_iff_eq_take.mp hprefix).symm

open FixedBuffer

variable (snprintf : Float → DoubleText) {b : Buffer} (h : b.WF)
include h

/-- A whole string. -/
theorem took_string (v : List UInt8) {n : ℕ} (hn : n = v.length) :
    Took b (b.append (c_str v) n) (.whole v) := by
  have htook := took_append (by decide) h (c_str v) v.length
  rw [block_c_str_length] at htook
  rwa [hn]

theorem took_cstring (str : Option (List UInt8)) :
    Took b (insertCstring b str) (.whole (cstringText str)) := by
  cases str with
  | none => exact took_string h (literal "(null)") (by decide +kernel)
  | some str =>
    have htook := took_append (by decide) h (c_str str) (strlen str)
    rwa [block_c_str_strlen] at htook

theorem took_double (v : Float) : Took b (insertDouble snprintf b v) (doubleOffer snprintf v) := by
  have hle : (snprintf v).text.length ≤ k_max_number_size - 1 := (snprintf v).le
  rw [insertDouble, List.take_of_length_le hle]
  exact took_number (by decide) h (Nat.lt_succ_of_le (snprintf v).le)

/-- Every operator accepts its text whole or not at all. -/
theorem took_insert (i : Item) : Took b (insert snprintf b i) (i.offer snprintf) := by
  cases i with
  | bool v => exact took_string h _ (by cases v <;> decide +kernel)
  | short v => exact took_formatInteger (by decide) h v.toInt32
  | unsignedShort v => exact took_formatInteger (by decide) h v.toUInt32
  | int v => exact took_formatInteger (by decide) h v
  | unsignedInt v => exact took_formatInteger (by decide) h v
  | long v => exact took_formatInteger (by decide) h v
  | unsignedLong v => exact took_formatInteger (by decide) h v
  | longLong v => exact took_formatInteger (by decide) h v
  | unsignedLongLong v => exact took_formatInteger (by decide) h v
  | pointer p => exact took_formatPointer (by decide) h p
  | double v => exact took_double snprintf h v
  | float v => exact took_double snprintf h v.toFloat
  | char v => exact took_string h [v] rfl
  | cstring str => exact took_cstring h str
  | unsignedCstring str => exact took_cstring h str
  | string v => exact took_string h v rfl
  | stringPiece v => exact took_string h v rfl
  | buffer v =>
    rw [insert, toStringPiece_eq (by decide) v.property]
    exact took_string h v.val.content rfl
  | append data len => exact took_append (by decide) h data _

/-- One operator after the other: the offers are made in order. -/
theorem content_exec (items : List Item) :
    (exec (insert snprintf) b items).WF ∧
      (exec (insert snprintf) b items).content =
        exec (accept k_small_buffer) b.content (items.map (Item.offer snprintf)) := by
  induction items generalizing b with
  | nil => exact ⟨h, rfl⟩
  | cons i items ih =>
    have htook := took_insert snprintf h i
    rw [List.map_cons, exec_cons, exec_cons, ← htook.content]
    exact ih htook.wf

omit h

/-- The buffer holds the texts of the offers kept. -/
structure Holds (b : Buffer) (os : List (Offer UInt8)) : Prop where
  wf : b.WF
  content : b.content = texts os

theorem holds_step {b : Buffer} {os : List (Offer UInt8)} (hb : Holds b os) (call : Call) :
    Holds (step snprintf b call) (kept snprintf os call) := by
  cases call with
  | insert i =>
    have htook := took_insert snprintf hb.wf i
    refine ⟨htook.wf, ?_⟩
    rw [kept, texts_keep, ← hb.content]
    exact htook.content
  | resetBuffer => exact ⟨⟨le_rfl, Int.natCast_pos.mpr (by decide), hb.wf.inside⟩, rfl⟩

theorem holds_exec {b : Buffer} {os : List (Offer UInt8)} (hb : Holds b os) (calls : List Call) :
    Holds (exec (step snprintf) b calls) (exec (kept snprintf) os calls) := by
  induction calls generalizing b os with
  | nil => exact hb
  | cons call calls ih => exact ih (holds_step snprintf hb call)

/-- After any calls the position is inside the array, with room for a terminator, nothing outside it
has been written, and the buffer holds, since the last reset, the complete texts of the operations
that fitted, one after the other. -/
theorem stream_keeps_whole_texts (memory : List.Vector UInt8 k_small_buffer) (calls : List Call) :
    let b := exec (step snprintf) (FixedBuffer.new memory) calls
    0 ≤ b._cur ∧ b._cur ≤ k_small_buffer - 1 ∧ b.outside = false ∧ b.debugString.outside = false ∧
      b.content = texts (exec (kept snprintf) [] calls) := by
  intro b
  have hnew : Holds (FixedBuffer.new memory) [] := ⟨wf_new (by decide) memory, rfl⟩
  have hholds := holds_exec snprintf hnew calls
  have hlt : b._cur < k_small_buffer := hholds.wf.lt
  exact ⟨hholds.wf.start, by omega, hholds.wf.inside, debugString_inside hholds.wf, hholds.content⟩

end LogStream

end Muduo.Base
