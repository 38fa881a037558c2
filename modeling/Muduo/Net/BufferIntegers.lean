import Muduo.Net.Buffer
import Muduo.Lib.Bytes
import Muduo.Lib.Runs

/-!
# Integers in a `Buffer`

`appendIntN`, `peekIntN`, `readIntN` and `prependIntN` for 8, 16, 32 and 64 bits.  Values are
signed; the functions of `Endian.h` convert them as unsigned ones, and the buffer copies the bytes
of the converted value as the host holds them. A peek has no value where its assertion fails.

* `appendInt`, `peekInt`, `readInt`, `prependInt` — the family, with the number of bytes as a
  parameter; the members are its instances, except that the 8-bit ones do not convert;
* `networkOrder_eq` — what the host copies are the bytes in big-endian order;
* `IntOp`, `IntState.step` — appends and reads in any order; `typed_integers_survive` — reads that
  ask for the types in the order of the appends return the values appended.
-/

namespace Muduo.Net

open Muduo.Lib

/-! ### `Endian.h` -/

section Endian

variable (host : Endian)

/-- `hostToNetworkN`. -/
def hostToNetwork (w : ℕ) (x : BitVec (8 * w)) : BitVec (8 * w) :=
    BitVec.ofNat _ (toBE host w x.toNat)

/-- `networkToHostN`. -/
def networkToHost (w : ℕ) (x : BitVec (8 * w)) : BitVec (8 * w) :=
    BitVec.ofNat _ (toBE host w x.toNat)

/-- The bytes of a value in the memory of the host. -/
def inMemory (w : ℕ) (x : BitVec (8 * w)) : List Byte := store host w x.toNat

/-- `memcpy` of bytes into an integer. -/
def fromMemory (w : ℕ) (bytes : List Byte) : BitVec (8 * w) := BitVec.ofNat _ (load host bytes)

end Endian

theorem two_pow_eight_mul (w : ℕ) : 2 ^ (8 * w) = 256 ^ w := by
  rw [pow_mul]
  norm_num

theorem networkOrder_eq_store (w : ℕ) (x : BitVec (8 * w)) :
    Buffer.networkOrder w x = store .big w x.toNat := by
  have hlen : (Buffer.networkOrder w x).length =
    (store .big w x.toNat).length := by simp [Buffer.networkOrder]
  refine List.ext_getElem hlen fun i h1 h2 => ?_
  rw [length_store] at h2
  have hstore : (store .big w x.toNat)[i] = UInt8.ofNat (x.toNat / 256 ^ (w - 1 - i)) := by
    simp only [store, List.getElem_reverse, length_toLE]
    rw [getElem_toLE]
  rw [hstore]
  apply UInt8.toNat_inj.mp
  simp [Buffer.networkOrder, Nat.shiftRight_eq_div_pow, pow_mul]

/-- What a host copies after the conversion are the bytes in network order. -/
theorem networkOrder_eq (host : Endian) (w : ℕ) (x : BitVec (8 * w)) :
    Buffer.networkOrder w x = inMemory host w (hostToNetwork host w x) := by
  have hlt : toBE host w x.toNat < 2 ^ (8 * w) := by
    rw [two_pow_eight_mul]
    cases host with
    | little => simpa [toBE] using ofLE_lt (toLE w x.toNat).reverse
    | big => exact two_pow_eight_mul w ▸ x.isLt
  rw [networkOrder_eq_store, inMemory, hostToNetwork, BitVec.toNat_ofNat, Nat.mod_eq_of_lt hlt,
    store_toBE]

/-- What a host makes of bytes in network order. -/
theorem networkToHost_fromMemory (host : Endian) (w : ℕ) (x : BitVec (8 * w)) :
    networkToHost host w (fromMemory host w (Buffer.networkOrder w x)) = x := by
  have hlen : (store .big w x.toNat).length = w := length_store _ _ _
  have hlt : load host (store .big w x.toNat) < 2 ^ (8 * w) := by
    have := load_lt host (store .big w x.toNat)
    rwa [hlen, ← two_pow_eight_mul] at this
  have hx : x.toNat % 256 ^ w = x.toNat := Nat.mod_eq_of_lt (two_pow_eight_mul w ▸ x.isLt)
  rw [networkOrder_eq_store, networkToHost, fromMemory, BitVec.toNat_ofNat, Nat.mod_eq_of_lt hlt,
    toBE_load host hlen, load_store, hx, BitVec.ofNat_toNat, BitVec.setWidth_eq]

theorem length_networkOrder (w : ℕ) (x : BitVec (8 * w)) :
    (Buffer.networkOrder w x).length = w := by
  simp [Buffer.networkOrder]

/-- Read as one big-endian number, the bytes are the value modulo `2 ^ N`: two's complement. -/
theorem load_networkOrder (w : ℕ) (x : BitVec (8 * w)) :
    (load .big (Buffer.networkOrder w x) : ℤ) = x.toInt % 2 ^ (8 * w) := by
  have hx : x.toNat % 256 ^ w = x.toNat := Nat.mod_eq_of_lt (two_pow_eight_mul w ▸ x.isLt)
  have hpow : (2 : ℤ) ^ (8 * w) = ((2 ^ (8 * w) : ℕ) : ℤ) := by push_cast; rfl
  rw [networkOrder_eq_store, load_store, hx, BitVec.toInt_eq_toNat_bmod, hpow, Int.bmod_emod]
  exact (Int.emod_eq_of_lt (Int.natCast_nonneg _) (by exact_mod_cast x.isLt)).symm

/-! ### The members of `Buffer` -/

namespace Buffer

section

variable (host : Endian)

/-- `be = hostToNetworkN(x); append(&be, sizeof be)`. -/
def appendInt (w : ℕ) (b : Buffer) (x : BitVec (8 * w)) : Buffer :=
  b.append (inMemory host w (hostToNetwork host w x))

/-- `memcpy(&be, peek(), sizeof be); return networkToHostN(be)`, under its assertion. -/
def peekInt (w : ℕ) (b : Buffer) : Option (BitVec (8 * w)) :=
  if w ≤ b.readableBytes then
    some (networkToHost host w
      (fromMemory host w (window b.buffer_ b.readerIndex_ (b.readerIndex_ + w))))
  else none

def peekInt64 (b : Buffer) : Option (BitVec 64) := peekInt host 8 b
def peekInt32 (b : Buffer) : Option (BitVec 32) := peekInt host 4 b
def peekInt16 (b : Buffer) : Option (BitVec 16) := peekInt host 2 b

/-- `*peek()`. -/
def peekInt8 (b : Buffer) : Option (BitVec 8) :=
  if 1 ≤ b.readableBytes then (b.buffer_[b.readerIndex_]?).map UInt8.toBitVec else none

def retrieveInt64 (b : Buffer) : Buffer := b.retrieve 8
def retrieveInt32 (b : Buffer) : Buffer := b.retrieve 4
def retrieveInt16 (b : Buffer) : Buffer := b.retrieve 2
def retrieveInt8 (b : Buffer) : Buffer := b.retrieve 1

def readInt64 (b : Buffer) : Option (BitVec 64 × Buffer) := do
  return (← peekInt64 host b, b.retrieveInt64)

def readInt32 (b : Buffer) : Option (BitVec 32 × Buffer) := do
  return (← peekInt32 host b, b.retrieveInt32)

def readInt16 (b : Buffer) : Option (BitVec 16 × Buffer) := do
  return (← peekInt16 host b, b.retrieveInt16)

def readInt8 (b : Buffer) : Option (BitVec 8 × Buffer) := do
  return (← peekInt8 b, b.retrieveInt8)

/-- `be = hostToNetworkN(x); prepend(&be, sizeof be)`. -/
def prependInt (w : ℕ) (b : Buffer) (x : BitVec (8 * w)) (h : w ≤ b.prependableBytes) : Buffer :=
  b.prepend (inMemory host w (hostToNetwork host w x)) (by rwa [inMemory, length_store])

def prependInt64 (b : Buffer) (x : BitVec 64) (h : 8 ≤ b.prependableBytes) : Buffer :=
    prependInt host 8 b x h
def prependInt32 (b : Buffer) (x : BitVec 32) (h : 4 ≤ b.prependableBytes) : Buffer :=
    prependInt host 4 b x h
def prependInt16 (b : Buffer) (x : BitVec 16) (h : 2 ≤ b.prependableBytes) : Buffer :=
    prependInt host 2 b x h

/-- `prepend(&x, sizeof x)`. -/
def prependInt8 (b : Buffer) (x : BitVec 8) (h : 1 ≤ b.prependableBytes) : Buffer :=
    b.prepend [⟨x⟩] h

end

/-- A byte is in network order. -/
theorem networkOrder_one (x : BitVec 8) : networkOrder 1 x = [⟨x⟩] := by
  simp [networkOrder]

theorem appendInt_eq (host : Endian) (w : ℕ) (b : Buffer) (x : BitVec (8 * w)) :
    appendInt host w b x = b.append (networkOrder w x) := by
  rw [appendInt, ← networkOrder_eq]

theorem readable_prependInt (host : Endian) (w : ℕ) (b : Buffer) (x : BitVec (8 * w))
    (h : w ≤ b.prependableBytes) :
    (prependInt host w b x h).readable = networkOrder w x ++ b.readable := by
  rw [prependInt, readable_prepend, ← networkOrder_eq]

/-- The bytes at `peek()` that are readable. -/
theorem window_peek (b : Buffer) {w : ℕ} (h : w ≤ b.readableBytes) :
    window b.buffer_ b.readerIndex_ (b.readerIndex_ + w) = b.readable.take w :=
  retrieveAsString_fst b h

theorem peekInt_eq (host : Endian) {w : ℕ} {b : Buffer} {x : BitVec (8 * w)} {rest : List Byte}
    (h : b.readable = networkOrder w x ++ rest) : peekInt host w b = some x := by
  have hlen := length_networkOrder w x
  have hle : w ≤ b.readableBytes := by
    rw [readableBytes_eq, h, List.length_append]
    omega
  rw [peekInt, if_pos hle, window_peek b hle, h, List.take_left' hlen, networkToHost_fromMemory]

theorem peekInt8_eq {b : Buffer} {x : BitVec 8} {rest : List Byte} (h : b.readable = ⟨x⟩ :: rest) :
    peekInt8 b = some x := by
  have hle : 1 ≤ b.readableBytes := by
    rw [readableBytes_eq, h, List.length_cons]
    omega
  have hget : b.buffer_[b.readerIndex_]? = some ⟨x⟩ := by
    have hw := window_peek b hle
    rw [h, window] at hw
    have : (b.buffer_.drop b.readerIndex_)[0]? = some ⟨x⟩ := by
      have := congrArg (·[0]?) hw
      simpa using this
    simpa using this
  rw [peekInt8, if_pos hle, hget]
  rfl

theorem readable_retrieve_left {b : Buffer} {w : ℕ} {xs rest : List Byte} (hlen : xs.length = w)
    (h : b.readable = xs ++ rest) : (b.retrieve w).readable = rest := by
  rw [readable_retrieve, h, List.drop_left' hlen]

end Buffer

/-! ### Values of any of the four types -/

inductive IntType where
  | int64
  | int32
  | int16
  | int8
  deriving DecidableEq, Repr

inductive IntValue where
  | int64 (x : BitVec 64)
  | int32 (x : BitVec 32)
  | int16 (x : BitVec 16)
  | int8 (x : BitVec 8)
  deriving DecidableEq, Repr

namespace IntType

/-- `sizeof`. -/
def size : IntType → ℕ
  | .int64 => 8
  | .int32 => 4
  | .int16 => 2
  | .int8 => 1

end IntType

namespace IntValue

def type : IntValue → IntType
  | .int64 _ => .int64
  | .int32 _ => .int32
  | .int16 _ => .int16
  | .int8 _ => .int8

/-- The signed value. -/
def toInt : IntValue → ℤ
  | .int64 x => x.toInt
  | .int32 x => x.toInt
  | .int16 x => x.toInt
  | .int8 x => x.toInt

/-- The bytes in network order. -/
def bytes : IntValue → List Byte
  | .int64 x => Buffer.networkOrder 8 x
  | .int32 x => Buffer.networkOrder 4 x
  | .int16 x => Buffer.networkOrder 2 x
  | .int8 x => Buffer.networkOrder 1 x

@[simp] theorem length_bytes (v : IntValue) : v.bytes.length = v.type.size := by
  cases v <;> exact length_networkOrder _ _

theorem load_bytes (v : IntValue) : (load .big v.bytes : ℤ) = v.toInt % 2 ^ (8 * v.type.size) := by
  cases v <;> exact load_networkOrder _ _

end IntValue

namespace Buffer

/-- `appendIntN` for the type of the value, as the host executes it. -/
def appendValue (b : Buffer) (host : Endian) : IntValue → Buffer
  | .int64 x => appendInt host 8 b x
  | .int32 x => appendInt host 4 b x
  | .int16 x => appendInt host 2 b x
  | .int8 x => b.append [⟨x⟩]

/-- `readIntN` for the type asked for. -/
def readValue (b : Buffer) (host : Endian) : IntType → Option (IntValue × Buffer)
  | .int64 => (readInt64 host b).map fun r => (.int64 r.1, r.2)
  | .int32 => (readInt32 host b).map fun r => (.int32 r.1, r.2)
  | .int16 => (readInt16 host b).map fun r => (.int16 r.1, r.2)
  | .int8 => (readInt8 b).map fun r => (.int8 r.1, r.2)

/-- `prependIntN` for the type of the value. -/
def prependValue (b : Buffer) (host : Endian) :
    (v : IntValue) → v.type.size ≤ b.prependableBytes → Buffer
  | .int64 x, h => prependInt64 host b x h
  | .int32 x, h => prependInt32 host b x h
  | .int16 x, h => prependInt16 host b x h
  | .int8 x, h => prependInt8 b x h

theorem appendValue_eq (host : Endian) (b : Buffer) (v : IntValue) :
    appendValue b host v = b.append v.bytes := by
  cases v with
  | int64 x => exact appendInt_eq host 8 b x
  | int32 x => exact appendInt_eq host 4 b x
  | int16 x => exact appendInt_eq host 2 b x
  | int8 x => rw [appendValue, IntValue.bytes, networkOrder_one]

theorem readValue_eq (host : Endian) {b : Buffer} {v : IntValue} {rest : List Byte}
    (h : b.readable = v.bytes ++ rest) :
    ∃ b', readValue b host v.type = some (v, b') ∧ b'.readable = rest := by
  refine ⟨b.retrieve v.type.size, ?_, readable_retrieve_left v.length_bytes h⟩
  cases v with
  | int64 x =>
    have hpeek : peekInt64 host b = some x := peekInt_eq host h
    simp only [IntValue.type, readValue, readInt64, hpeek]
    rfl
  | int32 x =>
    have hpeek : peekInt32 host b = some x := peekInt_eq host h
    simp only [IntValue.type, readValue, readInt32, hpeek]
    rfl
  | int16 x =>
    have hpeek : peekInt16 host b = some x := peekInt_eq host h
    simp only [IntValue.type, readValue, readInt16, hpeek]
    rfl
  | int8 x =>
    have hpeek : peekInt8 b = some x :=
      peekInt8_eq (by rw [h, IntValue.bytes, networkOrder_one]; rfl)
    simp only [IntValue.type, readValue, readInt8, hpeek]
    rfl

theorem readable_prependValue (host : Endian) (b : Buffer) (v : IntValue)
    (h : v.type.size ≤ b.prependableBytes) :
    (prependValue b host v h).readable = v.bytes ++ b.readable := by
  cases v with
  | int64 x => exact readable_prependInt host 8 b x h
  | int32 x => exact readable_prependInt host 4 b x h
  | int16 x => exact readable_prependInt host 2 b x h
  | int8 x =>
    rw [IntValue.bytes, networkOrder_one]
    exact readable_prepend b [⟨x⟩] h

end Buffer

/-! ### Appends and reads in any order -/

inductive IntOp where
  | append (v : IntValue)
  | read (type : IntType)
  deriving DecidableEq, Repr

/-- The buffer, the values read so far, and whether an assertion has failed. -/
structure IntState where
  buf : Buffer
  got : List IntValue
  failed : Bool

namespace IntState

def step (host : Endian) (s : IntState) : IntOp → IntState
  | .append v => { s with buf := s.buf.appendValue host v }
  | .read type =>
    match s.buf.readValue host type with
    | some (v, b) => { s with buf := b, got := s.got ++ [v] }
    | none => { s with failed := true }

end IntState

/-- The values appended by a sequence of operations. -/
def appended : List IntOp → List IntValue
  | [] => []
  | .append v :: ops => v :: appended ops
  | .read _ :: ops => appended ops

/-- The number of reads. -/
def reads : List IntOp → ℕ
  | [] => 0
  | .append _ :: ops => reads ops
  | .read _ :: ops => reads ops + 1

/-- Reads ask for the types in the order in which the values were appended, and never ahead of the
appends; `pending` are the values appended before and not read yet. -/
def InOrder : List IntValue → List IntOp → Prop
  | _, [] => True
  | pending, .append v :: ops => InOrder (pending ++ [v]) ops
  | [], .read _ :: _ => False
  | v :: pending, .read type :: ops => v.type = type ∧ InOrder pending ops

/-- The invariant: the values not read yet are what the buffer holds. -/
theorem exec_inOrder (host : Endian) (ops : List IntOp) (s : IntState) (pending : List IntValue)
    (hbuf : s.buf.readable = pending.flatMap IntValue.bytes) (h : InOrder pending ops) :
    (exec (IntState.step host) s ops).failed = s.failed ∧
      (exec (IntState.step host) s ops).got = s.got ++ (pending ++ appended ops).take (reads ops) ∧
      (exec (IntState.step host) s ops).buf.readable =
        ((pending ++ appended ops).drop (reads ops)).flatMap IntValue.bytes := by
  induction ops generalizing s pending with
  | nil => simp [appended, reads, hbuf]
  | cons op ops ih =>
    rw [exec_cons]
    cases op with
    | append v =>
      have hbuf' :
          (s.buf.appendValue host v).readable = (pending ++ [v]).flatMap IntValue.bytes := by
        rw [Buffer.appendValue_eq, Buffer.readable_append, hbuf]
        simp
      have := ih { s with buf := s.buf.appendValue host v } (pending ++ [v]) hbuf' h
      simpa [IntState.step, appended, reads] using this
    | read type =>
      rcases pending with _ | ⟨v, pending⟩
      · exact absurd h id
      · obtain ⟨rfl, h⟩ := h
        obtain ⟨b', hread, hb'⟩ := Buffer.readValue_eq host (b := s.buf) hbuf
        have := ih { s with buf := b', got := s.got ++ [v] } pending hb' h
        simpa [IntState.step, hread, appended, reads] using this

theorem reads_le {pending : List IntValue} {ops : List IntOp} (h : InOrder pending ops) :
    reads ops ≤ (pending ++ appended ops).length := by
  induction ops generalizing pending with
  | nil => exact Nat.zero_le _
  | cons op ops ih =>
    cases op with
    | append v => simpa [reads, appended] using ih h
    | read type =>
      rcases pending with _ | ⟨v, pending⟩
      · exact absurd h id
      · have := ih h.2
        simp only [reads, appended, List.cons_append, List.length_cons]
        omega

/-- Typed integers survive the buffer.  Whatever appends and reads are mixed, as long as reads ask
for the types in the order of the appends, each returns the value appended at its position and the
bytes left are those of the values not read yet; a prepended value is read back and leaves what was
readable before; and a value occupies its bytes in big-endian two's complement. -/
theorem typed_integers_survive (host : Endian) :
    (∀ (b : Buffer) (ops : List IntOp), b.readable = [] → InOrder [] ops →
      (exec (IntState.step host) ⟨b, [], false⟩ ops).failed = false ∧
      (exec (IntState.step host) ⟨b, [], false⟩ ops).got.length = reads ops ∧
      (exec (IntState.step host) ⟨b, [], false⟩ ops).got = (appended ops).take (reads ops) ∧
      (exec (IntState.step host) ⟨b, [], false⟩ ops).buf.readable =
        ((appended ops).drop (reads ops)).flatMap IntValue.bytes) ∧
    (∀ (b : Buffer) (v : IntValue) (h : v.type.size ≤ b.prependableBytes),
      ∃ b', (b.prependValue host v h).readValue host v.type = some (v, b') ∧
      b'.readable = b.readable) ∧
    (∀ (b : Buffer) (v : IntValue), (b.appendValue host v).readable = b.readable ++ v.bytes ∧
      v.bytes.length = v.type.size ∧ (load .big v.bytes : ℤ) = v.toInt % 2 ^
        (8 * v.type.size)) := by
  refine ⟨fun b ops hb h => ?_, fun b v h => ?_, fun b v => ⟨?_, v.length_bytes, v.load_bytes⟩⟩
  · obtain ⟨hf, hgot, hbuf⟩ := exec_inOrder host ops ⟨b, [], false⟩ [] hb h
    have hle := reads_le h
    rw [List.nil_append] at hgot hbuf hle
    refine ⟨hf, ?_, hgot, hbuf⟩
    rw [hgot]
    simpa using hle
  · exact Buffer.readValue_eq host (Buffer.readable_prependValue host b v h)
  · rw [Buffer.appendValue_eq, Buffer.readable_append]

/-- Two appends, one of a negative value, and a read between them, on a fresh buffer. -/
theorem typed_integers_survive_interleaved :
    (exec (IntState.step .little) ⟨Buffer.ofSize 16, [], false⟩
      [.append (.int16 (-2)), .append (.int64 7), .read .int16]).got = [.int16 (-2)] :=
  ((typed_integers_survive .little).1 (Buffer.ofSize 16) [.append (.int16 (-2)), .append (.int64 7),
    .read .int16] (Buffer.readable_ofSize 16) ⟨rfl, trivial⟩).2.2.1

end Muduo.Net
