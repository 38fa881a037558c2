import Muduo.Net.BufferQueue
import Muduo.Lib.Checked

/-!
# `Buffer` in machine arithmetic

`Muduo.Net.Buffer` computes with natural numbers.  Here the sizes are `size_t`: sums and
differences wrap at `2 ^ 64`, `resize` throws above the largest size of a vector, and
`toStringPiece` passes the number of readable bytes through an `int`.  A `RawBuffer` carries no
invariant, since a wrapped size may break it.

* `ensureWritableBytes_raw` — where no sum wraps the machine computes what the model computes, or
  throws and leaves the buffer as it was;
* `ensureWritableBytes_sound_iff` — that is exactly the case in which the post-condition
  and the assertions hold;
* `shrink_keeps_iff` — when `shrink` keeps the readable bytes and reserves the space.
-/

namespace Muduo.Net

open Muduo.Lib

/-- `size_t`. -/
def sizeT (n : ℕ) : ℕ := n % 2 ^ 64

/-- `x - y` in `size_t`. -/
def sizeSub (x y : ℕ) : ℕ := sizeT (x + 2 ^ 64 - y)

/-- `std::vector<char>::max_size()`. -/
def maxSize : ℕ := 2 ^ 63 - 1

structure RawBuffer where
  buffer_ : List Byte
  readerIndex_ : ℕ
  writerIndex_ : ℕ
  deriving DecidableEq

def Buffer.raw (b : Buffer) : RawBuffer := ⟨b.buffer_, b.readerIndex_, b.writerIndex_⟩

/-- How a call ends: the buffer, whether `resize` has thrown, and whether all assertions passed
held. -/
structure Call where
  buf : RawBuffer
  threw : Bool
  asserts : Bool
  deriving DecidableEq

/-- `std::string_view` into the vector: the offset of its first byte and its size. -/
structure StringPiece where
  data : ℕ
  size : ℕ
  deriving DecidableEq, Repr

namespace RawBuffer

def readableBytes (b : RawBuffer) : ℕ := sizeSub b.writerIndex_ b.readerIndex_

def writableBytes (b : RawBuffer) : ℕ := sizeSub b.buffer_.length b.writerIndex_

def prependableBytes (b : RawBuffer) : ℕ := b.readerIndex_

/-- The bytes between `peek()` and `beginWrite()`. -/
def readable (b : RawBuffer) : List Byte := window b.buffer_ b.readerIndex_ b.writerIndex_

/-- The invariant of the class comment. -/
def Indexed (b : RawBuffer) : Prop :=
  b.readerIndex_ ≤ b.writerIndex_ ∧ b.writerIndex_ ≤ b.buffer_.length

def makeSpace (b : RawBuffer) (len : ℕ) : Call :=
  if sizeT (b.writableBytes + b.prependableBytes) < sizeT (len + kCheapPrepend) then
    let n := sizeT (b.writerIndex_ + len)
    if n ≤ maxSize then ⟨{ b with buffer_ := resize b.buffer_ n 0 }, false, true⟩
    else ⟨b, true, true⟩
  else
    -- where the readable bytes do not fit at `kCheapPrepend` the first assertion fails
    let moved : RawBuffer :=
      { buffer_ := overwrite b.buffer_ kCheapPrepend b.readable
        readerIndex_ := kCheapPrepend
        writerIndex_ := sizeT (kCheapPrepend + b.readableBytes) }
    ⟨moved, false, kCheapPrepend < b.readerIndex_ ∧ b.readableBytes = moved.readableBytes⟩

def ensureWritableBytes (b : RawBuffer) (len : ℕ) : Call :=
  let r := if b.writableBytes < len then b.makeSpace len else ⟨b, false, true⟩
  if r.threw then r
  else { r with asserts := r.asserts && len ≤ r.buf.writableBytes }

/-- `append(data, len)`, where `src` is the memory from `data` on. -/
def append (b : RawBuffer) (src : List Byte) (len : ℕ) : Call :=
  let r := b.ensureWritableBytes len
  if r.threw then r
  else
    { buf := { r.buf with
        buffer_ := overwrite r.buf.buffer_ r.buf.writerIndex_ (src.take len)
        writerIndex_ := sizeT (r.buf.writerIndex_ + len) }
      threw := false
      asserts := r.asserts && len ≤ r.buf.writableBytes }

/-- `StringPiece(peek(), static_cast<int>(readableBytes()))`; the `int` becomes a `size_t` again. -/
def toStringPiece (b : RawBuffer) : StringPiece :=
  ⟨b.readerIndex_, (narrow 32 b.readableBytes % 2 ^ 64).toNat⟩

/-- An exception leaves the buffer as it is: `other` is a local variable. -/
def shrink (b : RawBuffer) (reserve : ℕ) : Call :=
  let other := (Buffer.ofSize kInitialSize).raw
  let r := other.ensureWritableBytes (sizeT (b.readableBytes + reserve))
  if r.threw then ⟨b, true, r.asserts⟩
  else
    let piece := b.toStringPiece
    let s := r.buf.append (b.buffer_.drop piece.data) piece.size
    if s.threw then ⟨b, true, r.asserts && s.asserts⟩
    else ⟨s.buf, false, r.asserts && s.asserts⟩

end RawBuffer

/-! ### A buffer in memory -/

namespace Buffer

variable {b : Buffer}

theorem raw_readableBytes (hsize : b.buffer_.length ≤ maxSize) :
    b.raw.readableBytes = b.readableBytes := by
  have := b.reader_le
  have := b.writer_le
  unfold maxSize at hsize
  simp only [RawBuffer.readableBytes, raw, sizeSub, sizeT, readableBytes]
  omega

theorem raw_writableBytes (hsize : b.buffer_.length ≤ maxSize) :
    b.raw.writableBytes = b.writableBytes := by
  have := b.writer_le
  unfold maxSize at hsize
  simp only [RawBuffer.writableBytes, raw, sizeSub, sizeT, writableBytes]
  omega

theorem raw_indexed : b.raw.Indexed := ⟨b.reader_le, b.writer_le⟩

theorem free_le : b.writableBytes + b.prependableBytes ≤ b.buffer_.length := by
  have := b.reader_le
  have := b.writer_le
  unfold writableBytes prependableBytes
  omega

/-- Neither sum of `makeSpace` wraps. -/
def NoWrap (b : Buffer) (len : ℕ) : Prop :=
  len + kCheapPrepend < 2 ^ 64 ∧ b.writerIndex_ + len < 2 ^ 64

instance (b : Buffer) (len : ℕ) : Decidable (b.NoWrap len) := inferInstanceAs (Decidable (_ ∧ _))

/-- The test of `makeSpace` that chooses to grow the vector, in exact arithmetic. -/
theorem grows_iff (hsize : b.buffer_.length ≤ maxSize) (len : ℕ) :
    sizeT (b.raw.writableBytes + b.raw.prependableBytes) < sizeT (len + kCheapPrepend) ↔
      b.writableBytes + b.prependableBytes < (len + kCheapPrepend) % 2 ^ 64 := by
  have hfree := b.free_le
  have hmax : maxSize < 2 ^ 63 := by decide
  have hprep : b.raw.prependableBytes = b.prependableBytes := rfl
  rw [raw_writableBytes hsize, hprep, sizeT, sizeT, Nat.mod_eq_of_lt (by omega : _ + _ < 2 ^ 64)]

/-- What the machine does where no sum wraps: the computation of the model, if the vector
can have that size. -/
theorem makeSpace_raw (hsize : b.buffer_.length ≤ maxSize) {len : ℕ} (hnw : b.NoWrap len)
    (h : b.writableBytes < len) :
    b.raw.makeSpace len = if (b.makeSpace len h).buffer_.length ≤ maxSize
      then ⟨(b.makeSpace len h).raw, false, true⟩ else ⟨b.raw, true, true⟩ := by
  obtain ⟨h8, hw⟩ := hnw
  have hmax : maxSize < 2 ^ 63 := by decide
  have hcond := grows_iff hsize len
  rw [Nat.mod_eq_of_lt h8] at hcond
  have hbuf : (b.makeSpace len h).buffer_ = (b.makeSpace len h).raw.buffer_ := rfl
  rw [hbuf, RawBuffer.makeSpace]
  by_cases hc : b.writableBytes + b.prependableBytes < len + kCheapPrepend
  · -- the vector grows
    have hraw : (b.makeSpace len h).raw =
        ⟨resize b.buffer_ (b.writerIndex_ + len) 0, b.readerIndex_, b.writerIndex_⟩ := by
      rw [makeSpace, if_pos hc]
      rfl
    have hidx : sizeT (b.raw.writerIndex_ + len) = b.writerIndex_ + len := Nat.mod_eq_of_lt hw
    rw [hraw, if_pos (hcond.mpr hc), hidx, length_resize]
    rfl
  · -- the readable bytes slide to the front
    have hraw : (b.makeSpace len h).raw =
        ⟨overwrite b.buffer_ kCheapPrepend b.readable, kCheapPrepend,
          kCheapPrepend + b.readableBytes⟩ := by
      rw [makeSpace, if_neg hc]
      rfl
    have hfit := b.slid_fits h hc
    have hreader : kCheapPrepend < b.readerIndex_ := by
      unfold prependableBytes at hc
      omega
    rw [← readableBytes_eq] at hfit
    have hidx : sizeT (kCheapPrepend + b.raw.readableBytes) = kCheapPrepend + b.readableBytes := by
      rw [raw_readableBytes hsize]
      exact Nat.mod_eq_of_lt (by omega)
    have hsame : b.readableBytes = sizeSub (kCheapPrepend + b.readableBytes) kCheapPrepend := by
      unfold sizeSub sizeT
      omega
    have hlen : (overwrite b.buffer_ kCheapPrepend b.readable).length = b.buffer_.length :=
      length_overwrite _ (b.slid_fits h hc)
    rw [hraw, if_neg (fun h' => hc (hcond.mp h')), hidx, hlen, if_pos hsize]
    have hassert : (kCheapPrepend < b.raw.readerIndex_ ∧ b.raw.readableBytes =
        sizeSub (kCheapPrepend + b.readableBytes) kCheapPrepend) :=
        ⟨hreader, by rw [raw_readableBytes hsize, ← hsame]⟩
    simp only [RawBuffer.readableBytes] at hassert ⊢
    simp only [hassert]
    rfl

/-- The machine computes what the model computes, or throws and changes nothing. -/
theorem ensureWritableBytes_raw (hsize : b.buffer_.length ≤ maxSize) {len : ℕ}
    (hnw : b.NoWrap len) :
    b.raw.ensureWritableBytes len = if (b.ensureWritableBytes len).buffer_.length ≤ maxSize
      then ⟨(b.ensureWritableBytes len).raw, false, true⟩ else ⟨b.raw, true, true⟩ := by
  unfold RawBuffer.ensureWritableBytes
  rw [raw_writableBytes hsize]
  by_cases h : b.writableBytes < len
  · have hb : b.ensureWritableBytes len = b.makeSpace len h := dif_pos h
    have hroom := b.writableBytes_makeSpace len h
    rw [if_pos h, makeSpace_raw hsize hnw h, hb]
    by_cases hfit : (b.makeSpace len h).buffer_.length ≤ maxSize
    · simp [hfit, raw_writableBytes hfit, hroom]
    · simp [hfit]
  · have hb : b.ensureWritableBytes len = b := dif_neg h
    rw [if_neg h, hb, if_pos hsize]
    simp [raw_writableBytes hsize, not_lt.mp h]

/-! ### `ensureWritableBytes` for every length -/

/-- No assertion fails, and the call throws and leaves the buffer alone, or returns with the space
asked for, the same readable bytes and the index invariant. -/
def EnsuresWritable (b : Buffer) (len : ℕ) : Prop :=
  (b.raw.ensureWritableBytes len).asserts = true ∧
    ((b.raw.ensureWritableBytes len).threw = true ∧ (b.raw.ensureWritableBytes len).buf = b.raw ∨
      (b.raw.ensureWritableBytes len).threw = false ∧
        len ≤ (b.raw.ensureWritableBytes len).buf.writableBytes ∧
        (b.raw.ensureWritableBytes len).buf.readable = b.readable ∧
        (b.raw.ensureWritableBytes len).buf.Indexed)

theorem ensuresWritable_of_noWrap (hsize : b.buffer_.length ≤ maxSize) {len : ℕ}
    (h : b.NoWrap len) :
    EnsuresWritable b len := by
  unfold EnsuresWritable
  rw [ensureWritableBytes_raw hsize h]
  by_cases hfit : (b.ensureWritableBytes len).buffer_.length ≤ maxSize
  · rw [if_pos hfit]
    refine ⟨rfl, .inr ⟨rfl, ?_, b.readable_ensureWritableBytes len, raw_indexed⟩⟩
    rw [raw_writableBytes hfit]
    exact b.writableBytes_ensureWritableBytes len
  · rw [if_neg hfit]
    exact ⟨rfl, .inl ⟨rfl, rfl⟩⟩

/-- Growing to a wrapped size cuts off bytes that are readable. -/
theorem not_ensuresWritable_of_grow (hsize : b.buffer_.length ≤ maxSize) {len : ℕ}
    (hlen : len < 2 ^ 64) (hw : 2 ^ 64 ≤ b.writerIndex_ + len)
    (hc : b.writableBytes + b.prependableBytes < (len + kCheapPrepend) % 2 ^ 64) :
    ¬ EnsuresWritable b len := by
  have hwle := b.writer_le
  have hmax : maxSize < 2 ^ 63 := by decide
  have hlt : b.writableBytes < len := by
    unfold writableBytes
    omega
  have hidx : sizeT (b.raw.writerIndex_ + len) = b.writerIndex_ + len - 2 ^ 64 := by
    change (b.writerIndex_ + len) % 2 ^ 64 = _
    omega
  have hcall : b.raw.makeSpace len =
      ⟨⟨resize b.buffer_ (b.writerIndex_ + len - 2 ^ 64) 0, b.readerIndex_, b.writerIndex_⟩,
        false, true⟩ := by
    rw [RawBuffer.makeSpace, if_pos ((grows_iff hsize len).mpr hc), hidx]
    exact if_pos (by omega)
  rintro ⟨-, ⟨hthrew, -⟩ | ⟨-, -, -, -, hindexed⟩⟩
  · rw [RawBuffer.ensureWritableBytes, raw_writableBytes hsize, if_pos hlt, hcall] at hthrew
    cases hthrew
  · rw [RawBuffer.ensureWritableBytes, raw_writableBytes hsize, if_pos hlt, hcall] at hindexed
    have : b.writerIndex_ ≤ (resize b.buffer_ (b.writerIndex_ + len - 2 ^ 64) 0).length := hindexed
    rw [length_resize] at this
    omega

/-- When `len + kCheapPrepend` wraps and the readable bytes are slid, an assertion fails. -/
theorem not_ensuresWritable_of_slide (hsize : b.buffer_.length ≤ maxSize) {len : ℕ}
    (hlen : len < 2 ^ 64) (h8 : 2 ^ 64 ≤ len + kCheapPrepend)
    (hc : ¬ b.writableBytes + b.prependableBytes < (len + kCheapPrepend) % 2 ^ 64) :
    ¬ EnsuresWritable b len := by
  have hmax : maxSize < 2 ^ 63 := by decide
  have hfree := b.free_le
  have hcheap : kCheapPrepend = 8 := rfl
  have hlt : b.writableBytes < len := by omega
  rintro ⟨hassert, -⟩
  rw [RawBuffer.ensureWritableBytes, raw_writableBytes hsize, if_pos hlt, RawBuffer.makeSpace,
    if_neg (fun h => hc ((grows_iff hsize len).mp h))] at hassert
  simp only [Bool.false_eq_true, if_false, Bool.and_eq_true, decide_eq_true_eq] at hassert
  obtain ⟨⟨hreader, -⟩, hroom⟩ := hassert
  -- the bytes fit where they are moved, so less than the whole vector is writable
  have hreader' : kCheapPrepend < b.readerIndex_ := hreader
  have hr := b.reader_le
  have hwle := b.writer_le
  have hfit : kCheapPrepend + b.readable.length ≤ b.buffer_.length := by
    rw [← readableBytes_eq]
    unfold readableBytes
    omega
  have hlenb : (overwrite b.buffer_ kCheapPrepend b.readable).length = b.buffer_.length :=
    length_overwrite _ hfit
  have hroom' : len ≤ sizeSub (overwrite b.buffer_ kCheapPrepend b.readable).length
      (sizeT (kCheapPrepend + b.raw.readableBytes)) := hroom
  rw [hlenb, raw_readableBytes hsize] at hroom'
  rw [← readableBytes_eq] at hfit
  unfold sizeSub sizeT at hroom'
  omega

/-- There is a hole exactly where a sum wraps: for every other length the call is sound. -/
theorem ensureWritableBytes_sound_iff (b : Buffer) (hsize : b.buffer_.length ≤ maxSize) (len : ℕ)
    (hlen : len < 2 ^ 64) :
    EnsuresWritable b len ↔ len + kCheapPrepend < 2 ^ 64 ∧ b.writerIndex_ + len < 2 ^ 64 := by
  constructor
  · intro h
    by_contra hwrap
    have hcheap : kCheapPrepend = 8 := rfl
    have hmax : maxSize < 2 ^ 63 := by decide
    have hfree := b.free_le
    have hr := b.reader_le
    have hw := b.writer_le
    have hsizele := b.cheap_le
    by_cases hc : b.writableBytes + b.prependableBytes < (len + kCheapPrepend) % 2 ^ 64
    · -- a vector of at least `kCheapPrepend` bytes: the second sum wraps too
      refine not_ensuresWritable_of_grow hsize hlen ?_ hc h
      unfold writableBytes prependableBytes at hc
      omega
    · refine not_ensuresWritable_of_slide hsize hlen ?_ hc h
      unfold writableBytes prependableBytes at hc
      omega
  · exact ensuresWritable_of_noWrap hsize

theorem ensureWritableBytes_sound_small :
    EnsuresWritable (Buffer.ofSize kInitialSize) 4096 :=
  (ensureWritableBytes_sound_iff (Buffer.ofSize kInitialSize) (by decide +kernel) 4096
    (by decide +kernel)).mpr (by decide +kernel)

/-- A default buffer asked for `2 ^ 64 - 1` bytes: the test wraps, nothing is grown, and the call
would return with 1024 writable bytes. -/
theorem ensureWritableBytes_wraps :
    ¬ EnsuresWritable (Buffer.ofSize kInitialSize) (2 ^ 64 - 1) ∧
      ((Buffer.ofSize kInitialSize).raw.ensureWritableBytes (2 ^ 64 - 1)).threw = false ∧
      ((Buffer.ofSize kInitialSize).raw.ensureWritableBytes (2 ^ 64 - 1)).buf.writableBytes =
      1024 := by
  refine ⟨fun h => ?_, by decide +kernel, by decide +kernel⟩
  have hfails :
      ((Buffer.ofSize kInitialSize).raw.ensureWritableBytes (2 ^ 64 - 1)).asserts = false := by
    decide +kernel
  exact Bool.false_ne_true (hfails.symm.trans h.1)

/-! ### `shrink` and `toStringPiece` -/

/-- The view has the right size as long as the number of bytes is an `int`. -/
theorem toStringPiece_eq_iff (hsize : b.buffer_.length ≤ maxSize) :
    b.raw.toStringPiece = ⟨b.readerIndex_, b.readableBytes⟩ ↔ b.readableBytes < 2 ^ 31 := by
  have hw := b.writer_le
  have hle : b.readableBytes ≤ b.buffer_.length := by
    unfold readableBytes
    omega
  have hmax : maxSize < 2 ^ 63 := by decide
  have hdata : b.raw.readerIndex_ = b.readerIndex_ := rfl
  rw [RawBuffer.toStringPiece, raw_readableBytes hsize, StringPiece.mk.injEq, hdata]
  unfold narrow Int.bmod
  norm_num
  split_ifs with h
  · omega
  · omega

/-- The memory from `peek()` on starts with the readable bytes. -/
theorem drop_reader (b : Buffer) : ∃ rest, b.buffer_.drop b.readerIndex_ = b.readable ++ rest :=
  ⟨_, (List.take_append_drop (b.writerIndex_ - b.readerIndex_)
    (b.buffer_.drop b.readerIndex_)).symm⟩

theorem append_raw (hsize : b.buffer_.length ≤ maxSize) (xs rest : List Byte)
    (hnw : b.NoWrap xs.length) (hfit : (b.ensureWritableBytes xs.length).buffer_.length ≤ maxSize) :
    b.raw.append (xs ++ rest) xs.length = ⟨(b.append xs).raw, false, true⟩ := by
  have hroom := b.writableBytes_ensureWritableBytes xs.length
  have hmax : maxSize < 2 ^ 63 := by decide
  have hidx : sizeT ((b.ensureWritableBytes xs.length).writerIndex_ + xs.length) =
      (b.ensureWritableBytes xs.length).writerIndex_ + xs.length := by
    have := (b.ensureWritableBytes xs.length).writer_le
    unfold writableBytes at hroom
    exact Nat.mod_eq_of_lt (by omega)
  rw [RawBuffer.append, ensureWritableBytes_raw hsize hnw, if_pos hfit]
  simp only [Bool.false_eq_true, if_false, List.take_left, raw_writableBytes hfit, hroom,
    decide_true, Bool.and_true]
  rw [append, hasWritten, raw, raw, hidx]

theorem length_ensureWritableBytes_ofSize (n len : ℕ) :
    ((ofSize n).ensureWritableBytes len).buffer_.length = kCheapPrepend + max n len := by
  have hsize : (ofSize n).buffer_.length = kCheapPrepend + n := by simp [ofSize]
  have hw : (ofSize n).writableBytes = n := by
    have : (ofSize n).writerIndex_ = kCheapPrepend := rfl
    unfold writableBytes
    omega
  have hp : (ofSize n).prependableBytes = kCheapPrepend := rfl
  unfold ensureWritableBytes
  split_ifs with h
  · rw [makeSpace, if_pos (by omega)]
    have hidx : (ofSize n).writerIndex_ = kCheapPrepend := rfl
    simp only [hidx, length_resize]
    omega
  · omega

/-- The buffer `shrink` builds its copy in. -/
def other : Buffer := ofSize kInitialSize

theorem other_size : other.buffer_.length ≤ maxSize := by decide +kernel

theorem noWrap_other {len : ℕ} (h : len + kCheapPrepend < 2 ^ 64) : other.NoWrap len := by
  have hw : other.writerIndex_ = kCheapPrepend := rfl
  exact ⟨h, by omega⟩

/-- After a call that has left the copy as it is, or has made it a larger one, the readable
bytes are appended. -/
theorem shrink_raw (hsize : b.buffer_.length ≤ maxSize) (h31 : b.readableBytes < 2 ^ 31)
    {reserve : ℕ}
    (hreserve : b.readableBytes + reserve < 2 ^ 64) {o : Buffer} (ho : o.buffer_.length ≤ maxSize)
    {ok : Bool}
    (hcall : other.raw.ensureWritableBytes (b.readableBytes + reserve) = ⟨o.raw, false, ok⟩)
    (hfit : (o.ensureWritableBytes b.readableBytes).buffer_.length ≤ maxSize) :
    b.raw.shrink reserve = ⟨(o.append b.readable).raw, false, ok⟩ := by
  have hmax : maxSize < 2 ^ 63 := by decide
  have hcheap : kCheapPrepend = 8 := rfl
  obtain ⟨rest, hrest⟩ := b.drop_reader
  have hpiece := (toStringPiece_eq_iff hsize).mpr h31
  have hlen := b.readableBytes_eq
  have hnw : o.NoWrap b.readable.length := ⟨by omega, by have := o.writer_le; omega⟩
  rw [hlen] at hfit
  have happ := append_raw ho b.readable rest hnw hfit
  have hsum : sizeT (b.raw.readableBytes + reserve) = b.readableBytes + reserve := by
    rw [raw_readableBytes hsize]
    exact Nat.mod_eq_of_lt hreserve
  have hraw : b.raw.buffer_ = b.buffer_ := rfl
  have hother : (ofSize kInitialSize).raw = other.raw := rfl
  rw [RawBuffer.shrink, hother, hsum, hcall, hpiece]
  simp only [Bool.false_eq_true, if_false, hraw, hrest, hlen, happ, Bool.and_true]

/-- `toStringPiece` is the readable bytes; and `shrink` throws because no vector is as long as what
it is asked for, or returns with the readable bytes unchanged and the reserved space writable. -/
def ShrinkKeeps (b : Buffer) (reserve : ℕ) : Prop :=
  b.raw.toStringPiece = ⟨b.readerIndex_, b.readableBytes⟩ ∧
    ((b.raw.shrink reserve).threw = true ∧ (b.raw.shrink reserve).buf = b.raw ∧
        maxSize < kCheapPrepend + (b.readableBytes + reserve) ∨
      (b.raw.shrink reserve).threw = false ∧ (b.raw.shrink reserve).buf.readable = b.readable ∧
        reserve ≤ (b.raw.shrink reserve).buf.writableBytes)

theorem length_append_buffer (o : Buffer) (xs : List Byte) :
    (o.append xs).buffer_.length = (o.ensureWritableBytes xs.length).buffer_.length := by
  have hroom := o.writableBytes_ensureWritableBytes xs.length
  have hw := (o.ensureWritableBytes xs.length).writer_le
  unfold writableBytes at hroom
  exact length_overwrite _ (by omega)

theorem writableBytes_append (o : Buffer) (xs : List Byte) :
    (o.append xs).writableBytes + xs.length = (o.ensureWritableBytes xs.length).writableBytes := by
  have hroom := o.writableBytes_ensureWritableBytes xs.length
  have hw := (o.ensureWritableBytes xs.length).writer_le
  have hlen := o.length_append_buffer xs
  have hidx : (o.append xs).writerIndex_ = (o.ensureWritableBytes xs.length).writerIndex_ +
    xs.length := rfl
  unfold writableBytes at hroom ⊢
  omega

theorem shrinkKeeps_of_fits (hsize : b.buffer_.length ≤ maxSize) (h31 : b.readableBytes < 2 ^ 31)
    {reserve : ℕ}
    (h8 : b.readableBytes + reserve + kCheapPrepend < 2 ^ 64) : ShrinkKeeps b reserve := by
  refine ⟨(toStringPiece_eq_iff hsize).mpr h31, ?_⟩
  have hcall := ensureWritableBytes_raw other_size (noWrap_other h8)
  have hroom := other.writableBytes_ensureWritableBytes (b.readableBytes + reserve)
  have hread := other.readable_ensureWritableBytes (b.readableBytes + reserve)
  have hlen : (other.ensureWritableBytes (b.readableBytes + reserve)).buffer_.length =
    kCheapPrepend + max kInitialSize (b.readableBytes + reserve) :=
    length_ensureWritableBytes_ofSize _ _
  by_cases hfit : (other.ensureWritableBytes (b.readableBytes + reserve)).buffer_.length ≤ maxSize
  · -- the copy has room for the readable bytes and the reserve
    right
    rw [if_pos hfit] at hcall
    generalize other.ensureWritableBytes (b.readableBytes + reserve) = o at hcall hroom hread hfit
    have hsame : o.ensureWritableBytes b.readableBytes = o := dif_neg (by omega)
    have hshrink := shrink_raw hsize h31 (by omega) hfit hcall (by rw [hsame]; exact hfit)
    have happ := o.writableBytes_append b.readable
    have hbuf := o.length_append_buffer b.readable
    rw [← readableBytes_eq, hsame] at happ hbuf
    rw [hshrink]
    refine ⟨rfl, ?_, ?_⟩
    · change (o.append b.readable).readable = b.readable
      rw [readable_append, hread]
      exact congrArg (· ++ b.readable) (readable_ofSize kInitialSize)
    · rw [raw_writableBytes (by omega)]
      omega
  · left
    rw [if_neg hfit] at hcall
    have hsum : sizeT (b.raw.readableBytes + reserve) = b.readableBytes + reserve := by
      rw [raw_readableBytes hsize]
      exact Nat.mod_eq_of_lt (by omega)
    have hshrink : b.raw.shrink reserve = ⟨b.raw, true, true⟩ := by
      have hother : (ofSize kInitialSize).raw = other.raw := rfl
      rw [RawBuffer.shrink, hother, hsum, hcall]
      exact if_pos rfl
    have hinit : kCheapPrepend + kInitialSize ≤ maxSize := by decide
    rw [hshrink]
    exact ⟨rfl, rfl, by omega⟩

/-- A length that wraps leaves a fresh buffer as it is: there is nothing to slide. -/
theorem ensureWritableBytes_other_of_wrap {len : ℕ} (hlen : len < 2 ^ 64)
    (h8 : 2 ^ 64 ≤ len + kCheapPrepend) :
    ∃ ok, other.raw.ensureWritableBytes len = ⟨other.raw, false, ok⟩ := by
  have hw : other.writableBytes = 1024 := by decide +kernel
  have hp : other.prependableBytes = 8 := rfl
  have hcheap : kCheapPrepend = 8 := rfl
  have hread : other.raw.readable = [] := readable_ofSize kInitialSize
  have hbytes : other.raw.readableBytes = 0 := by decide +kernel
  have hsame : overwrite other.raw.buffer_ kCheapPrepend [] = other.raw.buffer_ := by
    simp [overwrite]
  have hc : ¬ other.writableBytes + other.prependableBytes < (len + kCheapPrepend) % 2 ^ 64 := by
    omega
  have hmoved : (⟨other.raw.buffer_, kCheapPrepend, sizeT (kCheapPrepend + 0)⟩ : RawBuffer) =
    other.raw := rfl
  have hlt : other.writableBytes < len := by omega
  rw [RawBuffer.ensureWritableBytes, raw_writableBytes other_size, if_pos hlt, RawBuffer.makeSpace,
    if_neg (fun h => hc ((grows_iff other_size len).mp h)), hread, hbytes, hsame, hmoved]
  simp only [Bool.false_eq_true, if_false]
  exact ⟨_, rfl⟩

/-- A request that wraps leaves the copy as it is, with too little space. -/
theorem not_shrinkKeeps_of_wrap (hsize : b.buffer_.length ≤ maxSize)
    (h31 : b.readableBytes < 2 ^ 31) {reserve : ℕ}
    (hreserve : b.readableBytes + reserve < 2 ^ 64)
    (h8 : 2 ^ 64 ≤ b.readableBytes + reserve + kCheapPrepend) :
    ¬ ShrinkKeeps b reserve := by
  have hmax : kCheapPrepend + max kInitialSize (2 ^ 31) ≤ maxSize := by decide +kernel
  have hcheap : kCheapPrepend = 8 := rfl
  have hinit : kInitialSize = 1024 := rfl
  obtain ⟨ok, hcall⟩ := ensureWritableBytes_other_of_wrap hreserve h8
  have hlen : (other.ensureWritableBytes b.readableBytes).buffer_.length =
    kCheapPrepend + max kInitialSize b.readableBytes := length_ensureWritableBytes_ofSize _ _
  have hfit : (other.ensureWritableBytes b.readableBytes).buffer_.length ≤ maxSize := by omega
  have hshrink := shrink_raw hsize h31 hreserve other_size hcall hfit
  have hbuf := other.length_append_buffer b.readable
  rw [← readableBytes_eq] at hbuf
  rintro ⟨-, ⟨hthrew, -⟩ | ⟨-, -, hw⟩⟩
  · rw [hshrink] at hthrew
    cases hthrew
  · rw [hshrink, raw_writableBytes (by omega)] at hw
    unfold writableBytes at hw
    omega

/-- `shrink` and `toStringPiece` keep the content exactly where the number of readable bytes is an
`int` and the space asked for does not wrap. -/
theorem shrink_keeps_iff (b : Buffer) (hsize : b.buffer_.length ≤ maxSize) (reserve : ℕ)
    (hreserve : b.readableBytes + reserve < 2 ^ 64) :
    ShrinkKeeps b reserve ↔
      b.readableBytes < 2 ^ 31 ∧ b.readableBytes + reserve + kCheapPrepend < 2 ^ 64 := by
  constructor
  · intro h
    have h31 := (toStringPiece_eq_iff hsize).mp h.1
    exact ⟨h31, not_le.mp fun h8 => not_shrinkKeeps_of_wrap hsize h31 hreserve h8 h⟩
  · rintro ⟨h31, h8⟩
    exact shrinkKeeps_of_fits hsize h31 h8

/-- Three bytes are kept while the buffer grows. -/
theorem shrink_keeps_small :
    ((Buffer.ofSize 16).append [1, 2, 3]).readable = [1, 2, 3] ∧
      ShrinkKeeps ((Buffer.ofSize 16).append [1, 2, 3]) 2000 :=
  ⟨by decide +kernel,
    (shrink_keeps_iff ((Buffer.ofSize 16).append [1, 2, 3]) (by decide +kernel) 2000
    (by decide +kernel)).mpr (by decide +kernel)⟩

/-- A buffer with `2 ^ 31` readable bytes. -/
def twoGigabytes : Buffer where
  buffer_ := List.replicate (kCheapPrepend + 2 ^ 31) 0
  readerIndex_ := kCheapPrepend
  writerIndex_ := kCheapPrepend + 2 ^ 31
  cheap_le := by simp
  reader_le := by omega
  writer_le := by simp

/-- The number of bytes becomes a negative `int`, and the view is almost the whole address space. -/
theorem shrink_loses_two_gigabytes :
    twoGigabytes.raw.toStringPiece.size = 2 ^ 64 - 2 ^ 31 ∧ ¬ ShrinkKeeps twoGigabytes 0 := by
  have hsize : twoGigabytes.buffer_.length ≤ maxSize := by
    change (List.replicate (kCheapPrepend + 2 ^ 31) 0).length ≤ maxSize
    rw [List.length_replicate]
    decide +kernel
  have hread : twoGigabytes.readableBytes = 2 ^ 31 := by decide +kernel
  constructor
  · rw [RawBuffer.toStringPiece, raw_readableBytes hsize, hread]
    decide +kernel
  · intro h
    have := (toStringPiece_eq_iff hsize).mp h.1
    omega

end Buffer

end Muduo.Net
