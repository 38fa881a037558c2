import Muduo.Lib.Arrays

/-!
# `muduo::net::Buffer`

A byte vector with a reader and a writer index; the readable bytes are `[readerIndex_,
writerIndex_)` and the first `kCheapPrepend` bytes are kept free for headers.  The index invariant
of the class comment is carried by the structure, so every operation below proves that it keeps it,
and the asserted precondition of an operation that needs one is an argument.

Sizes are natural numbers: the vector and the bytes copied into it live in one address space, so no
`size_t` sum of their lengths wraps.

* `makeSpace` has both of its branches: grow the vector, or slide the readable bytes to the front;
* `readFd` scatters into the writable area and a 64 KiB stack buffer, as `readv` does;
* `prepend` goes below `kCheapPrepend`, so the reader index may be smaller than it;
* the `readable_*` lemmas say what each operation does to the readable bytes and are the only facts
  about the layout used outside this module.
-/

namespace Muduo.Net

open Muduo.Lib

abbrev Byte := UInt8

def kCheapPrepend : ℕ := 8

def kInitialSize : ℕ := 1024

structure Buffer where
  buffer_ : List Byte
  readerIndex_ : ℕ
  writerIndex_ : ℕ
  cheap_le : kCheapPrepend ≤ buffer_.length
  reader_le : readerIndex_ ≤ writerIndex_
  writer_le : writerIndex_ ≤ buffer_.length
  deriving DecidableEq

namespace Buffer

/-- The constructor. -/
def ofSize (initialSize : ℕ) : Buffer where
  buffer_ := List.replicate (kCheapPrepend + initialSize) 0
  readerIndex_ := kCheapPrepend
  writerIndex_ := kCheapPrepend
  cheap_le := by simp
  reader_le := le_rfl
  writer_le := by simp

instance : Inhabited Buffer := ⟨ofSize kInitialSize⟩

def readableBytes (b : Buffer) : ℕ := b.writerIndex_ - b.readerIndex_

def writableBytes (b : Buffer) : ℕ := b.buffer_.length - b.writerIndex_

def prependableBytes (b : Buffer) : ℕ := b.readerIndex_

/-- The bytes between `peek()` and `beginWrite()`. -/
def readable (b : Buffer) : List Byte := window b.buffer_ b.readerIndex_ b.writerIndex_

def retrieveAll (b : Buffer) : Buffer where
  buffer_ := b.buffer_
  readerIndex_ := kCheapPrepend
  writerIndex_ := kCheapPrepend
  cheap_le := b.cheap_le
  reader_le := le_rfl
  writer_le := b.cheap_le

def retrieve (b : Buffer) (len : ℕ) : Buffer :=
  if h : len < b.readableBytes then
    { b with
      readerIndex_ := b.readerIndex_ + len
      reader_le := by unfold readableBytes at h; omega }
  else b.retrieveAll

/-- `retrieveUntil(end)`, with `end` given by its offset from `peek()`. -/
def retrieveUntil (b : Buffer) (off : ℕ) : Buffer := b.retrieve off

theorem cheap_le_grown (b : Buffer) {len : ℕ} (h : b.writableBytes < len) :
    kCheapPrepend ≤ (resize b.buffer_ (b.writerIndex_ + len) 0).length := by
  have := b.cheap_le
  have := b.writer_le
  unfold writableBytes at h
  rw [length_resize]
  omega

theorem writer_le_grown (b : Buffer) (len : ℕ) :
    b.writerIndex_ ≤ (resize b.buffer_ (b.writerIndex_ + len) 0).length := by
  rw [length_resize]
  omega

theorem cheap_le_slid (b : Buffer) :
    kCheapPrepend ≤ (overwrite b.buffer_ kCheapPrepend b.readable).length := by
  rw [overwrite, List.length_append, List.length_append, List.length_take]
  have := b.cheap_le
  omega

theorem reader_le_slid (b : Buffer) : kCheapPrepend ≤ kCheapPrepend + b.readableBytes :=
    Nat.le_add_right _ _

theorem writer_le_slid (b : Buffer) :
    kCheapPrepend + b.readableBytes ≤ (overwrite b.buffer_ kCheapPrepend b.readable).length := by
  have := b.cheap_le
  rw [overwrite, List.length_append, List.length_append, List.length_take, readable,
    length_window _ b.writer_le, readableBytes]
  omega

/-- `makeSpace`, entered by `ensureWritableBytes` with too little writable space. -/
def makeSpace (b : Buffer) (len : ℕ) (h : b.writableBytes < len) : Buffer :=
  if b.writableBytes + b.prependableBytes < len + kCheapPrepend then
    { b with
      buffer_ := resize b.buffer_ (b.writerIndex_ + len) 0
      cheap_le := b.cheap_le_grown h
      writer_le := b.writer_le_grown len }
  else
    -- slide the readable bytes down to `kCheapPrepend`
    { buffer_ := overwrite b.buffer_ kCheapPrepend b.readable
      readerIndex_ := kCheapPrepend
      writerIndex_ := kCheapPrepend + b.readableBytes
      cheap_le := b.cheap_le_slid
      reader_le := b.reader_le_slid
      writer_le := b.writer_le_slid }

def ensureWritableBytes (b : Buffer) (len : ℕ) : Buffer :=
  if h : b.writableBytes < len then b.makeSpace len h else b

/-- `hasWritten`, after `xs` has been stored at `beginWrite()`. -/
def hasWritten (b : Buffer) (xs : List Byte) (h : xs.length ≤ b.writableBytes) : Buffer :=
  { b with
    buffer_ := overwrite b.buffer_ b.writerIndex_ xs
    writerIndex_ := b.writerIndex_ + xs.length
    cheap_le := by
      have := b.writer_le
      unfold writableBytes at h
      rw [length_overwrite _ (by omega)]
      exact b.cheap_le
    reader_le := by have := b.reader_le; omega
    writer_le := by
      have := b.writer_le
      unfold writableBytes at h
      rw [length_overwrite _ (by omega)]
      omega }

/-! ### Layout facts about making space -/

theorem readableBytes_eq (b : Buffer) : b.readableBytes = b.readable.length := by
  rw [readable, length_window _ b.writer_le, readableBytes]

theorem slid_fits (b : Buffer) {len : ℕ} (h : b.writableBytes < len)
    (hroom : ¬ b.writableBytes + b.prependableBytes < len + kCheapPrepend) :
    kCheapPrepend + b.readable.length ≤ b.buffer_.length := by
  have := b.reader_le
  have := b.writer_le
  rw [← readableBytes_eq]
  unfold writableBytes prependableBytes at hroom
  unfold writableBytes at h
  unfold readableBytes
  omega

/-- Making space keeps the readable bytes, on both branches. -/
theorem readable_makeSpace (b : Buffer) (len : ℕ) (h : b.writableBytes < len) :
    (b.makeSpace len h).readable = b.readable := by
  have hw := b.writer_le
  unfold makeSpace
  split
  · unfold writableBytes at h
    exact window_resize _ _ hw (by omega)
  · rename_i hroom
    have hfit := b.slid_fits h hroom
    show window (overwrite b.buffer_ kCheapPrepend b.readable) kCheapPrepend
      (kCheapPrepend + b.readableBytes) = b.readable
    rw [readableBytes_eq]
    exact window_overwrite_block _ hfit

theorem writableBytes_makeSpace (b : Buffer) (len : ℕ) (h : b.writableBytes < len) :
    len ≤ (b.makeSpace len h).writableBytes := by
  have hr := b.reader_le
  have hw := b.writer_le
  unfold makeSpace
  split
  · show len ≤ (resize b.buffer_ (b.writerIndex_ + len) 0).length - b.writerIndex_
    rw [length_resize]
    omega
  · rename_i hroom
    have hfit := b.slid_fits h hroom
    show len ≤ (overwrite b.buffer_ kCheapPrepend b.readable).length
      - (kCheapPrepend + b.readableBytes)
    rw [length_overwrite _ hfit]
    unfold writableBytes prependableBytes at hroom
    unfold readableBytes
    omega

theorem readable_ensureWritableBytes (b : Buffer) (len : ℕ) :
    (b.ensureWritableBytes len).readable = b.readable := by
  unfold ensureWritableBytes
  split
  · exact readable_makeSpace b len _
  · rfl

/-- The post-condition asserted at the end of `ensureWritableBytes`. -/
theorem writableBytes_ensureWritableBytes (b : Buffer) (len : ℕ) :
    len ≤ (b.ensureWritableBytes len).writableBytes := by
  unfold ensureWritableBytes
  split
  · exact writableBytes_makeSpace b len _
  · omega

/-! ### Appending and reading from a descriptor -/

def append (b : Buffer) (data : List Byte) : Buffer :=
  (b.ensureWritableBytes data.length).hasWritten data
    (b.writableBytes_ensureWritableBytes data.length)

/-- What `readv(2)` reports: the bytes it stored, or an errno. -/
inductive ReadvResult where
  | data (bytes : List Byte)
  | error (errno : ℕ)
  deriving DecidableEq

def extrabufSize : ℕ := 65536

/-- Total length of the iovecs: the stack buffer is offered only when the writable area is smaller
than it. -/
def iovecSpace (b : Buffer) : ℕ :=
  if b.writableBytes < extrabufSize then b.writableBytes + extrabufSize else b.writableBytes

/-- What `readv` stores into the writable area fits there. -/
theorem length_stored_le (b : Buffer) (bytes : List Byte) :
    ((bytes.take b.iovecSpace).take b.writableBytes).length ≤ b.writableBytes := by
  rw [List.length_take]
  omega

/-- `readFd`: the kernel never stores more than the iovecs hold.  Returns the bytes received (their
number is the `n` of the source) or the errno. -/
def readFd (b : Buffer) : ReadvResult → Buffer × ReadvResult
  | .error e => (b, .error e)
  | .data bytes =>
      let received := bytes.take b.iovecSpace
      if h : received.length ≤ b.writableBytes then
        (b.hasWritten received h, .data received)
      else
        -- the writable area is full and the rest arrived in `extrabuf`
        let full := b.hasWritten (received.take b.writableBytes) (b.length_stored_le bytes)
        (full.append (received.drop b.writableBytes), .data received)

theorem readable_ofSize (n : ℕ) : (ofSize n).readable = [] := window_self _ _

@[simp] theorem readable_retrieveAll (b : Buffer) : b.retrieveAll.readable = [] :=
  window_self _ _

theorem readable_retrieve (b : Buffer) (len : ℕ) :
    (b.retrieve len).readable = b.readable.drop len := by
  unfold retrieve
  split
  · rw [readable, readable, drop_window]
  · rename_i h
    rw [readable_retrieveAll]
    rw [readableBytes_eq] at h
    exact (List.drop_eq_nil_of_le (by omega)).symm

theorem readable_hasWritten (b : Buffer) (xs : List Byte) (h : xs.length ≤ b.writableBytes) :
    (b.hasWritten xs h).readable = b.readable ++ xs := by
  have hr := b.reader_le
  have hw := b.writer_le
  unfold writableBytes at h
  show window (overwrite b.buffer_ b.writerIndex_ xs) b.readerIndex_
    (b.writerIndex_ + xs.length) = b.readable ++ xs
  rw [window_append _ hr (by omega), window_overwrite_before _ le_rfl hw,
    window_overwrite_block _ (by omega), readable]

@[simp] theorem readable_append (b : Buffer) (data : List Byte) :
    (b.append data).readable = b.readable ++ data := by
  rw [append, readable_hasWritten, readable_ensureWritableBytes]

/-- **`readFd` delivers what arrived.**  The received bytes join the readable ones in order, across
the writable area and the stack buffer. -/
theorem readable_readFd_data (b : Buffer) (bytes : List Byte) :
    (b.readFd (.data bytes)).1.readable = b.readable ++ bytes.take b.iovecSpace := by
  unfold readFd
  simp only
  split
  · rename_i h
    exact readable_hasWritten _ _ h
  · rw [readable_append, readable_hasWritten, List.append_assoc, List.take_append_drop]

theorem readFd_data_snd (b : Buffer) (bytes : List Byte) :
    (b.readFd (.data bytes)).2 = .data (bytes.take b.iovecSpace) := by
  unfold readFd
  simp only
  split <;> rfl

theorem iovecSpace_pos (b : Buffer) : 0 < b.iovecSpace := by
  unfold iovecSpace extrabufSize
  split <;> omega

theorem readable_retrieveUntil (b : Buffer) (off : ℕ) :
    (b.retrieveUntil off).readable = b.readable.drop off := readable_retrieve b off

/-! ### The other operations -/

/-- `retrieveAsString`: the text, and the buffer afterwards. -/
def retrieveAsString (b : Buffer) (len : ℕ) : List Byte × Buffer :=
  (window b.buffer_ b.readerIndex_ (b.readerIndex_ + len), b.retrieve len)

def retrieveAllAsString (b : Buffer) : List Byte × Buffer := b.retrieveAsString b.readableBytes

def unwrite (b : Buffer) (len : ℕ) (h : len ≤ b.readableBytes) : Buffer :=
  { b with
    writerIndex_ := b.writerIndex_ - len
    reader_le := by unfold readableBytes at h; have := b.reader_le; omega
    writer_le := by have := b.writer_le; omega }

def prepend (b : Buffer) (data : List Byte) (h : data.length ≤ b.prependableBytes) : Buffer :=
  { b with
    buffer_ := overwrite b.buffer_ (b.readerIndex_ - data.length) data
    readerIndex_ := b.readerIndex_ - data.length
    cheap_le := by
      have := b.reader_le
      have := b.writer_le
      unfold prependableBytes at h
      rw [length_overwrite _ (by omega)]
      exact b.cheap_le
    reader_le := by have := b.reader_le; omega
    writer_le := by
      have := b.reader_le
      have := b.writer_le
      unfold prependableBytes at h
      rw [length_overwrite _ (by omega)]
      exact b.writer_le }

/-- The bytes of an integer of `w` bytes as `hostToNetwork` leaves them in memory. -/
def networkOrder (w : ℕ) (x : BitVec (8 * w)) : List Byte :=
  (List.range w).map fun i => ⟨x.extractLsb' (8 * (w - 1 - i)) 8⟩

def appendInt64 (b : Buffer) (x : BitVec 64) : Buffer := b.append (networkOrder 8 x)
def appendInt32 (b : Buffer) (x : BitVec 32) : Buffer := b.append (networkOrder 4 x)
def appendInt16 (b : Buffer) (x : BitVec 16) : Buffer := b.append (networkOrder 2 x)
def appendInt8 (b : Buffer) (x : BitVec 8) : Buffer := b.append (networkOrder 1 x)

theorem retrieveAsString_fst (b : Buffer) {len : ℕ} (h : len ≤ b.readableBytes) :
    (b.retrieveAsString len).1 = b.readable.take len := by
  show window b.buffer_ b.readerIndex_ (b.readerIndex_ + len) = b.readable.take len
  unfold readableBytes at h
  rw [readable, window, window, List.take_take, show b.readerIndex_ + len - b.readerIndex_ =
    min len (b.writerIndex_ - b.readerIndex_) from by omega]

theorem readable_unwrite (b : Buffer) (len : ℕ) (h : len ≤ b.readableBytes) :
    (b.unwrite len h).readable = b.readable.take (b.readable.length - len) := by
  rw [← readableBytes_eq]
  show window b.buffer_ b.readerIndex_ (b.writerIndex_ - len) = _
  unfold readableBytes at h ⊢
  rw [readable, window, window, List.take_take, show b.writerIndex_ - len - b.readerIndex_ =
    min (b.writerIndex_ - b.readerIndex_ - len) (b.writerIndex_ - b.readerIndex_) from by omega]

theorem readable_prepend (b : Buffer) (data : List Byte) (h : data.length ≤ b.prependableBytes) :
    (b.prepend data h).readable = data ++ b.readable := by
  have hr := b.reader_le
  have hw := b.writer_le
  unfold prependableBytes at h
  have hend : b.readerIndex_ - data.length + data.length = b.readerIndex_ := by omega
  show window (overwrite b.buffer_ (b.readerIndex_ - data.length) data)
    (b.readerIndex_ - data.length) b.writerIndex_ = data ++ b.readable
  rw [window_append _ (show _ ≤ b.readerIndex_ by omega) hr]
  congr 1
  · have hblock := window_overwrite_block b.buffer_
      (show b.readerIndex_ - data.length + data.length ≤ b.buffer_.length by omega)
    rwa [hend] at hblock
  · exact window_overwrite_after _ (by omega) (by omega)

/-! ### Searching -/

def kCRLF : List Byte := [13, 10]

/-- `findCRLF()`, as an offset from `peek()`. -/
def findCRLF (b : Buffer) : Option ℕ := search kCRLF b.readable

end Buffer

end Muduo.Net
