import Muduo.Lib.Runs
import Muduo.Net.Buffer

/-!
# `Buffer` refines a byte queue

Seen from outside a buffer is a sequence of bytes: `append` and `readFd` add at the back, `retrieve`
takes from the front, `unwrite` takes from the back, `prepend` adds at the front.  `swap` needs two
buffers, so the state is a family of them.

* `BufferOp`, `Buffers.step` — the member functions, with what the caller and the kernel choose;
* `Buffers.meets` — the precondition a function asserts, and for `readFd` that `readv` returns no
  more than the iovecs hold;
* `Buffers.asserts` — the assertions the caller is not responsible for: the ones of `makeSpace`,
  `ensureWritableBytes` and, where `append` calls it, `hasWritten`;
* `ByteQueues.step` — the same calls on plain sequences;
* `buffer_refines_queue` — every run of the buffers is a run of the sequences.
-/

namespace Muduo.Net

open Muduo.Lib

inductive BufferOp (ι : Type*) where
  | append (data : List Byte)
  | appendInt64 (x : BitVec 64)
  | appendInt32 (x : BitVec 32)
  | appendInt16 (x : BitVec 16)
  | appendInt8 (x : BitVec 8)
  | retrieve (len : ℕ)
  | retrieveUntil (off : ℕ)
  | retrieveAll
  | retrieveAsString (len : ℕ)
  | retrieveAllAsString
  /-- `hasWritten`, after `written` has been stored at `beginWrite()`. -/
  | hasWritten (written : List Byte)
  | unwrite (len : ℕ)
  | prepend (data : List Byte)
  | ensureWritableBytes (len : ℕ)
  | swap (rhs : ι)
  | readFd (r : Buffer.ReadvResult)

/-! ### The assertions -/

namespace Buffer

/-- `assert(kCheapPrepend < readerIndex_)` and `assert(readable ==
readableBytes())` of `makeSpace`. -/
def makeSpaceAsserts (b : Buffer) (len : ℕ) (h : b.writableBytes < len) : Bool :=
  if b.writableBytes + b.prependableBytes < len + kCheapPrepend then true
  else kCheapPrepend < b.readerIndex_ ∧ b.readableBytes = (b.makeSpace len h).readableBytes

def ensureWritableBytesAsserts (b : Buffer) (len : ℕ) : Bool :=
  (if h : b.writableBytes < len then b.makeSpaceAsserts len h else true) &&
    len ≤ (b.ensureWritableBytes len).writableBytes

/-- `append`: those of `ensureWritableBytes`, then the one of `hasWritten`. -/
def appendAsserts (b : Buffer) (data : List Byte) : Bool :=
  b.ensureWritableBytesAsserts data.length &&
    data.length ≤ (b.ensureWritableBytes data.length).writableBytes

/-- `readFd` calls `append` when something arrived in `extrabuf`. -/
def readFdAsserts (b : Buffer) : ReadvResult → Bool
  | .error _ => true
  | .data bytes =>
      let received := bytes.take b.iovecSpace
      if received.length ≤ b.writableBytes then true
      else (b.hasWritten (received.take b.writableBytes) (b.length_stored_le bytes)).appendAsserts
        (received.drop b.writableBytes)

/-- Sliding the readable bytes down needs room in front of them: `prepend` may have used up the
cheap space, but then the vector grows. -/
theorem makeSpaceAsserts_eq_true (b : Buffer) (len : ℕ) (h : b.writableBytes < len) :
    b.makeSpaceAsserts len h = true := by
  unfold makeSpaceAsserts
  split
  · rfl
  · rename_i hroom
    have hreader : kCheapPrepend < b.readerIndex_ := by
      unfold prependableBytes at hroom
      omega
    have hsame : b.readableBytes = (b.makeSpace len h).readableBytes := by
      rw [readableBytes_eq, readableBytes_eq, readable_makeSpace]
    simpa using ⟨hreader, hsame⟩

theorem ensureWritableBytesAsserts_eq_true (b : Buffer) (len : ℕ) :
    b.ensureWritableBytesAsserts len = true := by
  have hroom := b.writableBytes_ensureWritableBytes len
  unfold ensureWritableBytesAsserts
  split
  · simp [makeSpaceAsserts_eq_true, hroom]
  · simp [hroom]

theorem appendAsserts_eq_true (b : Buffer) (data : List Byte) : b.appendAsserts data = true := by
  simp [appendAsserts, ensureWritableBytesAsserts_eq_true, writableBytes_ensureWritableBytes]

theorem readFdAsserts_eq_true (b : Buffer) (r : ReadvResult) : b.readFdAsserts r = true := by
  cases r with
  | error e => rfl
  | data bytes =>
      simp only [readFdAsserts]
      split
      · rfl
      · exact appendAsserts_eq_true _ _

end Buffer

/-! ### The buffers -/

structure Buffers (ι : Type*) where
  buf : ι → Buffer
  /-- The strings `retrieveAsString` returned. -/
  returned : List (List Byte)

namespace Buffers

variable {ι : Type*} [DecidableEq ι]

/-- One buffer of any initial size for every name. -/
def new (initialSize : ι → ℕ) : Buffers ι := ⟨fun i => .ofSize (initialSize i), []⟩

def set (s : Buffers ι) (i : ι) (b : Buffer) : Buffers ι :=
  { s with buf := Function.update s.buf i b }

/-- A call of a function that returns a string. -/
def return_ (s : Buffers ι) (i : ι) (r : List Byte × Buffer) : Buffers ι :=
  { s.set i r.2 with returned := s.returned ++ [r.1] }

def swap (s : Buffers ι) (i j : ι) : Buffers ι := (s.set i (s.buf j)).set j (s.buf i)

/-- A call of a function on the buffer `i`.  Where its precondition fails nothing is said,
and nothing happens. -/
def step (s : Buffers ι) : ι × BufferOp ι → Buffers ι
  | (i, .append data) => s.set i ((s.buf i).append data)
  | (i, .appendInt64 x) => s.set i ((s.buf i).appendInt64 x)
  | (i, .appendInt32 x) => s.set i ((s.buf i).appendInt32 x)
  | (i, .appendInt16 x) => s.set i ((s.buf i).appendInt16 x)
  | (i, .appendInt8 x) => s.set i ((s.buf i).appendInt8 x)
  | (i, .retrieve len) => s.set i ((s.buf i).retrieve len)
  | (i, .retrieveUntil off) => s.set i ((s.buf i).retrieveUntil off)
  | (i, .retrieveAll) => s.set i (s.buf i).retrieveAll
  | (i, .retrieveAsString len) => s.return_ i ((s.buf i).retrieveAsString len)
  | (i, .retrieveAllAsString) => s.return_ i (s.buf i).retrieveAllAsString
  | (i, .hasWritten written) =>
      if h : written.length ≤ (s.buf i).writableBytes then s.set i ((s.buf i).hasWritten written h)
      else s
  | (i, .unwrite len) =>
      if h : len ≤ (s.buf i).readableBytes then s.set i ((s.buf i).unwrite len h) else s
  | (i, .prepend data) =>
      if h : data.length ≤ (s.buf i).prependableBytes then s.set i ((s.buf i).prepend data h) else s
  | (i, .ensureWritableBytes len) => s.set i ((s.buf i).ensureWritableBytes len)
  | (i, .swap j) => s.swap i j
  | (i, .readFd r) => s.set i ((s.buf i).readFd r).1

/-- The preconditions the functions assert; `readv` stores no more than the iovecs hold. -/
def meets (s : Buffers ι) : ι × BufferOp ι → Bool
  | (i, .retrieve len) | (i, .retrieveUntil len) | (i, .retrieveAsString len) | (i, .unwrite len) =>
      len ≤ (s.buf i).readableBytes
  | (i, .hasWritten written) => written.length ≤ (s.buf i).writableBytes
  | (i, .prepend data) => data.length ≤ (s.buf i).prependableBytes
  | (i, .readFd (.data bytes)) => bytes.length ≤ (s.buf i).iovecSpace
  | _ => true

/-- The other assertions a call comes to. -/
def asserts (s : Buffers ι) : ι × BufferOp ι → Bool
  | (i, .append data) => (s.buf i).appendAsserts data
  | (i, .appendInt64 x) => (s.buf i).appendAsserts (Buffer.networkOrder 8 x)
  | (i, .appendInt32 x) => (s.buf i).appendAsserts (Buffer.networkOrder 4 x)
  | (i, .appendInt16 x) => (s.buf i).appendAsserts (Buffer.networkOrder 2 x)
  | (i, .appendInt8 x) => (s.buf i).appendAsserts (Buffer.networkOrder 1 x)
  | (i, .ensureWritableBytes len) => (s.buf i).ensureWritableBytesAsserts len
  | (i, .readFd r) => (s.buf i).readFdAsserts r
  | _ => true

omit [DecidableEq ι] in
theorem asserts_eq_true (s : Buffers ι) (op : ι × BufferOp ι) : s.asserts op = true := by
  obtain ⟨i, op⟩ := op
  cases op <;>
    simp [asserts, Buffer.appendAsserts_eq_true, Buffer.ensureWritableBytesAsserts_eq_true,
    Buffer.readFdAsserts_eq_true]

end Buffers

/-! ### The sequences -/

structure ByteQueues (ι : Type*) where
  seq : ι → List Byte
  returned : List (List Byte)

namespace ByteQueues

variable {ι : Type*} [DecidableEq ι]

def empty : ByteQueues ι := ⟨fun _ => [], []⟩

def set (q : ByteQueues ι) (i : ι) (bytes : List Byte) : ByteQueues ι :=
  { q with seq := Function.update q.seq i bytes }

/-- The first `len` bytes are taken out and returned. -/
def take (q : ByteQueues ι) (i : ι) (len : ℕ) : ByteQueues ι :=
  { q.set i ((q.seq i).drop len) with returned := q.returned ++ [(q.seq i).take len] }

def step (q : ByteQueues ι) : ι × BufferOp ι → ByteQueues ι
  | (i, .append data) | (i, .hasWritten data) => q.set i (q.seq i ++ data)
  | (i, .appendInt64 x) => q.set i (q.seq i ++ Buffer.networkOrder 8 x)
  | (i, .appendInt32 x) => q.set i (q.seq i ++ Buffer.networkOrder 4 x)
  | (i, .appendInt16 x) => q.set i (q.seq i ++ Buffer.networkOrder 2 x)
  | (i, .appendInt8 x) => q.set i (q.seq i ++ Buffer.networkOrder 1 x)
  | (i, .retrieve len) | (i, .retrieveUntil len) => q.set i ((q.seq i).drop len)
  | (i, .retrieveAll) => q.set i []
  | (i, .retrieveAsString len) => q.take i len
  | (i, .retrieveAllAsString) => q.take i (q.seq i).length
  | (i, .unwrite len) => q.set i ((q.seq i).take ((q.seq i).length - len))
  | (i, .prepend data) => q.set i (data ++ q.seq i)
  | (_, .ensureWritableBytes _) => q
  | (i, .swap j) => (q.set i (q.seq j)).set j (q.seq i)
  | (i, .readFd (.data bytes)) => q.set i (q.seq i ++ bytes)
  | (_, .readFd (.error _)) => q

end ByteQueues

/-! ### The refinement -/

namespace Buffers

variable {ι : Type*} [DecidableEq ι]

/-- What a family of buffers stands for. -/
def abs (s : Buffers ι) : ByteQueues ι := ⟨fun i => (s.buf i).readable, s.returned⟩

omit [DecidableEq ι] in
theorem abs_new (initialSize : ι → ℕ) : (new initialSize).abs = ByteQueues.empty := by
  show ByteQueues.mk (fun i => (Buffer.ofSize (initialSize i)).readable) [] = ⟨fun _ => [], []⟩
  simp only [Buffer.readable_ofSize]

/-- Writing one buffer writes its sequence. -/
theorem abs_set (s : Buffers ι) (i : ι) {b : Buffer} {bytes : List Byte} (h : b.readable = bytes) :
    (s.set i b).abs = s.abs.set i bytes := by
  subst h
  show ByteQueues.mk (fun j => (Function.update s.buf i b j).readable) s.returned =
    ⟨Function.update (fun j => (s.buf j).readable) i b.readable, s.returned⟩
  congr 1
  funext j
  by_cases hj : j = i
  · subst hj
    rw [Function.update_self, Function.update_self]
  · rw [Function.update_of_ne hj, Function.update_of_ne hj]

theorem set_seq_self (q : ByteQueues ι) (i : ι) : q.set i (q.seq i) = q := by
  rw [ByteQueues.set, Function.update_eq_self]

/-- `retrieveAsString` returns what it takes out. -/
theorem abs_retrieveAsString (s : Buffers ι) (i : ι) {len : ℕ} (h : len ≤ (s.buf i).readableBytes) :
    (s.return_ i ((s.buf i).retrieveAsString len)).abs = s.abs.take i len := by
  have hset := s.abs_set i (Buffer.readable_retrieve (s.buf i) len)
  show ByteQueues.mk (s.set i ((s.buf i).retrieve len)).abs.seq
    (s.returned ++ [((s.buf i).retrieveAsString len).1]) = _
  rw [hset, Buffer.retrieveAsString_fst _ h]
  rfl

/-- **One call on a buffer is the same call on its sequence.** -/
theorem abs_step (s : Buffers ι) (op : ι × BufferOp ι) (h : s.meets op = true) :
    (s.step op).abs = s.abs.step op := by
  obtain ⟨i, op⟩ := op
  cases op with
  | append data => exact s.abs_set i (Buffer.readable_append _ data)
  | appendInt64 x => exact s.abs_set i (Buffer.readable_append _ _)
  | appendInt32 x => exact s.abs_set i (Buffer.readable_append _ _)
  | appendInt16 x => exact s.abs_set i (Buffer.readable_append _ _)
  | appendInt8 x => exact s.abs_set i (Buffer.readable_append _ _)
  | retrieve len => exact s.abs_set i (Buffer.readable_retrieve _ len)
  | retrieveUntil off => exact s.abs_set i (Buffer.readable_retrieveUntil _ off)
  | retrieveAll => exact s.abs_set i (Buffer.readable_retrieveAll _)
  | retrieveAsString len => exact s.abs_retrieveAsString i (by simpa [meets] using h)
  | retrieveAllAsString =>
      refine (s.abs_retrieveAsString i le_rfl).trans ?_
      rw [Buffer.readableBytes_eq]
      rfl
  | hasWritten written =>
      have hfit : written.length ≤ (s.buf i).writableBytes := by simpa [meets] using h
      rw [step, dif_pos hfit]
      exact s.abs_set i (Buffer.readable_hasWritten _ written hfit)
  | unwrite len =>
      have hlen : len ≤ (s.buf i).readableBytes := by simpa [meets] using h
      rw [step, dif_pos hlen]
      exact s.abs_set i (Buffer.readable_unwrite _ len hlen)
  | prepend data =>
      have hroom : data.length ≤ (s.buf i).prependableBytes := by simpa [meets] using h
      rw [step, dif_pos hroom]
      exact s.abs_set i (Buffer.readable_prepend _ data hroom)
  | ensureWritableBytes len =>
      have hset := s.abs_set i (Buffer.readable_ensureWritableBytes (s.buf i) len)
      exact hset.trans (set_seq_self s.abs i)
  | swap j =>
      show ((s.set i (s.buf j)).set j (s.buf i)).abs = _
      rw [abs_set _ j rfl, abs_set _ i rfl]
      rfl
  | readFd r =>
      cases r with
      | error e =>
          have hset := s.abs_set i (Eq.refl (s.buf i).readable)
          exact hset.trans (set_seq_self s.abs i)
      | data bytes =>
          have hfit : bytes.length ≤ (s.buf i).iovecSpace := by simpa [meets] using h
          have hread := Buffer.readable_readFd_data (s.buf i) bytes
          rw [List.take_of_length_le hfit] at hread
          exact s.abs_set i hread

end Buffers

/-- **`Buffer` refines a byte queue.**  In every run of calls that meet the asserted preconditions
the readable bytes, and the strings returned, are those of the plain sequences; the indices stay in
order; making space keeps the readable bytes and leaves the room asked for; and no assertion that is
not the caller's fails. -/
theorem buffer_refines_queue {ι : Type*} [DecidableEq ι] (initialSize : ι → ℕ)
    (run : List (ι × BufferOp ι))
    (hmeets : Along Buffers.step (fun s op => s.meets op = true) (.new initialSize) run) :
    let s := exec Buffers.step (.new initialSize) run
    s.abs = exec ByteQueues.step .empty run ∧
    (∀ i, kCheapPrepend ≤ (s.buf i).buffer_.length ∧
      (s.buf i).readerIndex_ ≤ (s.buf i).writerIndex_ ∧
      (s.buf i).writerIndex_ ≤ (s.buf i).buffer_.length) ∧
    (∀ i len, ((s.buf i).ensureWritableBytes len).readable = (s.buf i).readable ∧
      len ≤ ((s.buf i).ensureWritableBytes len).writableBytes) ∧
    ∀ op, s.asserts op = true := by
  refine ⟨?_, fun i => ⟨(Buffer.cheap_le _), Buffer.reader_le _, Buffer.writer_le _⟩,
    fun i len => ⟨?_, ?_⟩, fun op => Buffers.asserts_eq_true _ op⟩
  · have hsim : (exec Buffers.step (.new initialSize) run).abs =
        exec ByteQueues.step (Buffers.new initialSize).abs run :=
      exec_simulation Buffers.abs Buffers.abs_step hmeets
    rwa [Buffers.abs_new] at hsim
  · exact Buffer.readable_ensureWritableBytes _ len
  · exact Buffer.writableBytes_ensureWritableBytes _ len

/-- A prepend below `kCheapPrepend`, then an append that makes the vector grow. -/
theorem buffer_refines_queue_prepend :
    (exec Buffers.step (.new fun _ : Unit => 2)
      [((), .append [1, 2]), ((), .prepend [7, 8, 9]), ((), .retrieve 1), ((), .append [3]),
        ((), .unwrite 1)]).abs.seq () = [8, 9, 1, 2] := by
  rw [(buffer_refines_queue (fun _ : Unit => 2) _ (by decide)).1]
  rfl

end Muduo.Net
