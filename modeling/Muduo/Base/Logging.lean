import Muduo.Base.LogTime

/-!
# `muduo::Logger`: a record

A `Logger` puts the time, the thread and the level into its stream, the caller adds to it, and the
destructor adds the trailer — the name of the source file, the line and a newline — and hands the
text to the output function.

* `source_file_base_name_iff` — when the name in the trailer is the base name of the file;
* `finish_cases` — what the five appends of the trailer leave, for every number of free bytes;
* `record_ends_with_trailer_iff` — when the record ends with its trailer.
-/

namespace Muduo.Base

open Muduo.Lib LogStream

namespace Logger

/-! ### The source file -/

/-- `strchr`: the first `c` of a string that ends at its terminator. -/
def strchr : List UInt8 → UInt8 → Option ℕ
  | [], _ => none
  | x :: xs, c => if x = c then some 0 else if x = 0 then none else (strchr xs c).map (· + 1)

/-- `strrchr`: the last one. -/
def strrchr : List UInt8 → UInt8 → Option ℕ
  | [], _ => none
  | x :: xs, c =>
    if x = 0 then none
    else
      match strrchr xs c with
      | some i => some (i + 1)
      | none => if x = c then some 0 else none

/-- `_data` is the memory the pointer points to. -/
structure SourceFile where
  _data : List UInt8
  _size : Int32

namespace SourceFile

/-- `SourceFile(const char (&arr)[N])`. -/
def ofArray (arr : List UInt8) : SourceFile :=
  match strrchr arr 47 with
  | some slash => ⟨arr.drop (slash + 1), Int32.ofNat arr.length - Int32.ofNat (slash + 1)⟩
  | none => ⟨arr, Int32.ofNat arr.length⟩

/-- `SourceFile(const char* filename)`. -/
def ofPointer (filename : List UInt8) : SourceFile :=
  let data :=
    match strchr filename 47 with
    | some slash => filename.drop (slash + 1)
    | none => filename
  ⟨data, Int32.ofNat (strlen data)⟩

/-- `operator<<(LogStream&, const SourceFile&)`. -/
def item (f : SourceFile) : Item := .append (c_str f._data) f._size

/-- The bytes that pointer and size designate. -/
def designated (f : SourceFile) : List UInt8 := block (c_str f._data) f._size.toInt.toNat

end SourceFile

/-- A path as both constructors can be given it: the array that holds it has an `int`
number of elements. -/
structure Path where
  bytes : List UInt8
  nul_free : 0 ∉ bytes
  length_lt : bytes.length + 1 < 2147483648

/-- What follows the last slash, everything if there is none. -/
def Path.baseName (p : Path) : List UInt8 := p.bytes.rtakeWhile (· ≠ 47)

inductive SourceCtor where
  | array
  | pointer
  deriving DecidableEq

def SourceCtor.build (c : SourceCtor) (p : Path) : SourceFile :=
  match c with
  | .array => SourceFile.ofArray (p.bytes ++ [0])
  | .pointer => SourceFile.ofPointer (p.bytes ++ [0])

/-- `f` designates `name`, and puts it into a stream. -/
structure Designates (f : SourceFile) (name : List UInt8) : Prop where
  bytes : f.designated = name
  size : f._size.toInt = name.length
  printed : ∀ snprintf, (f.item.offer snprintf).text = name

/-! ### Where the slashes are -/

/-- Bytes that are neither slash nor terminator are passed over. -/
theorem strchr_append {u : List UInt8} (hu : ∀ x ∈ u, x ≠ 47 ∧ x ≠ 0) (v : List UInt8) :
    strchr (u ++ v) 47 = (strchr v 47).map (· + u.length) := by
  induction u with
  | nil => simp
  | cons x u ih =>
    have hx := hu x List.mem_cons_self
    rw [List.cons_append, strchr, if_neg hx.1, if_neg hx.2,
      ih fun y hy => hu y (List.mem_cons_of_mem x hy), Option.map_map]
    rfl

theorem strrchr_of_not_mem {u : List UInt8} (hu : ∀ x ∈ u, x ≠ 47 ∧ x ≠ 0) :
    strrchr (u ++ [0]) 47 = none := by
  induction u with
  | nil => rfl
  | cons x u ih =>
    have hx := hu x List.mem_cons_self
    rw [List.cons_append, strrchr, if_neg hx.2, ih fun y hy => hu y (List.mem_cons_of_mem x hy)]
    exact if_neg hx.1

theorem strrchr_append {u v : List UInt8} (hu : 0 ∉ u) (hv : ∀ x ∈ v, x ≠ 47 ∧ x ≠ 0) :
    strrchr (u ++ 47 :: (v ++ [0])) 47 = some u.length := by
  induction u with
  | nil => rw [List.nil_append, strrchr, if_neg (by decide), strrchr_of_not_mem hv]; rfl
  | cons x u ih =>
    rw [List.mem_cons, not_or] at hu
    rw [List.cons_append, strrchr, if_neg (Ne.symm hu.1), ih hu.2]
    rfl

namespace Path

variable {p : Path}

/-- Cut at the last slash. -/
theorem exists_last_slash (h : 47 ∈ p.bytes) : ∃ u v, p.bytes = u ++ 47 :: v ∧ 47 ∉ v := by
  obtain ⟨v, u, hrev, hv⟩ := List.eq_append_cons_of_mem (List.mem_reverse.mpr h)
  refine ⟨u.reverse, v.reverse, ?_, by rwa [List.mem_reverse]⟩
  rw [← List.reverse_reverse p.bytes, hrev, List.reverse_append, List.reverse_cons,
    List.append_assoc]
  rfl

theorem baseName_of_slash {u v : List UInt8} (h : p.bytes = u ++ 47 :: v) (hv : 47 ∉ v) :
    p.baseName = v := by
  have hall : ∀ x ∈ v.reverse, decide (x ≠ 47) = true := by
    intro x hx
    rw [decide_eq_true_eq]
    rintro rfl
    exact hv (List.mem_reverse.mp hx)
  rw [baseName, h, List.rtakeWhile, List.reverse_append, List.reverse_cons, List.append_assoc,
    List.takeWhile_append_of_pos hall]
  simp

theorem baseName_of_no_slash (h : 47 ∉ p.bytes) : p.baseName = p.bytes := by
  rw [baseName, List.rtakeWhile_eq_self_iff]
  intro x hx
  rw [decide_eq_true_eq]
  rintro rfl
  exact h hx

theorem slash_notMem_baseName : 47 ∉ p.baseName := by
  intro h
  simpa using List.mem_rtakeWhile_imp h

theorem plain_of_subset {u : List UInt8} (h : ∀ x ∈ u, x ∈ p.bytes) (hu : 47 ∉ u) : ∀ x ∈ u,
    x ≠ 47 ∧ x ≠ 0 :=
  fun _ hx => ⟨fun h47 => hu (h47 ▸ hx), fun h0 => p.nul_free (h0 ▸ h _ hx)⟩

end Path

/-- A size that is not negative stays what it is as a `size_t`. -/
theorem offer_item (snprintf : Float → DoubleText) {f : SourceFile} (h : 0 ≤ f._size.toInt) :
    f.item.offer snprintf = .whole f.designated := by
  have hlt := f._size.toInt_lt
  rw [SourceFile.item, Item.offer, Int.emod_eq_of_lt h (by omega)]
  rfl

theorem designates_take {data : List UInt8} {size : Int32} {n : ℕ} (hsize : size.toInt = n)
    (hn : n ≤ data.length) :
    Designates ⟨data, size⟩ (data.take n) := by
  have hbytes : SourceFile.designated ⟨data, size⟩ = data.take n := by
    rw [SourceFile.designated, hsize, Int.toNat_natCast, block_c_str data hn]
  refine ⟨hbytes, by rw [hsize, List.length_take, Nat.min_eq_left hn], fun snprintf => ?_⟩
  rw [offer_item snprintf (by rw [hsize]; omega), hbytes, Offer.whole_text]

/-- The array: the size counts the terminator. -/
theorem designates_ofArray (p : Path) :
    Designates (SourceFile.ofArray (p.bytes ++ [0])) (p.baseName ++ [0]) := by
  have hlen := p.length_lt
  by_cases h : 47 ∈ p.bytes
  · obtain ⟨u, v, hp, hv⟩ := p.exists_last_slash h
    have hslash : strrchr (p.bytes ++ [0]) 47 = some u.length := by
      rw [hp, List.append_assoc]
      refine strrchr_append (fun h0 => p.nul_free ?_) (p.plain_of_subset (fun x hx => ?_) hv)
      · rw [hp]
        exact List.mem_append_left _ h0
      · rw [hp]
        exact List.mem_append_right _ (List.mem_cons_of_mem _ hx)
    have hdrop : (p.bytes ++ [0]).drop (u.length + 1) = v ++ [0] := by
      rw [hp, List.append_assoc]
      exact drop_append_cons u 47 (v ++ [0])
    have hsize : (Int32.ofNat (p.bytes ++ [0]).length - Int32.ofNat (u.length + 1)).toInt =
        (v ++ [0]).length := by
      have hbytes : p.bytes.length = u.length + 1 + v.length := by
        rw [hp, List.length_append, List.length_cons]
        omega
      rw [List.length_append, List.length_append, List.length_singleton,
        ← Int32.ofNat_sub _ _ (by omega), Int32.toInt_ofNat_of_lt (by omega)]
      omega
    have hwhole := designates_take hsize le_rfl
    rw [List.take_length] at hwhole
    rw [SourceFile.ofArray, hslash, Path.baseName_of_slash hp hv]
    dsimp only
    rwa [hdrop]
  · have hslash := strrchr_of_not_mem (p.plain_of_subset (fun _ hx => hx) h)
    have hsize : (Int32.ofNat (p.bytes ++ [0]).length).toInt = (p.bytes ++ [0]).length :=
      Int32.toInt_ofNat_of_lt (by rw [List.length_append]; exact hlen)
    have hwhole := designates_take hsize le_rfl
    rw [List.take_length] at hwhole
    rwa [SourceFile.ofArray, hslash, Path.baseName_of_no_slash h]

/-- A string in memory, with the length `strlen` counts. -/
theorem designates_string {v : List UInt8} (hv : 0 ∉ v) (hlen : v.length < 2147483648) :
    Designates ⟨v ++ [0], Int32.ofNat (strlen (v ++ [0]))⟩ v := by
  have hall : ∀ x ∈ v, decide (x ≠ 0) = true := by
    intro x hx
    rw [decide_eq_true_eq]
    rintro rfl
    exact hv hx
  have hstrlen : strlen (v ++ [0]) = v.length := by
    rw [strlen, List.takeWhile_append_of_pos hall]
    simp
  have hsize : (Int32.ofNat (strlen (v ++ [0]))).toInt = v.length := by
    rw [hstrlen, Int32.toInt_ofNat_of_lt hlen]
  have hname :=
    designates_take hsize (show v.length ≤ (v ++ [0]).length by rw [List.length_append]; omega)
  rwa [List.take_left] at hname

/-- The pointer: everything behind the first slash. -/
theorem designates_ofPointer (p : Path) :
    (47 ∉ p.bytes ∧ Designates (SourceFile.ofPointer (p.bytes ++ [0])) p.bytes) ∨
      ∃ u v, p.bytes = u ++ 47 :: v ∧ 47 ∉ u ∧
      Designates (SourceFile.ofPointer (p.bytes ++ [0])) v := by
  have hlen := p.length_lt
  by_cases h : 47 ∈ p.bytes
  · obtain ⟨u, v, hp, hu⟩ := List.eq_append_cons_of_mem h
    have hsub : ∀ x ∈ u, x ∈ p.bytes := fun x hx => hp ▸ List.mem_append_left _ hx
    have hv : 0 ∉ v :=
      fun h0 => p.nul_free (hp ▸ List.mem_append_right _ (List.mem_cons_of_mem _ h0))
    have hslash : strchr (p.bytes ++ [0]) 47 = some u.length := by
      rw [hp, List.append_assoc, strchr_append (p.plain_of_subset hsub hu)]
      exact congrArg some (Nat.zero_add u.length)
    have hdrop : (p.bytes ++ [0]).drop (u.length + 1) = v ++ [0] := by
      rw [hp, List.append_assoc]
      exact drop_append_cons u 47 (v ++ [0])
    refine .inr ⟨u, v, hp, hu, ?_⟩
    rw [SourceFile.ofPointer, hslash]
    dsimp only
    rw [hdrop]
    refine designates_string hv ?_
    rw [hp, List.length_append, List.length_cons] at hlen
    omega
  · have hslash : strchr (p.bytes ++ [0]) 47 = none := by
      rw [strchr_append (p.plain_of_subset (fun _ hx => hx) h)]
      rfl
    refine .inl ⟨h, ?_⟩
    rw [SourceFile.ofPointer, hslash]
    exact designates_string p.nul_free (by omega)

/-- A `SourceFile` designates the base name exactly if it was made from a pointer to a
path with at most one slash: the array's constructor counts the terminator, the pointer's
takes the first slash. -/
theorem source_file_base_name_iff (c : SourceCtor) (p : Path) :
    Designates (c.build p) p.baseName ↔ c = .pointer ∧ p.bytes.count 47 ≤ 1 := by
  cases c with
  | array =>
    refine ⟨fun h => ?_, fun h => absurd h.1 (by decide)⟩
    have hsize := h.size.symm.trans (designates_ofArray p).size
    rw [List.length_append, List.length_singleton] at hsize
    omega
  | pointer =>
    change Designates (SourceFile.ofPointer (p.bytes ++ [0])) p.baseName ↔ _
    rcases designates_ofPointer p with ⟨hno, hall⟩ | ⟨u, v, hp, hu, hv⟩
    · rw [Path.baseName_of_no_slash hno, List.count_eq_zero_of_not_mem hno]
      exact ⟨fun _ => ⟨rfl, by omega⟩, fun _ => hall⟩
    · have hcount : p.bytes.count 47 = v.count 47 + 1 := by
        rw [hp, List.count_append, List.count_cons_self, List.count_eq_zero_of_not_mem hu,
          Nat.zero_add]
      rw [hcount]
      by_cases hslash : 47 ∈ v
      · -- what is designated still has a slash
        have hpos := List.count_pos_iff.mpr hslash
        refine ⟨fun h => ?_, fun h => by omega⟩
        have heq : p.baseName = v := h.bytes.symm.trans hv.bytes
        exact absurd (heq ▸ hslash) p.slash_notMem_baseName
      · rw [Path.baseName_of_slash hp hslash, List.count_eq_zero_of_not_mem hslash]
        exact ⟨fun _ => ⟨rfl, by omega⟩, fun _ => hv⟩

/-- `__FILE__` of a file in the directory of the build: the terminator is printed. -/
theorem array_designates_terminator :
    ¬ Designates (SourceCtor.array.build ⟨literal "main.cc", by decide +kernel, by decide +kernel⟩)
      (Path.baseName ⟨literal "main.cc", by decide +kernel, by decide +kernel⟩) := by
  intro h
  have hsize := h.size
  revert hsize
  decide +kernel

/-! ### The record -/

inductive LogLevel where
  | TRACE
  | DEBUG
  | INFO
  | WARN
  | ERROR
  | FATAL

def LogLevelName : LogLevel → List UInt8
  | .TRACE => literal "TRACE "
  | .DEBUG => literal "DEBUG "
  | .INFO => literal "INFO  "
  | .WARN => literal "WARN  "
  | .ERROR => literal "ERROR "
  | .FATAL => literal "FATAL "

/-- What a constructor finds in its thread. -/
structure Caller where
  clock : LogClock
  now : Int64
  tidString : List UInt8
  tidStringLength : Int32
  errno : Int32

/-- The constructors of `Logger`, without the file and the line that all of them take. -/
inductive Ctor where
  | plain
  | level (level : LogLevel)
  | func (level : LogLevel) (func : Option (List UInt8))
  | toAbort (to_abort : Bool)

section Record

variable (gmtime_r : ℤ → Tm) (strerror_tl : Int32 → List UInt8) (snprintf : Float → DoubleText)

/-- What the constructor of `Impl` puts into the stream. -/
def implItems (caller : Caller) (level : LogLevel) (saved_errno : Int32) : List Item :=
  (formatTime gmtime_r caller.clock.global_log_timezone caller.clock.thread caller.now.toInt).2 ++
    [T caller.tidString caller.tidStringLength, T (LogLevelName level) 6] ++
    if saved_errno ≠ 0 then
      [.cstring (some (strerror_tl saved_errno)), .cstring (some (literal " (errno=")),
        .int saved_errno, .cstring (some (literal ") "))]
    else []

def Ctor.items (caller : Caller) : Ctor → List Item
  | .plain => implItems gmtime_r strerror_tl caller .INFO 0
  | .level l => implItems gmtime_r strerror_tl caller l 0
  | .func l f => implItems gmtime_r strerror_tl caller l 0 ++ [.cstring f, .char 32]
  | .toAbort to_abort =>
      implItems gmtime_r strerror_tl caller (if to_abort then .FATAL else .ERROR) caller.errno

/-- `Impl::finish`. -/
def finishItems (_basename : SourceFile) (_line : Int32) : List Item :=
  [.cstring (some (literal " - ")), _basename.item, .char 58, .int _line, .char 10]

/-- The stream when the destructor starts: what the constructor and the caller have put into it. -/
def message (memory : List.Vector UInt8 k_small_buffer) (caller : Caller) (ctor : Ctor)
    (user : List Item) : Buffer :=
  exec (insert snprintf) (FixedBuffer.new memory) (ctor.items gmtime_r strerror_tl caller ++ user)

/-- What the destructor hands to the output function. -/
def output (stream : Buffer) (file : SourceFile) (line : Int32) : List UInt8 :=
  (exec (insert snprintf) stream (finishItems file line)).toStringPiece

end Record

/-- The whole of what `finish` emits. -/
def trailer (file : SourceFile) (line : Int32) : List UInt8 :=
  [32, 45, 32] ++ file.designated ++ [58] ++ decimal line.toInt ++ [10]

/-! ### What the trailer leaves -/

section Finish

variable {c base : List UInt8} {line : Int32} {room : ℕ}

/-- The last three appends. -/
theorem exec_accept_line (hroom : c.length + room = k_small_buffer) (hpos : 0 < room) :
    exec (accept k_small_buffer) c [.whole [58], decimalOffer line, .whole [10]] =
      if 33 ≤ room then c ++ [58] ++ decimal line.toInt ++ [10]
      else if 3 ≤ room then c ++ [58] ++ [10]
      else if 2 ≤ room then c ++ [58]
      else c := by
  have hlen : (decimal line.toInt).length ≤ 20 := length_decimal_le line
  simp only [exec_cons, exec_nil]
  by_cases hcolon : 2 ≤ room
  · obtain ⟨h₁, hroom₁⟩ := accept_of_le (o := .whole [58]) hroom hcolon
    rw [h₁, Offer.whole_text]
    rw [Offer.whole_text, List.length_singleton] at hroom₁
    by_cases hline : 33 ≤ room
    · obtain ⟨h₂, hroom₂⟩ :=
        accept_of_le (o := decimalOffer line) hroom₁ (by change 32 ≤ room - 1; omega)
      have htext : (decimalOffer line).text = decimal line.toInt := rfl
      rw [h₂, htext, if_pos hline]
      rw [htext] at hroom₂
      exact (accept_of_le (o := .whole [10]) hroom₂ (by change 2 ≤ _; omega)).1
    · rw [accept_of_lt (o := decimalOffer line) hroom₁ (by change room - 1 < 32; omega),
        if_neg hline]
      split_ifs with hnewline
      · exact (accept_of_le (o := .whole [10]) hroom₁ (by change 2 ≤ room - 1; omega)).1
      · exact accept_of_lt hroom₁ (by change room - 1 < 2; omega)
  · rw [accept_of_lt (o := .whole [58]) hroom (by change room < 2; omega),
      accept_of_lt (o := decimalOffer line) hroom (by change room < 32; omega),
      accept_of_lt (o := .whole [10]) hroom (by change room < 2; omega), if_neg (by omega),
      if_neg (by omega), if_neg hcolon]

/-- What the five appends leave of the trailer, for every number of free bytes. -/
inductive Finished (c base : List UInt8) (line : Int32) (room : ℕ) : List UInt8 → Prop
  | whole (h : base.length + 36 ≤ room) :
    Finished c base line room (c ++ [32, 45, 32] ++ base ++ [58] ++ decimal line.toInt ++ [10])
  | noName (h : 36 ≤ room ∧ room ≤ base.length + 3) :
    Finished c base line room (c ++ [32, 45, 32] ++ [58] ++ decimal line.toInt ++ [10])
  | nothing (h : room = 1) : Finished c base line room c
  | nameOnly (h : room = base.length + 1 ∧ 1 < room ∧ room ≤ 3) :
      Finished c base line room (c ++ base)
  | noLine (h : room = base.length + 4) : Finished c base line room (c ++ [32, 45, 32] ++ base)
  | cut (h : room < base.length + 36 ∧ room ≠ 1 ∧ ¬ (room = base.length + 1 ∧ room ≤ 3) ∧
      ¬ (36 ≤ room ∧ room ≤ base.length + 3)) (front last : List UInt8)
      (hlast : last ∈ [[32], [58], [58, 10]]) :
    Finished c base line room (front ++ last)

/-- The last three appends to a text that has the room `room'` left. -/
theorem finished_of_line {c' : List UInt8} {room' : ℕ} (hroom' : c'.length + room' = k_small_buffer)
    (hpos : 0 < room')
    (hcut : room' < 33 → 2 ≤ room' → room < base.length + 36 ∧ room ≠ 1 ∧
      ¬ (room = base.length + 1 ∧ room ≤ 3) ∧
      ¬ (36 ≤ room ∧ room ≤ base.length + 3))
    (hline : 33 ≤ room' → Finished c base line room (c' ++ [58] ++ decimal line.toInt ++ [10]))
    (hfull : room' = 1 → Finished c base line room c') :
    Finished c base line room
      (exec (accept k_small_buffer) c' [.whole [58], decimalOffer line, .whole [10]]) := by
  rw [exec_accept_line hroom' hpos]
  split_ifs with h₁ h₂ h₃
  · exact hline h₁
  · rw [List.append_assoc]
    exact .cut (hcut (by omega) (by omega)) c' [58, 10] (by simp)
  · exact .cut (hcut (by omega) h₃) c' [58] (by simp)
  · exact hfull (by omega)

theorem finish_cases (hroom : c.length + room = k_small_buffer) (hpos : 0 < room) :
    Finished c base line room (exec (accept k_small_buffer) c
      [.whole [32, 45, 32], .whole base, .whole [58], decimalOffer line, .whole [10]]) := by
  rw [exec_cons, exec_cons]
  by_cases hdash : 4 ≤ room
  · obtain ⟨h₁, hroom₁⟩ := accept_of_le (o := .whole [32, 45, 32]) hroom hdash
    rw [h₁, Offer.whole_text]
    replace hroom₁ : (c ++ [32, 45, 32]).length + (room - 3) = k_small_buffer := hroom₁
    by_cases hname : base.length + 4 ≤ room
    · obtain ⟨h₂, hroom₂⟩ :=
        accept_of_le (o := .whole base) hroom₁ (by rw [Offer.whole_need]; omega)
      rw [h₂, Offer.whole_text]
      rw [Offer.whole_text] at hroom₂
      exact finished_of_line hroom₂ (by omega) (fun _ _ => by omega) (fun h => .whole (by omega))
        (fun h => .noLine (by omega))
    · rw [accept_of_lt (o := .whole base) hroom₁ (by rw [Offer.whole_need]; omega)]
      refine finished_of_line hroom₁ (by omega) (fun _ _ => by omega) (fun h => .noName (by omega))
        (fun h => ?_)
      -- only the dash fits
      rw [show c ++ [32, 45, 32] = c ++ [32, 45] ++ [32] from by simp]
      exact .cut (by omega) _ [32] (by simp)
  · rw [accept_of_lt (o := .whole [32, 45, 32]) hroom (by change room < 4; omega)]
    by_cases hname : base.length + 1 ≤ room
    · obtain ⟨h₂, hroom₂⟩ := accept_of_le (o := .whole base) hroom hname
      rw [h₂, Offer.whole_text]
      rw [Offer.whole_text] at hroom₂
      refine finished_of_line hroom₂ (by omega) (fun _ _ => by omega) (fun h => by omega)
        (fun h => ?_)
      rcases Nat.lt_or_ge 1 room with hlt | hle
      · exact .nameOnly (by omega)
      · rw [List.length_eq_zero_iff.mp (show base.length = 0 by omega), List.append_nil]
        exact .nothing (by omega)
    · rw [accept_of_lt (o := .whole base) hroom (by rw [Offer.whole_need]; omega)]
      exact finished_of_line hroom hpos (fun _ _ => by omega) (fun h => by omega)
        (fun h => .nothing h)

end Finish

/-- A negative size is never accepted, and designates nothing. -/
theorem accept_item (snprintf : Float → DoubleText) (f : SourceFile) {c : List UInt8}
    (hc : c.length < k_small_buffer) :
    accept k_small_buffer c (f.item.offer snprintf) = accept k_small_buffer c
      (.whole f.designated) := by
  rcases lt_or_ge f._size.toInt 0 with hneg | hnonneg
  · have hle := f._size.le_toInt
    have hnothing : f.designated = [] := by
      rw [SourceFile.designated, Int.toNat_of_nonpos hneg.le]
      rfl
    have hneed : k_small_buffer < (f.item.offer snprintf).need := by
      rw [SourceFile.item, Item.offer, Offer.whole_need, length_block, k_small_buffer]
      omega
    rw [accept_of_not_fits (by omega), hnothing,
      accept_of_fits (by rw [Offer.whole_need]; exact hc), Offer.whole_text, List.append_nil]
  · rw [offer_item snprintf hnonneg]

theorem output_eq (snprintf : Float → DoubleText) {stream : Buffer} (h : stream.WF)
    (file : SourceFile) (line : Int32) :
    output snprintf stream file line = exec (accept k_small_buffer) stream.content
      [.whole [32, 45, 32], .whole file.designated, .whole [58], decimalOffer line,
        .whole [10]] := by
  obtain ⟨hwf, hcontent⟩ := content_exec snprintf h (finishItems file line)
  have hlen := FixedBuffer.length_content h
  have hlt := h.lt
  have hdash : Item.offer snprintf (.cstring (some (literal " - "))) = .whole [32, 45, 32] := by
    rw [Item.offer, show cstringText (some (literal " - ")) = [32, 45, 32] from by decide +kernel]
  rw [output, FixedBuffer.toStringPiece_eq (by decide) hwf, hcontent]
  simp only [finishItems, List.map_cons, List.map_nil, exec_cons, hdash]
  rw [accept_item snprintf file (length_accept_lt (by omega))]
  rfl

/-! ### When a record ends with its trailer -/

/-- All five appends fit: the line number asks for 32 bytes behind the name. -/
def Room (free : ℕ) (file : SourceFile) : Prop := file.designated.length + 36 ≤ free

/-- What stands in the buffer happens to end as the trailer does. -/
def Mimicked (before : List UInt8) (free : ℕ) (file : SourceFile) (line : Int32) : Prop :=
  (free = 1 ∧ trailer file line <:+ before) ∨
  (free = file.designated.length + 1 ∧ free ≤ 3 ∧ trailer file line <:+ before ++ file.designated) ∨
  (36 ≤ free ∧ free ≤ file.designated.length + 3 ∧
    [32, 45, 32] ++ file.designated <:+ before ++ [32, 45, 32])

section Suffix

variable (file : SourceFile) (line : Int32)

theorem trailer_eq :
    trailer file line = ([32, 45, 32] ++ file.designated) ++
    ([58] ++ decimal line.toInt ++ [10]) := by
  simp only [trailer, List.append_assoc]

/-- The trailer ends with the newline, -/
theorem not_trailer_suffix_concat (front : List UInt8) {last : UInt8} (hlast : last ≠ 10) :
    ¬ trailer file line <:+ front ++ [last] := by
  rintro ⟨t, ht⟩
  rw [trailer, ← List.append_assoc] at ht
  exact hlast (List.append_singleton_inj.mp ht).2.symm

/-- behind a digit. -/
theorem not_trailer_suffix_cut (front : List UInt8) {last : List UInt8}
    (hlast : last ∈ [[32], [58], [58, 10]]) :
    ¬ trailer file line <:+ front ++ last := by
  simp only [List.mem_cons, List.not_mem_nil, or_false] at hlast
  rcases hlast with rfl | rfl | rfl
  · exact not_trailer_suffix_concat file line front (by decide)
  · exact not_trailer_suffix_concat file line front (by decide)
  · obtain ⟨digits, d, hdecimal, hd⟩ := exists_decimal_last line.toInt
    rintro ⟨t, ht⟩
    rw [trailer, hdecimal] at ht
    obtain ⟨h58, -⟩ : d = 58 ∧ _ := by simpa using congrArg List.reverse ht
    rw [h58] at hd
    exact absurd hd.2 (by decide)

/-- The colon, the line and the newline have no blank. -/
theorem not_trailer_suffix_noLine (before : List UInt8) :
    ¬ trailer file line <:+ before ++ [32, 45, 32] ++ file.designated := by
  rw [trailer_eq, List.append_assoc before]
  refine not_suffix_append_self rfl (by simp) ?_
  simp only [List.mem_append, List.mem_singleton, not_or]
  refine ⟨⟨by decide, fun h => ?_⟩, by decide⟩
  rcases mem_decimal h with h45 | hdigit
  · exact absurd h45 (by decide)
  · exact absurd hdigit.1 (by decide)

theorem trailer_suffix_noName_iff (before : List UInt8) :
    trailer file line <:+ before ++ [32, 45, 32] ++ [58] ++ decimal line.toInt ++ [10] ↔
      [32, 45, 32] ++ file.designated <:+ before ++ [32, 45, 32] := by
  have hassoc : before ++ [32, 45, 32] ++ [58] ++ decimal line.toInt ++ [10] =
      before ++ [32, 45, 32] ++ ([58] ++ decimal line.toInt ++ [10]) := by
    simp only [List.append_assoc]
  rw [trailer_eq, hassoc]
  constructor
  · rintro ⟨t, ht⟩
    exact ⟨t, List.append_cancel_right (by rw [← ht, List.append_assoc])⟩
  · rintro ⟨t, ht⟩
    exact ⟨t, by rw [← ht]; simp only [List.append_assoc]⟩

end Suffix

theorem length_trailer (file : SourceFile) (line : Int32) :
    file.designated.length + 5 < (trailer file line).length := by
  obtain ⟨digits, d, hdecimal, -⟩ := exists_decimal_last line.toInt
  rw [trailer, hdecimal]
  simp only [List.length_append, List.length_cons, List.length_nil]
  omega

namespace Finished

variable {before record : List UInt8} {free : ℕ} {file : SourceFile} {line : Int32}

/-- The record is the text with its trailer only if all of the trailer was written: in the other
cases it is too short, or does not end with the trailer. -/
theorem eq_append_trailer_iff (h : Finished before file.designated line free record) :
    record = before ++ trailer file line ↔ Room free file := by
  have htrailer := length_trailer file line
  have hends : ∀ {r}, r = before ++ trailer file line → trailer file line <:+ r := by
    rintro r rfl
    exact List.suffix_append _ _
  have hlength : ∀ {r}, r = before ++ trailer file line →
      r.length = before.length + (trailer file line).length := by
    rintro r rfl
    exact List.length_append
  cases h with
  | whole h => exact iff_of_true (by simp only [trailer, List.append_assoc]) h
  | noName h =>
    refine iff_of_false (fun heq => ?_) (by unfold Room; omega)
    have hlen := hlength heq
    simp only [trailer, List.length_append, List.length_cons, List.length_nil] at hlen
    omega
  | nothing h =>
    refine iff_of_false (fun heq => ?_) (by unfold Room; omega)
    have hlen := hlength heq
    omega
  | nameOnly h =>
    refine iff_of_false (fun heq => ?_) (by unfold Room; omega)
    have hlen := hlength heq
    rw [List.length_append] at hlen
    omega
  | noLine h =>
    exact iff_of_false (fun heq => not_trailer_suffix_noLine file line before (hends heq))
      (by unfold Room; omega)
  | cut h front last hlast =>
    exact iff_of_false (fun heq => not_trailer_suffix_cut file line front hlast (hends heq))
      (by unfold Room; omega)

theorem trailer_suffix_iff (h : Finished before file.designated line free record) :
    trailer file line <:+ record ↔ Room free file ∨ Mimicked before free file line := by
  unfold Room Mimicked
  cases h with
  | whole h =>
    refine iff_of_true ⟨before, ?_⟩ (.inl h)
    simp only [trailer, List.append_assoc]
  | noName h =>
    rw [trailer_suffix_noName_iff]
    refine ⟨fun hs => .inr (.inr (.inr ⟨h.1, h.2, hs⟩)), ?_⟩
    rintro (hm | hm | hm | hm)
    · omega
    · omega
    · omega
    · exact hm.2.2
  | nothing h =>
    refine ⟨fun hs => .inr (.inl ⟨h, hs⟩), ?_⟩
    rintro (hm | hm | hm | hm)
    · omega
    · exact hm.2
    · rw [List.length_eq_zero_iff.mp (show file.designated.length = 0 by omega),
        List.append_nil] at hm
      exact hm.2.2
    · omega
  | nameOnly h =>
    refine ⟨fun hs => .inr (.inr (.inl ⟨h.1, h.2.2, hs⟩)), ?_⟩
    rintro (hm | hm | hm | hm)
    · omega
    · omega
    · exact hm.2.2
    · omega
  | noLine h =>
    refine iff_of_false (not_trailer_suffix_noLine file line before) ?_
    rintro (hm | hm | hm | hm) <;> omega
  | cut h front last hlast =>
    refine iff_of_false (not_trailer_suffix_cut file line front hlast) ?_
    rintro (hm | hm | hm | hm) <;> omega

end Finished

/-- Whatever a `Logger` was constructed with and whatever was put into its stream: what is handed to
the output function ends with the trailer exactly if the bytes left free hold all of it, or if the
text before it happens to end alike; and only in the first case is it the text with its trailer. -/
theorem record_ends_with_trailer_iff (gmtime_r : ℤ → Tm) (strerror_tl : Int32 → List UInt8)
    (snprintf : Float → DoubleText) (memory : List.Vector UInt8 k_small_buffer) (caller : Caller)
    (ctor : Ctor) (user : List Item) (file : SourceFile) (line : Int32) :
    let stream := message gmtime_r strerror_tl snprintf memory caller ctor user
    let free := k_small_buffer - stream.content.length
    (trailer file line <:+ output snprintf stream file line ↔
      Room free file ∨ Mimicked stream.content free file line) ∧
    (output snprintf stream file line = stream.content ++ trailer file line ↔ Room free file) := by
  intro stream free
  have hwf : stream.WF := (content_exec snprintf (FixedBuffer.wf_new (by decide) memory) _).1
  have hlen := FixedBuffer.length_content hwf
  have hlt := hwf.lt
  have hfree : stream.content.length + free = k_small_buffer := by omega
  have hfinished : Finished stream.content file.designated line free _ :=
    finish_cases hfree (by omega)
  rw [output_eq snprintf hwf]
  exact ⟨hfinished.trailer_suffix_iff, hfinished.eq_append_trailer_iff⟩

/-- A thread that logs its first record, one second after the epoch. -/
def firstCaller : Caller := ⟨LogClock.initial, 1000000, literal "    1 ", 6, 0⟩

/-- In front of a message stand the time, the thread and the level, texts of fixed length. -/
theorem content_message_plain (snprintf : Float → DoubleText)
    (memory : List.Vector UInt8 k_small_buffer)
    (user : List UInt8) (huser : user.length + 38 < k_small_buffer) :
    ∃ header : List UInt8, header.length = 38 ∧
      (message civilTime (fun _ => []) snprintf memory firstCaller .plain [.string user]).content =
      header ++ user := by
  obtain ⟨us, hitems⟩ : ∃ us, Ctor.plain.items civilTime (fun _ => []) firstCaller =
      [T (formatTime civilTime none ThreadTime.initial 1000000).1.t_time 17, T us 9,
        T (literal "    1 ") 6, T (LogLevelName .INFO) 6] := ⟨_, rfl⟩
  let blocks : List (List UInt8) :=
    [block (c_str (formatTime civilTime none ThreadTime.initial 1000000).1.t_time) 17,
    block (c_str us) 9, block (c_str (literal "    1 ")) 6, block (c_str (LogLevelName .INFO)) 6]
  have hlen : blocks.flatten.length = 38 := by
    simp only [blocks, List.flatten_cons, List.flatten_nil, List.length_append, length_block,
      List.length_nil]
  have hfits : ([] : List UInt8).length + (blocks ++ [user]).flatten.length < k_small_buffer := by
    rw [List.flatten_append, List.flatten_singleton, List.length_append, hlen, List.length_nil]
    omega
  have hall := exec_accept_whole (blocks ++ [user]) hfits
  rw [List.flatten_append, List.flatten_singleton, List.nil_append] at hall
  refine ⟨blocks.flatten, hlen, ?_⟩
  rw [message, (content_exec snprintf (FixedBuffer.wf_new (by decide) memory) _).2, hitems]
  exact hall

/-- A message of 3961 characters: nothing of the trailer is left, not even the newline. -/
theorem full_record_has_no_trailer :
    ¬ trailer (SourceCtor.array.build ⟨literal "main.cc", by decide +kernel, by decide +kernel⟩) 10
      <:+ output (fun _ => ⟨[48], le_rfl, by decide⟩)
        (message civilTime (fun _ => []) (fun _ => ⟨[48], le_rfl, by decide⟩)
          (List.Vector.replicate k_small_buffer 0)
          firstCaller .plain [.string (List.replicate 3961 120)])
        (SourceCtor.array.build ⟨literal "main.cc", by decide +kernel, by decide +kernel⟩) 10 := by
  have huser : (List.replicate 3961 (120 : UInt8)).length + 38 < k_small_buffer := by
    rw [List.length_replicate]
    decide
  obtain ⟨header, hheader, hcontent⟩ := content_message_plain (fun _ => ⟨[48], le_rfl, by decide⟩)
    (List.Vector.replicate k_small_buffer 0) _ huser
  have hwf : (message civilTime (fun _ => []) (fun _ => ⟨[48], le_rfl, by decide⟩)
      (List.Vector.replicate k_small_buffer 0) firstCaller .plain
      [.string (List.replicate 3961 120)]).WF :=
    (content_exec _ (FixedBuffer.wf_new (by decide) _) _).1
  have hroom : (header ++ List.replicate 3961 120).length + 1 = k_small_buffer := by
    rw [List.length_append, hheader, List.length_replicate]
    rfl
  rw [output_eq _ hwf, hcontent]
  generalize SourceCtor.build _ _ = file
  have hfinished : Finished (header ++ List.replicate 3961 120) file.designated 10 1 _ :=
    finish_cases hroom (by omega)
  generalize exec (accept k_small_buffer) _ _ = record at hfinished ⊢
  cases hfinished with
  | nothing h =>
    rw [List.replicate_succ', ← List.append_assoc]
    exact not_trailer_suffix_concat file 10 _ (by decide)
  | whole h => omega
  | noName h => omega
  | nameOnly h => omega
  | noLine h => omega
  | cut h => omega

end Logger

end Muduo.Base
