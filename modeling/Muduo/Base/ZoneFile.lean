import Muduo.Base.TimeZone
import Muduo.Lib.Bytes

/-!
# Zone files: `readTimeZoneFile`

The reader of TZif files.  It reads with `fread` from the start of the file to the end, fills
`Data` as it goes, and throws when data is missing; what it has filled by then stays, since the
exception is caught in the function itself. So the reader is a state monad whose state survives
an exception, `EStateM`.

* `Stop` — how the reading can end early: a `logic_error`, or an access outside a vector or array,
  after which the behaviour of the program is undefined and there is no result;
* `ZoneFile` — the layout of a version 1 file, and `ZoneFile.encode`, its bytes;
* each reader has one lemma that says when it succeeds and what it has then consumed
  (`readInt32_ok`, `readTypes_ok`, …); they give both that encoded files are read back and that
  files read to the end are encoded ones.

The host may be little or big endian.  Memory is not exhausted: neither `reserve` nor the array of
`readBytes` fails for a size that is not negative.
-/

namespace Muduo.Base

open Muduo.Lib

inductive Stop where
  | logic_error (what : String)
  | undefined
  deriving DecidableEq, Repr

/-- What is left of the file, and the data filled so far. -/
structure Reading where
  rest : List UInt8
  data : Data
  deriving DecidableEq, Repr

abbrev Reader := EStateM Stop Reading

def Data.empty : Data := ⟨[], [], []⟩

/-- `if (!p) throw e`. -/
def throwUnless (p : Prop) [Decidable p] (e : Stop) : Reader Unit :=
  if p then return () else throw e

namespace File

/-- `fread(_, 1, n, fp_)`: at most `n` bytes. -/
def fread (n : ℕ) : Reader (List UInt8) := fun s =>
  .ok (s.rest.take n) { s with rest := s.rest.drop n }

/-- An array of negative length is undefined. -/
def readBytes (n : ℤ) : Reader (List UInt8) := do
  throwUnless (0 ≤ n) .undefined
  let buf ← fread n.toNat
  throwUnless (buf.length = n.toNat) (.logic_error "no enough data")
  return buf

def readInt32 (host : Endian) : Reader ℤ := do
  let x ← fread 4
  throwUnless (x.length = 4) (.logic_error "bad int32_t data")
  return (BitVec.ofNat 32 (toBE host 4 (load host x))).toInt

def readUInt8 : Reader UInt8 := do
  let x ← fread 1
  throwUnless (x.length = 1) (.logic_error "bad uint8_t data")
  return x.headD 0

end File

open File

/-- The loop that fills `trans`. -/
def readTimes (host : Endian) : ℕ → Reader (List ℤ)
  | 0 => return []
  | n + 1 => do
    let x ← readInt32 host
    return x :: (← readTimes host n)

/-- The loop that fills `localtimes`, the type indices. -/
def readIndices : ℕ → Reader (List UInt8)
  | 0 => return []
  | n + 1 => do
    let x ← readUInt8
    return x :: (← readIndices n)

/-- The loop that fills `data->localtimes`. -/
def readTypes (host : Endian) : ℕ → Reader Unit
  | 0 => return ()
  | n + 1 => do
    let gmtoff ← readInt32 host
    let isdst ← readUInt8
    let abbrind ← readUInt8
    modify fun s =>
      { s with data.localtimes := s.data.localtimes ++ [⟨gmtoff, isdst ≠ 0, abbrind.toNat⟩] }
    readTypes host n

/-- `data->localtimes[localIdx].gmtOffset`. -/
def offsetAt (localIdx : ℕ) : Reader ℤ := fun s =>
  match s.data.localtimes[localIdx]? with
  | none => .error .undefined s
  | some l => .ok l.gmtOffset s

/-- A `time_t` sum; overflow is undefined. -/
def addTime (x y : ℤ) : Reader ℤ := fun s =>
  match Checked.add 64 x y with
  | none => .error .undefined s
  | some z => .ok z s

/-- The loop that joins times and type indices. -/
def joinTransitions : List (ℤ × UInt8) → Reader Unit
  | [] => return ()
  | (time, localIdx) :: rest => do
    let localtime ← addTime time (← offsetAt localIdx.toNat)
    modify fun s =>
      { s with data.transitions := s.data.transitions ++ [⟨time, localtime, localIdx.toNat⟩] }
    joinTransitions rest

/-- The body of the `try` block; the loop over the leap seconds is empty. -/
def readZone (host : Endian) : Reader Unit := do
  let head ← readBytes 4
  throwUnless (head = [84, 90, 105, 102]) (.logic_error "bad head")  -- "TZif"
  let _version ← readBytes 1
  let _reserved ← readBytes 15
  let _isgmtcnt ← readInt32 host
  let _isstdcnt ← readInt32 host
  let _leapcnt ← readInt32 host
  let timecnt ← readInt32 host
  let typecnt ← readInt32 host
  let charcnt ← readInt32 host
  -- `trans.reserve(timecnt)`
  throwUnless (0 ≤ timecnt) (.logic_error "vector::reserve")
  let trans ← readTimes host timecnt.toNat
  let localtimes ← readIndices timecnt.toNat
  readTypes host typecnt.toNat
  joinTransitions (trans.zip localtimes)
  let abbreviation ← readBytes charcnt
  modify fun s => { s with data.abbreviation := abbreviation }

/-- The file is its contents, if it can be opened; no result where the behaviour is undefined. -/
def readTimeZoneFile (host : Endian) (zonefile : Option (List UInt8)) (data : Data) :
    Option (Bool × Data) :=
  match zonefile with
  | none => some (true, data)
  | some contents =>
    match readZone host ⟨contents, data⟩ with
    | .ok _ s => some (true, s.data)
    | .error (.logic_error _) s => some (true, s.data)
    | .error .undefined _ => none

/-- `TimeZone(zonefile)`; the value is the member `data_`. -/
def timeZone (host : Endian) (zonefile : Option (List UInt8)) : Option (Option Data) := do
  let r ← readTimeZoneFile host zonefile Data.empty
  return if r.1 then some r.2 else none

/-! ### What a reader that succeeds has read -/

section Readers

variable {α β : Type} {s s' : Reading}

theorem bind_ok {x : Reader α} {f : α → Reader β} {b : β} :
    (x >>= f) s = .ok b s' ↔ ∃ a s₁, x s = .ok a s₁ ∧ f a s₁ = .ok b s' := by
  change EStateM.bind x f s = _ ↔ _
  unfold EStateM.bind
  rcases x s with ⟨a, s₁⟩ | ⟨e, s₁⟩
  · simp
  · simp

theorem pure_ok {a b : α} : (pure a : Reader α) s = .ok b s' ↔ a = b ∧ s = s' := by
  change EStateM.Result.ok a s = .ok b s' ↔ _
  rw [EStateM.Result.ok.injEq]

theorem modify_ok {f : Reading → Reading} {u : Unit} :
    (modify f : Reader Unit) s = .ok u s' ↔ f s = s' := by
  change EStateM.Result.ok PUnit.unit (f s) = .ok u s' ↔ _
  simp

theorem throwUnless_ok {p : Prop} [Decidable p] {e : Stop} {u : Unit} :
    throwUnless p e s = .ok u s' ↔ p ∧ s = s' := by
  unfold throwUnless
  by_cases h : p
  · rw [if_pos h, pure_ok]
    simp [h]
  · rw [if_neg h]
    change EStateM.Result.error e s = .ok u s' ↔ _
    simp [h]

/-- The bytes `xs` are read, and nothing else happens. -/
def Consumes (s : Reading) (xs : List UInt8) (s' : Reading) : Prop := s.rest = xs ++ s'.rest ∧
    s'.data = s.data

theorem consumes_mk (xs rest : List UInt8) (data : Data) :
    Consumes ⟨xs ++ rest, data⟩ xs ⟨rest, data⟩ := ⟨rfl, rfl⟩

theorem fread_ok {n : ℕ} {buf : List UInt8} (hn : buf.length = n) :
    fread n s = .ok buf s' ↔ Consumes s buf s' := by
  have heq : fread n s = .ok (s.rest.take n) { s with rest := s.rest.drop n } := rfl
  rw [heq, EStateM.Result.ok.injEq, Consumes]
  constructor
  · rintro ⟨rfl, rfl⟩
    exact ⟨(List.take_append_drop n s.rest).symm, rfl⟩
  · rintro ⟨hrest, hdata⟩
    rw [hrest, List.take_left' hn, List.drop_left' hn, ← hdata]
    exact ⟨rfl, rfl⟩

theorem readBytes_ok {n : ℤ} {buf : List UInt8} :
    readBytes n s = .ok buf s' ↔ (buf.length : ℤ) = n ∧ Consumes s buf s' := by
  unfold readBytes
  simp only [bind_ok, throwUnless_ok, pure_ok]
  constructor
  · rintro ⟨_, _, ⟨hn, rfl⟩, _, _, hread, _, _, ⟨hlen, rfl⟩, rfl, rfl⟩
    exact ⟨by omega, (fread_ok hlen).mp hread⟩
  · rintro ⟨hlen, hc⟩
    exact ⟨(), s, ⟨by omega, rfl⟩, buf, s', (fread_ok (by omega)).mpr hc, (), s', ⟨by omega, rfl⟩,
      rfl, rfl⟩

/-- An integer of four bytes in the file. -/
def be32 (v : BitVec 32) : List UInt8 := store .big 4 v.toNat

@[simp] theorem length_be32 (v : BitVec 32) : (be32 v).length = 4 := length_store _ _ _

theorem readInt32_ok {host : Endian} {x : ℤ} :
    readInt32 host s = .ok x s' ↔ ∃ v : BitVec 32, v.toInt = x ∧ Consumes s (be32 v) s' := by
  unfold readInt32
  simp only [bind_ok, throwUnless_ok, pure_ok]
  constructor
  · rintro ⟨buf, _, hread, _, _, ⟨hlen, rfl⟩, rfl, rfl⟩
    refine ⟨_, rfl, ?_⟩
    have hlt : load .big buf < 2 ^ 32 := by simpa [hlen] using load_lt .big buf
    have hbuf : be32 (BitVec.ofNat 32 (toBE host 4 (load host buf))) = buf := by
      rw [be32, toBE_load host hlen, BitVec.toNat_ofNat, Nat.mod_eq_of_lt hlt, store_load .big hlen]
    rw [hbuf]
    exact (fread_ok hlen).mp hread
  · rintro ⟨v, rfl, hc⟩
    refine ⟨be32 v, s', (fread_ok (length_be32 v)).mpr hc, (), s', ⟨length_be32 v, rfl⟩, ?_, rfl⟩
    have hv : load .big (be32 v) = v.toNat := by
      rw [be32, load_store]
      exact Nat.mod_eq_of_lt v.isLt
    rw [toBE_load host (length_be32 v), hv, BitVec.ofNat_toNat, BitVec.setWidth_eq]

theorem readUInt8_ok {x : UInt8} : readUInt8 s = .ok x s' ↔ Consumes s [x] s' := by
  unfold readUInt8
  simp only [bind_ok, throwUnless_ok, pure_ok]
  constructor
  · rintro ⟨buf, _, hread, _, _, ⟨hlen, rfl⟩, rfl, rfl⟩
    obtain ⟨y, rfl⟩ := List.length_eq_one_iff.mp hlen
    exact (fread_ok hlen).mp hread
  · intro hc
    exact ⟨[x], s', (fread_ok rfl).mpr hc, (), s', ⟨rfl, rfl⟩, rfl, rfl⟩

theorem consumes_nil : Consumes s [] s' ↔ s = s' := by
  cases s
  cases s'
  simp [Consumes, eq_comm]

theorem consumes_append {xs ys : List UInt8} :
    (∃ s₁, Consumes s xs s₁ ∧ Consumes s₁ ys s') ↔ Consumes s (xs ++ ys) s' := by
  constructor
  · rintro ⟨s₁, ⟨h1, h2⟩, h3, h4⟩
    exact ⟨by rw [h1, h3, List.append_assoc], h4.trans h2⟩
  · rintro ⟨h1, h2⟩
    exact ⟨⟨ys ++ s'.rest, s.data⟩, ⟨by rw [h1, List.append_assoc], rfl⟩, rfl, h2⟩

theorem readTimes_ok {host : Endian} {n : ℕ} {xs : List ℤ} :
    readTimes host n s = .ok xs s' ↔
      ∃ vs : List (BitVec 32), vs.length = n ∧ vs.map BitVec.toInt = xs ∧
      Consumes s (vs.flatMap be32) s' := by
  induction n generalizing s s' xs with
  | zero =>
    rw [readTimes, pure_ok]
    constructor
    · rintro ⟨rfl, rfl⟩
      exact ⟨[], rfl, rfl, rfl, rfl⟩
    · rintro ⟨vs, hlen, rfl, hc⟩
      obtain rfl := List.length_eq_zero_iff.mp hlen
      exact ⟨rfl, (consumes_nil.mp hc)⟩
  | succ n ih =>
    simp only [readTimes, bind_ok, pure_ok, readInt32_ok, ih]
    constructor
    · rintro ⟨_, s₁, ⟨v, rfl, hv⟩, _, _, ⟨vs, rfl, rfl, hvs⟩, rfl, rfl⟩
      exact ⟨v :: vs, rfl, rfl, consumes_append.mp ⟨s₁, hv, hvs⟩⟩
    · rintro ⟨vs, hlen, rfl, hc⟩
      obtain ⟨v, vs, rfl⟩ := List.exists_cons_of_length_eq_add_one hlen
      obtain ⟨s₁, hv, hvs⟩ := consumes_append.mpr hc
      exact ⟨_, s₁, ⟨v, rfl, hv⟩, _, _, ⟨vs, Nat.succ.inj hlen, rfl, hvs⟩, rfl, rfl⟩

theorem readIndices_ok {n : ℕ} {xs : List UInt8} :
    readIndices n s = .ok xs s' ↔ xs.length = n ∧ Consumes s xs s' := by
  induction n generalizing s s' xs with
  | zero =>
    rw [readIndices, pure_ok]
    constructor
    · rintro ⟨rfl, rfl⟩
      exact ⟨rfl, rfl, rfl⟩
    · rintro ⟨hlen, hc⟩
      obtain rfl := List.length_eq_zero_iff.mp hlen
      exact ⟨rfl, consumes_nil.mp hc⟩
  | succ n ih =>
    simp only [readIndices, bind_ok, pure_ok, readUInt8_ok, ih]
    constructor
    · rintro ⟨x, s₁, hx, xs, _, ⟨rfl, hxs⟩, rfl, rfl⟩
      exact ⟨rfl, consumes_append.mp ⟨s₁, hx, hxs⟩⟩
    · rintro ⟨hlen, hc⟩
      obtain ⟨x, xs, rfl⟩ := List.exists_cons_of_length_eq_add_one hlen
      obtain ⟨s₁, hx, hxs⟩ := consumes_append.mpr (show Consumes s ([x] ++ xs) s' from hc)
      exact ⟨x, s₁, hx, xs, _, ⟨Nat.succ.inj hlen, hxs⟩, rfl, rfl⟩

/-- A local time type in the file. -/
structure TypeRecord where
  gmtoff : BitVec 32
  isdst : UInt8
  abbrind : UInt8
  deriving DecidableEq, Repr

namespace TypeRecord

def bytes (r : TypeRecord) : List UInt8 := be32 r.gmtoff ++ [r.isdst, r.abbrind]

def localtime (r : TypeRecord) : Localtime := ⟨r.gmtoff.toInt, r.isdst ≠ 0, r.abbrind.toNat⟩

end TypeRecord

theorem readTypes_ok {host : Endian} {n : ℕ} {u : Unit} :
    readTypes host n s = .ok u s' ↔
      ∃ rs : List TypeRecord, rs.length = n ∧ s.rest = rs.flatMap TypeRecord.bytes ++ s'.rest ∧
        s'.data =
        { s.data with localtimes := s.data.localtimes ++ rs.map TypeRecord.localtime } := by
  induction n generalizing s with
  | zero =>
    rw [readTypes, pure_ok]
    constructor
    · rintro ⟨-, rfl⟩
      exact ⟨[], rfl, rfl, by simp⟩
    · rintro ⟨rs, hlen, hrest, hdata⟩
      obtain rfl := List.length_eq_zero_iff.mp hlen
      refine ⟨rfl, consumes_nil.mp ⟨hrest, ?_⟩⟩
      rw [hdata]
      simp
  | succ n ih =>
    simp only [readTypes, bind_ok, modify_ok, readInt32_ok, readUInt8_ok, ih]
    constructor
    · rintro ⟨_, s₁, ⟨v, rfl, hv⟩, d, s₂, hd, a, s₃, ha, _, _, rfl, rs, rfl, hrest, hdata⟩
      obtain ⟨hr, hs⟩ : Consumes s (be32 v ++ [d] ++ [a]) s₃ :=
        consumes_append.mp ⟨s₂, consumes_append.mp ⟨s₁, hv, hd⟩, ha⟩
      refine ⟨⟨v, d, a⟩ :: rs, rfl, ?_, ?_⟩
      · have hrest' : s₃.rest = rs.flatMap TypeRecord.bytes ++ s'.rest := hrest
        rw [hr, hrest']
        simp [TypeRecord.bytes]
      · rw [hdata, ← hs]
        simp [TypeRecord.localtime]
    · rintro ⟨rs, hlen, hrest, hdata⟩
      obtain ⟨r, rs, rfl⟩ := List.exists_cons_of_length_eq_add_one hlen
      have hc : Consumes s (be32 r.gmtoff ++ [r.isdst] ++ [r.abbrind])
          ⟨rs.flatMap TypeRecord.bytes ++ s'.rest, s.data⟩ := by
        refine ⟨?_, rfl⟩
        rw [hrest]
        simp [TypeRecord.bytes]
      obtain ⟨s₂, hc', ha⟩ := consumes_append.mpr hc
      obtain ⟨s₁, hv, hd⟩ := consumes_append.mpr hc'
      refine ⟨_, s₁, ⟨r.gmtoff, rfl, hv⟩, r.isdst, s₂, hd, r.abbrind, _, ha, (), _, rfl, rs,
        Nat.succ.inj hlen, rfl, ?_⟩
      rw [hdata]
      simp [TypeRecord.localtime]

theorem addTime_ok {x y z : ℤ} :
    addTime x y s = .ok z s' ↔ Fits 64 (x + y) ∧ x + y = z ∧ s = s' := by
  unfold addTime Checked.add fit
  by_cases h : Fits 64 (x + y)
  · simp [h]
  · simp [h]

theorem offsetAt_ok {i : ℕ} {z : ℤ} :
    offsetAt i s = .ok z s' ↔ (∃ l, s.data.localtimes[i]? = some l ∧ l.gmtOffset = z) ∧ s = s' := by
  unfold offsetAt
  rcases s.data.localtimes[i]? with _ | l
  · simp
  · simp

/-- A transition made of a time and the type it refers to. -/
def joined (types : List Localtime) (p : ℤ × UInt8) : Transition :=
  ⟨p.1, p.1 + ((types[p.2.toNat]?).map Localtime.gmtOffset).getD 0, p.2.toNat⟩

/-- The index of the type is one, and its local time a `time_t`. -/
def Joinable (types : List Localtime) (p : ℤ × UInt8) : Prop :=
  p.2.toNat < types.length ∧ Fits 64 (joined types p).localtime

theorem joinTransitions_ok {ps : List (ℤ × UInt8)} {u : Unit} :
    joinTransitions ps s = .ok u s' ↔
      (∀ p ∈ ps, Joinable s.data.localtimes p) ∧
        s' = { s with
          data.transitions := s.data.transitions ++ ps.map (joined s.data.localtimes) } := by
  induction ps generalizing s with
  | nil => simp [joinTransitions, pure_ok, eq_comm]
  | cons p ps ih =>
    obtain ⟨time, idx⟩ := p
    simp only [joinTransitions, bind_ok, modify_ok, offsetAt_ok, addTime_ok, ih]
    constructor
    · rintro ⟨_, _, ⟨⟨l, hl, rfl⟩, rfl⟩, _, _, ⟨hfits, rfl, rfl⟩, _, _, rfl, hall, rfl⟩
      obtain ⟨hi, -⟩ := List.getElem?_eq_some_iff.mp hl
      have hj : joined s.data.localtimes (time, idx) = ⟨time, time + l.gmtOffset, idx.toNat⟩ := by
        simp [joined, hl]
      refine ⟨List.forall_mem_cons.mpr ⟨⟨hi, hj ▸ hfits⟩, hall⟩, ?_⟩
      rw [List.map_cons, hj]
      simp
    · rintro ⟨hall, rfl⟩
      obtain ⟨⟨hi, hfits⟩, hall⟩ := List.forall_mem_cons.mp hall
      have hl : s.data.localtimes[idx.toNat]? = some s.data.localtimes[idx.toNat] :=
        List.getElem?_eq_getElem hi
      have hj : joined s.data.localtimes (time, idx) =
          ⟨time, time + s.data.localtimes[idx.toNat].gmtOffset, idx.toNat⟩ := by
        simp [joined, hl]
      rw [hj] at hfits
      refine ⟨_, _, ⟨⟨_, hl, rfl⟩, rfl⟩, _, _, ⟨hfits, rfl, rfl⟩, (), _, rfl, hall, ?_⟩
      rw [List.map_cons, hj]
      simp

end Readers

/-! ### The layout of the file -/

/-- A version 1 zone file.  The counts of the file are the lengths of the lists. -/
structure ZoneFile where
  version : UInt8
  reserved : List UInt8
  isgmtcnt : BitVec 32
  isstdcnt : BitVec 32
  leapcnt : BitVec 32
  times : List (BitVec 32 × UInt8)
  types : List TypeRecord
  chars : List UInt8
  trailing : List UInt8
  reserved_length : reserved.length = 15
  times_lt : times.length < 2 ^ 31
  types_lt : types.length < 2 ^ 31
  chars_lt : chars.length < 2 ^ 31
  index_lt : ∀ p ∈ times, p.2.toNat < types.length

namespace ZoneFile

/-- The bytes: magic, version, reserved bytes, the six counts, then all times, all type indices, all
types and the abbreviations. -/
def encode (z : ZoneFile) : List UInt8 :=
  [84, 90, 105, 102] ++ ([z.version] ++ (z.reserved ++
    (be32 z.isgmtcnt ++ (be32 z.isstdcnt ++ (be32 z.leapcnt ++
      (be32 (BitVec.ofNat 32 z.times.length) ++ (be32 (BitVec.ofNat 32 z.types.length) ++
        (be32 (BitVec.ofNat 32 z.chars.length) ++
          ((z.times.map Prod.fst).flatMap be32 ++ (z.times.map Prod.snd ++
            (z.types.flatMap TypeRecord.bytes ++ (z.chars ++ z.trailing))))))))))))

/-- The data of the zone. -/
def data (z : ZoneFile) : Data where
  transitions := z.times.map fun p => joined (z.types.map TypeRecord.localtime) (p.1.toInt, p.2)
  localtimes := z.types.map TypeRecord.localtime
  abbreviation := z.chars

end ZoneFile

theorem toInt_count {n : ℕ} (h : n < 2 ^ 31) : (BitVec.ofNat 32 n).toInt = n := by
  rw [BitVec.toInt_ofNat', Int.bmod_eq_of_le (by push_cast; omega) (by push_cast; omega)]

theorem ofNat_count {v : BitVec 32} (h : 0 ≤ v.toInt) : BitVec.ofNat 32 v.toInt.toNat = v := by
  apply BitVec.eq_of_toInt_eq
  have hlt := BitVec.toInt_lt (x := v)
  rw [toInt_count (by omega)]
  omega

/-- Times and offsets of 32 bits cannot overflow a `time_t`. -/
theorem fits_localtime (v : BitVec 32) (r : TypeRecord) :
    Fits 64 (v.toInt + r.localtime.gmtOffset) := by
  have h1 := BitVec.toInt_lt (x := v)
  have h2 := BitVec.le_toInt v
  have h3 := BitVec.toInt_lt (x := r.gmtoff)
  have h4 := BitVec.le_toInt r.gmtoff
  unfold Fits TypeRecord.localtime
  norm_num at h1 h2 h3 h4 ⊢
  omega

theorem joinable_time {rs : List TypeRecord} {v : BitVec 32} {i : UInt8} (h : i.toNat < rs.length) :
    Joinable (rs.map TypeRecord.localtime) (v.toInt, i) := by
  refine ⟨by simpa using h, ?_⟩
  have hj : (joined (rs.map TypeRecord.localtime) (v.toInt, i)).localtime =
      v.toInt + rs[i.toNat].localtime.gmtOffset := by
    simp [joined, List.getElem?_eq_getElem h]
  rw [hj]
  exact fits_localtime v _

theorem zip_times (times : List (BitVec 32 × UInt8)) :
    ((times.map Prod.fst).map BitVec.toInt).zip (times.map Prod.snd) = times.map fun p =>
    (p.1.toInt, p.2) := by
  rw [List.map_map, List.zip_map']
  rfl

/-- Reading an encoded zone file. -/
theorem readZone_encode (host : Endian) (z : ZoneFile) :
    readZone host ⟨z.encode, Data.empty⟩ = .ok () ⟨z.trailing, z.data⟩ := by
  have htimes := toInt_count z.times_lt
  have htypes := toInt_count z.types_lt
  have hchars := toInt_count z.chars_lt
  unfold readZone
  refine bind_ok.mpr ⟨_, _, readBytes_ok.mpr ⟨rfl, consumes_mk _ _ _⟩, ?_⟩
  refine bind_ok.mpr ⟨(), _, throwUnless_ok.mpr ⟨rfl, rfl⟩, ?_⟩
  refine bind_ok.mpr ⟨_, _, readBytes_ok.mpr ⟨rfl, consumes_mk _ _ _⟩, ?_⟩
  refine bind_ok.mpr ⟨_, _, readBytes_ok.mpr ⟨by rw [z.reserved_length]; rfl, consumes_mk _ _ _⟩,
    ?_⟩
  refine bind_ok.mpr ⟨_, _, readInt32_ok.mpr ⟨z.isgmtcnt, rfl, consumes_mk _ _ _⟩, ?_⟩
  refine bind_ok.mpr ⟨_, _, readInt32_ok.mpr ⟨z.isstdcnt, rfl, consumes_mk _ _ _⟩, ?_⟩
  refine bind_ok.mpr ⟨_, _, readInt32_ok.mpr ⟨z.leapcnt, rfl, consumes_mk _ _ _⟩, ?_⟩
  refine bind_ok.mpr ⟨_, _, readInt32_ok.mpr ⟨_, htimes, consumes_mk _ _ _⟩, ?_⟩
  refine bind_ok.mpr ⟨_, _, readInt32_ok.mpr ⟨_, htypes, consumes_mk _ _ _⟩, ?_⟩
  refine bind_ok.mpr ⟨_, _, readInt32_ok.mpr ⟨_, hchars, consumes_mk _ _ _⟩, ?_⟩
  refine bind_ok.mpr ⟨(), _, throwUnless_ok.mpr ⟨Int.natCast_nonneg _, rfl⟩, ?_⟩
  refine bind_ok.mpr
    ⟨_, _, readTimes_ok.mpr ⟨z.times.map Prod.fst, by simp, rfl, consumes_mk _ _ _⟩, ?_⟩
  refine bind_ok.mpr ⟨_, _, readIndices_ok.mpr ⟨by simp, consumes_mk _ _ _⟩, ?_⟩
  refine bind_ok.mpr ⟨(), ⟨z.chars ++ z.trailing, ⟨[], z.types.map TypeRecord.localtime, []⟩⟩,
    readTypes_ok.mpr ⟨z.types, by simp, rfl, rfl⟩, ?_⟩
  rw [zip_times]
  refine bind_ok.mpr ⟨(), _, joinTransitions_ok.mpr ⟨?_, rfl⟩, ?_⟩
  · intro p hp
    obtain ⟨q, hq, rfl⟩ := List.mem_map.mp hp
    exact joinable_time (z.index_lt q hq)
  refine bind_ok.mpr ⟨_, _, readBytes_ok.mpr ⟨rfl, consumes_mk _ _ _⟩, ?_⟩
  refine modify_ok.mpr ?_
  simp only [ZoneFile.data, List.map_map, List.nil_append]
  rfl

/-- A file that is read to its end, with at least one type, is an encoded one. -/
theorem exists_encode_of_readZone {host : Endian} {bytes : List UInt8} {u : Unit} {s' : Reading}
    (h : readZone host ⟨bytes, Data.empty⟩ = .ok u s') (hne : s'.data.localtimes ≠ []) :
    ∃ z : ZoneFile, bytes = z.encode ∧ s'.data = z.data := by
  unfold readZone at h
  obtain ⟨head, s1, h1, h⟩ := bind_ok.mp h
  obtain ⟨-, hr1, hd1⟩ := readBytes_ok.mp h1
  obtain ⟨_, _, h2, h⟩ := bind_ok.mp h
  obtain ⟨rfl, rfl⟩ := throwUnless_ok.mp h2
  obtain ⟨version, s2, h3, h⟩ := bind_ok.mp h
  obtain ⟨hversion, hr2, hd2⟩ := readBytes_ok.mp h3
  obtain ⟨v, rfl⟩ := List.length_eq_one_iff.mp (show version.length = 1 by omega)
  obtain ⟨reserved, s3, h4, h⟩ := bind_ok.mp h
  obtain ⟨hreserved, hr3, hd3⟩ := readBytes_ok.mp h4
  obtain ⟨_, s4, h5, h⟩ := bind_ok.mp h
  obtain ⟨isgmtcnt, rfl, hr4, hd4⟩ := readInt32_ok.mp h5
  obtain ⟨_, s5, h6, h⟩ := bind_ok.mp h
  obtain ⟨isstdcnt, rfl, hr5, hd5⟩ := readInt32_ok.mp h6
  obtain ⟨_, s6, h7, h⟩ := bind_ok.mp h
  obtain ⟨leapcnt, rfl, hr6, hd6⟩ := readInt32_ok.mp h7
  obtain ⟨_, s7, h8, h⟩ := bind_ok.mp h
  obtain ⟨timecnt, rfl, hr7, hd7⟩ := readInt32_ok.mp h8
  obtain ⟨_, s8, h9, h⟩ := bind_ok.mp h
  obtain ⟨typecnt, rfl, hr8, hd8⟩ := readInt32_ok.mp h9
  obtain ⟨_, s9, h10, h⟩ := bind_ok.mp h
  obtain ⟨charcnt, rfl, hr9, hd9⟩ := readInt32_ok.mp h10
  obtain ⟨_, _, h11, h⟩ := bind_ok.mp h
  obtain ⟨htimecnt, rfl⟩ := throwUnless_ok.mp h11
  obtain ⟨_, s10, h12, h⟩ := bind_ok.mp h
  obtain ⟨times, htimes, rfl, hr10, hd10⟩ := readTimes_ok.mp h12
  obtain ⟨indices, s11, h13, h⟩ := bind_ok.mp h
  obtain ⟨hindices, hr11, hd11⟩ := readIndices_ok.mp h13
  obtain ⟨_, s12, h14, h⟩ := bind_ok.mp h
  obtain ⟨types, htypes, hr12, hd12⟩ := readTypes_ok.mp h14
  obtain ⟨_, _, h15, h⟩ := bind_ok.mp h
  obtain ⟨hjoin, rfl⟩ := joinTransitions_ok.mp h15
  obtain ⟨chars, s14, h16, h⟩ := bind_ok.mp h
  obtain ⟨hchars, hr14, hd14⟩ := readBytes_ok.mp h16
  obtain rfl := modify_ok.mp h
  -- the data before the types is that of a fresh zone
  have hempty : s11.data = Data.empty := by
    rw [hd11, hd10, hd9, hd8, hd7, hd6, hd5, hd4, hd3, hd2, hd1]
  rw [hempty] at hd12
  have hlt12 : s12.data.localtimes = types.map TypeRecord.localtime := by rw [hd12]; rfl
  have htr12 : s12.data.transitions = [] := by rw [hd12]; rfl
  obtain ⟨tz, rfl, rfl⟩ :
      ∃ tz : List (BitVec 32 × UInt8), tz.map Prod.fst = times ∧ tz.map Prod.snd = indices :=
    ⟨times.zip indices, List.map_fst_zip (by omega), List.map_snd_zip (by omega)⟩
  rw [List.length_map] at htimes
  rw [hlt12, zip_times] at hjoin
  rw [hlt12, htr12, zip_times] at hd14
  have htypecnt : 0 ≤ typecnt.toInt := by
    have hpos : types ≠ [] := by
      rintro rfl
      apply hne
      rw [hd14]
      exact hlt12
    have := List.length_pos_iff.mpr hpos
    omega
  have hlt7 := BitVec.toInt_lt (x := timecnt)
  have hlt8 := BitVec.toInt_lt (x := typecnt)
  have hlt9 := BitVec.toInt_lt (x := charcnt)
  have hcharcnt : chars.length = charcnt.toInt.toNat := by omega
  refine ⟨⟨v, reserved, isgmtcnt, isstdcnt, leapcnt, tz, types, chars,
    s14.rest, by omega, by omega, by omega, by omega, ?_⟩, ?_, ?_⟩
  · intro q hq
    simpa using (hjoin _ (List.mem_map_of_mem hq)).1
  · have hr14' : s12.rest = chars ++ s14.rest := hr14
    have hr1' : bytes = [84, 90, 105, 102] ++ s1.rest := hr1
    simp only [ZoneFile.encode]
    rw [htimes, htypes, hcharcnt, ofNat_count htimecnt, ofNat_count htypecnt,
      ofNat_count (by omega), ← hr14', ← hr12,
      ← hr11, ← hr10, ← hr9, ← hr8, ← hr7, ← hr6, ← hr5, ← hr4, ← hr3, ← hr2, ← hr1']
  · simp only [hd14, hlt12, ZoneFile.data, List.map_map, List.nil_append]
    rfl

/-- Decoding undoes the encoding: the transitions come in file order with the time extended to 64
bits, its local time and its type, and the types and the abbreviations are those of the file. -/
theorem readTimeZoneFile_encode (host : Endian) (z : ZoneFile) :
    ∃ data, readTimeZoneFile host (some z.encode) Data.empty = some (true, data) ∧
      data.transitions.length = z.times.length ∧
      (∀ (k : ℕ) (time : BitVec 32) (idx : UInt8), z.times[k]? = some (time, idx) →
        ∃ r, z.types[idx.toNat]? = some r ∧ Fits 64 (time.toInt + r.gmtoff.toInt) ∧
          data.transitions[k]? = some ⟨time.toInt, time.toInt + r.gmtoff.toInt, idx.toNat⟩) ∧
      data.localtimes = z.types.map (fun r => ⟨r.gmtoff.toInt, r.isdst ≠ 0, r.abbrind.toNat⟩) ∧
      data.abbreviation = z.chars := by
  refine ⟨z.data, ?_, by simp [ZoneFile.data], ?_, rfl, rfl⟩
  · simp only [readTimeZoneFile, readZone_encode]
  · intro k time idx hk
    have hidx : idx.toNat < z.types.length := z.index_lt _ (List.mem_of_getElem? hk)
    refine ⟨_, List.getElem?_eq_getElem hidx, fits_localtime time _, ?_⟩
    simp [ZoneFile.data, hk, joined, TypeRecord.localtime, List.getElem?_eq_getElem hidx]

/-- One transition to the only type, an hour east. -/
def smallFile : ZoneFile where
  version := 0
  reserved := List.replicate 15 0
  isgmtcnt := 1
  isstdcnt := 1
  leapcnt := 0
  times := [(-1, 0)]
  types := [⟨3600, 0, 0⟩]
  chars := [67, 69, 84, 0]
  trailing := [0, 0]
  reserved_length := by decide
  times_lt := by norm_num
  types_lt := by norm_num
  chars_lt := by norm_num
  index_lt := by simp

example : readTimeZoneFile .little (some smallFile.encode) Data.empty =
    some (true, ⟨[⟨-1, 3599, 0⟩], [⟨3600, false, 0⟩], [67, 69, 84, 0]⟩) := by decide +kernel

/-! ### Files that are not zone files -/

section Frame

variable {α β : Type}

/-- The state in which a reader ends, also when it throws. -/
def after : EStateM.Result Stop Reading α → Reading
  | .ok _ s => s
  | .error _ s => s

/-- A reader that leaves the abbreviations alone. -/
def Keeps (x : Reader α) : Prop := ∀ s, (after (x s)).data.abbreviation = s.data.abbreviation

/-- A reader that leaves them alone when it throws. -/
def FailsKeeping (x : Reader α) : Prop :=
  ∀ s e s', x s = .error e s' → s'.data.abbreviation = s.data.abbreviation

theorem Keeps.bind {x : Reader α} {f : α → Reader β} (hx : Keeps x) (hf : ∀ a, Keeps (f a)) :
    Keeps (x >>= f) := by
  intro s
  have h := hx s
  change (after (EStateM.bind x f s)).data.abbreviation = _
  unfold EStateM.bind
  rcases hxs : x s with ⟨a, s₁⟩ | ⟨e, s₁⟩
  · rw [hxs] at h
    exact (hf a s₁).trans h
  · rw [hxs] at h
    exact h

theorem Keeps.failsKeeping_bind {x : Reader α} {f : α → Reader β} (hx : Keeps x)
    (hf : ∀ a, FailsKeeping (f a)) :
    FailsKeeping (x >>= f) := by
  intro s e s' h
  have hs := hx s
  change EStateM.bind x f s = _ at h
  unfold EStateM.bind at h
  rcases hxs : x s with ⟨a, s₁⟩ | ⟨e₁, s₁⟩
  · rw [hxs] at h hs
    exact (hf a s₁ e s' h).trans hs
  · rw [hxs] at h hs
    obtain ⟨-, rfl⟩ := EStateM.Result.error.inj h
    exact hs

theorem keeps_pure (a : α) : Keeps (pure a : Reader α) := fun _ => rfl

theorem keeps_throwUnless (p : Prop) [Decidable p] (e : Stop) : Keeps (throwUnless p e) := by
  intro s
  unfold throwUnless
  split_ifs <;> rfl

theorem keeps_fread (n : ℕ) : Keeps (fread n) := fun _ => rfl

theorem keeps_readBytes (n : ℤ) : Keeps (readBytes n) :=
  (keeps_throwUnless _ _).bind fun _ => (keeps_fread _).bind fun _ =>
  (keeps_throwUnless _ _).bind fun _ => keeps_pure _

theorem keeps_readInt32 (host : Endian) : Keeps (readInt32 host) :=
  (keeps_fread _).bind fun _ => (keeps_throwUnless _ _).bind fun _ => keeps_pure _

theorem keeps_readUInt8 : Keeps readUInt8 :=
  (keeps_fread _).bind fun _ => (keeps_throwUnless _ _).bind fun _ => keeps_pure _

theorem keeps_readTimes (host : Endian) (n : ℕ) : Keeps (readTimes host n) := by
  induction n with
  | zero => exact keeps_pure _
  | succ n ih => exact (keeps_readInt32 host).bind fun _ => ih.bind fun _ => keeps_pure _

theorem keeps_readIndices (n : ℕ) : Keeps (readIndices n) := by
  induction n with
  | zero => exact keeps_pure _
  | succ n ih => exact keeps_readUInt8.bind fun _ => ih.bind fun _ => keeps_pure _

theorem keeps_readTypes (host : Endian) (n : ℕ) : Keeps (readTypes host n) := by
  induction n with
  | zero => exact keeps_pure _
  | succ n ih =>
    refine (keeps_readInt32 host).bind fun _ => keeps_readUInt8.bind fun _ =>
      keeps_readUInt8.bind fun _ => ?_
    exact Keeps.bind (fun _ => rfl) fun _ => ih

theorem keeps_joinTransitions (ps : List (ℤ × UInt8)) : Keeps (joinTransitions ps) := by
  induction ps with
  | nil => exact keeps_pure _
  | cons p ps ih =>
    have hoff : ∀ i, Keeps (offsetAt i) := by
      intro i s
      unfold offsetAt
      rcases s.data.localtimes[i]? with _ | l <;> rfl
    have hadd : ∀ x y, Keeps (addTime x y) := by
      intro x y s
      unfold addTime
      rcases Checked.add 64 x y with _ | z <;> rfl
    exact (hoff _).bind fun _ => (hadd _ _).bind fun _ => Keeps.bind (fun _ => rfl) fun _ => ih

/-- The abbreviations are read last, so an exception leaves them empty. -/
theorem failsKeeping_readZone (host : Endian) : FailsKeeping (readZone host) := by
  unfold readZone
  refine (keeps_readBytes 4).failsKeeping_bind fun _ => ?_
  refine (keeps_throwUnless _ _).failsKeeping_bind fun _ => ?_
  refine (keeps_readBytes 1).failsKeeping_bind fun _ => ?_
  refine (keeps_readBytes 15).failsKeeping_bind fun _ => ?_
  refine (keeps_readInt32 host).failsKeeping_bind fun _ => ?_
  refine (keeps_readInt32 host).failsKeeping_bind fun _ => ?_
  refine (keeps_readInt32 host).failsKeeping_bind fun _ => ?_
  refine (keeps_readInt32 host).failsKeeping_bind fun _ => ?_
  refine (keeps_readInt32 host).failsKeeping_bind fun _ => ?_
  refine (keeps_readInt32 host).failsKeeping_bind fun _ => ?_
  refine (keeps_throwUnless _ _).failsKeeping_bind fun _ => ?_
  refine (keeps_readTimes host _).failsKeeping_bind fun _ => ?_
  refine (keeps_readIndices _).failsKeeping_bind fun _ => ?_
  refine (keeps_readTypes host _).failsKeeping_bind fun _ => ?_
  refine (keeps_joinTransitions _).failsKeeping_bind fun _ => ?_
  refine (keeps_readBytes _).failsKeeping_bind fun _ => ?_
  -- the assignment does not throw
  intro s e s' h
  cases h

end Frame

/-- Every index held in the data is one of the vector it is meant for. -/
structure WellIndexed (data : Data) : Prop where
  types : data.localtimes ≠ []
  transitions : ∀ tr ∈ data.transitions, tr.localtimeIdx < data.localtimes.length
  abbreviations : ∀ l ∈ data.localtimes, l.arrbIdx < data.abbreviation.length

/-- Then every search ends at a type, and its abbreviation exists: these are the accesses of
`toLocalTime` and `fromLocalTime`. -/
theorem WellIndexed.findLocaltime {data : Data} (h : WellIndexed data) (sentry : Transition)
    (comp : Comp) :
    ∃ l, findLocaltime data sentry comp = some l ∧ l.arrbIdx < data.abbreviation.length := by
  obtain ⟨l, hl, hfind⟩ := exists_findLocaltime h.types h.transitions sentry comp
  exact ⟨l, hfind, h.abbreviations l hl⟩

/-- The constructor has not left a vector, and a zone that says it is valid has usable data: no
access of `toLocalTime` or `fromLocalTime` leaves a vector either. -/
def LoadsSafely (host : Endian) (zonefile : Option (List UInt8)) : Prop :=
  ∃ data_, timeZone host zonefile = some data_ ∧ ∀ data, data_ = some data →
    WellIndexed data ∧ ∀ sentry comp, ∃ l, findLocaltime data sentry comp = some l ∧
      l.arrbIdx < data.abbreviation.length

/-- Only a complete zone file with types, whose indices are all in range, is loaded safely: the
function never reports failure. -/
theorem loadsSafely_iff (host : Endian) (zonefile : Option (List UInt8)) :
    LoadsSafely host zonefile ↔
      ∃ z : ZoneFile, zonefile = some z.encode ∧ z.types ≠ [] ∧ ∀ r ∈ z.types,
      r.abbrind.toNat < z.chars.length := by
  constructor
  · rintro ⟨data_, hload, hsafe⟩
    -- whatever was read counts as valid
    have hvalid : ∀ data, readTimeZoneFile host zonefile Data.empty = some (true, data) →
        WellIndexed data := by
      intro data h
      rw [timeZone, h] at hload
      exact (hsafe data (Option.some.inj hload).symm).1
    rcases zonefile with _ | bytes
    · exact absurd rfl (hvalid Data.empty rfl).types
    · rcases hread : readZone host ⟨bytes, Data.empty⟩ with ⟨u, s⟩ | ⟨e, s⟩
      · have hw := hvalid s.data (by simp only [readTimeZoneFile, hread])
        obtain ⟨z, rfl, hdata⟩ := exists_encode_of_readZone hread hw.types
        rw [hdata] at hw
        refine ⟨z, rfl, fun h => hw.types (by simp [ZoneFile.data, h]), fun r hr => ?_⟩
        exact hw.abbreviations r.localtime (List.mem_map_of_mem hr)
      · cases e with
        | undefined =>
          rw [timeZone] at hload
          simp [readTimeZoneFile, hread] at hload
        | logic_error what =>
          have hw := hvalid s.data (by simp only [readTimeZoneFile, hread])
          obtain ⟨l, rest, hl⟩ := List.exists_cons_of_ne_nil hw.types
          have hlt := hw.abbreviations l (by rw [hl]; exact List.mem_cons_self)
          rw [failsKeeping_readZone host _ _ _ hread] at hlt
          exact absurd hlt (Nat.not_lt_zero _)
  · rintro ⟨z, rfl, htypes, habbr⟩
    have hread : readTimeZoneFile host (some z.encode) Data.empty = some (true, z.data) := by
      simp only [readTimeZoneFile, readZone_encode]
    have hw : WellIndexed z.data := by
      refine ⟨by simpa [ZoneFile.data] using htypes, ?_, ?_⟩
      · intro tr htr
        obtain ⟨p, hp, rfl⟩ := List.mem_map.mp htr
        simpa [ZoneFile.data, joined] using z.index_lt p hp
      · intro l hl
        obtain ⟨r, hr, rfl⟩ := List.mem_map.mp hl
        exact habbr r hr
    refine ⟨some z.data, by rw [timeZone, hread]; rfl, ?_⟩
    intro data hdata
    obtain rfl := Option.some.inj hdata
    exact ⟨hw, hw.findLocaltime⟩

/-- A header that announces one transition and no type. -/
def typelessFile : List UInt8 :=
  [84, 90, 105, 102] ++ List.replicate 16 0 ++ List.replicate 12 0 ++ [0, 0, 0, 1] ++
  List.replicate 8 0 ++
    List.replicate 5 0

/-- A file that cannot be opened gives a zone that says it is valid and has no local time type; a
file whose transition refers to a type it does not have makes the reader itself leave the vector. -/
theorem missing_file_loads_unsafely :
    timeZone .little none = some (some Data.empty) ∧ ¬ LoadsSafely .little none ∧
      timeZone .little (some typelessFile) = none ∧ ¬ LoadsSafely .little (some typelessFile) := by
  have hnone : timeZone .little (some typelessFile) = none := by decide +kernel
  refine ⟨rfl, ?_, hnone, ?_⟩
  · rintro ⟨data_, hload, hsafe⟩
    exact (hsafe Data.empty (Option.some.inj hload).symm).1.types rfl
  · rintro ⟨data_, hload, -⟩
    rw [hnone] at hload
    cases hload

end Muduo.Base
