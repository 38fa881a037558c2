import Muduo.Base.UtcTime
import Muduo.Lib.BinarySearch

/-!
# `muduo::TimeZone`: local time

A zone is a list of transitions, each with the index of the local time type that holds from
it on.  `findLocaltime` searches the transitions by UTC or by local time; `toLocalTime`
searches by UTC, `fromLocalTime` by local time and then repairs the hour that is repeated
when daylight saving time ends.

An access outside a vector has no result, so `findLocaltime` and what uses it are `Option`s.
`time_t` is ℤ here: the two functions of the C library, which are parameters, have no results near
the ends of its 64 bits.

`DstZone` is the shape of zone the 3600-second correction is written for;
`local_time_round_trip` is the round trip.
-/

namespace Muduo.Base

open Muduo.Lib

structure Transition where
  gmttime : ℤ
  localtime : ℤ
  localtimeIdx : ℕ
  deriving DecidableEq, Repr

structure Localtime where
  gmtOffset : ℤ
  isDst : Bool
  arrbIdx : ℕ
  deriving DecidableEq, Repr

structure Comp where
  compareGmt : Bool

namespace Comp

/-- `operator()`. -/
def less (comp : Comp) (lhs rhs : Transition) : Bool :=
  if comp.compareGmt then lhs.gmttime < rhs.gmttime else lhs.localtime < rhs.localtime

def equal (comp : Comp) (lhs rhs : Transition) : Bool :=
  if comp.compareGmt then lhs.gmttime == rhs.gmttime else lhs.localtime == rhs.localtime

/-- The time that is compared. -/
def key (comp : Comp) (tr : Transition) : ℤ := if comp.compareGmt then tr.gmttime else tr.localtime

theorem less_iff (comp : Comp) (lhs rhs : Transition) :
    comp.less lhs rhs = true ↔ comp.key lhs < comp.key rhs := by
  unfold less key
  cases comp.compareGmt <;> simp

theorem equal_iff (comp : Comp) (lhs rhs : Transition) :
    comp.equal lhs rhs = true ↔ comp.key lhs = comp.key rhs := by
  unfold equal key
  cases comp.compareGmt <;> simp

end Comp

/-- `TimeZone::Data`, without the member `names` that no function uses. -/
structure Data where
  transitions : List Transition
  localtimes : List Localtime
  abbreviation : List UInt8
  deriving DecidableEq, Repr

/-- `&data.localtimes[tr.localtimeIdx]`. -/
def Data.localtimeOf (data : Data) (tr : Transition) : Option Localtime :=
    data.localtimes[tr.localtimeIdx]?

/-- `lower_bound` over the transitions. -/
def Data.lowerBound (data : Data) (sentry : Transition) (comp : Comp) : ℕ :=
  Lib.lowerBound (fun i => (data.transitions[i]?).any (comp.less · sentry)) data.transitions.length

def findLocaltime (data : Data) (sentry : Transition) (comp : Comp) : Option Localtime :=
  match data.transitions.head? with
  | none => data.localtimes.head?
  | some front =>
    if comp.less sentry front then data.localtimes.head?
    else
      let k := data.lowerBound sentry comp
      match data.transitions[k]? with
      | some tr =>
        if comp.equal sentry tr then data.localtimeOf tr
        -- `--transI`, which leaves the vector at its front
        else if k = 0 then none
        else data.transitions[k - 1]? >>= data.localtimeOf
      | none => data.transitions.getLast? >>= data.localtimeOf

section Library

-- the two functions of the C library
variable (gmtime_r : ℤ → Tm) (timegm : Tm → ℤ)

def toLocalTime (data : Data) (seconds : ℤ) : Option Tm := do
  let sentry : Transition := ⟨seconds, 0, 0⟩
  let lt ← findLocaltime data sentry ⟨true⟩
  let localSeconds := seconds + lt.gmtOffset
  return { gmtime_r localSeconds with
    tm_isdst := lt.isDst.toNat
    tm_gmtoff := lt.gmtOffset
    tm_zone := data.abbreviation.drop lt.arrbIdx }

def fromLocalTime (data : Data) (localTm : Tm) : Option ℤ := do
  let seconds := timegm localTm
  let sentry : Transition := ⟨0, seconds, 0⟩
  let lt ← findLocaltime data sentry ⟨false⟩
  if localTm.tm_isdst ≠ 0 then
    let tryTm ← toLocalTime gmtime_r data (seconds - lt.gmtOffset)
    if tryTm.tm_isdst = 0 ∧ tryTm.tm_hour = localTm.tm_hour ∧ tryTm.tm_min = localTm.tm_min then
      return seconds - 3600 - lt.gmtOffset
    else
      return seconds - lt.gmtOffset
  else
    return seconds - lt.gmtOffset

/-- `timegm` reads the date and the time of day only, and inverts `gmtime_r`. -/
def Inverse : Prop :=
  ∀ s isdst gmtoff zone,
    timegm { gmtime_r s with tm_isdst := isdst, tm_gmtoff := gmtoff, tm_zone := zone } = s

end Library

/-! ### What the search finds -/

/-- The `i`-th transition is the last one at or before `v`. -/
structure Covers (data : Data) (comp : Comp) (v : ℤ) (i : ℕ) (tr : Transition) : Prop where
  at_i : data.transitions[i]? = some tr
  le : comp.key tr ≤ v
  lt : ∀ tr', data.transitions[i + 1]? = some tr' → v < comp.key tr'

/-- Transitions in order of the time compared. -/
def Sorted (data : Data) (comp : Comp) : Prop :=
  data.transitions.Pairwise fun a b => comp.key a < comp.key b

theorem Sorted.lt {data : Data} {comp : Comp} (h : Sorted data comp) {i j : ℕ} {a b : Transition}
    (hij : i < j)
    (ha : data.transitions[i]? = some a) (hb : data.transitions[j]? = some b) :
    comp.key a < comp.key b := by
  obtain ⟨hi, rfl⟩ := List.getElem?_eq_some_iff.mp ha
  obtain ⟨hj, rfl⟩ := List.getElem?_eq_some_iff.mp hb
  exact List.pairwise_iff_getElem.mp h i j hi hj hij

/-- At most one transition covers a time. -/
theorem Covers.unique {data : Data} {comp : Comp} (hs : Sorted data comp) {v : ℤ} {i j : ℕ}
    {a b : Transition} (ha : Covers data comp v i a) (hb : Covers data comp v j b) : a = b := by
  have hle : ∀ {i j : ℕ} {a b : Transition}, Covers data comp v i a → Covers data comp v j b →
      ¬ i < j := by
    intro i j a b ha hb hij
    obtain ⟨hj, -⟩ := List.getElem?_eq_some_iff.mp hb.at_i
    have hnext := ha.lt _ (List.getElem?_eq_getElem (show i + 1 < data.transitions.length by omega))
    rcases Nat.lt_or_ge (i + 1) j with hlt | hge
    · have := hs.lt hlt (List.getElem?_eq_getElem (by omega)) hb.at_i
      have := hb.le
      omega
    · obtain rfl : j = i + 1 := by omega
      have heq := hb.at_i
      rw [List.getElem?_eq_getElem (by omega)] at heq
      have := hb.le
      rw [← Option.some.inj heq] at this
      omega
  have hij : i = j := by
    have := hle ha hb
    have := hle hb ha
    omega
  subst hij
  exact Option.some.inj (ha.at_i.symm.trans hb.at_i)

/-- From the first transition on some transition covers the time. -/
theorem exists_covers {data : Data} (comp : Comp) {v : ℤ} {first : Transition}
    (hfirst : data.transitions.head? = some first) (hle : comp.key first ≤ v) :
    ∃ i tr, Covers data comp v i tr := by
  -- as long as the next transition is not later, go on to it
  have key : ∀ n i tr, data.transitions.length ≤ i + n → data.transitions[i]? = some tr →
    comp.key tr ≤ v →
      ∃ i tr, Covers data comp v i tr := by
    intro n
    induction n with
    | zero =>
      intro i tr hn hi _
      obtain ⟨hlt, -⟩ := List.getElem?_eq_some_iff.mp hi
      omega
    | succ n ih =>
      intro i tr hn hi htr
      rcases hnext : data.transitions[i + 1]? with _ | tr'
      · exact ⟨i, tr, hi, htr, by simp [hnext]⟩
      · rcases lt_or_ge v (comp.key tr') with hlt | hge
        · refine ⟨i, tr, hi, htr, fun tr'' h => ?_⟩
          obtain rfl : tr' = tr'' := by simpa [hnext] using h
          exact hlt
        · exact ih (i + 1) tr' (by omega) hnext hge
  rw [List.head?_eq_getElem?] at hfirst
  exact key data.transitions.length 0 first (by omega) hfirst hle

section LowerBound

variable (data : Data) (sentry : Transition) (comp : Comp)

theorem isCut_lowerBound_data :
    IsCut (fun i => (data.transitions[i]?).any (comp.less · sentry)) data.transitions.length
      (data.lowerBound sentry comp) :=
  isCut_lowerBound ..

/-- The transition before the position found is earlier than the one sought. -/
theorem key_lt_of_lowerBound {tr : Transition} (hpos : 0 < data.lowerBound sentry comp)
    (htr : data.transitions[data.lowerBound sentry comp - 1]? = some tr) :
    comp.key tr < comp.key sentry := by
  have hbelow := (isCut_lowerBound_data data sentry comp).below_pred hpos
  rw [htr] at hbelow
  exact (comp.less_iff tr sentry).mp hbelow

/-- The transition at the position found is not. -/
theorem le_key_of_lowerBound {tr : Transition}
    (htr : data.transitions[data.lowerBound sentry comp]? = some tr) :
    comp.key sentry ≤ comp.key tr := by
  obtain ⟨hlen, -⟩ := List.getElem?_eq_some_iff.mp htr
  have hnot := (isCut_lowerBound_data data sentry comp).not_below hlen
  rw [htr] at hnot
  exact not_lt.mp fun h => Bool.false_ne_true (hnot.symm.trans ((comp.less_iff tr sentry).mpr h))

/-- The decrement of the position found stays inside the vector: unless the front is later than the
transition sought, only a transition at the same time is found at the front. -/
theorem lowerBound_pos {front tr : Transition} (hfront : data.transitions.head? = some front)
    (hle : comp.key front ≤ comp.key sentry)
    (htr : data.transitions[data.lowerBound sentry comp]? = some tr)
    (hne : comp.key sentry ≠ comp.key tr) : 0 < data.lowerBound sentry comp := by
  have hge := le_key_of_lowerBound data sentry comp htr
  rcases Nat.eq_zero_or_pos (data.lowerBound sentry comp) with hzero | hpos
  · rw [hzero, ← List.head?_eq_getElem?, hfront] at htr
    obtain rfl : front = tr := Option.some.inj htr
    omega
  · exact hpos

end LowerBound

/-- Whatever the order of the transitions, the search stays inside the vector: unless the
front is later, it ends at a transition that is not, and that is at the time sought or
followed by a later one. -/
theorem findLocaltime_cases (data : Data) (sentry : Transition) (comp : Comp) :
    (findLocaltime data sentry comp = data.localtimes.head? ∧
      ∀ front, data.transitions.head? = some front → comp.key sentry < comp.key front) ∨
    ∃ i tr, findLocaltime data sentry comp = data.localtimeOf tr ∧ data.transitions[i]? = some tr ∧
      comp.key tr ≤ comp.key sentry ∧ (comp.key tr = comp.key sentry ∨
        ∀ tr', data.transitions[i + 1]? = some tr' → comp.key sentry < comp.key tr') := by
  unfold findLocaltime
  rcases hhead : data.transitions.head? with _ | front
  · exact .inl ⟨rfl, by simp⟩
  · by_cases hlt : comp.less sentry front = true
    · refine .inl ⟨by simp [hlt], fun front' h => ?_⟩
      obtain rfl := Option.some.inj h
      exact (comp.less_iff sentry front).mp hlt
    · right
      have hfront : comp.key front ≤ comp.key sentry := not_lt.mp fun h =>
        hlt ((comp.less_iff sentry front).mpr h)
      have hpred := fun tr => @key_lt_of_lowerBound data sentry comp tr
      have hat := fun tr => @le_key_of_lowerBound data sentry comp tr
      have hk := (isCut_lowerBound_data data sentry comp).le
      have hstep := fun tr => @lowerBound_pos data sentry comp front tr hhead hfront
      rw [List.head?_eq_getElem?] at hhead
      simp only [hlt, Bool.false_eq_true, if_false]
      generalize data.lowerBound sentry comp = k at hpred hat hk hstep ⊢
      rcases htr : data.transitions[k]? with _ | tr
      · -- past the end: the last transition
        have hn : k = data.transitions.length := hk.antisymm (List.getElem?_eq_none_iff.mp htr)
        obtain ⟨h0, -⟩ := List.getElem?_eq_some_iff.mp hhead
        obtain ⟨last, hlast⟩ : ∃ tr, data.transitions[k - 1]? = some tr :=
          ⟨_, List.getElem?_eq_getElem (by omega)⟩
        refine ⟨k - 1, last, ?_, hlast, (hpred _ (by omega) hlast).le, .inr fun tr' h => ?_⟩
        · dsimp only
          rw [List.getLast?_eq_getElem?, ← hn, hlast]
          rfl
        · obtain ⟨h1, -⟩ := List.getElem?_eq_some_iff.mp h
          omega
      · have hge := hat tr htr
        obtain ⟨hlen, -⟩ := List.getElem?_eq_some_iff.mp htr
        by_cases heq : comp.equal sentry tr = true
        · have hkey := (comp.equal_iff sentry tr).mp heq
          exact ⟨k, tr, by simp [heq], htr, hkey.ge, .inl hkey.symm⟩
        · -- the front is not later, so the decrement stays inside
          have hne : comp.key sentry ≠ comp.key tr :=
            fun h => heq ((comp.equal_iff sentry tr).mpr h)
          have hpos : 0 < k := hstep tr htr hne
          obtain ⟨prev, hprev⟩ : ∃ tr, data.transitions[k - 1]? = some tr :=
            ⟨_, List.getElem?_eq_getElem (by omega)⟩
          refine ⟨k - 1, prev, ?_, hprev, (hpred _ hpos hprev).le, .inr fun tr' h => ?_⟩
          · dsimp only
            rw [if_neg heq, if_neg hpos.ne', hprev]
            rfl
          · rw [Nat.sub_add_cancel hpos, htr] at h
            obtain rfl := Option.some.inj h
            omega

/-- With types, and indices in range, every search ends at one of the types. -/
theorem exists_findLocaltime {data : Data} (htypes : data.localtimes ≠ [])
    (hidx : ∀ tr ∈ data.transitions, tr.localtimeIdx < data.localtimes.length) (sentry : Transition)
    (comp : Comp) :
    ∃ lt ∈ data.localtimes, findLocaltime data sentry comp = some lt := by
  rcases findLocaltime_cases data sentry comp with ⟨hfind, -⟩ | ⟨i, tr, hfind, hi, -⟩
  · obtain ⟨lt, rest, hcons⟩ := List.exists_cons_of_ne_nil htypes
    exact ⟨lt, by rw [hcons]; exact List.mem_cons_self, by rw [hfind, hcons]; rfl⟩
  · have hlt := hidx tr (List.mem_of_getElem? hi)
    exact ⟨_, List.getElem_mem hlt, hfind.trans (List.getElem?_eq_getElem hlt)⟩

/-- In a sorted zone the search finds the type of the transition that covers the time. -/
theorem findLocaltime_of_covers {data : Data} {comp : Comp} (hs : Sorted data comp)
    (sentry : Transition) {i : ℕ} {tr : Transition} (h : Covers data comp (comp.key sentry) i tr) :
    findLocaltime data sentry comp = data.localtimeOf tr := by
  rcases findLocaltime_cases data sentry comp with ⟨-, hfront⟩ | ⟨j, tr', hfind, hj, hle, hnext⟩
  · -- the front is before the transition found
    obtain ⟨hi, -⟩ := List.getElem?_eq_some_iff.mp h.at_i
    have hzero : data.transitions[0]? = some data.transitions[0] :=
      List.getElem?_eq_getElem (by omega)
    have hlt := hfront _ (List.head?_eq_getElem?.trans hzero)
    have hle := h.le
    rcases Nat.eq_zero_or_pos i with rfl | hpos
    · rw [Option.some.inj (hzero.symm.trans h.at_i)] at hlt
      omega
    · have := hs.lt hpos hzero h.at_i
      omega
  · have hcov : Covers data comp (comp.key sentry) j tr' := by
      refine ⟨hj, hle, fun tr'' h'' => ?_⟩
      rcases hnext with heq | hlt
      · exact heq ▸ hs.lt (Nat.lt_succ_self j) hj h''
      · exact hlt tr'' h''
    rw [hfind, h.unique hs hcov]

/-! ### The search as a definition -/

/-- The transitions that are not later than the one sought. -/
def Data.until (data : Data) (sentry : Transition) (comp : Comp) : List Transition :=
  data.transitions.filter fun tr => comp.key tr ≤ comp.key sentry

/-- The rule in force, by a scan of all transitions: the type of the last one that is not later than
the one sought, the first type when there is none. -/
def scanLocaltime (data : Data) (sentry : Transition) (comp : Comp) : Option Localtime :=
  match (data.until sentry comp).getLast? with
  | some tr => data.localtimeOf tr
  | none => data.localtimes.head?

/-- In a sorted zone the transitions up to the one that covers the time are those that are not
later. -/
theorem Covers.until_eq {data : Data} {comp : Comp} (hs : Sorted data comp) {sentry : Transition}
    {i : ℕ} {tr : Transition} (h : Covers data comp (comp.key sentry) i tr) :
    data.until sentry comp = data.transitions.take (i + 1) := by
  have hbefore : ∀ a ∈ data.transitions.take (i + 1), comp.key a ≤ comp.key sentry := by
    intro a ha
    obtain ⟨j, hj⟩ := List.mem_iff_getElem?.mp ha
    rw [List.getElem?_take] at hj
    split_ifs at hj with hlt
    rcases Nat.lt_succ_iff_lt_or_eq.mp hlt with hji | rfl
    · exact (hs.lt hji hj h.at_i).le.trans h.le
    · obtain rfl : a = tr := Option.some.inj (hj.symm.trans h.at_i)
      exact h.le
  have hafter : ∀ a ∈ data.transitions.drop (i + 1), ¬ comp.key a ≤ comp.key sentry := by
    intro a ha
    obtain ⟨j, hj⟩ := List.mem_iff_getElem?.mp ha
    rw [List.getElem?_drop] at hj
    obtain ⟨hlen, -⟩ := List.getElem?_eq_some_iff.mp hj
    have hnext := List.getElem?_eq_getElem (show i + 1 < data.transitions.length by omega)
    have hlt := h.lt _ hnext
    rcases Nat.eq_zero_or_pos j with rfl | hpos
    · obtain rfl : a = _ := Option.some.inj (hj.symm.trans hnext)
      exact not_le.mpr hlt
    · exact not_le.mpr (hlt.trans (hs.lt (by omega) hnext hj))
  rw [Data.until]
  nth_rewrite 1 [← List.take_append_drop (i + 1) data.transitions]
  rw [List.filter_append, List.filter_eq_self.mpr (by simpa using hbefore),
    List.filter_eq_nil_iff.mpr (by simpa using hafter), List.append_nil]

theorem scanLocaltime_of_covers {data : Data} {comp : Comp} (hs : Sorted data comp)
    {sentry : Transition} {i : ℕ} {tr : Transition} (h : Covers data comp (comp.key sentry) i tr) :
    scanLocaltime data sentry comp = data.localtimeOf tr := by
  have hlast : (data.until sentry comp).getLast? = some tr := by
    obtain ⟨hi, -⟩ := List.getElem?_eq_some_iff.mp h.at_i
    rw [h.until_eq hs, List.getLast?_eq_getElem?, List.getElem?_take, List.length_take, ← h.at_i,
      show min (i + 1) data.transitions.length - 1 = i from by omega, if_pos (Nat.lt_succ_self i)]
  rw [scanLocaltime, hlast]

/-- Where the front is already later there is none. -/
theorem scanLocaltime_of_front {data : Data} {comp : Comp} (hs : Sorted data comp)
    {sentry : Transition}
    (h : ∀ front, data.transitions.head? = some front → comp.key sentry < comp.key front) :
    scanLocaltime data sentry comp = data.localtimes.head? := by
  have hnone : data.until sentry comp = [] := by
    apply List.filter_eq_nil_iff.mpr
    intro tr htr
    rw [decide_eq_true_eq, not_le]
    obtain ⟨front, rest, hcons⟩ := List.exists_cons_of_ne_nil (List.ne_nil_of_mem htr)
    have hfront := h front (by rw [hcons]; rfl)
    rw [hcons, List.mem_cons] at htr
    rcases htr with rfl | hrest
    · exact hfront
    · rw [Sorted, hcons, List.pairwise_cons] at hs
      exact hfront.trans (hs.1 tr hrest)
  rw [scanLocaltime, hnone]
  rfl

theorem findLocaltime_eq_scan {data : Data} {comp : Comp} (hs : Sorted data comp)
    (sentry : Transition) :
    findLocaltime data sentry comp = scanLocaltime data sentry comp := by
  rcases hhead : data.transitions.head? with _ | front
  · rw [scanLocaltime_of_front hs (by simp [hhead]), findLocaltime, hhead]
  · rcases lt_or_ge (comp.key sentry) (comp.key front) with hlt | hge
    · rw [scanLocaltime_of_front hs (by simpa [hhead] using hlt), findLocaltime, hhead]
      exact if_pos ((comp.less_iff sentry front).mpr hlt)
    · obtain ⟨i, tr, hcov⟩ := exists_covers comp hhead hge
      rw [findLocaltime_of_covers hs sentry hcov, scanLocaltime_of_covers hs hcov]

/-- On every zone with types, indices in range and transitions in order the search finds a type, the
one of the scan; and where it steps back from the position found, that position is not the front. -/
theorem binary_search_finds_rule (data : Data) (comp : Comp) (htypes : data.localtimes ≠ [])
    (hidx : ∀ tr ∈ data.transitions, tr.localtimeIdx < data.localtimes.length)
    (hs : Sorted data comp) (sentry : Transition) :
    (∃ lt, findLocaltime data sentry comp = some lt ∧ scanLocaltime data sentry comp = some lt) ∧
      ∀ front tr, data.transitions.head? = some front → comp.less sentry front = false →
        data.transitions[data.lowerBound sentry comp]? = some tr → comp.equal sentry tr = false →
          0 < data.lowerBound sentry comp := by
  constructor
  · obtain ⟨lt, -, hlt⟩ := exists_findLocaltime htypes hidx sentry comp
    exact ⟨lt, hlt, (findLocaltime_eq_scan hs sentry).symm.trans hlt⟩
  · intro front tr hfront hless htr hequal
    have hle : comp.key front ≤ comp.key sentry := by
      rw [← not_lt, ← comp.less_iff, hless]
      exact Bool.false_ne_true
    have hne : comp.key sentry ≠ comp.key tr := by
      rw [ne_eq, ← comp.equal_iff, hequal]
      exact Bool.false_ne_true
    exact lowerBound_pos data sentry comp hfront hle htr hne

/-- Between two transitions, by local time. -/
theorem binary_search_finds_rule_between :
    findLocaltime ⟨[⟨100, 90, 1⟩, ⟨200, 210, 0⟩], [⟨10, false, 0⟩, ⟨-10, true, 4⟩], []⟩
      ⟨0, 150, 0⟩ ⟨false⟩ = some ⟨-10, true, 4⟩ := by
  obtain ⟨⟨lt, hfind, hscan⟩, -⟩ := binary_search_finds_rule
    ⟨[⟨100, 90, 1⟩, ⟨200, 210, 0⟩], [⟨10, false, 0⟩, ⟨-10, true, 4⟩], []⟩ ⟨false⟩
      (by decide) (by decide)
    (by simp [Sorted, Comp.key]) ⟨0, 150, 0⟩
  rw [hfind, ← hscan]
  decide

/-! ### Zones with daylight saving time -/

/-- What the correction by an hour assumes of two transitions, one after the other. -/
def Alternate (data : Data) (a b : Transition) : Prop :=
  ∀ la lb, data.localtimeOf a = some la → data.localtimeOf b = some lb →
    la.isDst = !lb.isDst ∧ la.gmtOffset = lb.gmtOffset + (if la.isDst then 3600 else -3600)

/-- Transitions more than two hours apart, each with its own local time, alternating between
standard time and daylight saving time, which is an hour ahead. -/
structure DstZone (data : Data) : Prop where
  local_eq : ∀ tr ∈ data.transitions, ∃ l, data.localtimeOf tr = some l ∧
    tr.localtime = tr.gmttime + l.gmtOffset
  gap : data.transitions.IsChain fun a b => a.gmttime + 7200 < b.gmttime
  alternate : data.transitions.IsChain (Alternate data)

namespace DstZone

variable {data : Data}

theorem sorted_gmt (h : DstZone data) : Sorted data ⟨true⟩ := by
  have hchain : data.transitions.IsChain fun a b => a.gmttime < b.gmttime :=
    h.gap.imp fun a b hab => by omega
  have : IsTrans Transition fun a b => a.gmttime < b.gmttime := ⟨fun _ _ _ => lt_trans⟩
  exact List.isChain_iff_pairwise.mp hchain

/-- Two transitions, one after the other, with their types. -/
theorem step (h : DstZone data) {i : ℕ} {a b : Transition} (ha : data.transitions[i]? = some a)
    (hb : data.transitions[i + 1]? = some b) :
    ∃ la lb, data.localtimeOf a = some la ∧ data.localtimeOf b = some lb ∧
      a.localtime = a.gmttime + la.gmtOffset ∧ b.localtime = b.gmttime + lb.gmtOffset ∧
      a.gmttime + 7200 < b.gmttime ∧ la.isDst = !lb.isDst ∧
      la.gmtOffset = lb.gmtOffset + (if la.isDst then 3600 else -3600) := by
  obtain ⟨hi, rfl⟩ := List.getElem?_eq_some_iff.mp ha
  obtain ⟨hj, rfl⟩ := List.getElem?_eq_some_iff.mp hb
  obtain ⟨la, hla, hloca⟩ := h.local_eq _ (List.getElem_mem hi)
  obtain ⟨lb, hlb, hlocb⟩ := h.local_eq _ (List.getElem_mem hj)
  have hgap := List.isChain_iff_getElem.mp h.gap i hj
  have halt := List.isChain_iff_getElem.mp h.alternate i hj
  exact ⟨la, lb, hla, hlb, hloca, hlocb, hgap, halt la lb hla hlb⟩

/-- Transitions are so far apart that the local times are in order too. -/
theorem sorted_local (h : DstZone data) : Sorted data ⟨false⟩ := by
  have hchain : data.transitions.IsChain fun a b => a.localtime < b.localtime := by
    rw [List.isChain_iff_getElem]
    intro i hi
    obtain ⟨la, lb, -, -, hloca, hlocb, hgap, -, hoff⟩ :=
      h.step (List.getElem?_eq_getElem (by omega)) (List.getElem?_eq_getElem hi)
    split_ifs at hoff <;> omega
  have : IsTrans Transition fun a b => a.localtime < b.localtime := ⟨fun _ _ _ => lt_trans⟩
  exact List.isChain_iff_pairwise.mp hchain

end DstZone

/-! ### The round trip -/

section RoundTrip

variable {gmtime_r : ℤ → Tm} {timegm : Tm → ℤ} {data : Data}

/-- The break-down of an instant whose type is `l`. -/
def localTm (gmtime_r : ℤ → Tm) (data : Data) (l : Localtime) (localSeconds : ℤ) : Tm :=
  { gmtime_r localSeconds with
    tm_isdst := l.isDst.toNat
    tm_gmtoff := l.gmtOffset
    tm_zone := data.abbreviation.drop l.arrbIdx }

theorem toLocalTime_eq {t : ℤ} {l : Localtime} (h : findLocaltime data ⟨t, 0, 0⟩ ⟨true⟩ = some l) :
    toLocalTime gmtime_r data t = some (localTm gmtime_r data l (t + l.gmtOffset)) := by
  rw [toLocalTime, h]
  rfl

theorem toLocalTime_of_covers (hz : DstZone data) {t : ℤ} {i : ℕ} {tr : Transition} {l : Localtime}
    (h : Covers data ⟨true⟩ t i tr) (hl : data.localtimeOf tr = some l) :
    toLocalTime gmtime_r data t = some (localTm gmtime_r data l (t + l.gmtOffset)) :=
  toLocalTime_eq ((findLocaltime_of_covers hz.sorted_gmt ⟨t, 0, 0⟩ h).trans hl)

/-- `fromLocalTime` where the search by local time finds the type `l`. -/
theorem fromLocalTime_eq (hz : DstZone data) (hinv : Inverse gmtime_r timegm) {l0 : Localtime}
    {s : ℤ} {i : ℕ}
    {tr : Transition} {l : Localtime} (h : Covers data ⟨false⟩ s i tr)
    (hl : data.localtimeOf tr = some l) :
    fromLocalTime gmtime_r timegm data (localTm gmtime_r data l0 s) =
      if l0.isDst then
        (toLocalTime gmtime_r data (s - l.gmtOffset)).map fun tryTm =>
          if tryTm.tm_isdst = 0 ∧ tryTm.tm_hour = (gmtime_r s).tm_hour ∧
            tryTm.tm_min = (gmtime_r s).tm_min
          then s - 3600 - l.gmtOffset else s - l.gmtOffset
      else some (s - l.gmtOffset) := by
  have hs : timegm (localTm gmtime_r data l0 s) = s := hinv s _ _ _
  have hfind : findLocaltime data ⟨0, s, 0⟩ ⟨false⟩ = some l :=
    (findLocaltime_of_covers hz.sorted_local ⟨0, s, 0⟩ h).trans hl
  have hdst : (localTm gmtime_r data l0 s).tm_isdst ≠ 0 ↔ l0.isDst = true := by
    cases hd : l0.isDst <;> simp [localTm, hd]
  unfold fromLocalTime
  simp only [hs, hfind, Option.bind_eq_bind, Option.bind_some, hdst]
  split_ifs with hd
  · rcases toLocalTime gmtime_r data (s - l.gmtOffset) with _ | tryTm
    · rfl
    · simp only [Option.bind_some, Option.map_some]
      exact (apply_ite some _ _ _).symm
  · rfl

/-- The repeated hour: the search finds the standard time that follows, and the second
try tells them apart. -/
theorem fromLocalTime_repeated (hz : DstZone data) (hinv : Inverse gmtime_r timegm) {t : ℤ} {i : ℕ}
    {tr tr' : Transition} {l : Localtime} (h : Covers data ⟨true⟩ t i tr)
    (hl : data.localtimeOf tr = some l)
    (htr' : data.transitions[i + 1]? = some tr') (hle' : tr'.localtime ≤ t + l.gmtOffset) :
    fromLocalTime gmtime_r timegm data (localTm gmtime_r data l (t + l.gmtOffset)) = some t := by
  have hlt : t < tr'.gmttime := h.lt tr' htr'
  obtain ⟨la, lb, hla, hlb, -, hlocb, hgap, halt, hoff⟩ := hz.step h.at_i htr'
  obtain rfl : l = la := Option.some.inj (hl.symm.trans hla)
  have hdst : l.isDst = true := by
    by_contra hstd
    rw [if_neg hstd] at hoff
    omega
  rw [if_pos hdst] at hoff
  have hstd : lb.isDst = false := by simpa [hdst] using halt.symm
  have hnext : ∀ tr'', data.transitions[i + 1 + 1]? = some tr'' →
      tr'.gmttime + 7200 < tr''.gmttime ∧ t + l.gmtOffset < tr''.localtime := by
    intro tr'' h''
    obtain ⟨lb', lc, hlb', -, -, hlocc, hgap', -, hoff'⟩ := hz.step htr' h''
    obtain rfl : lb = lb' := Option.some.inj (hlb.symm.trans hlb')
    rw [hstd, if_neg Bool.false_ne_true] at hoff'
    omega
  have hcovl : Covers data ⟨false⟩ (t + l.gmtOffset) (i + 1) tr' :=
    ⟨htr', hle', fun tr'' h'' => (hnext tr'' h'').2⟩
  have hcovg : Covers data ⟨true⟩ (t + 3600) (i + 1) tr' := by
    refine ⟨htr', ?_, fun tr'' h'' => ?_⟩
    · change tr'.gmttime ≤ t + 3600
      omega
    · change t + 3600 < tr''.gmttime
      have := (hnext tr'' h'').1
      omega
  have hs : t + l.gmtOffset - lb.gmtOffset = t + 3600 := by omega
  have hs' : t + 3600 + lb.gmtOffset = t + l.gmtOffset := by omega
  rw [fromLocalTime_eq hz hinv hcovl hlb, if_pos hdst, hs, toLocalTime_of_covers hz hcovg hlb, hs',
    Option.map_some]
  -- the second try has the same hour and minute, in standard time
  rw [if_pos ⟨by simp [localTm, hstd], rfl, rfl⟩]
  congr 1
  omega

/-- The round trip inside the reign of one transition. -/
theorem fromLocalTime_toLocalTime (hz : DstZone data) (hinv : Inverse gmtime_r timegm) {t : ℤ}
    {i : ℕ}
    {tr : Transition} {l : Localtime} (h : Covers data ⟨true⟩ t i tr)
    (hl : data.localtimeOf tr = some l) :
    fromLocalTime gmtime_r timegm data (localTm gmtime_r data l (t + l.gmtOffset)) = some t := by
  obtain ⟨l', hl', hloc⟩ := hz.local_eq tr (List.mem_of_getElem? h.at_i)
  obtain rfl : l = l' := Option.some.inj (hl.symm.trans hl')
  have hle : tr.gmttime ≤ t := h.le
  by_cases hamb : ∃ tr', data.transitions[i + 1]? = some tr' ∧ tr'.localtime ≤ t + l.gmtOffset
  · obtain ⟨tr', htr', hle'⟩ := hamb
    exact fromLocalTime_repeated hz hinv h hl htr' hle'
  · -- elsewhere the search finds the type in force
    have hcovl : Covers data ⟨false⟩ (t + l.gmtOffset) i tr := by
      refine ⟨h.at_i, ?_, fun tr' h' => ?_⟩
      · change tr.localtime ≤ t + l.gmtOffset
        omega
      · exact not_le.mp fun hle' => hamb ⟨tr', h', hle'⟩
    rw [fromLocalTime_eq hz hinv hcovl hl, add_sub_cancel_right]
    split_ifs with hd
    · -- daylight saving time: the second try is in it as well
      rw [toLocalTime_of_covers hz h hl, Option.map_some, if_neg]
      simp [localTm, hd]
    · rfl

/-- Whatever hour daylight saving time repeats or skips, local time determines the instant: from the
first transition on, `fromLocalTime` undoes `toLocalTime`. -/
theorem local_time_round_trip (gmtime_r : ℤ → Tm) (timegm : Tm → ℤ) (hinv : Inverse gmtime_r timegm)
    (data : Data)
    (hz : DstZone data) (first : Transition) (hfirst : data.transitions.head? = some first) (t : ℤ)
    (ht : first.gmttime ≤ t) :
    (toLocalTime gmtime_r data t >>= fromLocalTime gmtime_r timegm data) = some t := by
  obtain ⟨i, tr, hcov⟩ := exists_covers ⟨true⟩ hfirst ht
  obtain ⟨l, hl, -⟩ := hz.local_eq tr (List.mem_of_getElem? hcov.at_i)
  rw [toLocalTime_of_covers hz hcov hl]
  exact fromLocalTime_toLocalTime hz hinv hcov hl

end RoundTrip

/-! ### The C library -/

/-- What `gmtime_r` gives: the date and the time of day of the calendar. -/
noncomputable def civilTime (s : ℤ) : Tm :=
  brokenDown (Day.ordinalIso.symm (s / 86400 + epochDay.ordinal)) (s % 86400) true

/-- What `timegm` gives for the fields of a valid date. -/
def civilSeconds (tm : Tm) : ℤ :=
  (Day.beforeYear (tm.tm_year + 1900) + Day.beforeMonth (isLeap (tm.tm_year + 1900))
    (tm.tm_mon + 1) + tm.tm_mday
    - epochDay.ordinal) * 86400 + tm.tm_hour * 3600 + tm.tm_min * 60 + tm.tm_sec

theorem inverse_civil : Inverse civilTime civilSeconds := by
  intro s isdst gmtoff zone
  have hord := Day.ordinal_symm (s / 86400 + epochDay.ordinal)
  simp only [civilTime, civilSeconds, brokenDown, sub_add_cancel]
  generalize Day.ordinalIso.symm (s / 86400 + epochDay.ordinal) = d at hord ⊢
  generalize epochDay.ordinal = n at hord ⊢
  unfold Day.ordinal Day.ofYear at hord
  omega

/-- New York in 2007: daylight saving time from the 11th of March to the 4th of November. -/
def newYork2007 : Data where
  transitions := [⟨1173596400, 1173582000, 1⟩, ⟨1194156000, 1194138000, 0⟩]
  localtimes := [⟨-18000, false, 0⟩, ⟨-14400, true, 4⟩]
  abbreviation := [69, 83, 84, 0, 69, 68, 84, 0]

theorem dstZone_newYork2007 : DstZone newYork2007 where
  local_eq := by simp [newYork2007, Data.localtimeOf]
  gap := by simp [newYork2007]
  alternate := by simp [newYork2007, Data.localtimeOf, Alternate]

/-- Half an hour before daylight saving time ends, in the hour that is repeated. -/
theorem local_time_round_trip_repeated_hour :
    (toLocalTime civilTime newYork2007 1194154200 >>= fromLocalTime civilTime
      civilSeconds newYork2007) = some 1194154200 :=
  local_time_round_trip civilTime civilSeconds inverse_civil newYork2007 dstZone_newYork2007
    ⟨1173596400, 1173582000, 1⟩ rfl 1194154200 (by decide)

end Muduo.Base
