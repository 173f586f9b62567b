import MyTinyHttpd.Lib.LowerBound
import MyTinyHttpd.Utils.TimeZone
import MyTinyHttpd.Utils.UtcTime

/-!
# `utils/timezone.cc`: local time

`FindLocaltime` searches the transitions by their UTC or by their local times, `ToLocalTime` and
`FromLocalTime` add and take away the offset of the type that it finds. `none` stands for an
assertion that fails and for an index out of range. A `time_t` is an integer, sums of which do not
overflow.

* `CTime`: `gmtime_r` and `timegm`.
* `findLocaltime_cases`: the transition that is found, in every table.
* `findLocaltime_last`: in a sorted table, it is the last one that is not later than the sentry.
* `toLocalTime_defined`, `fromLocalTime_defined`: no index is out of range if those in the table are
  not.
-/

namespace MyTinyHttpd

open Verif

structure Comp where
  compareGmt : Bool

namespace Comp

/-- `operator()`. -/
def less (comp : Comp) (lhs rhs : Transition) : Bool :=
  if comp.compareGmt then decide (lhs.gmttime < rhs.gmttime)
  else decide (lhs.localtime < rhs.localtime)

def equal (comp : Comp) (lhs rhs : Transition) : Bool :=
  if comp.compareGmt then decide (lhs.gmttime = rhs.gmttime)
  else decide (lhs.localtime = rhs.localtime)

/-- What is compared. -/
def key (comp : Comp) (t : Transition) : Int := if comp.compareGmt then t.gmttime else t.localtime

variable {comp : Comp} {lhs rhs : Transition}

theorem less_iff : comp.less lhs rhs = true ↔ comp.key lhs < comp.key rhs := by
  unfold less key
  split <;> exact decide_eq_true_iff

theorem less_eq_false_iff : comp.less lhs rhs = false ↔ comp.key rhs ≤ comp.key lhs := by
  rw [← Bool.not_eq_true, less_iff, Int.not_lt]

theorem equal_iff : comp.equal lhs rhs = true ↔ comp.key lhs = comp.key rhs := by
  unfold equal key
  split <;> exact decide_eq_true_iff

end Comp

/-- `&rep.localtimes[trans_i->localtime_idx]`. -/
def Rep.localtimeOf (rep : Rep) (t : Transition) : Option Localtime :=
  rep.localtimes[t.localtimeIdx]?

def findLocaltime (rep : Rep) (sentry : Transition) (comp : Comp) : Option Localtime :=
  if rep.transitions.head?.all (comp.less sentry) then rep.localtimes.head?
  else
    let i := lowerBound (comp.less · sentry) rep.transitions
    match rep.transitions[i]? with
    | some t =>
      if comp.equal sentry t then rep.localtimeOf t
      -- the assertion, before the iterator is moved back
      else if i = 0 then none
      else rep.transitions[i - 1]? >>= rep.localtimeOf
    | none => rep.transitions.getLast? >>= rep.localtimeOf

/-- `gmtime_r` and `timegm`, which does not look at the last three fields. -/
structure CTime where
  gmtime : Int → Tm
  timegm : Tm → Int
  timegm_gmtime : ∀ (t : Int) (isDst : Bool) (gmtoff : Int) (zone : Option (List UInt8)),
    timegm { gmtime t with isDst, gmtoff, zone } = t

/-- `TimeZone`, with the `Rep` at `rep_` if that is not null. -/
structure TimeZone where
  rep : Option Rep := none

namespace TimeZone

def isValid (zone : TimeZone) : Bool := zone.rep.isSome

/-- `&data.abbreviation[arrb_idx]`. The NUL after the last character can be indexed, too. -/
def zoneName (data : Rep) (arrbIdx : Nat) : Option (List UInt8) :=
  if arrbIdx ≤ data.abbreviation.length then some (cStr (data.abbreviation.drop arrbIdx)) else none

def toLocalTime (c : CTime) (zone : TimeZone) (seconds : Int) : Option Tm := do
  let data ← zone.rep
  let l ← findLocaltime data ⟨seconds, 0, 0⟩ ⟨true⟩
  let name ← zoneName data l.arrbIdx
  return { c.gmtime (seconds + l.gmtOffset) with
    isDst := l.isDst, gmtoff := l.gmtOffset, zone := some name }

def fromLocalTime (c : CTime) (zone : TimeZone) (localTm : Tm) : Option Int := do
  let data ← zone.rep
  let seconds := c.timegm localTm
  let l ← findLocaltime data ⟨0, seconds, 0⟩ ⟨false⟩
  let seconds ←
    if localTm.isDst then do
      let tryTm ← zone.toLocalTime c (seconds - l.gmtOffset)
      if !tryTm.isDst ∧ tryTm.hour = localTm.hour ∧ tryTm.min = localTm.min then
        pure (seconds - 3600)
      else pure seconds
    else pure seconds
  return seconds - l.gmtOffset

end TimeZone

variable {rep : Rep} {sentry : Transition} {comp : Comp}

/-- The iterator can be moved back when no transition has the sentry's time. -/
theorem exists_before {i : Nat} (hfront : ¬ rep.transitions.head?.all (comp.less sentry))
    (hplace : Bracket (comp.less · sentry) rep.transitions i i)
    (hnext : ∀ y, rep.transitions[i]? = some y → comp.key sentry < comp.key y) :
    ∃ j x, i = j + 1 ∧ rep.transitions[j]? = some x ∧ comp.key x < comp.key sentry := by
  cases i with
  | zero =>
    refine absurd ?_ hfront
    rw [List.head?_eq_getElem?]
    cases hx : rep.transitions[0]? with
    | none => rfl
    | some y => exact Comp.less_iff.mpr (hnext y hx)
  | succ j =>
    have hx := List.getElem?_eq_getElem (show j < rep.transitions.length from hplace.last_le)
    exact ⟨j, _, rfl, hx, Comp.less_iff.mp (hplace.lower j _ rfl hx)⟩

/-- The search finds a transition at the sentry's time, or one between which and the next the sentry
stands, unless the sentry is before the first. -/
theorem findLocaltime_cases (rep : Rep) (sentry : Transition) (comp : Comp) :
    ((∀ x, rep.transitions.head? = some x → comp.key sentry < comp.key x) ∧
      findLocaltime rep sentry comp = rep.localtimes.head?) ∨
    ∃ i x, rep.transitions[i]? = some x ∧ findLocaltime rep sentry comp = rep.localtimeOf x ∧
      (comp.key x = comp.key sentry ∨ comp.key x < comp.key sentry ∧
        ∀ y, rep.transitions[i + 1]? = some y → comp.key sentry < comp.key y) := by
  unfold findLocaltime
  split
  · rename_i hfront
    refine .inl ⟨?_, rfl⟩
    intro x hx
    rw [hx] at hfront
    exact Comp.less_iff.mp hfront
  · rename_i hfront
    right
    have hplace := lowerBound_spec (comp.less · sentry) rep.transitions
    generalize lowerBound (comp.less · sentry) rep.transitions = i at hplace
    simp only
    split
    · rename_i t ht
      split
      · rename_i hequal
        exact ⟨i, t, ht, rfl, .inl (Comp.equal_iff.mp hequal).symm⟩
      · rename_i hequal
        have hnext : ∀ y, rep.transitions[i]? = some y → comp.key sentry < comp.key y := by
          intro y hy
          obtain rfl := Option.some.inj (ht.symm.trans hy)
          have hge := Comp.less_eq_false_iff.mp (hplace.upper t ht)
          have hne := mt Comp.equal_iff.mpr hequal
          omega
        obtain ⟨j, x, rfl, hx, hlt⟩ := exists_before hfront hplace hnext
        refine ⟨j, x, hx, ?_, .inr ⟨hlt, hnext⟩⟩
        rw [if_neg (Nat.succ_ne_zero j), Nat.add_sub_cancel, hx]
        rfl
    · rename_i hnone
      have hnext : ∀ y, rep.transitions[i]? = some y → comp.key sentry < comp.key y := by
        intro y hy
        rw [hnone] at hy
        cases hy
      obtain ⟨j, x, rfl, hx, hlt⟩ := exists_before hfront hplace hnext
      have hlast : rep.transitions.length = j + 1 :=
        Nat.le_antisymm (List.getElem?_eq_none_iff.mp hnone) hplace.last_le
      refine ⟨j, x, hx, ?_, .inr ⟨hlt, hnext⟩⟩
      rw [List.getLast?_eq_getElem?, hlast, Nat.add_sub_cancel, hx]
      rfl

/-- The type in force: that of the last transition that is not later, or the first one. -/
def Rep.inForce (rep : Rep) (key : Transition → Int) (s : Int) : Option Localtime :=
  match lastAtMost key s rep.transitions with
  | some t => rep.localtimeOf t
  | none => rep.localtimes.head?

theorem findLocaltime_eq_inForce
    (hsorted : rep.transitions.Pairwise fun x y => comp.key x < comp.key y) :
    findLocaltime rep sentry comp = rep.inForce comp.key (comp.key sentry) := by
  unfold Rep.inForce
  rcases findLocaltime_cases rep sentry comp with ⟨hfront, hfind⟩ | ⟨i, x, hx, hfind, hkey⟩
  · rw [lastAtMost_eq_none_of_head hsorted hfront, hfind]
  · have hlast : lastAtMost comp.key (comp.key sentry) rep.transitions = some x := by
      refine lastAtMost_of_next hsorted hx (by omega) ?_
      intro y hy
      rcases hkey with hkey | ⟨-, hnext⟩
      · obtain ⟨hi, rfl⟩ := List.getElem?_eq_some_iff.mp hx
        obtain ⟨hi', rfl⟩ := List.getElem?_eq_some_iff.mp hy
        have := List.pairwise_iff_getElem.mp hsorted i (i + 1) hi hi' (Nat.lt_succ_self i)
        omega
      · exact hnext y hy
    rw [hlast, hfind]

/-- Every index is one of a type, and there is a type. -/
structure Rep.Indexed (rep : Rep) : Prop where
  localtimes_ne : rep.localtimes ≠ []
  index_lt : ∀ t ∈ rep.transitions, t.localtimeIdx < rep.localtimes.length

/-- Sorted or not, a type is found. -/
theorem findLocaltime_defined (h : rep.Indexed) (sentry : Transition) (comp : Comp) :
    ∃ l ∈ rep.localtimes, findLocaltime rep sentry comp = some l := by
  rcases findLocaltime_cases rep sentry comp with ⟨-, hfind⟩ | ⟨i, x, hx, hfind, -⟩
  · obtain ⟨l, ls, hl⟩ := List.exists_cons_of_ne_nil h.localtimes_ne
    rw [hfind, hl]
    exact ⟨l, List.mem_cons_self, rfl⟩
  · have hidx := h.index_lt x (List.mem_of_getElem? hx)
    rw [hfind]
    exact ⟨_, List.getElem_mem hidx, List.getElem?_eq_getElem hidx⟩

/-- The indices of the names are in range, too. -/
structure Rep.Defined (rep : Rep) : Prop extends rep.Indexed where
  arrb_le : ∀ l ∈ rep.localtimes, l.arrbIdx ≤ rep.abbreviation.length

namespace TimeZone

variable {l : Localtime}

/-- The broken-down time of the local time `s` in a zone with the type `l`. -/
def localTm (c : CTime) (rep : Rep) (l : Localtime) (s : Int) : Tm :=
  { c.gmtime s with
    isDst := l.isDst, gmtoff := l.gmtOffset
    zone := some (cStr (rep.abbreviation.drop l.arrbIdx)) }

@[simp] theorem timegm_localTm (c : CTime) (s : Int) : c.timegm (localTm c rep l s) = s :=
  c.timegm_gmtime s _ _ _

theorem toLocalTime_eq (h : rep.Defined) (c : CTime) {seconds : Int} (hl : l ∈ rep.localtimes)
    (hfind : findLocaltime rep ⟨seconds, 0, 0⟩ ⟨true⟩ = some l) :
    toLocalTime c ⟨some rep⟩ seconds = some (localTm c rep l (seconds + l.gmtOffset)) := by
  have hname : zoneName rep l.arrbIdx = some (cStr (rep.abbreviation.drop l.arrbIdx)) :=
    if_pos (h.arrb_le l hl)
  unfold toLocalTime
  rw [bind_of_eq_some rfl, bind_of_eq_some hfind, bind_of_eq_some hname]
  rfl

theorem fromLocalTime_eq (c : CTime) {localTm tryTm : Tm}
    (hfind : findLocaltime rep ⟨0, c.timegm localTm, 0⟩ ⟨false⟩ = some l)
    (htry : toLocalTime c ⟨some rep⟩ (c.timegm localTm - l.gmtOffset) = some tryTm) :
    fromLocalTime c ⟨some rep⟩ localTm = some ((if localTm.isDst ∧ !tryTm.isDst ∧
      tryTm.hour = localTm.hour ∧ tryTm.min = localTm.min then c.timegm localTm - 3600
      else c.timegm localTm) - l.gmtOffset) := by
  unfold fromLocalTime
  rw [bind_of_eq_some rfl, bind_of_eq_some hfind]
  dsimp only
  rw [bind_of_eq_some htry]
  by_cases hdst : localTm.isDst = true
  · rw [if_pos hdst]
    by_cases hsame : !tryTm.isDst ∧ tryTm.hour = localTm.hour ∧ tryTm.min = localTm.min
    · rw [if_pos hsame, if_pos ⟨hdst, hsame⟩]
      rfl
    · rw [if_neg hsame, if_neg (fun h => hsame h.2)]
      rfl
  · rw [if_neg hdst, if_neg (fun h => hdst h.1)]
    rfl

theorem toLocalTime_defined (h : rep.Defined) (c : CTime) (seconds : Int) :
    ∃ tm, toLocalTime c ⟨some rep⟩ seconds = some tm := by
  obtain ⟨l, hl, hfind⟩ := findLocaltime_defined h.toIndexed ⟨seconds, 0, 0⟩ ⟨true⟩
  exact ⟨_, toLocalTime_eq h c hl hfind⟩

theorem fromLocalTime_defined (h : rep.Defined) (c : CTime) (localTm : Tm) :
    ∃ t, fromLocalTime c ⟨some rep⟩ localTm = some t := by
  obtain ⟨l, -, hfind⟩ := findLocaltime_defined h.toIndexed ⟨0, c.timegm localTm, 0⟩ ⟨false⟩
  obtain ⟨tm, htm⟩ := toLocalTime_defined h c (c.timegm localTm - l.gmtOffset)
  exact ⟨_, fromLocalTime_eq c hfind htm⟩

end TimeZone

theorem findLocaltime_last (rep : Rep) (comp : Comp) (sentry : Transition)
    (htypes : rep.localtimes ≠ [])
    (hsorted : rep.transitions.Pairwise fun x y => comp.key x < comp.key y)
    (hidx : ∀ t ∈ rep.transitions, t.localtimeIdx < rep.localtimes.length) :
    ∃ l, findLocaltime rep sentry comp = some l ∧
      some l = match (rep.transitions.filter fun t => comp.key t ≤ comp.key sentry).getLast? with
        | some t => rep.localtimes[t.localtimeIdx]?
        | none => rep.localtimes.head? := by
  obtain ⟨l, -, hfind⟩ := findLocaltime_defined ⟨htypes, hidx⟩ sentry comp
  refine ⟨l, hfind, ?_⟩
  rw [← hfind, findLocaltime_eq_inForce hsorted]
  rfl

/-- Four transitions between three types. -/
def fourTransitions : Rep where
  transitions := [⟨100, 3700, 1⟩, ⟨9000, 9000, 0⟩, ⟨20000, 27200, 2⟩, ⟨30000, 33600, 1⟩]
  localtimes := [⟨0, false, 0⟩, ⟨3600, true, 0⟩, ⟨7200, true, 0⟩]

/-- Before the first transition, between two of them, at one of them by its local time, and after
the last one. -/
theorem fourTransitions_last :
    (∃ l, findLocaltime fourTransitions ⟨99, 0, 0⟩ ⟨true⟩ = some l ∧
      some l = some ⟨0, false, 0⟩) ∧
    (∃ l, findLocaltime fourTransitions ⟨25000, 0, 0⟩ ⟨true⟩ = some l ∧
      some l = some ⟨7200, true, 0⟩) ∧
    (∃ l, findLocaltime fourTransitions ⟨0, 9000, 0⟩ ⟨false⟩ = some l ∧
      some l = some ⟨0, false, 0⟩) ∧
    ∃ l, findLocaltime fourTransitions ⟨30001, 0, 0⟩ ⟨true⟩ = some l ∧
      some l = some ⟨3600, true, 0⟩ :=
  ⟨findLocaltime_last fourTransitions ⟨true⟩ ⟨99, 0, 0⟩ (by decide) (by decide) (by decide),
    findLocaltime_last fourTransitions ⟨true⟩ ⟨25000, 0, 0⟩ (by decide) (by decide) (by decide),
    findLocaltime_last fourTransitions ⟨false⟩ ⟨0, 9000, 0⟩ (by decide) (by decide) (by decide),
    findLocaltime_last fourTransitions ⟨true⟩ ⟨30001, 0, 0⟩ (by decide) (by decide) (by decide)⟩

end MyTinyHttpd
