import MyTinyHttpd.Utils.LocalTime

/-!
# Local time and back

Around a transition that lowers the offset by `s`, local times of `s` seconds occur twice. They are
found on the side after the transition. `FromLocalTime` sees from the dst flag that the other side
is meant, and goes back an hour, whatever `s` is.

* `Rep.Regular`: the tables with transitions far enough from each other.
* `find_before`, `find_lowered`: which type is found for a local time.
* `fromLocalTime_lowered`: what comes back in the `s` seconds before the transition.
* `fromLocalTime_toLocalTime_iff`: the time comes back unless it is in such seconds of a transition
  by something else than an hour.
-/

namespace MyTinyHttpd

open Verif TimeZone

namespace Rep

/-- The type in force before the transition with the index. -/
def typeBefore (rep : Rep) : Nat → Option Localtime
  | 0 => rep.localtimes.head?
  | i + 1 => rep.transitions[i]? >>= rep.localtimeOf

/-- The transition `x` is from the type `l` to the type `l'`. -/
def Changes (rep : Rep) (x : Transition) (l l' : Localtime) : Prop :=
  ∃ i, rep.transitions[i]? = some x ∧ rep.typeBefore i = some l ∧ rep.localtimeOf x = some l'

/-- The tables with transitions that are a week apart, offsets of 14 hours at most, and offsets that
are lowered at the end of daylight saving time only. -/
structure Regular (rep : Rep) : Prop extends rep.Defined where
  localtime_eq : ∀ x ∈ rep.transitions, ∀ l, rep.localtimeOf x = some l →
    x.localtime = x.gmttime + l.gmtOffset
  apart : rep.transitions.Pairwise fun x y => x.gmttime + 7 * 86400 ≤ y.gmttime
  offset_le : ∀ l ∈ rep.localtimes, -(14 * 3600) ≤ l.gmtOffset ∧ l.gmtOffset ≤ 14 * 3600
  lowers : ∀ x l l', rep.Changes x l l' → l'.gmtOffset < l.gmtOffset →
    l.isDst = true ∧ l'.isDst = false

end Rep

section

variable {rep : Rep} {x y : Transition} {l : Localtime} {i j : Nat} {t : Int}

/-- The transitions before `i` are not later than `s`, that with the index `i` is. -/
abbrev At (rep : Rep) (key : Transition → Int) (s : Int) (i : Nat) : Prop :=
  Bracket (fun x => decide (key x ≤ s)) rep.transitions i i

variable {key : Transition → Int} {s : Int}

theorem At.le (h : At rep key s (i + 1)) (hx : rep.transitions[i]? = some x) : key x ≤ s :=
  of_decide_eq_true (h.lower i x rfl hx)

theorem At.lt (h : At rep key s i) (hx : rep.transitions[i]? = some x) : s < key x :=
  Int.not_le.mp (of_decide_eq_false (h.upper x hx))

theorem at_succ (hx : rep.transitions[i]? = some x) (hle : key x ≤ s)
    (hnext : ∀ y, rep.transitions[i + 1]? = some y → s < key y) : At rep key s (i + 1) := by
  refine ⟨(List.getElem?_eq_some_iff.mp hx).1, ?_, ?_⟩
  · intro j y hj hy
    obtain rfl : j = i := by omega
    obtain rfl := Option.some.inj (hx.symm.trans hy)
    exact decide_eq_true hle
  · intro y hy
    exact decide_eq_false (Int.not_le.mpr (hnext y hy))

theorem findLocaltime_at (sentry : Transition) (comp : Comp)
    (hsorted : rep.transitions.Pairwise fun x y => comp.key x < comp.key y)
    (h : At rep comp.key (comp.key sentry) i) :
    findLocaltime rep sentry comp = rep.typeBefore i := by
  rw [findLocaltime_eq_inForce hsorted, Rep.inForce]
  cases i with
  | zero =>
    have hfront : ∀ y, rep.transitions.head? = some y → comp.key sentry < comp.key y := by
      intro y hy
      rw [List.head?_eq_getElem?] at hy
      exact h.lt hy
    rw [lastAtMost_eq_none_of_head hsorted hfront]
    rfl
  | succ i =>
    have hi := h.last_le
    have hx := List.getElem?_eq_getElem (show i < rep.transitions.length by omega)
    rw [lastAtMost_of_next hsorted hx (h.le hx) (fun y hy => h.lt hy), Rep.typeBefore, hx]
    rfl

theorem typeBefore_mem (hl : rep.typeBefore i = some l) : l ∈ rep.localtimes := by
  cases i with
  | zero => exact List.mem_of_head? hl
  | succ i =>
    obtain ⟨x, -, hx⟩ := Option.bind_eq_some_iff.mp hl
    exact List.mem_of_getElem? hx

variable (h : rep.Regular)
include h

theorem gmttime_apart (hx : rep.transitions[i]? = some x) (hy : rep.transitions[j]? = some y)
    (hij : i < j) : x.gmttime + 7 * 86400 ≤ y.gmttime := by
  obtain ⟨hi, rfl⟩ := List.getElem?_eq_some_iff.mp hx
  obtain ⟨hj, rfl⟩ := List.getElem?_eq_some_iff.mp hy
  exact List.pairwise_iff_getElem.mp h.apart i j hi hj hij

theorem exists_localtimeOf (hx : x ∈ rep.transitions) :
    ∃ l ∈ rep.localtimes, rep.localtimeOf x = some l := by
  have hidx := h.index_lt x hx
  exact ⟨_, List.getElem_mem hidx, List.getElem?_eq_getElem hidx⟩

theorem localtime_bounds (hx : x ∈ rep.transitions) :
    x.gmttime - 14 * 3600 ≤ x.localtime ∧ x.localtime ≤ x.gmttime + 14 * 3600 := by
  obtain ⟨l, hl, hof⟩ := exists_localtimeOf h hx
  have hlocal := h.localtime_eq x hx l hof
  have hoffset := h.offset_le l hl
  omega

theorem gmttime_sorted : rep.transitions.Pairwise fun x y => x.gmttime < y.gmttime :=
  h.apart.imp fun hxy => by omega

theorem localtime_sorted : rep.transitions.Pairwise fun x y => x.localtime < y.localtime := by
  refine h.apart.imp_of_mem ?_
  intro x y hx hy hxy
  have := localtime_bounds h hx
  have := localtime_bounds h hy
  omega

theorem exists_typeBefore (hi : i ≤ rep.transitions.length) : ∃ l, rep.typeBefore i = some l := by
  cases i with
  | zero =>
    obtain ⟨l, ls, hl⟩ := List.exists_cons_of_ne_nil h.localtimes_ne
    exact ⟨l, by rw [Rep.typeBefore, hl]; rfl⟩
  | succ i =>
    obtain ⟨l, -, hof⟩ := exists_localtimeOf h (List.getElem_mem (show i < _ by omega))
    exact ⟨l, by rw [Rep.typeBefore, List.getElem?_eq_getElem (by omega)]; exact hof⟩

/-- The local time before the next transition is found where the time is. -/
theorem find_before (hat : At rep Transition.gmttime t i) (hl : rep.typeBefore i = some l)
    (hnext : ∀ y, rep.transitions[i]? = some y → t + l.gmtOffset < y.localtime) :
    At rep Transition.localtime (t + l.gmtOffset) i := by
  refine ⟨hat.last_le, ?_, ?_⟩
  · rintro j x rfl hx
    have hgmt := hat.le hx
    have hof : rep.localtimeOf x = some l := by
      rw [Rep.typeBefore, hx] at hl
      exact hl
    have hlocal := h.localtime_eq x (List.mem_of_getElem? hx) l hof
    exact decide_eq_true (by omega)
  · intro y hy
    have := hnext y hy
    exact decide_eq_false (by omega)

/-- A local time that the next transition has, too, is found after it. -/
theorem find_lowered (hat : At rep Transition.gmttime t i) (hl : rep.typeBefore i = some l)
    (hy : rep.transitions[i]? = some y) (hle : y.localtime ≤ t + l.gmtOffset) :
    At rep Transition.localtime (t + l.gmtOffset) (i + 1) := by
  have hgmt := hat.lt hy
  have hoffset := h.offset_le l (typeBefore_mem hl)
  refine at_succ hy hle ?_
  intro z hz
  have hapart := gmttime_apart h hy hz (Nat.lt_succ_self i)
  have hbounds := localtime_bounds h (List.mem_of_getElem? hz)
  omega

theorem findLocaltime_gmt (hat : At rep Transition.gmttime t i) :
    findLocaltime rep ⟨t, 0, 0⟩ ⟨true⟩ = rep.typeBefore i :=
  findLocaltime_at ⟨t, 0, 0⟩ ⟨true⟩ (gmttime_sorted h) hat

theorem findLocaltime_local (hat : At rep Transition.localtime t i) :
    findLocaltime rep ⟨0, t, 0⟩ ⟨false⟩ = rep.typeBefore i :=
  findLocaltime_at ⟨0, t, 0⟩ ⟨false⟩ (localtime_sorted h) hat

theorem toLocalTime_at (c : CTime) (hat : At rep Transition.gmttime t i)
    (hl : rep.typeBefore i = some l) :
    toLocalTime c ⟨some rep⟩ t = some (localTm c rep l (t + l.gmtOffset)) :=
  toLocalTime_eq h.toDefined c (typeBefore_mem hl)
    ((findLocaltime_gmt h hat).trans hl)

/-- A time whose local time is found where it is comes back. -/
theorem fromLocalTime_same (c : CTime) (hat : At rep Transition.gmttime t i)
    (hl : rep.typeBefore i = some l) (hlocal : At rep Transition.localtime (t + l.gmtOffset) i) :
    toLocalTime c ⟨some rep⟩ t >>= fromLocalTime c ⟨some rep⟩ = some t := by
  have hto := toLocalTime_at h c hat hl
  have hfind : findLocaltime rep ⟨0, t + l.gmtOffset, 0⟩ ⟨false⟩ = some l :=
    (findLocaltime_local h hlocal).trans hl
  rw [bind_of_eq_some hto, fromLocalTime_eq c (l := l) (by rwa [timegm_localTm])
    (by rw [timegm_localTm, Int.add_sub_cancel]; exact hto)]
  rw [if_neg (by rintro ⟨hdst, hdst', -⟩; simp [hdst] at hdst'), timegm_localTm,
    Int.add_sub_cancel]

/-- Before the end of daylight saving time, the lowering less an hour is added. -/
theorem fromLocalTime_lowered (c : CTime) (hat : At rep Transition.gmttime t i)
    (hl : rep.typeBefore i = some l) (hy : rep.transitions[i]? = some y)
    (hle : y.localtime ≤ t + l.gmtOffset) {l' : Localtime} (hl' : rep.localtimeOf y = some l') :
    toLocalTime c ⟨some rep⟩ t >>= fromLocalTime c ⟨some rep⟩ =
      some (t + (l.gmtOffset - l'.gmtOffset) - 3600) := by
  have hmem := List.mem_of_getElem? hy
  have hlocaltime := h.localtime_eq y hmem l' hl'
  have hgmt := hat.lt hy
  obtain ⟨hdst, hdst'⟩ := h.lowers y l l' ⟨i, hy, hl, hl'⟩ (by omega)
  have hnext : rep.typeBefore (i + 1) = some l' := by
    rw [Rep.typeBefore, hy]
    exact hl'
  have hoffset := h.offset_le l (typeBefore_mem hl)
  have hoffset' := h.offset_le l' (typeBefore_mem hnext)
  have hfind : findLocaltime rep ⟨0, t + l.gmtOffset, 0⟩ ⟨false⟩ = some l' :=
    (findLocaltime_local h (find_lowered h hat hl hy hle)).trans hnext
  have hat' : At rep Transition.gmttime (t + l.gmtOffset - l'.gmtOffset) (i + 1) := by
    refine at_succ hy (by omega) ?_
    intro z hz
    have hapart := gmttime_apart h hy hz (Nat.lt_succ_self i)
    omega
  have htry := toLocalTime_at h c hat' hnext
  rw [Int.sub_add_cancel] at htry
  rw [bind_of_eq_some (toLocalTime_at h c hat hl), fromLocalTime_eq c (l := l')
    (by rwa [timegm_localTm]) (by rw [timegm_localTm]; exact htry)]
  rw [if_pos ⟨hdst, by simp [localTm, hdst'], rfl, rfl⟩, timegm_localTm]
  congr 1
  omega

/-- Only the next transition is near. -/
theorem index_eq_of_near (hat : At rep Transition.gmttime t i) (hx : rep.transitions[j]? = some x)
    (hnear : x.gmttime - 28 * 3600 ≤ t) (hlt : t < x.gmttime) : j = i := by
  rcases Nat.lt_trichotomy j i with hji | hji | hji
  · obtain ⟨k, rfl⟩ : ∃ k, i = k + 1 := ⟨i - 1, by omega⟩
    obtain ⟨y, hy⟩ : ∃ y, rep.transitions[k]? = some y := ⟨_, List.getElem?_eq_getElem hat.last_le⟩
    have hle := hat.le hy
    rcases Nat.lt_or_eq_of_le (show j ≤ k by omega) with hjk | rfl
    · have := gmttime_apart h hx hy hjk
      omega
    · obtain rfl := Option.some.inj (hy.symm.trans hx)
      omega
  · exact hji
  · obtain ⟨hj, -⟩ := List.getElem?_eq_some_iff.mp hx
    have hy := List.getElem?_eq_getElem (show i < rep.transitions.length by omega)
    have hapart := gmttime_apart h hy hx hji
    have hgmt := hat.lt hy
    omega

end

/-! ## A calendar -/

/-- The date with the number, in a cycle of 400 years and then by cycles. -/
def civilOf (n : Int) : CivilDate :=
  let date := (Date.toYearMonthDay (n % 146097 + 1721426)).getD ⟨1, 1, 1⟩
  { date with year := date.year + 400 * (n / 146097) }

theorem dayNumber_civilOf (n : Int) : (civilOf n).dayNumber = n := by
  obtain ⟨date, hvalid, hnumber⟩ := CivilDate.exists_dayNumber (n % 146097)
  have hlow := hvalid.le_year_iff 1
  have hhigh := hvalid.le_year_iff 401
  have hfirst : CivilDate.daysBeforeYear 1 = 0 := rfl
  have hlast : CivilDate.daysBeforeYear 401 = 146097 := rfl
  have hdate := Date.toYearMonthDay_eq hvalid (by omega) (by omega)
  rw [hnumber] at hdate
  unfold civilOf
  rw [hdate, Option.getD_some, CivilDate.dayNumber_shift, hnumber]
  omega

/-- The date of a second, -/
def civilAt (t : Int) : CivilDate := civilOf ((⟨1970, 1, 1⟩ : CivilDate).dayNumber + t / 86400)

/-- and the second of a date and a time of the day. -/
def secondOf (tm : Tm) : Int :=
  ((⟨tm.year + 1900, tm.mon + 1, tm.mday⟩ : CivilDate).dayNumber -
    (⟨1970, 1, 1⟩ : CivilDate).dayNumber) * 86400 + (tm.hour * 3600 + tm.min * 60 + tm.sec)

theorem secondOf_civilAt (t : Int) (isDst : Bool) (gmtoff : Int) (zone : Option (List UInt8)) :
    secondOf { utcTm t (civilAt t) true with isDst, gmtoff, zone } = t := by
  have hnumber := dayNumber_civilOf ((⟨1970, 1, 1⟩ : CivilDate).dayNumber + t / 86400)
  change (civilAt t).dayNumber = _ at hnumber
  generalize civilAt t = date at hnumber ⊢
  obtain ⟨year, month, day⟩ := date
  simp only [secondOf, utcTm, Int.sub_add_cancel]
  omega

/-- `gmtime_r` and `timegm` by the Gregorian calendar, for all integers. -/
def gregorian : CTime where
  gmtime t := utcTm t (civilAt t) true
  timegm := secondOf
  timegm_gmtime := secondOf_civilAt

/-- The time comes back unless it is just before a transition that lowers the offset by something
else than an hour. -/
theorem fromLocalTime_toLocalTime_iff (c : CTime) (rep : Rep) (h : rep.Regular) (t : Int) :
    toLocalTime c ⟨some rep⟩ t >>= fromLocalTime c ⟨some rep⟩ = some t ↔
      ∀ x l l', rep.Changes x l l' → x.gmttime - (l.gmtOffset - l'.gmtOffset) ≤ t →
        t < x.gmttime → l.gmtOffset - l'.gmtOffset = 3600 := by
  obtain ⟨i, hat⟩ : ∃ i, At rep Transition.gmttime t i := ⟨_, lowerBound_spec _ _⟩
  obtain ⟨l, hl⟩ := exists_typeBefore h hat.last_le
  -- a transition that t is just before is the next one, from the type `l`
  have hchange : ∀ x l₁ l', rep.Changes x l₁ l' → x.gmttime - (l₁.gmtOffset - l'.gmtOffset) ≤ t →
      t < x.gmttime → rep.transitions[i]? = some x ∧ l₁ = l := by
    rintro x l₁ l' ⟨j, hx, hl₁, hl'⟩ hle hlt
    have hoffset := h.offset_le l₁ (typeBefore_mem hl₁)
    have hoffset' := h.offset_le l' (List.mem_of_getElem? hl')
    obtain rfl := index_eq_of_near h hat hx (by omega) hlt
    exact ⟨hx, Option.some.inj (hl₁.symm.trans hl)⟩
  by_cases hnext : ∀ y, rep.transitions[i]? = some y → t + l.gmtOffset < y.localtime
  · refine iff_of_true (fromLocalTime_same h c hat hl (find_before h hat hl hnext)) ?_
    intro x l₁ l' hx hle hlt
    obtain ⟨hi, rfl⟩ := hchange x l₁ l' hx hle hlt
    obtain ⟨j, hxj, -, hl'⟩ := hx
    have := h.localtime_eq x (List.mem_of_getElem? hxj) l' hl'
    have := hnext x hi
    omega
  · simp only [not_forall, Int.not_lt] at hnext
    obtain ⟨y, hy, hle⟩ := hnext
    obtain ⟨l', -, hl'⟩ := exists_localtimeOf h (List.mem_of_getElem? hy)
    have hgmt := hat.lt hy
    have hlocaltime := h.localtime_eq y (List.mem_of_getElem? hy) l' hl'
    rw [fromLocalTime_lowered h c hat hl hy hle hl', Option.some.injEq]
    constructor
    · intro hsame x l₁ l₁' hx hle hlt
      obtain ⟨hi, rfl⟩ := hchange x l₁ l₁' hx hle hlt
      obtain ⟨j, -, -, hl₁'⟩ := hx
      obtain rfl := Option.some.inj (hy.symm.trans hi)
      obtain rfl := Option.some.inj (hl'.symm.trans hl₁')
      omega
    · intro hall
      have := hall y l l' ⟨i, hy, hl, hl'⟩ (by omega) hgmt
      omega

/-- The end of a daylight saving time of `s` seconds, in a zone east of UTC. -/
def autumn (s : Int) : Rep where
  transitions := [⟨1712415600, 1712415600 + 37800, 1⟩]
  localtimes := [⟨37800 + s, true, 0⟩, ⟨37800, false, 0⟩]
  abbreviation := []

theorem autumn_regular {s : Int} (hs : 0 ≤ s) (hle : s ≤ 3600) : (autumn s).Regular where
  localtimes_ne := List.cons_ne_nil _ _
  index_lt := by simp [autumn]
  arrb_le := by simp [autumn]
  localtime_eq := by simp [autumn, Rep.localtimeOf]
  apart := List.pairwise_singleton _ _
  offset_le := by
    simp only [autumn, List.forall_mem_cons, List.not_mem_nil, false_implies, implies_true,
      and_true]
    omega
  lowers := by
    rintro x l l' ⟨i, hx, hl, hl'⟩ -
    obtain rfl : i = 0 := by simpa [autumn] using (List.getElem?_eq_some_iff.mp hx).1
    obtain rfl := Option.some.inj hx
    obtain rfl := Option.some.inj hl
    obtain rfl := Option.some.inj hl'
    exact ⟨rfl, rfl⟩

/-- An hour that occurs twice. -/
theorem fromLocalTime_toLocalTime_hour :
    toLocalTime gregorian ⟨some (autumn 3600)⟩ 1712415599 >>=
        fromLocalTime gregorian ⟨some (autumn 3600)⟩ = some 1712415599 ↔
      ∀ x l l', (autumn 3600).Changes x l l' →
        x.gmttime - (l.gmtOffset - l'.gmtOffset) ≤ 1712415599 → 1712415599 < x.gmttime →
        l.gmtOffset - l'.gmtOffset = 3600 :=
  fromLocalTime_toLocalTime_iff gregorian (autumn 3600) (autumn_regular (by decide) (by decide))
    1712415599

/-- In a zone with a daylight saving time of half an hour, the second before its end comes back half
an hour early. -/
theorem fromLocalTime_toLocalTime_halfHour :
    (autumn 1800).Regular ∧
      toLocalTime gregorian ⟨some (autumn 1800)⟩ 1712415599 >>=
        fromLocalTime gregorian ⟨some (autumn 1800)⟩ = some (1712415599 - 1800) :=
  ⟨autumn_regular (by decide) (by decide), by decide +kernel⟩

end MyTinyHttpd
