import MyTinyHttpd.Utils.CStd
import MyTinyHttpd.Utils.Date

/-!
# `utils/timezone.cc`: UTC

`ToUtcTime` and `FromUtcTime`, in `int` and 64-bit `time_t`. As in `Date`, an operation that leaves
the range of its type is undefined (`none`); a cast wraps.

* `OnDate`: the date of a time, by the calendar.
* `splitDay_eq`: truncating division with a correction step rounds down.
* `toUtcTime_eq`, `fromUtcTime_eq`: the two functions, by the date and the second of the day.
* `utcTime_bijection`: they are inverse to each other.
-/

namespace MyTinyHttpd

open Verif

/-- `struct tm`. The zone is the string at `tm_zone`, if that is not null. -/
structure Tm where
  sec : Int := 0
  min : Int := 0
  hour : Int := 0
  mday : Int := 0
  mon : Int := 0
  year : Int := 0
  wday : Int := 0
  yday : Int := 0
  isDst : Bool := false
  gmtoff : Int := 0
  zone : Option (List UInt8) := none
  deriving DecidableEq

/-- The value of a `time_t` expression, when it is in range. -/
def int64 (i : Int) : Option Int := if -2 ^ 63 ≤ i ∧ i < 2 ^ 63 then some i else none

theorem int64_eq {i : Int} (h : -2 ^ 63 ≤ i ∧ i < 2 ^ 63) : int64 i = some i := if_pos h

theorem int64_bind {α : Type} {i : Int} (h : -2 ^ 63 ≤ i ∧ i < 2 ^ 63) (k : Int → Option α) :
    int64 i >>= k = k i :=
  bind_of_eq_some (int64_eq h) k

/-- `static_cast<int>` of a `time_t`. -/
def intOfTime (t : Int) : Int := Int.bmod t (2 ^ 32)

theorem intOfTime_eq {t : Int} (h : -2 ^ 31 ≤ t ∧ t < 2 ^ 31) : intOfTime t = t :=
  Int.bmod_eq_of_le (by omega) (by omega)

def Date.kJulianDayOf19700101 : Int := (Date.toJulianDayNumber 1970 1 1).getD 0

def Date.kDaysPerWeek : Int := 7

def kSecondsPerDay : Int := 24 * 60 * 60

/-- `FillHms`. The argument is unsigned. -/
def fillHms (seconds : Nat) (utc : Tm) : Tm :=
  let minutes := seconds / 60
  { utc with
    sec := (seconds % 60 : Nat)
    min := (minutes % 60 : Nat)
    hour := (minutes / 60 : Nat) }

namespace TimeZone

/-- The first statements of `ToUtcTime`: the second of the day, and the day. -/
def splitDay (secondsSinceEpoch : Int) : Option (Int × Int) := do
  let seconds := intOfTime (secondsSinceEpoch.tmod kSecondsPerDay)
  let days := intOfTime (secondsSinceEpoch.tdiv kSecondsPerDay)
  if seconds < 0 then
    let seconds ← int32 (seconds + kSecondsPerDay)
    let days ← int32 (days - 1)
    return (seconds, days)
  else return (seconds, days)

def toUtcTime (secondsSinceEpoch : Int) (yday : Bool) : Option Tm := do
  let (seconds, days) ← splitDay secondsSinceEpoch
  let utc := fillHms (seconds % 2 ^ 32).toNat { zone := some (ascii "GMT") }
  let date ← int32 (days + Date.kJulianDayOf19700101)
  let ymd ← Date.toYearMonthDay date
  let year ← int32 (ymd.year - 1900)
  let mon ← int32 (ymd.month - 1)
  let wday := (← int32 (date + 1)).tmod Date.kDaysPerWeek
  let utc := { utc with year, mon, mday := ymd.day, wday }
  if yday then
    let startOfYear ← Date.toJulianDayNumber ymd.year 1 1
    let days ← int32 (date - startOfYear)
    return { utc with yday := days }
  else return utc

def fromUtcTime (year month day hour minute seconds : Int) : Option Int := do
  let date ← Date.toJulianDayNumber year month day
  let minutes ← int32 ((← int32 (hour * 3600)) + (← int32 (minute * 60)))
  let secondsInDay ← int32 (minutes + seconds)
  let days ← int32 (date - Date.kJulianDayOf19700101)
  int64 ((← int64 (days * kSecondsPerDay)) + secondsInDay)

/-- `FromUtcTime` of a `struct tm`. -/
def fromUtcTm (utc : Tm) : Option Int := do
  fromUtcTime (← int32 (utc.year + 1900)) (← int32 (utc.mon + 1)) utc.mday utc.hour utc.min utc.sec

/-! ## By the calendar -/

/-- The time `t` is on the day `date`. -/
structure OnDate (t : Int) (date : CivilDate) : Prop where
  valid : date.Valid
  dayNumber_eq : date.dayNumber = (⟨1970, 1, 1⟩ : CivilDate).dayNumber + t / 86400

theorem exists_onDate (t : Int) : ∃ date, OnDate t date := by
  obtain ⟨date, hvalid, hnumber⟩ :=
    CivilDate.exists_dayNumber ((⟨1970, 1, 1⟩ : CivilDate).dayNumber + t / 86400)
  exact ⟨date, hvalid, hnumber⟩

theorem splitDay_eq {t : Int} (h : -2 ^ 31 < t / 86400 ∧ t / 86400 < 2 ^ 31) :
    splitDay t = some (t % 86400, t / 86400) := by
  have hday : kSecondsPerDay = 86400 := rfl
  unfold splitDay
  rw [hday]
  rcases lt_or_ge t 0 with ht | ht
  · -- the division rounds up to a negative remainder, unless that is zero
    obtain ⟨u, rfl⟩ : ∃ u, t = -u := ⟨-t, by omega⟩
    have hdiv : (-u).tdiv 86400 = -(u / 86400) := by
      rw [Int.neg_tdiv, Int.tdiv_eq_ediv_of_nonneg (by omega)]
    have hmod : (-u).tmod 86400 = -(u % 86400) := by
      rw [Int.neg_tmod, Int.tmod_eq_emod_of_nonneg (by omega)]
    simp only [hdiv, hmod]
    rw [intOfTime_eq (by omega), intOfTime_eq (by omega)]
    by_cases hzero : u % 86400 = 0
    · rw [if_neg (by omega)]
      exact congrArg some (Prod.ext (by omega) (by omega))
    · rw [if_pos (by omega), int32_bind (by omega), int32_bind (by omega)]
      exact congrArg some (Prod.ext (by simp only; omega) (by simp only; omega))
  · simp only [Int.tdiv_eq_ediv_of_nonneg ht, Int.tmod_eq_emod_of_nonneg ht]
    rw [intOfTime_eq (by omega), intOfTime_eq (by omega), if_neg (by omega)]
    rfl

/-- The broken-down time of `t` on the day `date`. The weekday is that of the calendar as long as
the Julian day number is not negative. -/
def utcTm (t : Int) (date : CivilDate) (yday : Bool) : Tm where
  sec := t % 60
  min := t / 60 % 60
  hour := t / 3600 % 24
  mday := date.day
  mon := date.month - 1
  year := date.year - 1900
  wday := (date.dayNumber + 1721427).tmod 7
  yday := if yday then date.yearDay else 0
  zone := some (ascii "GMT")

section

variable {t : Int} {date : CivilDate}

theorem dayNumber_bounds (h : date.Valid) (hge : -4799 ≤ date.year) (hle : date.year ≤ 1000000) :
    -1753200 ≤ date.dayNumber ∧ date.dayNumber ≤ 365242500 := by
  have hfirst : (⟨-4799, 1, 1⟩ : CivilDate).dayNumber = -1753164 := by decide
  have hlast : (⟨1000000, 12, 31⟩ : CivilDate).dayNumber = 365242499 := by decide
  have hbounds := (Date.year_iff h).mp ⟨hge, hle⟩
  omega

theorem kJulianDayOf19700101_eq :
    Date.kJulianDayOf19700101 = (⟨1970, 1, 1⟩ : CivilDate).dayNumber + 1721426 := by
  decide

theorem fillHms_eq (t : Int) (utc : Tm) :
    fillHms (t % 86400 % 2 ^ 32).toNat utc =
      { utc with sec := t % 60, min := t / 60 % 60, hour := t / 3600 % 24 } := by
  obtain ⟨q, s, hs, rfl⟩ : ∃ (q : Int) (s : Nat), s < 86400 ∧ t = 86400 * q + s :=
    ⟨t / 86400, (t % 86400).toNat, by omega, by omega⟩
  have hcast : ((86400 * q + s) % 86400 % 2 ^ 32).toNat = s := by omega
  have hsec : ((s % 60 : Nat) : Int) = (86400 * q + s) % 60 := by omega
  have hmin : ((s / 60 % 60 : Nat) : Int) = (86400 * q + s) / 60 % 60 := by omega
  have hhour : ((s / 60 / 60 : Nat) : Int) = (86400 * q + s) / 3600 % 24 := by omega
  simp only [fillHms, hcast, hsec, hmin, hhour]

theorem toUtcTime_eq (h : OnDate t date) (hge : -4799 ≤ date.year) (hle : date.year ≤ 1000000)
    (yday : Bool) : toUtcTime t yday = some (utcTm t date yday) := by
  obtain ⟨hvalid, hnumber⟩ := h
  have hbounds := dayNumber_bounds hvalid hge hle
  have hepoch : (⟨1970, 1, 1⟩ : CivilDate).dayNumber = 719162 := by decide
  have hjulian : t / 86400 + Date.kJulianDayOf19700101 = date.dayNumber + 1721426 := by
    rw [kJulianDayOf19700101_eq]
    omega
  have hday := hvalid.one_le_month
  have hday' := hvalid.month_le
  have hstart := Date.toJulianDayNumber_eq (CivilDate.valid_first date.year) hge
    (by simp only; omega)
  have hyday : date.dayNumber + 1721426 - ((⟨date.year, 1, 1⟩ : CivilDate).dayNumber + 1721426) =
      date.yearDay := by
    rw [CivilDate.dayNumber_first, CivilDate.dayNumber]
    omega
  have hlast := hvalid.yearDay_lt
  have hfirst := hvalid.yearDay_nonneg
  unfold toUtcTime
  rw [bind_of_eq_some (splitDay_eq (by omega))]
  simp only [hjulian, fillHms_eq]
  rw [int32_bind (by omega), bind_of_eq_some (Date.toYearMonthDay_eq hvalid hge hle),
    int32_bind (by omega), int32_bind (by omega), int32_bind (by omega), bind_of_eq_some hstart,
    hyday, int32_bind (by split at hlast <;> omega), Int.add_assoc]
  cases yday <;> rfl

theorem fromUtcTime_eq (hvalid : date.Valid) (hge : -4799 ≤ date.year) (hle : date.year ≤ 1000000)
    {hour minute second : Int} (hhour : 0 ≤ hour ∧ hour < 24) (hminute : 0 ≤ minute ∧ minute < 60)
    (hsecond : 0 ≤ second ∧ second < 60) :
    fromUtcTime date.year date.month date.day hour minute second =
      some ((date.dayNumber - (⟨1970, 1, 1⟩ : CivilDate).dayNumber) * 86400 +
        (hour * 3600 + minute * 60 + second)) := by
  have hbounds := dayNumber_bounds hvalid hge hle
  have hepoch : (⟨1970, 1, 1⟩ : CivilDate).dayNumber = 719162 := by decide
  have hday : kSecondsPerDay = 86400 := rfl
  unfold fromUtcTime
  rw [bind_of_eq_some (Date.toJulianDayNumber_eq hvalid hge (by omega)), kJulianDayOf19700101_eq,
    hepoch, hday, int32_bind (by omega), int32_bind (by omega),
    int32_bind (by omega), int32_bind (by omega), int32_bind (by omega), int64_bind (by omega),
    int64_eq (by omega)]
  congr 1
  omega

theorem fromUtcTm_utcTm (h : OnDate t date) (hge : -4799 ≤ date.year) (hle : date.year ≤ 1000000)
    (yday : Bool) : fromUtcTm (utcTm t date yday) = some t := by
  obtain ⟨hvalid, hnumber⟩ := h
  have hmonth := hvalid.one_le_month
  have hmonth' := hvalid.month_le
  have hyear : date.year - 1900 + 1900 = date.year := by omega
  have hmon : date.month - 1 + 1 = date.month := by omega
  unfold fromUtcTm utcTm
  simp only
  rw [int32_bind (by omega), int32_bind (by omega), hyear, hmon,
    fromUtcTime_eq hvalid hge hle (by omega) (by omega) (by omega), hnumber]
  congr 1
  omega

/-- The time of a valid combination is on the day, and has its hour, minute and second. -/
theorem onDate_of_valid (hvalid : date.Valid) {s : Int} (hs : 0 ≤ s ∧ s < 86400) :
    OnDate ((date.dayNumber - (⟨1970, 1, 1⟩ : CivilDate).dayNumber) * 86400 + s) date :=
  ⟨hvalid, by omega⟩

end

/-- `ToUtcTime` and `FromUtcTime` are inverse to each other on the dates of the range, and no `int`
overflows. -/
theorem utcTime_bijection :
    (∀ t, ∃ date, OnDate t date) ∧
    (∀ t date, OnDate t date → -4799 ≤ date.year → date.year ≤ 1000000 → ∀ yday,
      ∃ utc, toUtcTime t yday = some utc ∧
        (0 ≤ utc.sec ∧ utc.sec < 60) ∧ (0 ≤ utc.min ∧ utc.min < 60) ∧
        (0 ≤ utc.hour ∧ utc.hour < 24) ∧
        (⟨utc.year + 1900, utc.mon + 1, utc.mday⟩ : CivilDate) = date ∧
        (yday = true → 0 ≤ utc.yday ∧ utc.yday ≤ 365 ∧
          utc.yday = date.dayNumber - (⟨date.year, 1, 1⟩ : CivilDate).dayNumber) ∧
        fromUtcTm utc = some t) ∧
    ∀ date : CivilDate, date.Valid → -4799 ≤ date.year → date.year ≤ 1000000 →
      ∀ hour minute second, 0 ≤ hour ∧ hour < 24 → 0 ≤ minute ∧ minute < 60 →
        0 ≤ second ∧ second < 60 → ∀ yday,
      ∃ t utc, fromUtcTime date.year date.month date.day hour minute second = some t ∧
        OnDate t date ∧ toUtcTime t yday = some utc ∧
        (⟨utc.year + 1900, utc.mon + 1, utc.mday⟩ : CivilDate) = date ∧
        utc.hour = hour ∧ utc.min = minute ∧ utc.sec = second := by
  have hdate : ∀ t (date : CivilDate) yday, (⟨(utcTm t date yday).year + 1900,
      (utcTm t date yday).mon + 1, (utcTm t date yday).mday⟩ : CivilDate) = date := by
    intro t date yday
    simp only [utcTm, Int.sub_add_cancel]
  refine ⟨exists_onDate, ?_, ?_⟩
  · intro t date h hge hle yday
    refine ⟨_, toUtcTime_eq h hge hle yday, ?_, ?_, ?_, hdate t date yday, ?_,
      fromUtcTm_utcTm h hge hle yday⟩
    · simp only [utcTm]
      omega
    · simp only [utcTm]
      omega
    · simp only [utcTm]
      omega
    · rintro rfl
      have hfirst := h.valid.yearDay_nonneg
      have hlast := h.valid.yearDay_lt
      refine ⟨hfirst, ?_, ?_⟩
      · show date.yearDay ≤ 365
        split at hlast <;> omega
      · rw [CivilDate.dayNumber_first, CivilDate.dayNumber]
        show date.yearDay = _
        omega
  · intro date hvalid hge hle hour minute second hhour hminute hsecond yday
    have hday := onDate_of_valid hvalid (s := hour * 3600 + minute * 60 + second) (by omega)
    refine ⟨_, _, fromUtcTime_eq hvalid hge hle hhour hminute hsecond, hday,
      toUtcTime_eq hday hge hle yday, hdate _ _ _, ?_⟩
    simp only [utcTm]
    generalize date.dayNumber - (⟨1970, 1, 1⟩ : CivilDate).dayNumber = n
    refine ⟨by omega, by omega, by omega⟩

/-- The second before the epoch. -/
theorem utcTime_beforeEpoch :
    ∃ utc, toUtcTime (-1) true = some utc ∧ (0 ≤ utc.sec ∧ utc.sec < 60) ∧
      (0 ≤ utc.min ∧ utc.min < 60) ∧ (0 ≤ utc.hour ∧ utc.hour < 24) ∧
      (⟨utc.year + 1900, utc.mon + 1, utc.mday⟩ : CivilDate) = ⟨1969, 12, 31⟩ ∧
      (true = true → 0 ≤ utc.yday ∧ utc.yday ≤ 365 ∧ utc.yday =
        (⟨1969, 12, 31⟩ : CivilDate).dayNumber - (⟨1969, 1, 1⟩ : CivilDate).dayNumber) ∧
      fromUtcTm utc = some (-1) :=
  utcTime_bijection.2.1 (-1) ⟨1969, 12, 31⟩ ⟨by decide, by decide⟩ (by decide) (by decide) true

end TimeZone

end MyTinyHttpd
