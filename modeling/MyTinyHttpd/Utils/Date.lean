import MyTinyHttpd.Lib.Gregorian
import MyTinyHttpd.Lib.Stairs

/-!
# `utils/date.h`, `utils/date.cc`

The conversions between dates and Julian day numbers, in `int`s: an operation that leaves the range
of `int` is undefined (`none`), and division rounds towards zero.

The formulas count years from 1 March of the year -4800, in centuries of 36524 or 36525 days, years
of 365 or 366 and months of 30 or 31 days: three staircases.

* `toJulianDayNumber_eq`: the number of a date is its number in the calendar, from another day on.
* `toYearMonthDay_eq`: and the date is found again.
* `julianDay_bijection`: the two functions are inverse to each other and follow the calendar.
-/

namespace MyTinyHttpd

open Verif

theorem bind_of_eq_some {α β : Type} {o : Option α} {a : α} (h : o = some a) (k : α → Option β) :
    o >>= k = k a := by
  rw [h]
  rfl

/-- The value of an `int` expression, when it is in range. -/
def int32 (i : Int) : Option Int := if -2 ^ 31 ≤ i ∧ i < 2 ^ 31 then some i else none

theorem int32_eq {i : Int} (h : -2 ^ 31 ≤ i ∧ i < 2 ^ 31) : int32 i = some i := if_pos h

theorem int32_bind {α : Type} {i : Int} (h : -2 ^ 31 ≤ i ∧ i < 2 ^ 31) (k : Int → Option α) :
    int32 i >>= k = k i :=
  bind_of_eq_some (int32_eq h) k

namespace Date

def toJulianDayNumber (year month day : Int) : Option Int := do
  let a := (← int32 (14 - month)).tdiv 12
  let y ← int32 ((← int32 (year + 4800)) - a)
  let m ← int32 ((← int32 (month + (← int32 (12 * a)))) - 3)
  let n ← int32 (day + (← int32 ((← int32 (153 * m)) + 2)).tdiv 5)
  let n ← int32 (n + (← int32 (y * 365)))
  let n ← int32 (n + y.tdiv 4)
  let n ← int32 (n - y.tdiv 100)
  let n ← int32 (n + y.tdiv 400)
  int32 (n - 32045)

/-- `ToYearMonthDay`. A `YearMonthDay` is a `CivilDate`. -/
def toYearMonthDay (julianDayNumber : Int) : Option CivilDate := do
  let a ← int32 (julianDayNumber + 32044)
  let b := (← int32 ((← int32 (4 * a)) + 3)).tdiv 146097
  let c ← int32 (a - (← int32 (b * 146097)).tdiv 4)
  let d := (← int32 ((← int32 (4 * c)) + 3)).tdiv 1461
  let e ← int32 (c - (← int32 (1461 * d)).tdiv 4)
  let m := (← int32 ((← int32 (5 * e)) + 2)).tdiv 153
  let day ← int32 ((← int32 (e - (← int32 ((← int32 (153 * m)) + 2)).tdiv 5)) + 1)
  let month ← int32 ((← int32 (m + 3)) - (← int32 (12 * m.tdiv 10)))
  let year ← int32 ((← int32 ((← int32 ((← int32 (b * 100)) + d)) - 4800)) + m.tdiv 10)
  return ⟨year, month, day⟩

/-! ## Years from March on -/

/-- The year from 1 March on, counted from -4800. -/
def marchYear (date : CivilDate) : Int := date.year + 4800 - if date.month ≤ 2 then 1 else 0

/-- March is the first month. -/
def marchMonth (date : CivilDate) : Int := date.month - 3 + if date.month ≤ 2 then 12 else 0

/-- The number of days since 1 March of the year -4800. -/
def marchDay (date : CivilDate) : Int := date.dayNumber + 1753470

def centuries (b : Int) : Int := stair 146097 4 0 b

def years (d : Int) : Int := stair 1461 4 0 d

def months (m : Int) : Int := stair 153 5 2 m

theorem centuries_eq (b : Int) : centuries b = 36524 * b + b / 4 := by
  unfold centuries stair
  omega

theorem years_eq (d : Int) : years d = 365 * d + d / 4 := by
  unfold years stair
  omega

variable {date : CivilDate}

/-- The days of the months before, from March on. -/
theorem daysOfMonths_eq (y : Int) {m : Nat} (hge : 2 ≤ m) (hle : m ≤ 12) :
    CivilDate.daysOfMonths y m = CivilDate.daysOfMonths y 2 + months (m - 2) := by
  interval_cases m <;> simp [CivilDate.daysOfMonths, daysInMonth, months, stair, Int.add_assoc]

/-- From March on a year has 306 days, leap year or not. -/
theorem daysBeforeYear_march (y : Int) :
    CivilDate.daysBeforeYear y + CivilDate.daysOfMonths y 2 + 306 =
      CivilDate.daysBeforeYear (y + 1) := by
  have hmonths := daysOfMonths_eq y (m := 12) (by decide) (by decide)
  have hsum : months (12 - 2) = 306 := by decide
  rw [CivilDate.daysBeforeYear_succ, ← CivilDate.daysOfMonths_twelve, hmonths]
  change _ = _ + (_ + months (12 - 2))
  omega

/-- A year ends in the year from March on with its number. -/
theorem daysBeforeYear_shift (y : Int) :
    CivilDate.daysBeforeYear (y + 1) + 1753164 =
      365 * (y + 4800) + (y + 4800) / 4 - (y + 4800) / 100 + (y + 4800) / 400 := by
  unfold CivilDate.daysBeforeYear
  omega

theorem marchDay_eq (h : date.Valid) :
    marchDay date = 365 * marchYear date + marchYear date / 4 - marchYear date / 100 +
      marchYear date / 400 + months (marchMonth date) + (date.day - 1) := by
  obtain ⟨hm, hm', -, -⟩ := h
  simp only [marchDay, CivilDate.dayNumber, CivilDate.yearDay, marchYear, marchMonth]
  rcases lt_or_ge 2 date.month with hmarch | hmarch
  · have hmonths := daysOfMonths_eq date.year (m := (date.month - 1).toNat) (by omega) (by omega)
    have hcast : ((date.month - 1).toNat : Int) - 2 = date.month - 3 + 0 := by omega
    have hmarch' := daysBeforeYear_march date.year
    have hyear := daysBeforeYear_shift date.year
    rw [if_neg (by omega), if_neg (by omega), hmonths, hcast]
    omega
  · have hyear := daysBeforeYear_shift (date.year - 1)
    rw [Int.sub_add_cancel] at hyear
    rw [if_pos hmarch, if_pos hmarch]
    obtain hjan | hfeb : date.month = 1 ∨ date.month = 2 := by omega
    · rw [hjan]
      have hdays : CivilDate.daysOfMonths date.year 0 = 0 := rfl
      have hmonths : months (1 - 3 + 12) = 306 := by decide
      simp only [Int.sub_self, Int.toNat_zero, hdays, hmonths]
      omega
    · rw [hfeb]
      have hdays : CivilDate.daysOfMonths date.year (2 - 1 : Int).toNat = 31 := by
        simp [CivilDate.daysOfMonths, daysInMonth]
      have hmonths : months (2 - 3 + 12) = 337 := by decide
      rw [hdays, hmonths]
      omega

/-- The months are not longer than the steps of their staircase. -/
theorem day_le_months (h : date.Valid) :
    0 ≤ marchMonth date ∧ marchMonth date ≤ 11 ∧
      date.day ≤ months (marchMonth date + 1) - months (marchMonth date) := by
  obtain ⟨year, month, day⟩ := date
  obtain ⟨hm, hm', -, hday⟩ := h
  simp only at hm hm' hday
  simp only [marchMonth, months, stair]
  refine ⟨by split <;> omega, by split <;> omega, hday.trans ?_⟩
  interval_cases month <;> simp [daysInMonth]
  split <;> decide

/-- Without overflow, and with a year that is not negative, the divisions round down. -/
theorem toJulianDayNumber_exact {year month day a y m : Int} (ha : (14 - month).tdiv 12 = a)
    (hy : year + 4800 - a = y) (hm : month + 12 * a - 3 = m) (hmonth : 1 ≤ month ∧ month ≤ 12)
    (hday : 1 ≤ day ∧ day ≤ 31) (hy0 : 0 ≤ y ∧ y ≤ 1004801) (hm0 : 0 ≤ m ∧ m ≤ 11) :
    toJulianDayNumber year month day =
      some (day + (153 * m + 2) / 5 + y * 365 + y / 4 - y / 100 + y / 400 - 32045) := by
  have ha0 : 0 ≤ a ∧ a ≤ 1 := by omega
  unfold toJulianDayNumber
  rw [int32_bind (by omega), ha, int32_bind (by omega), int32_bind (by omega), hy,
    int32_bind (by omega), int32_bind (by omega), int32_bind (by omega), hm,
    int32_bind (by omega), int32_bind (by omega), Int.tdiv_eq_ediv_of_nonneg (by omega),
    Int.tdiv_eq_ediv_of_nonneg hy0.1, Int.tdiv_eq_ediv_of_nonneg hy0.1,
    Int.tdiv_eq_ediv_of_nonneg hy0.1, int32_bind (by omega), int32_bind (by omega),
    int32_bind (by omega), int32_bind (by omega), int32_bind (by omega), int32_bind (by omega),
    int32_eq (by omega)]

theorem toJulianDayNumber_eq (h : date.Valid) (hge : -4799 ≤ date.year)
    (hle : date.year ≤ 1000001) :
    toJulianDayNumber date.year date.month date.day = some (date.dayNumber + 1721426) := by
  have hday := h.day_le.trans (CivilDate.daysInMonth_le _ _)
  have hm := h.one_le_month
  have hm' := h.month_le
  have hnumber := marchDay_eq h
  obtain ⟨hmonth, hmonth', -⟩ := day_le_months h
  have ha : (14 - date.month).tdiv 12 = if date.month ≤ 2 then 1 else 0 := by
    rw [Int.tdiv_eq_ediv_of_nonneg (by omega)]
    split <;> omega
  have hmm : date.month + 12 * (if date.month ≤ 2 then 1 else 0) - 3 = marchMonth date := by
    unfold marchMonth
    split <;> omega
  have hyear : 0 ≤ marchYear date ∧ marchYear date ≤ 1004801 := by
    unfold marchYear
    split <;> omega
  rw [toJulianDayNumber_exact ha rfl hmm ⟨hm, hm'⟩ ⟨h.one_le_day, hday⟩ hyear ⟨hmonth, hmonth'⟩]
  unfold marchDay months stair at hnumber
  rw [show date.year + 4800 - (if date.month ≤ 2 then 1 else 0) = marchYear date from rfl]
  congr 1
  omega

/-- Without overflow, the divisions are those that find a step of a staircase. -/
theorem toYearMonthDay_exact {j a b c d e m : Int} (ha : j + 32044 = a)
    (hb : (4 * a + 3) / 146097 = b) (hc : a - b * 146097 / 4 = c) (hd : (4 * c + 3) / 1461 = d)
    (he : c - 1461 * d / 4 = e) (hm : (5 * e + 2) / 153 = m) (ha0 : 0 ≤ a ∧ a ≤ 400000000)
    (hc0 : 0 ≤ c ∧ c ≤ 36525) (he0 : 0 ≤ e ∧ e ≤ 366) :
    toYearMonthDay j =
      some ⟨b * 100 + d - 4800 + m / 10, m + 3 - 12 * (m / 10), e - (153 * m + 2) / 5 + 1⟩ := by
  have hb0 : 0 ≤ b ∧ b ≤ 10952 := by omega
  have hd0 : 0 ≤ d ∧ d ≤ 100 := by omega
  have hm0 : 0 ≤ m ∧ m ≤ 11 := by omega
  unfold toYearMonthDay
  rw [int32_bind (by omega), ha, int32_bind (by omega), int32_bind (by omega),
    Int.tdiv_eq_ediv_of_nonneg (by omega), hb, int32_bind (by omega),
    Int.tdiv_eq_ediv_of_nonneg (by omega), int32_bind (by omega), hc, int32_bind (by omega),
    int32_bind (by omega), Int.tdiv_eq_ediv_of_nonneg (by omega), hd, int32_bind (by omega),
    Int.tdiv_eq_ediv_of_nonneg (by omega), int32_bind (by omega), he, int32_bind (by omega),
    int32_bind (by omega), Int.tdiv_eq_ediv_of_nonneg (by omega), hm, int32_bind (by omega),
    int32_bind (by omega), Int.tdiv_eq_ediv_of_nonneg (by omega),
    Int.tdiv_eq_ediv_of_nonneg hm0.1, int32_bind (by omega), int32_bind (by omega),
    int32_bind (by omega), int32_bind (by omega), int32_bind (by omega), int32_bind (by omega),
    int32_bind (by omega), int32_bind (by omega), int32_bind (by omega)]
  rfl

/-- The last month of a year from March on is February, which has 29 days in leap years only. -/
theorem yearOfMarch_lt (h : date.Valid) :
    months (marchMonth date) + (date.day - 1) <
      if IsLeap (marchYear date + 1) then 366 else 365 := by
  obtain ⟨hmonth, hmonth', hday⟩ := day_le_months h
  by_cases hfeb : date.month = 2
  · have hlast := h.day_le
    have hyear : marchYear date + 1 = date.year + 400 * 12 := by
      rw [marchYear, if_pos (by omega)]
      omega
    have hm : marchMonth date = 11 := by
      rw [marchMonth, if_pos (by omega), hfeb]
      rfl
    have hmonths : months 11 = 337 := by decide
    rw [hm, hmonths, hyear]
    simp only [hfeb, daysInMonth, if_true, CivilDate.isLeap_shift] at hlast ⊢
    split at hlast <;> simp only [*, ↓reduceIte] <;> omega
  · have hm : marchMonth date ≤ 10 := by
      have := h.month_le
      unfold marchMonth
      split <;> omega
    have hle : months (marchMonth date + 1) ≤ 337 := by
      unfold months stair
      omega
    split <;> omega

/-- The days before the year `y` from March on, by its century. -/
theorem days_century {y b d : Int} (hy : y = 100 * b + d) (hd : 0 ≤ d ∧ d ≤ 99) :
    365 * y + y / 4 - y / 100 + y / 400 = centuries b + years d := by
  rw [centuries_eq, years_eq]
  omega

/-- A century has a day more when its last year has one. -/
theorem century_lt {b d e : Int} (hd : 0 ≤ d ∧ d ≤ 99)
    (he : e < if IsLeap (100 * b + d + 1) then 366 else 365) :
    years d + e < centuries (b + 1) - centuries b ∧ e < years (d + 1) - years d := by
  simp only [centuries_eq, years_eq]
  by_cases hleap : IsLeap (100 * b + d + 1)
  · rw [if_pos hleap] at he
    unfold IsLeap at hleap
    omega
  · rw [if_neg hleap] at he
    unfold IsLeap at hleap
    omega

/-- A day of a century is a day of one of its years, and a day of a year is one of its months. -/
theorem toYearMonthDay_stairs {b d m k : Int} (hb : 0 ≤ b ∧ b ≤ 10048) (hd : 0 ≤ d) (hm : 0 ≤ m)
    (hk : 0 ≤ k) (hmonth : months m + k < months (m + 1))
    (hyear : years d + (months m + k) < years (d + 1))
    (hcentury : centuries b + (years d + (months m + k)) < centuries (b + 1)) :
    toYearMonthDay (centuries b + (years d + (months m + k)) - 32044) =
      some ⟨b * 100 + d - 4800 + m / 10, m + 3 - 12 * (m / 10), k + 1⟩ := by
  have hm0 : 0 ≤ months m := Int.ediv_nonneg (by omega) (by decide)
  have hd0 : 0 ≤ years d := Int.ediv_nonneg (by omega) (by decide)
  have hb0 : 0 ≤ centuries b ∧ centuries b ≤ 368000000 := by
    rw [centuries_eq]
    omega
  have hcentury' : centuries (b + 1) ≤ centuries b + 36525 := by
    simp only [centuries_eq]
    omega
  have hyear' : years (d + 1) ≤ years d + 366 := by
    simp only [years_eq]
    omega
  have hb' : (4 * (centuries b + (years d + (months m + k))) + 3) / 146097 = b :=
    stepAt_eq (p := 146097) (q := 4) (r := 0) (by decide) (by decide)
      (show centuries b ≤ _ by omega) hcentury
  have hd' : (4 * (years d + (months m + k)) + 3) / 1461 = d :=
    stepAt_eq (p := 1461) (q := 4) (r := 0) (by decide) (by decide)
      (show years d ≤ _ by omega) hyear
  have hm' : (5 * (months m + k) + 2) / 153 = m :=
    stepAt_eq (p := 153) (q := 5) (r := 2) (by decide) (by decide)
      (show months m ≤ _ by omega) hmonth
  have hcenturies : b * 146097 / 4 = centuries b := by
    rw [Int.mul_comm, ← Int.add_zero (146097 * b)]
    rfl
  have hyears : 1461 * d / 4 = years d := by
    rw [← Int.add_zero (1461 * d)]
    rfl
  rw [toYearMonthDay_exact (by omega) hb' (by omega) hd' (by omega) hm' (by omega) (by omega)
    (by omega)]
  have hmonths : (153 * m + 2) / 5 = months m := rfl
  rw [hmonths, Int.add_comm (months m), Int.add_sub_cancel]

/-- The date is found from its year and month, counted from March on. -/
theorem ofMarch_eq (h : date.Valid) :
    (⟨marchYear date - 4800 + marchMonth date / 10,
      marchMonth date + 3 - 12 * (marchMonth date / 10), date.day⟩ : CivilDate) = date := by
  obtain ⟨year, month, day⟩ := date
  obtain ⟨hm, hm', -, -⟩ := h
  simp only [marchYear, marchMonth, CivilDate.mk.injEq, and_true] at hm hm' ⊢
  split <;> omega

theorem toYearMonthDay_eq (h : date.Valid) (hge : -4799 ≤ date.year)
    (hle : date.year ≤ 1000000) : toYearMonthDay (date.dayNumber + 1721426) = some date := by
  obtain ⟨hmonth, hmonth', hday⟩ := day_le_months h
  have hday' := h.one_le_day
  have hyear : 0 ≤ marchYear date ∧ marchYear date ≤ 1004800 := by
    unfold marchYear
    split <;> omega
  obtain ⟨b, d, hy, hd⟩ : ∃ b d, marchYear date = 100 * b + d ∧ 0 ≤ d ∧ d ≤ 99 :=
    ⟨marchYear date / 100, marchYear date % 100, by omega, by omega, by omega⟩
  have hlast := yearOfMarch_lt h
  have hnumber := marchDay_eq h
  rw [days_century hy hd, marchDay] at hnumber
  rw [hy] at hlast
  obtain ⟨hcentury, hyears⟩ := century_lt hd hlast
  have hstairs := toYearMonthDay_stairs (b := b) (d := d) (m := marchMonth date)
    (k := date.day - 1) (by omega) hd.1 hmonth (by omega) (by omega) (by omega) (by omega)
  calc toYearMonthDay (date.dayNumber + 1721426)
    _ = toYearMonthDay (centuries b + (years d + (months (marchMonth date) + (date.day - 1))) -
          32044) := by
      congr 1
      omega
    _ = _ := hstairs
    _ = some ⟨marchYear date - 4800 + marchMonth date / 10,
          marchMonth date + 3 - 12 * (marchMonth date / 10), date.day⟩ := by
      rw [hy, Int.sub_add_cancel, Int.mul_comm b 100]
    _ = some date := by rw [ofMarch_eq h]

/-- The dates with a year of the range are those with a number of the range. -/
theorem year_iff (h : date.Valid) :
    -4799 ≤ date.year ∧ date.year ≤ 1000000 ↔
      (⟨-4799, 1, 1⟩ : CivilDate).dayNumber ≤ date.dayNumber ∧
        date.dayNumber ≤ (⟨1000000, 12, 31⟩ : CivilDate).dayNumber := by
  have hlast : (⟨1000000, 12, 31⟩ : CivilDate).dayNumber + 1 = CivilDate.daysBeforeYear 1000001 :=
    rfl
  have hlow := h.le_year_iff (-4799)
  have hhigh := h.le_year_iff 1000001
  rw [CivilDate.dayNumber_first]
  omega

/-- Dates and Julian day numbers are in bijection, the number of the next day is the next number,
and no `int` overflows. -/
theorem julianDay_bijection :
    (∀ date : CivilDate, date.Valid → -4799 ≤ date.year → date.year ≤ 1000000 →
      ∃ j, toJulianDayNumber date.year date.month date.day = some j ∧
        toYearMonthDay j = some date ∧
        toJulianDayNumber date.next.year date.next.month date.next.day = some (j + 1)) ∧
    ∃ first last, toJulianDayNumber (-4799) 1 1 = some first ∧
      toJulianDayNumber 1000000 12 31 = some last ∧
      ∀ j, first ≤ j → j ≤ last → ∃ date, toYearMonthDay j = some date ∧ date.Valid ∧
        -4799 ≤ date.year ∧ date.year ≤ 1000000 ∧
        toJulianDayNumber date.year date.month date.day = some j := by
  constructor
  · intro date h hge hle
    have hnext : -4799 ≤ date.next.year ∧ date.next.year ≤ 1000001 := by
      unfold CivilDate.next
      split
      · simp only
        omega
      · split <;> simp only <;> omega
    refine ⟨_, toJulianDayNumber_eq h hge (by omega), toYearMonthDay_eq h hge hle, ?_⟩
    rw [toJulianDayNumber_eq h.next hnext.1 hnext.2, CivilDate.dayNumber_next h]
    congr 1
    omega
  · have hfirst := toJulianDayNumber_eq (show CivilDate.Valid ⟨-4799, 1, 1⟩ by decide) (by decide)
      (by decide)
    have hlast := toJulianDayNumber_eq (show CivilDate.Valid ⟨1000000, 12, 31⟩ by decide)
      (by decide) (by decide)
    refine ⟨_, _, hfirst, hlast, ?_⟩
    intro j hfirst hlast
    obtain ⟨date, h, hnumber⟩ := CivilDate.exists_dayNumber (j - 1721426)
    obtain ⟨hge, hle⟩ := (year_iff h).mpr (by omega)
    have hj : date.dayNumber + 1721426 = j := by omega
    refine ⟨date, ?_, h, hge, hle, ?_⟩
    · rw [← hj]
      exact toYearMonthDay_eq h hge hle
    · rw [toJulianDayNumber_eq h hge (by omega), hj]

theorem julianDay_leapDay :
    ∃ j, toJulianDayNumber 2000 2 29 = some j ∧ toYearMonthDay j = some ⟨2000, 2, 29⟩ ∧
      toJulianDayNumber 2000 3 1 = some (j + 1) :=
  julianDay_bijection.1 ⟨2000, 2, 29⟩ (by decide) (by decide) (by decide)

end Date

end MyTinyHttpd
