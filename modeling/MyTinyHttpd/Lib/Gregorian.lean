import Mathlib.Data.Int.Interval
import Mathlib.Tactic.IntervalCases

/-!
# The proleptic Gregorian calendar

The calendar by its rules: the lengths of the months, the leap years and the date after a date.
Years are integers, the year before 1 is 0.

* `CivilDate.Valid`, `CivilDate.next`: dates and the next day.
* `CivilDate.dayNumber`: the days of the years and months before the date, and those of the month.
* `dayNumber_next`: the numbers follow the calendar, one by one.
* `exists_dayNumber`: every integer is the number of a date. `le_year_iff`: where its year begins.
-/

namespace Verif

def IsLeap (y : Int) : Prop := y % 4 = 0 ∧ (y % 100 ≠ 0 ∨ y % 400 = 0)

instance (y : Int) : Decidable (IsLeap y) := inferInstanceAs (Decidable (_ ∧ _))

def daysInMonth (y m : Int) : Int :=
  if m = 2 then if IsLeap y then 29 else 28
  else if m = 4 ∨ m = 6 ∨ m = 9 ∨ m = 11 then 30
  else 31

structure CivilDate where
  year : Int
  month : Int
  day : Int
  deriving DecidableEq

namespace CivilDate

structure Valid (d : CivilDate) : Prop where
  one_le_month : 1 ≤ d.month
  month_le : d.month ≤ 12
  one_le_day : 1 ≤ d.day
  day_le : d.day ≤ daysInMonth d.year d.month

instance (d : CivilDate) : Decidable d.Valid :=
  decidable_of_iff (1 ≤ d.month ∧ d.month ≤ 12 ∧ 1 ≤ d.day ∧ d.day ≤ daysInMonth d.year d.month)
    ⟨fun ⟨h₁, h₂, h₃, h₄⟩ => ⟨h₁, h₂, h₃, h₄⟩, fun ⟨h₁, h₂, h₃, h₄⟩ => ⟨h₁, h₂, h₃, h₄⟩⟩

/-- The next day. -/
def next (d : CivilDate) : CivilDate :=
  if d.day < daysInMonth d.year d.month then { d with day := d.day + 1 }
  else if d.month < 12 then ⟨d.year, d.month + 1, 1⟩
  else ⟨d.year + 1, 1, 1⟩

/-- The days from 1 January of year 1 to that of the year `y`. -/
def daysBeforeYear (y : Int) : Int := 365 * (y - 1) + (y - 1) / 4 - (y - 1) / 100 + (y - 1) / 400

/-- The days of the first `n` months. -/
def daysOfMonths (y : Int) : Nat → Int
  | 0 => 0
  | n + 1 => daysOfMonths y n + daysInMonth y (n + 1)

/-- The days since 1 January of the year. -/
def yearDay (d : CivilDate) : Int := daysOfMonths d.year (d.month - 1).toNat + (d.day - 1)

def dayNumber (d : CivilDate) : Int := daysBeforeYear d.year + d.yearDay

theorem daysBeforeYear_succ (y : Int) :
    daysBeforeYear (y + 1) = daysBeforeYear y + if IsLeap y then 366 else 365 := by
  unfold daysBeforeYear
  by_cases hleap : IsLeap y
  · rw [if_pos hleap]
    unfold IsLeap at hleap
    omega
  · rw [if_neg hleap]
    unfold IsLeap at hleap
    omega

theorem daysOfMonths_twelve (y : Int) : daysOfMonths y 12 = if IsLeap y then 366 else 365 := by
  by_cases hleap : IsLeap y <;> simp [daysOfMonths, daysInMonth, hleap]

theorem daysInMonth_le (y m : Int) : daysInMonth y m ≤ 31 := by
  unfold daysInMonth
  split
  · split <;> decide
  · split <;> decide

theorem le_daysInMonth (y m : Int) : 28 ≤ daysInMonth y m := by
  unfold daysInMonth
  split
  · split <;> decide
  · split <;> decide

theorem valid_first (y : Int) : (⟨y, 1, 1⟩ : CivilDate).Valid :=
  ⟨Int.le_refl 1, by simp only; omega, Int.le_refl 1,
    (by decide : (1 : Int) ≤ 28).trans (le_daysInMonth _ _)⟩

theorem dayNumber_first (y : Int) : (⟨y, 1, 1⟩ : CivilDate).dayNumber = daysBeforeYear y :=
  Int.add_zero _

variable {d : CivilDate}

theorem Valid.next (h : d.Valid) : d.next.Valid := by
  obtain ⟨h₁, h₂, h₃, h₄⟩ := h
  unfold CivilDate.next
  split
  · exact ⟨h₁, h₂, by simp only; omega, by simp only; omega⟩
  · split
    · have := le_daysInMonth d.year (d.month + 1)
      exact ⟨by simp only; omega, by simp only; omega, by simp only; omega, by simp only; omega⟩
    · have := le_daysInMonth (d.year + 1) 1
      exact ⟨by simp only; omega, by simp only; omega, by simp only; omega, by simp only; omega⟩

/-- The day numbers follow the calendar. -/
theorem dayNumber_next (h : d.Valid) : d.next.dayNumber = d.dayNumber + 1 := by
  obtain ⟨y, m, day⟩ := d
  obtain ⟨hm, hm', hday, hday'⟩ := h
  simp only at hm hm' hday hday'
  unfold CivilDate.next
  simp only
  split
  · simp only [dayNumber, yearDay]
    omega
  · obtain ⟨n, rfl⟩ : ∃ n : Nat, m = n + 1 := ⟨(m - 1).toNat, by omega⟩
    have hlast : day = daysInMonth y (n + 1) := by omega
    split
    · have hn : ((n : Int) + 1 + 1 - 1).toNat = n + 1 := by omega
      have hn' : ((n : Int) + 1 - 1).toNat = n := by omega
      simp only [dayNumber, yearDay, hn, hn', daysOfMonths]
      omega
    · obtain rfl : n = 11 := by omega
      have hyear := daysBeforeYear_succ y
      have htwelve := daysOfMonths_twelve y
      simp only [dayNumber, yearDay]
      rw [daysOfMonths] at htwelve
      have hn : ((11 : Nat) : Int) + 1 - 1 = 11 := rfl
      simp only [hn]
      show daysBeforeYear (y + 1) + (0 + (1 - 1)) = _
      show _ = daysBeforeYear y + (daysOfMonths y 11 + (day - 1)) + 1
      omega

/-! ## The dates of the integers -/

theorem daysOfMonths_le {n m : Nat} (h : n ≤ m) (y : Int) :
    daysOfMonths y n ≤ daysOfMonths y m := by
  induction h with
  | refl => exact Int.le_refl _
  | @step m _ ih =>
    have := le_daysInMonth y (m + 1)
    rw [daysOfMonths]
    omega

theorem Valid.yearDay_nonneg (h : d.Valid) : 0 ≤ d.yearDay := by
  have hmonths := daysOfMonths_le (Nat.zero_le (d.month - 1).toNat) d.year
  have hday := h.one_le_day
  rw [daysOfMonths] at hmonths
  unfold yearDay
  omega

theorem Valid.yearDay_lt (h : d.Valid) : d.yearDay < if IsLeap d.year then 366 else 365 := by
  obtain ⟨hm, hm', -, hday⟩ := h
  have hmonths := daysOfMonths_le (n := (d.month - 1).toNat + 1) (m := 12) (by omega) d.year
  have hcast : ((d.month - 1).toNat : Int) + 1 = d.month := by omega
  rw [daysOfMonths_twelve, daysOfMonths, hcast] at hmonths
  unfold yearDay
  omega

theorem daysBeforeYear_lt {y y' : Int} (h : y < y') : daysBeforeYear y < daysBeforeYear y' := by
  unfold daysBeforeYear
  omega

theorem Valid.le_dayNumber (h : d.Valid) : daysBeforeYear d.year ≤ d.dayNumber := by
  have := h.yearDay_nonneg
  unfold dayNumber
  omega

theorem Valid.dayNumber_lt (h : d.Valid) : d.dayNumber < daysBeforeYear (d.year + 1) := by
  have := h.yearDay_lt
  rw [daysBeforeYear_succ, dayNumber]
  omega

/-- The first day of the year `y` or a later day. -/
theorem Valid.le_year_iff (h : d.Valid) (y : Int) :
    y ≤ d.year ↔ daysBeforeYear y ≤ d.dayNumber := by
  have hle := h.le_dayNumber
  have hlt := h.dayNumber_lt
  constructor
  · intro hy
    rcases Int.lt_or_eq_of_le hy with hy | rfl
    · exact (Int.le_of_lt (daysBeforeYear_lt hy)).trans hle
    · exact hle
  · intro hn
    by_contra hy
    rcases Int.lt_or_eq_of_le (show d.year + 1 ≤ y by omega) with hy | rfl
    · have := daysBeforeYear_lt hy
      omega
    · omega

theorem isLeap_shift (y k : Int) : IsLeap (y + 400 * k) ↔ IsLeap y := by
  unfold IsLeap
  omega

/-- The calendar repeats after 400 years. -/
theorem dayNumber_shift (d : CivilDate) (k : Int) :
    ({ d with year := d.year + 400 * k } : CivilDate).dayNumber = d.dayNumber + 146097 * k := by
  have hmonths : ∀ n, daysOfMonths (d.year + 400 * k) n = daysOfMonths d.year n := by
    intro n
    induction n with
    | zero => rfl
    | succ n ih => simp only [daysOfMonths, ih, daysInMonth, isLeap_shift]
  simp only [dayNumber, yearDay, hmonths, daysBeforeYear]
  omega

theorem Valid.shift (h : d.Valid) (k : Int) :
    ({ d with year := d.year + 400 * k } : CivilDate).Valid := by
  have hdays : daysInMonth (d.year + 400 * k) d.month = daysInMonth d.year d.month := by
    simp only [daysInMonth, isLeap_shift]
  exact ⟨h.one_le_month, h.month_le, h.one_le_day, hdays ▸ h.day_le⟩

theorem exists_dayNumber (n : Int) : ∃ d : CivilDate, d.Valid ∧ d.dayNumber = n := by
  have hnat : ∀ n : Nat, ∃ d : CivilDate, d.Valid ∧ d.dayNumber = n := by
    intro n
    induction n with
    | zero => exact ⟨⟨1, 1, 1⟩, by decide, rfl⟩
    | succ n ih =>
      obtain ⟨d, hvalid, hnumber⟩ := ih
      refine ⟨d.next, hvalid.next, ?_⟩
      rw [dayNumber_next hvalid, hnumber]
      rfl
  -- a number below zero is reached from one above it, some cycles before
  obtain ⟨d, hvalid, hnumber⟩ := hnat (n + 146097 * n.natAbs).toNat
  refine ⟨{ d with year := d.year + 400 * -n.natAbs }, hvalid.shift _, ?_⟩
  rw [dayNumber_shift, hnumber]
  omega

/-- Dates sort by year, month and day. -/
theorem Valid.lt_of_dayNumber_lt {d' : CivilDate} (h : d.Valid) (h' : d'.Valid)
    (hlt : d.dayNumber < d'.dayNumber) :
    d.year < d'.year ∨ d.year = d'.year ∧
      (d.month < d'.month ∨ d.month = d'.month ∧ d.day < d'.day) := by
  have hyear : d.year ≤ d'.year := (h'.le_year_iff d.year).mpr (by
    have := h.le_dayNumber
    omega)
  rcases Int.lt_or_eq_of_le hyear with hy | hy
  · exact .inl hy
  · refine .inr ⟨hy, ?_⟩
    have hdays : d.yearDay < d'.yearDay := by
      simp only [dayNumber, hy] at hlt
      omega
    simp only [yearDay, hy] at hdays
    have hm := h.one_le_month
    have hm' := h'.one_le_month
    have hd := h.one_le_day
    have hday := h'.day_le
    rcases Int.lt_trichotomy d.month d'.month with hlt | heq | hgt
    · exact .inl hlt
    · rw [heq] at hdays
      exact .inr ⟨heq, by omega⟩
    · -- The months before the later one contain the earlier one.
      have hmonths := daysOfMonths_le (n := (d'.month - 1).toNat + 1) (m := (d.month - 1).toNat)
        (by omega) d'.year
      have hcast : ((d'.month - 1).toNat : Int) + 1 = d'.month := by omega
      rw [daysOfMonths, hcast] at hmonths
      omega

end CivilDate

end Verif
