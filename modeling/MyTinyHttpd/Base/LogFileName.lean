import MyTinyHttpd.Lib.FixedWidth
import MyTinyHttpd.Utils.UtcTime

/-!
# `base/log_file.cc`: the names of the files

`GetLogFilename` puts the time into the name, in UTC and to the second. `gmtime_r` is the calendar
of `TimeZone`, and `strftime` writes the year without padding.

* `decimalPad_eq`: a padded number is a text of fixed width.
* `getLogFilename_lt`: the names sort like the times, up to the year 9999.
-/

namespace MyTinyHttpd

open Verif

/-- The arguments of the constructor, and the process. -/
structure LogFileConfig where
  basename : List UInt8
  rollSize : Int
  flushInterval : Int := 3
  checkEveryN : Int := 1024
  hostname : List UInt8
  pid : Int

namespace LogFile

/-- `gmtime_r`. -/
def gmtime (now : Int) : Tm := (TimeZone.toUtcTime now false).getD {}

/-- `.%Y%m%d-%H%M%S.`. -/
def timeName (tm : Tm) : List UInt8 :=
  [46] ++ decimalInt (tm.year + 1900) ++ decimalPad 2 (tm.mon + 1) ++ decimalPad 2 tm.mday ++
    [45] ++ decimalPad 2 tm.hour ++ decimalPad 2 tm.min ++ decimalPad 2 tm.sec ++ [46]

def getLogFilename (config : LogFileConfig) (now : Int) : List UInt8 :=
  config.basename ++ timeName (gmtime now) ++ config.hostname ++
    snprintf 32 (46 :: decimalInt config.pid) ++ ascii ".log"

/-! ## Digits -/

def digitByte (d : Nat) : UInt8 := UInt8.ofNat (48 + d)

theorem digitByte_lt (i j : Nat) (hij : i < j) (hj : j < 10) : digitByte i < digitByte j := by
  rw [UInt8.lt_iff_toNat_lt]
  simp only [digitByte, UInt8.toNat_ofNat']
  omega

theorem decimal_of_lt {n : Nat} (h : n < 10) : decimal n = [digitByte n] := by
  unfold decimal digitByte
  split
  · subst_vars
    rfl
  · rw [Nat.digits_of_lt 10 n (by assumption) h]
    rfl

theorem decimal_snoc {n : Nat} (h : 10 ≤ n) :
    decimal n = decimal (n / 10) ++ [digitByte (n % 10)] := by
  unfold decimal digitByte
  rw [if_neg (by omega), if_neg (by omega), Nat.digits_def' (by decide) (by omega)]
  simp

theorem length_decimal_pos (n : Nat) : 0 < (decimal n).length :=
  List.length_pos_iff.mpr (decimal_ne_nil n)

/-- A padded number has a fixed width. -/
theorem decimalPad_eq {w n : Nat} (h : n < 10 ^ (w + 1)) :
    decimalPad (w + 1) n = fixedWidth 10 digitByte (w + 1) n := by
  have hnat : (n : Int).natAbs = n := rfl
  have hpos : ¬ (n : Int) < 0 := by omega
  simp only [decimalPad, hpos, if_false, List.nil_append, List.length_nil, Nat.zero_add, hnat]
  induction w generalizing n with
  | zero =>
    have hlt : n < 10 := by omega
    simp [decimal_of_lt hlt, fixedWidth, Nat.mod_eq_of_lt hlt]
  | succ w ih =>
    have hquot : n / 10 < 10 ^ (w + 1) := by
      rw [Nat.pow_succ] at h
      omega
    have hrest := ih hquot rfl (by omega)
    rw [fixedWidth, ← hrest]
    rcases Nat.lt_or_ge n 10 with hlt | hge
    · rw [decimal_of_lt hlt, Nat.div_eq_of_lt hlt, Nat.mod_eq_of_lt hlt, decimal_of_lt (by decide)]
      simp [List.replicate_succ', digitByte]
    · rw [decimal_snoc hge]
      simp

/-- A year of four digits needs no padding. -/
theorem decimalInt_eq {n : Nat} (hge : 1000 ≤ n) (hlt : n < 10000) :
    decimalInt n = fixedWidth 10 digitByte 4 n := by
  have hlen : 4 ≤ (decimal n).length := by
    rw [decimal_snoc (by omega), decimal_snoc (by omega), decimal_snoc (by omega)]
    have := length_decimal_pos (n / 10 / 10 / 10)
    simp only [List.length_append, List.length_singleton]
    omega
  have hpos : ¬ (n : Int) < 0 := by omega
  have hnat : (n : Int).natAbs = n := rfl
  have htoNat : (n : Int).toNat = n := rfl
  rw [← decimalPad_eq (by omega)]
  simp [decimalInt, decimalPad, hpos, hnat, htoNat, Nat.sub_eq_zero_of_le hlen]

/-! ## Times -/

/-- The parts of the name. -/
def nameFields (year mon mday hour min sec : Nat) : List (List UInt8) :=
  [[46], fixedWidth 10 digitByte 4 year, fixedWidth 10 digitByte 2 mon,
    fixedWidth 10 digitByte 2 mday, [45], fixedWidth 10 digitByte 2 hour,
    fixedWidth 10 digitByte 2 min, fixedWidth 10 digitByte 2 sec, [46]]

/-- The time in the name, by the calendar. -/
theorem timeName_eq {t : Int} {date : CivilDate} (h : TimeZone.OnDate t date) (hge : 0 ≤ t)
    (hlt : t < 253402300800) :
    1970 ≤ date.year ∧ date.year < 10000 ∧ timeName (gmtime t) =
      (nameFields date.year.toNat date.month.toNat date.day.toNat (t / 3600 % 24).toNat
        (t / 60 % 60).toNat (t % 60).toNat).flatten := by
  have hepoch : (⟨1970, 1, 1⟩ : CivilDate).dayNumber = 719162 := by decide
  have hfirst : CivilDate.daysBeforeYear 1970 = 719162 := by decide
  have hlast : CivilDate.daysBeforeYear 10000 = 3652059 := by decide
  have hnumber := h.dayNumber_eq
  have hyear : 1970 ≤ date.year := (h.valid.le_year_iff 1970).mpr (by omega)
  have hyear' : date.year < 10000 := by
    by_contra hnot
    have := (h.valid.le_year_iff 10000).mp (by omega)
    omega
  refine ⟨hyear, hyear', ?_⟩
  have hmonth := h.valid.one_le_month
  have hmonth' := h.valid.month_le
  have hday := h.valid.one_le_day
  have hday' := Int.le_trans h.valid.day_le (CivilDate.daysInMonth_le _ _)
  have htm : gmtime t = TimeZone.utcTm t date false := by
    rw [gmtime, TimeZone.toUtcTime_eq h (by omega) (by omega)]
    rfl
  obtain ⟨year, hy⟩ := Int.eq_ofNat_of_zero_le (show 0 ≤ date.year by omega)
  obtain ⟨month, hm⟩ := Int.eq_ofNat_of_zero_le (show 0 ≤ date.month by omega)
  obtain ⟨day, hd⟩ := Int.eq_ofNat_of_zero_le (show 0 ≤ date.day by omega)
  obtain ⟨hour, hh⟩ := Int.eq_ofNat_of_zero_le (show 0 ≤ t / 3600 % 24 by omega)
  obtain ⟨min, hmin⟩ := Int.eq_ofNat_of_zero_le (show 0 ≤ t / 60 % 60 by omega)
  obtain ⟨sec, hsec⟩ := Int.eq_ofNat_of_zero_le (show 0 ≤ t % 60 by omega)
  rw [htm]
  simp only [timeName, TimeZone.utcTm, Int.sub_add_cancel, nameFields]
  rw [hy, hm, hd, hh, hmin, hsec]
  simp only [Int.toNat_natCast]
  rw [decimalInt_eq (by omega) (by omega), decimalPad_eq (by omega), decimalPad_eq (by omega),
    decimalPad_eq (by omega), decimalPad_eq (by omega), decimalPad_eq (by omega)]
  simp

theorem fixedWidth_digits_lt {w n m : Nat} (h : n < m) (hm : m < 10 ^ w) :
    fixedWidth 10 digitByte w n < fixedWidth 10 digitByte w m :=
  fixedWidth_lt (by decide) digitByte_lt h hm

/-- The parts sort by the first one that differs. -/
theorem nameFields_lt {year mon mday hour min sec year' mon' mday' hour' min' sec' : Nat}
    (hyear : year' < 10000) (hmon : mon' < 100) (hmday : mday' < 100) (hhour : hour' < 100)
    (hmin : min' < 100) (hsec : sec' < 100)
    (h : year < year' ∨ year = year' ∧ (mon < mon' ∨ mon = mon' ∧ (mday < mday' ∨ mday = mday' ∧
      (hour < hour' ∨ hour = hour' ∧ (min < min' ∨ min = min' ∧ sec < sec'))))) :
    nameFields year mon mday hour min sec < nameFields year' mon' mday' hour' min' sec' := by
  rcases h with h | ⟨rfl, h | ⟨rfl, h | ⟨rfl, h | ⟨rfl, h | ⟨rfl, h⟩⟩⟩⟩⟩
  · simp [nameFields, List.cons_lt_cons_iff, fixedWidth_digits_lt (w := 4) h hyear]
  · simp [nameFields, List.cons_lt_cons_iff, fixedWidth_digits_lt (w := 2) h hmon]
  · simp [nameFields, List.cons_lt_cons_iff, fixedWidth_digits_lt (w := 2) h hmday]
  · simp [nameFields, List.cons_lt_cons_iff, fixedWidth_digits_lt (w := 2) h hhour]
  · simp [nameFields, List.cons_lt_cons_iff, fixedWidth_digits_lt (w := 2) h hmin]
  · simp [nameFields, List.cons_lt_cons_iff, fixedWidth_digits_lt (w := 2) h hsec]

/-- Within a day. -/
theorem clock_lt {t t' : Int} (h : t < t') (hday : t / 86400 = t' / 86400) :
    (t / 3600 % 24).toNat < (t' / 3600 % 24).toNat ∨
      (t / 3600 % 24).toNat = (t' / 3600 % 24).toNat ∧
        ((t / 60 % 60).toNat < (t' / 60 % 60).toNat ∨
          (t / 60 % 60).toNat = (t' / 60 % 60).toNat ∧ (t % 60).toNat < (t' % 60).toNat) := by
  rcases Int.lt_or_le (t / 3600) (t' / 3600) with hhour | hhour
  · exact .inl (by omega)
  · have hhour' : t / 3600 = t' / 3600 := by omega
    refine .inr ⟨by rw [hhour'], ?_⟩
    rcases Int.lt_or_le (t / 60) (t' / 60) with hmin | hmin
    · exact .inl (by omega)
    · have hmin' : t / 60 = t' / 60 := by omega
      exact .inr ⟨by rw [hmin'], by omega⟩

theorem timeName_lt {t t' : Int} (hge : 0 ≤ t) (h : t < t') (hlt : t' < 253402300800) :
    timeName (gmtime t) < timeName (gmtime t') := by
  obtain ⟨date, hdate⟩ := TimeZone.exists_onDate t
  obtain ⟨date', hdate'⟩ := TimeZone.exists_onDate t'
  obtain ⟨hfirst, hfirst', hname⟩ := timeName_eq hdate hge (by omega)
  obtain ⟨hyear, hyear', hname'⟩ := timeName_eq hdate' (by omega) hlt
  have hmonth := hdate'.valid.month_le
  have hday := Int.le_trans hdate'.valid.day_le (CivilDate.daysInMonth_le _ _)
  have hmonth' := hdate.valid.one_le_month
  have hday' := hdate.valid.one_le_day
  rw [hname, hname']
  refine flatten_lt ?_ (by simp [nameFields, length_fixedWidth])
  refine nameFields_lt (by omega) (by omega) (by omega) (by omega) (by omega) (by omega) ?_
  rcases Int.lt_or_le (t / 86400) (t' / 86400) with hdays | hdays
  · -- Another day.
    have hlex := hdate.valid.lt_of_dayNumber_lt hdate'.valid (by
      rw [hdate.dayNumber_eq, hdate'.dayNumber_eq]
      omega)
    rcases hlex with hy | ⟨hy, hm | ⟨hm, hd⟩⟩
    · exact .inl (by omega)
    · exact .inr ⟨by rw [hy], .inl (by omega)⟩
    · exact .inr ⟨by rw [hy], .inr ⟨by rw [hm], .inl (by omega)⟩⟩
  · have hsame : date = date' := by
      have hnumber : date.dayNumber = date'.dayNumber := by
        rw [hdate.dayNumber_eq, hdate'.dayNumber_eq]
        omega
      have hback := Date.toYearMonthDay_eq hdate.valid (by omega) (by omega)
      rw [hnumber, Date.toYearMonthDay_eq hdate'.valid (by omega) (by omega)] at hback
      exact (Option.some.inj hback).symm
    subst hsame
    refine .inr ⟨rfl, .inr ⟨rfl, .inr ⟨rfl, ?_⟩⟩⟩
    exact clock_lt h (by omega)

/-- **The names sort like the times**, so that they are different for different seconds. -/
theorem getLogFilename_lt (config : LogFileConfig) {t t' : Int} (hge : 0 ≤ t) (h : t < t')
    (hlt : t' < 253402300800) : getLogFilename config t < getLogFilename config t' := by
  obtain ⟨date, hdate⟩ := TimeZone.exists_onDate t
  obtain ⟨date', hdate'⟩ := TimeZone.exists_onDate t'
  simp only [getLogFilename, List.append_assoc]
  refine append_lt_append_left _ (append_lt_append_of_lt (timeName_lt hge h hlt) ?_ _ _)
  rw [(timeName_eq hdate hge (by omega)).2.2, (timeName_eq hdate' (by omega) hlt).2.2]
  simp [nameFields, length_fixedWidth]

end LogFile

end MyTinyHttpd
