import MyTinyHttpd.Base.Logging
import MyTinyHttpd.Lib.LastValue
import MyTinyHttpd.Utils.LocalInverse

/-!
# `base/logging.cc`: the cached time

`FormatTime` formats the time only when the second has changed since the thread's last statement,
and streams the first 17 bytes of what it has kept. The time zone is not part of what it compares,
and the second that it starts with is 0.

The assertions are left out: a text has at least 17 bytes.

* `contexts`: what the statements of a thread find, along a history.
* `scratch`: the 17 bytes for a second in a time zone, computed anew.
* `contexts_memoRun`: `FormatTime` keeps the last value, by the second.
* `written_eq_scratch_iff`: when what it streams is what it should be.
-/

namespace MyTinyHttpd

open Verif

/-- `t_time` and `t_last_second` of the thread, and `g_log_time_zone`. -/
structure LogTime where
  tTime : List UInt8 := List.replicate 64 0
  tLastSecond : Int := 0
  zone : TimeZone := {}

inductive LogEvent where
  | statement (time : Timestamp)
  | setTimeZone (zone : TimeZone)

namespace Logger

/-- `%4d`. -/
def decimalBlanks (w : Nat) (i : Int) : List UInt8 :=
  List.replicate (w - (decimalInt i).length) 32 ++ decimalInt i

/-- `%4d%02d%02d %02d:%02d:%02d`. -/
def timeText (tm : Tm) : List UInt8 :=
  decimalBlanks 4 (tm.year + 1900) ++ decimalPad 2 (tm.mon + 1) ++ decimalPad 2 tm.mday ++ [32] ++
    decimalPad 2 tm.hour ++ [58] ++ decimalPad 2 tm.min ++ [58] ++ decimalPad 2 tm.sec

def tmTime (c : CTime) (zone : TimeZone) (seconds : Int) : Option Tm :=
  if zone.isValid then zone.toLocalTime c seconds else some (c.gmtime seconds)

/-- `snprintf(t_time, sizeof(t_time), …)`, which leaves the bytes behind the NUL as they are. -/
def storeTime (tTime text : List UInt8) : List UInt8 :=
  snprintf 64 text ++ [0] ++ tTime.drop ((snprintf 64 text).length + 1)

/-- The second of the time of a statement. -/
def second (time : Timestamp) : Int := time.tdiv Timestamp.kMicroSecondsPerSecond

/-- The part of `FormatTime` that keeps the text. -/
def cacheTime (c : CTime) (s : LogTime) (time : Timestamp) : Option LogTime :=
  if second time ≠ s.tLastSecond then
    (tmTime c s.zone (second time)).map fun tm =>
      { s with tTime := storeTime s.tTime (timeText tm), tLastSecond := second time }
  else some s

/-- What the statements of a thread find. -/
def contexts (c : CTime) (tidString : List UInt8) :
    LogTime → List LogEvent → Option (List LogContext)
  | _, [] => some []
  | s, .setTimeZone zone :: events => contexts c tidString { s with zone } events
  | s, .statement time :: events =>
    (cacheTime c s time).bind fun s' =>
      (contexts c tidString s' events).map (⟨time, s'.tTime, s'.zone.isValid, tidString⟩ :: ·)

/-- The first text that `FormatTime` streams. -/
def written (context : LogContext) : Option (List UInt8) :=
  (formatTime context).head?.map LogItem.text

/-- The time zone in force and the second, for each statement. -/
def statements : TimeZone → List LogEvent → List (TimeZone × Int)
  | _, [] => []
  | _, .setTimeZone zone :: events => statements zone events
  | zone, .statement time :: events => (zone, second time) :: statements zone events

/-- The 17 bytes for a second, computed anew. -/
def scratch (c : CTime) (p : TimeZone × Int) : Option (List UInt8) :=
  (tmTime c p.1 p.2).map fun tm => (timeText tm).take 17

/-! ## The text -/

theorem length_decimalPad_ge (w : Nat) (i : Int) : w ≤ (decimalPad w i).length := by
  unfold decimalPad
  simp only [List.length_append, List.length_replicate]
  omega

theorem length_timeText_ge (tm : Tm) : 17 ≤ (timeText tm).length := by
  have hyear : 4 ≤ (decimalBlanks 4 (tm.year + 1900)).length := by
    unfold decimalBlanks
    rw [List.length_append, List.length_replicate]
    omega
  have hmon := length_decimalPad_ge 2 (tm.mon + 1)
  have hday := length_decimalPad_ge 2 tm.mday
  have hhour := length_decimalPad_ge 2 tm.hour
  have hmin := length_decimalPad_ge 2 tm.min
  have hsec := length_decimalPad_ge 2 tm.sec
  simp only [timeText, List.length_append, List.length_singleton]
  omega

theorem take_storeTime (tTime : List UInt8) (tm : Tm) :
    (storeTime tTime (timeText tm)).take 17 = (timeText tm).take 17 := by
  have hlength := length_timeText_ge tm
  have hle : 17 ≤ (snprintf 64 (timeText tm)).length := by
    rw [snprintf, List.length_take]
    omega
  rw [storeTime, List.append_assoc, List.take_append_of_le_length hle, snprintf, List.take_take]
  rfl

theorem zero_notMem_decimal (n : Nat) : 0 ∉ decimal n :=
  fun h => absurd (isDigit_of_mem_decimal h) (by decide)

/-- A text has no NUL. -/
theorem zero_notMem_timeText (tm : Tm) : 0 ∉ timeText tm := by
  have hpad : ∀ w i, 0 ∉ decimalPad w i := by
    intro w i
    unfold decimalPad
    simp only [List.mem_append, List.mem_replicate, zero_notMem_decimal, or_false, not_or]
    exact ⟨by split <;> simp, fun h => absurd h.2 (by decide)⟩
  have hblanks : ∀ w i, 0 ∉ decimalBlanks w i := by
    intro w i
    unfold decimalBlanks decimalInt
    simp only [List.mem_append, List.mem_replicate, not_or]
    refine ⟨fun h => absurd h.2 (by decide), ?_⟩
    split <;> simp [zero_notMem_decimal]
  simp [timeText, hpad, hblanks]

theorem scratch_ne_zeros (c : CTime) (p : TimeZone × Int) :
    scratch c p ≠ some ((List.replicate 64 0).take 17) := by
  intro h
  obtain ⟨tm, -, htext⟩ := Option.map_eq_some_iff.mp h
  have hmem : 0 ∈ (timeText tm).take 17 := by
    rw [htext]
    decide
  exact zero_notMem_timeText tm (List.mem_of_mem_take hmem)

theorem written_eq (context : LogContext) : written context = some (context.tTime.take 17) := by
  unfold written formatTime
  split <;> rfl

/-! ## Histories -/

/-- `FormatTime` keeps the last value, and the second is its key. -/
theorem contexts_memoRun (c : CTime) (tidString : List UInt8) (s : LogTime)
    (events : List LogEvent) :
    (contexts c tidString s events).map (·.map fun context => context.tTime.take 17) =
      memoRun Prod.snd (scratch c) s.tLastSecond (s.tTime.take 17) (statements s.zone events) := by
  induction events generalizing s with
  | nil => rfl
  | cons event events ih =>
    cases event with
    | setTimeZone zone => exact ih { s with zone }
    | statement time =>
      rw [contexts, statements, memoRun, cacheTime]
      by_cases hsecond : second time = s.tLastSecond
      · rw [if_neg (not_not.mpr hsecond), if_pos hsecond, Option.bind_some, Option.bind_some,
          hsecond, ← ih s, Option.map_map, Option.map_map]
        rfl
      · rw [if_pos hsecond, if_neg hsecond, scratch]
        cases tmTime c s.zone (second time) with
        | none => rfl
        | some tm =>
          have hrun := ih ⟨storeTime s.tTime (timeText tm), second time, s.zone⟩
          rw [take_storeTime] at hrun
          rw [Option.map_some, Option.map_some, Option.bind_some, Option.bind_some, ← hrun,
            Option.map_map, Option.map_map, ← take_storeTime s.tTime tm]
          rfl

/-- The run is defined and what is streamed is right, exactly if the time of every statement has a
text, the first statement is not in the second 0, and statements that follow each other in a second
have time zones that give the same text for it. -/
theorem written_eq_scratch_iff (c : CTime) (tidString : List UInt8) (events : List LogEvent) :
    (∃ cs, contexts c tidString {} events = some cs ∧
      cs.map written = (statements {} events).map (scratch c)) ↔
      (∀ p ∈ statements {} events, (scratch c p).isSome) ∧
        (∀ p ∈ (statements {} events).head?, p.2 ≠ 0) ∧
        (statements {} events).IsChain fun p q => q.2 = p.2 → scratch c q = scratch c p := by
  have hrun := contexts_memoRun c tidString {} events
  have hmap : ∀ cs : List LogContext,
      cs.map written = (cs.map fun context => context.tTime.take 17).map some := by
    intro cs
    rw [List.map_map]
    exact List.map_congr_left fun context _ => written_eq context
  have hchain : ∀ cs, contexts c tidString {} events = some cs →
      (cs.map written = (statements {} events).map (scratch c) ↔
        (∀ p ∈ (statements {} events).head?, p.2 ≠ 0) ∧
          (statements {} events).IsChain fun p q => q.2 = p.2 → scratch c q = scratch c p) := by
    intro cs hcs
    rw [hcs] at hrun
    rw [hmap, memoRun_eq_iff hrun.symm]
    simp only [scratch_ne_zeros, imp_false, ne_eq]
  constructor
  · rintro ⟨cs, hcs, hwritten⟩
    refine ⟨?_, (hchain cs hcs).mp hwritten⟩
    intro p hp
    have hmem := List.mem_map_of_mem (f := scratch c) hp
    rw [← hwritten, hmap] at hmem
    obtain ⟨text, -, htext⟩ := List.mem_map.mp hmem
    rw [← htext]
    rfl
  · rintro ⟨hdefined, hright⟩
    obtain ⟨ws, hws⟩ := memoRun_defined Prod.snd 0 (List.replicate 17 0) hdefined
    obtain ⟨cs, hcs, -⟩ := Option.map_eq_some_iff.mp (hrun.trans hws)
    exact ⟨cs, hcs, (hchain cs hcs).mpr hright⟩

/-- Two statements in one second, in UTC and in a zone eight hours east of it. -/
def zoneChange : List LogEvent :=
  [.statement 1700000000000000, .setTimeZone ⟨some { localtimes := [⟨28800, false, 0⟩] }⟩,
    .statement 1700000000500000]

/-- The second statement has the time of the first. -/
theorem written_zoneChange :
    (contexts gregorian [] {} zoneChange).map (·.map written) =
        some [some (ascii "20231114 22:13:20"), some (ascii "20231114 22:13:20")] ∧
      (statements {} zoneChange).map (scratch gregorian) =
        [some (ascii "20231114 22:13:20"), some (ascii "20231115 06:13:20")] := by
  decide +kernel

end Logger

end MyTinyHttpd
