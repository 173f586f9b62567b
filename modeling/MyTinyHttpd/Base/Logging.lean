import MyTinyHttpd.Base.LogStream
import MyTinyHttpd.Utils.Timestamp

/-!
# `base/logging.h`, `base/logging.cc`

A `Logger` streams a header (the time, the thread, the level, the text of `errno`), then what the
statement streams, and in its destructor the place in the source and a newline. All of it goes
through `LogStream`, which drops what does not fit.

What `FormatTime` has in `t_time` is an argument here (it is computed in `Base/LogTime.lean`), and
so are the thread's id and the text of `strerror_tl`. A record of the level `kFatal` is handed to
the output function like any other; the `abort` after it is left out.

* `fill`: how many bytes the items take and what the last one is, by their texts alone.
* `DropsNewline`: the tail of the record fills the buffer before its newline.
* `record_endsLine_iff`: the record ends with a newline exactly if that is not so.
-/

namespace MyTinyHttpd

inductive LogLevel where
  | kTrace
  | kDebug
  | kInfo
  | kWarn
  | kError
  | kFatal
  deriving DecidableEq

/-- `LogLevelName`. -/
def LogLevel.name : LogLevel → List UInt8
  | .kTrace => ascii "kTrace "
  | .kDebug => ascii "kDebug "
  | .kInfo => ascii "kInfo  "
  | .kWarn => ascii "kWarn  "
  | .kError => ascii "kError "
  | .kFatal => ascii "kFatal "

/-- What a log statement finds: the time and its formatted prefix, whether a time zone is set, and
the id of the thread. -/
structure LogContext where
  time : Timestamp
  /-- `t_time`, after its update. -/
  tTime : List UInt8
  hasTimeZone : Bool
  tidString : List UInt8

/-- The arguments of the constructors of `Logger`. -/
structure LogStatement where
  file : List UInt8
  line : Int32
  level : LogLevel := .kInfo
  oldErrno : Int32 := 0
  /-- `strerror_tl(old_errno)`. -/
  errnoText : List UInt8 := []
  func : Option (List UInt8) := none

namespace Logger

/-- `SourceFile`: the name behind the last slash. -/
def sourceFile (filename : List UInt8) : List UInt8 := filename.rtakeWhile (· ≠ 47)

/-! A function that streams is the list of what it streams. -/

/-- The part of `FormatTime` that streams. -/
def formatTime (context : LogContext) : List LogItem :=
  let microseconds := context.time.tmod Timestamp.kMicroSecondsPerSecond
  if context.hasTimeZone then
    let us := ascii "." ++ decimalPad 6 microseconds ++ ascii " "
    [.string (context.tTime.take 17), .string (us.take 8)]
  else
    let us := ascii "." ++ decimalPad 6 microseconds ++ ascii "Z "
    [.string (context.tTime.take 17), .string (us.take 9)]

/-- The constructor of `Logger::Impl`. -/
def impl (context : LogContext) (statement : LogStatement) : List LogItem :=
  formatTime context ++ [.string context.tidString, .string statement.level.name] ++
    if statement.oldErrno ≠ 0 then
      [.cString statement.errnoText, .cString (ascii " (errno="), .int statement.oldErrno,
        .cString (ascii ") ")]
    else []

/-- The constructors of `Logger`. -/
def header (context : LogContext) (statement : LogStatement) : List LogItem :=
  impl context statement ++
    match statement.func with
    | none => []
    | some func => [.cString func, .char 32]

def finish (statement : LogStatement) : List LogItem :=
  [.cString (ascii " - "), .string (sourceFile statement.file), .char 58, .int statement.line,
    .char 10]

/-- What the destructor hands to the output function, when `items` have been streamed. -/
def output (context : LogContext) (statement : LogStatement) (items : List LogItem) :
    List UInt8 :=
  (({} : LogStream).insertAll (header context statement ++ items ++ finish statement)).buffer.data

/-! ## The end of the record -/

/-- An item that fits comes to the bytes before it: their number, and the last of them. -/
def fillStep (p : Nat × Option UInt8) (item : LogItem) : Nat × Option UInt8 :=
  if item.Fits p.1 then (p.1 + item.text.length, item.text.getLast?.or p.2) else p

/-- How many bytes the items take and what the last byte is, by their texts. -/
def fill (items : List LogItem) : Nat × Option UInt8 := items.foldl fillStep (0, none)

/-- The place in the source fills the buffer before the newline. `used` bytes have been taken
before it, the last of them `last`. -/
def DropsNewline (used : Nat) (last : Option UInt8) (basename : List UInt8) : Prop :=
  -- all of it fits, up to the colon or up to the name
  used + basename.length = 3995 ∨
  used + basename.length = 3996 ∧ basename.getLast? ≠ some 10 ∨
  -- the name is dropped, after the dash
  3997 ≤ used + basename.length ∧ (used = 3995 ∨ used = 3996) ∨
  -- the dash is dropped
  used = 3997 ∧ (basename.length = 1 ∨ basename.length = 2 ∧ basename.getLast? ≠ some 10) ∨
  used = 3998 ∧ basename ≠ [10] ∨
  used = 3999 ∧ last ≠ some 10

instance (used : Nat) (last : Option UInt8) (basename : List UInt8) :
    Decidable (DropsNewline used last basename) :=
  inferInstanceAs (Decidable (_ ∨ _))

theorem foldl_fillStep (s : LogStream) (items : List LogItem) :
    items.foldl fillStep (s.buffer.data.length, s.buffer.data.getLast?) =
      ((s.insertAll items).buffer.data.length, (s.insertAll items).buffer.data.getLast?) := by
  induction items generalizing s with
  | nil => rfl
  | cons item items ih =>
    have hstep : fillStep (s.buffer.data.length, s.buffer.data.getLast?) item =
        ((s.insert item).buffer.data.length, (s.insert item).buffer.data.getLast?) := by
      rw [LogStream.insert_data, fillStep]
      split
      · rw [List.length_append, List.getLast?_append]
      · rfl
    rw [List.foldl_cons, hstep, ih]
    rfl

theorem fill_eq (items : List LogItem) :
    fill items = ((({} : LogStream).insertAll items).buffer.data.length,
      (({} : LogStream).insertAll items).buffer.data.getLast?) :=
  foldl_fillStep {} items

section

variable {s : LogStream}

theorem insert_fits {item : LogItem} (h : item.Fits s.buffer.data.length) :
    (s.insert item).buffer.data = s.buffer.data ++ item.text := by
  rw [LogStream.insert_data, if_pos h]

theorem insert_drops {item : LogItem} (h : ¬ item.Fits s.buffer.data.length) :
    (s.insert item).buffer.data = s.buffer.data := by
  rw [LogStream.insert_data, if_neg h]

theorem char_fits (c : UInt8) {used : Nat} : (LogItem.char c).Fits used ↔ used < 3999 := by
  rw [LogItem.fits_text rfl]
  exact Nat.succ_lt_succ_iff

/-- The newline is written if a byte stays free behind it. -/
theorem newline_iff (s : LogStream) :
    (s.insert (.char 10)).buffer.data.getLast? = some 10 ↔
      s.buffer.data.length < 3999 ∨ s.buffer.data.getLast? = some 10 := by
  by_cases h : s.buffer.data.length < 3999
  · rw [insert_fits ((char_fits 10).mpr h), List.getLast?_append]
    exact iff_of_true rfl (.inl h)
  · rw [insert_drops (mt (char_fits 10).mp h), or_iff_right h]

/-- The number of the line is written only if there is room for the newline, too. -/
theorem line_iff (s : LogStream) (line : Int32) :
    ((s.insert (.int line)).insert (.char 10)).buffer.data.getLast? = some 10 ↔
      s.buffer.data.length < 3999 ∨ s.buffer.data.getLast? = some 10 := by
  have hroom : (LogItem.int line).Fits s.buffer.data.length ↔ s.buffer.data.length ≤ 3952 := by
    rw [LogItem.fits_number rfl]
    exact Nat.add_le_add_iff_right
  rw [newline_iff]
  by_cases h : s.buffer.data.length ≤ 3952
  · have hlen : (LogItem.int line).text.length ≤ 20 :=
      LogStream.length_convert_le (by have := line.le_toInt; omega)
        (by have := line.toInt_lt; omega)
    rw [insert_fits (hroom.mpr h), List.length_append]
    exact iff_of_true (.inl (by omega)) (.inl (by omega))
  · rw [insert_drops (mt hroom.mp h)]

/-- From the colon on. -/
theorem colon_iff (hlt : s.buffer.data.length < kSmallBuffer) (line : Int32) :
    (s.insertAll [.char 58, .int line, .char 10]).buffer.data.getLast? = some 10 ↔
      s.buffer.data.length < 3998 ∨
        s.buffer.data.length = 3999 ∧ s.buffer.data.getLast? = some 10 := by
  have hsmall : kSmallBuffer = 4000 := rfl
  rw [LogStream.insertAll_cons, LogStream.insertAll_cons, LogStream.insertAll_cons]
  refine (line_iff _ line).trans ?_
  by_cases h : s.buffer.data.length < 3999
  · rw [insert_fits ((char_fits 58).mpr h), List.getLast?_append, List.length_append]
    simp only [LogItem.text, List.length_singleton, List.getLast?_singleton, Option.some_or,
      Option.some.injEq]
    constructor
    · rintro (h | h)
      · exact .inl (by omega)
      · exact absurd h (by decide)
    · rintro (h | h)
      · exact .inl (by omega)
      · omega
  · rw [insert_drops (mt (char_fits 58).mp h), or_iff_right h, or_iff_right (by omega)]
    exact (and_iff_right (by omega)).symm

/-- The name, when `used` bytes are taken before it and `last` is the last of them. -/
def NameEndsLine (used : Nat) (last : Option UInt8) (basename : List UInt8) : Prop :=
  if used + basename.length < 4000 then
    used + basename.length < 3998 ∨
      used + basename.length = 3999 ∧ basename.getLast?.or last = some 10
  else used < 3998 ∨ used = 3999 ∧ last = some 10

theorem name_iff (hlt : s.buffer.data.length < kSmallBuffer) (basename : List UInt8)
    (line : Int32) :
    (s.insertAll [.string basename, .char 58, .int line, .char 10]).buffer.data.getLast? = some 10 ↔
      NameEndsLine s.buffer.data.length s.buffer.data.getLast? basename := by
  have hfits : (LogItem.string basename).Fits s.buffer.data.length ↔
      s.buffer.data.length + basename.length < 4000 := LogItem.fits_text rfl
  rw [LogStream.insertAll_cons]
  refine (colon_iff (LogStream.insert_length_lt hlt _) line).trans ?_
  by_cases h : s.buffer.data.length + basename.length < 4000
  · rw [NameEndsLine, if_pos h, insert_fits (hfits.mpr h), List.length_append,
      List.getLast?_append]
    rfl
  · rw [NameEndsLine, if_neg h, insert_drops (mt hfits.mp h)]

theorem eq_newline_iff {basename : List UInt8} :
    basename = [10] ↔ basename.length = 1 ∧ basename.getLast? = some 10 := by
  constructor
  · rintro rfl
    exact ⟨rfl, rfl⟩
  · rintro ⟨hlen, hlast⟩
    obtain ⟨c, rfl⟩ := List.length_eq_one_iff.mp hlen
    cases hlast
    rfl

/-- The name goes behind the dash, or behind what is before it when the dash does not fit. -/
theorem nameEndsLine_iff {used : Nat} (hlt : used < 4000) (last : Option UInt8)
    (basename : List UInt8) :
    (if used ≤ 3996 then NameEndsLine (used + 3) (some 32) basename
      else NameEndsLine used last basename) ↔ ¬ DropsNewline used last basename := by
  rw [DropsNewline, ne_eq basename, eq_newline_iff]
  unfold NameEndsLine
  cases hlast : basename.getLast? with
  | none =>
    rw [List.getLast?_eq_none_iff.mp hlast, List.length_nil]
    simp only [Option.none_or]
    grind
  | some c =>
    have hpos : 0 < basename.length := by
      rw [List.length_pos_iff]
      rintro rfl
      cases hlast
    simp only [Option.some_or]
    grind

/-- The dash and the name. -/
theorem finish_endsLine_iff (hlt : s.buffer.data.length < kSmallBuffer)
    (statement : LogStatement) :
    (s.insertAll (finish statement)).buffer.data.getLast? = some 10 ↔
      ¬ DropsNewline s.buffer.data.length s.buffer.data.getLast? (sourceFile statement.file) := by
  have hdash : (LogItem.cString (ascii " - ")).text = [32, 45, 32] := by decide
  have hfits : (LogItem.cString (ascii " - ")).Fits s.buffer.data.length ↔
      s.buffer.data.length ≤ 3996 := by
    rw [LogItem.fits_text rfl, hdash]
    exact Nat.add_lt_add_iff_right.trans Nat.lt_succ_iff
  rw [← nameEndsLine_iff hlt, finish, LogStream.insertAll_cons]
  refine (name_iff (LogStream.insert_length_lt hlt _) _ statement.line).trans ?_
  by_cases h : s.buffer.data.length ≤ 3996
  · rw [if_pos h, insert_fits (hfits.mpr h), hdash, List.length_append, List.getLast?_append]
    rfl
  · rw [if_neg h, insert_drops (mt hfits.mp h)]

end

/-- **A log record is a line, unless its tail fills the buffer.** For every statement, whatever is
streamed into it: the text that is handed to the output function ends with a newline, if and only if
the header and the items do not leave so few bytes that the place in the source fills the buffer
before the newline, which is dropped then. -/
theorem record_endsLine_iff (context : LogContext) (statement : LogStatement)
    (items : List LogItem) :
    (output context statement items).getLast? = some 10 ↔
      ¬ DropsNewline (fill (header context statement ++ items)).1
        (fill (header context statement ++ items)).2 (sourceFile statement.file) := by
  have hempty : ({} : LogStream).buffer.data.length < kSmallBuffer := Nat.zero_lt_succ _
  have hlt := LogStream.insertAll_length_lt hempty (header context statement ++ items)
  rw [output, LogStream.insertAll_append, finish_endsLine_iff hlt, fill_eq]

theorem fill_output (context : LogContext) (statement : LogStatement) (items : List LogItem) :
    fill (header context statement ++ items ++ finish statement) =
      ((output context statement items).length, (output context statement items).getLast?) :=
  fill_eq _

/-- `LOG_INFO` in line 7 of `src/a.cc`. -/
def infoStatement : LogStatement where
  file := ascii "src/a.cc"
  line := 7

def noonContext : LogContext where
  time := 1700000000000000
  tTime := ascii "20231114 22:13:20"
  hasTimeZone := false
  tidString := ascii " 4711 "

example : output noonContext infoStatement [.cString (ascii "port "), .int 8080] =
    ascii "20231114 22:13:20.000000Z  4711 kInfo  port 8080 - a.cc:7\n" := by
  decide +kernel

/-- After a header of 39 bytes, 3959 bytes leave room for the colon, but for nothing else. -/
theorem longInfo_no_newline :
    let text := output noonContext infoStatement [.string (List.replicate 3959 120)]
    text.length = 3999 ∧ text.getLast? = some 58 ∧ text.getLast? ≠ some 10 := by
  intro text
  have hfill : fill (header noonContext infoStatement ++ [.string (List.replicate 3959 120)] ++
      finish infoStatement) = (3999, some 58) := by decide +kernel
  obtain ⟨hlength, hlast⟩ : text.length = 3999 ∧ text.getLast? = some 58 := by
    rw [fill_output, Prod.mk.injEq] at hfill
    exact hfill
  exact ⟨hlength, hlast, by rw [hlast]; decide⟩

end Logger

end MyTinyHttpd
