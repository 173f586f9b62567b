import MyTinyHttpd.Base.LogFile

/-!
# `base/log_file.cc` with a clock that does not go back

The log of `Base/LogFile.lean`, when every call reads the clock at the time of the last one or
later.

* `Days`: what every call keeps, by the number of calls since the last check. `Written`: the same
  between the write and the rest of `AppendUnlocked`.
* `logFile_rolls`: how long a file gets, and how many entries of another day it has.
* `logFile_flushes`: what is flushed when `Append` looks at the clock.
-/

namespace MyTinyHttpd

open Verif

namespace LogFile

variable {s : LogFile} {f : AppendFile} {now : Int} {config : LogFileConfig}

/-! ## The days of the entries -/

/-- The entries of another day than that of the name. -/
def strays (f : AppendFile) : Nat :=
  f.entries.countP fun e => periodOf e.time != periodOf f.opened

theorem periodOf_eq {t : Int} (h : 0 ≤ t) : periodOf t = t / 86400 * 86400 := by
  rw [periodOf, Int.tdiv_eq_ediv_of_nonneg h]
  rfl

/-- Between two times of one day it is that day. -/
theorem periodOf_between {a b c : Int} (ha : 0 ≤ a) (hab : a ≤ b) (hbc : b ≤ c)
    (h : periodOf c = periodOf a) : periodOf b = periodOf a := by
  rw [periodOf_eq (by omega), periodOf_eq ha] at h ⊢
  omega

/-- The entries of a file came one after the other, and after it was opened. -/
structure Timed (f : AppendFile) : Prop where
  sorted : f.entries.Pairwise fun e e' => e.time ≤ e'.time
  opened : ∀ e ∈ f.entries, f.opened ≤ e.time

structure Days (s : LogFile) (f : AppendFile) : Prop where
  lastRoll : s.lastRoll ≤ s.clock
  lastFlush : s.lastFlush ≤ s.clock
  times : ∀ e ∈ f.entries, e.time ≤ s.clock
  timed : ∀ g ∈ s.old ++ [f], Timed g
  count : 0 ≤ s.count ∧ s.count < max 1 s.config.checkEveryN
  stray : (strays f : Int) ≤ s.count
  old : ∀ g ∈ s.old, (strays g : Int) ≤ max 1 s.config.checkEveryN
  flushed : f.flushed ≤ f.entries.length
  unflushed : ∀ e ∈ f.unflushed, s.lastFlush ≤ e.time

theorem strays_append (f : AppendFile) (e : LogEntry) :
    strays (f.append e) = strays f + if periodOf e.time != periodOf f.opened then 1 else 0 := by
  simp only [strays, AppendFile.append, List.countP_append, List.countP_singleton]

theorem unflushed_append (h : f.flushed ≤ f.entries.length) (e : LogEntry) :
    (f.append e).unflushed = f.unflushed ++ [e] := by
  simp [AppendFile.unflushed, AppendFile.append, List.drop_append_of_le_length h]

theorem Timed.append (h : Timed f) {e : LogEntry} (htimes : ∀ e' ∈ f.entries, e'.time ≤ e.time)
    (hopened : f.opened ≤ e.time) : Timed (f.append e) where
  sorted := by
    refine List.pairwise_append.mpr ⟨h.sorted, List.pairwise_singleton _ _, ?_⟩
    intro e' he' e'' he''
    obtain rfl := List.mem_singleton.mp he''
    exact htimes e' he'
  opened e' he' := by
    rcases List.mem_append.mp he' with he' | he'
    · exact h.opened e' he'
    · obtain rfl := List.mem_singleton.mp he'
      exact hopened

/-- Another file takes the place of `file_`. -/
theorem timed_replace {old : List AppendFile} {g : AppendFile} (h : ∀ g' ∈ old ++ [f], Timed g')
    (hg : Timed f → Timed g) : ∀ g' ∈ old ++ [g], Timed g' := by
  intro g' hg'
  rcases List.mem_append.mp hg' with hg' | hg'
  · exact h g' (List.mem_append_left _ hg')
  · rw [List.mem_singleton.mp hg']
    exact hg (h f (List.mem_append_right _ List.mem_cons_self))

/-- Flushing leaves the entries alone. -/
theorem timed_flush {old : List AppendFile} (h : ∀ g ∈ old ++ [f], Timed g) :
    ∀ g ∈ old ++ [f.flush], Timed g :=
  timed_replace h fun hf => ⟨hf.sorted, hf.opened⟩

/-- The entry is written, and the rest of the call is still to come: the count does not bound the
entries of another day. -/
structure Written (s : LogFile) (f : AppendFile) (now : Int) : Prop where
  lastRoll : s.lastRoll ≤ now
  lastFlush : s.lastFlush ≤ now
  times : ∀ e ∈ f.entries, e.time ≤ now
  timed : ∀ g ∈ s.old ++ [f], Timed g
  count : 0 ≤ s.count ∧ s.count < max 1 s.config.checkEveryN
  stray : (strays f : Int) ≤ max 1 s.config.checkEveryN
  sameDay : periodOf now = periodOf f.opened → (strays f : Int) ≤ 0
  old : ∀ g ∈ s.old, (strays g : Int) ≤ max 1 s.config.checkEveryN
  flushed : f.flushed ≤ f.entries.length
  unflushed : ∀ e ∈ f.unflushed, s.lastFlush ≤ e.time

theorem Days.strays_append_le (h : Days s f) (e : LogEntry) :
    (strays (f.append e) : Int) ≤ s.count + 1 := by
  have hstray := h.stray
  rw [strays_append]
  split <;> omega

theorem Days.written (h : Days s f) (hfiles : Files s f) {e : LogEntry}
    (htime : s.clock ≤ e.time) {clock : Int} :
    Written { s with clock, file := some (f.append e) } (f.append e) e.time := by
  have hopened : f.opened ≤ e.time := by
    have := h.lastRoll
    rw [hfiles.lastRoll]
    omega
  have hf := h.timed f (List.mem_append_right _ List.mem_cons_self)
  have htimes : ∀ e' ∈ f.entries, e'.time ≤ e.time := fun e' he' =>
    Int.le_trans (h.times e' he') htime
  have hall : ∀ e' ∈ (f.append e).entries, e'.time ≤ e.time := fun e' he' => by
    rcases List.mem_append.mp he' with he' | he'
    · exact htimes e' he'
    · rw [List.mem_singleton.mp he']
  have happend := hf.append htimes hopened
  refine ⟨Int.le_trans h.lastRoll htime, Int.le_trans h.lastFlush htime, hall,
    timed_replace h.timed fun _ => happend, h.count, ?_, ?_, h.old, ?_, ?_⟩
  · have hstray := h.strays_append_le e
    have hcount := h.count
    dsimp only
    omega
  · intro hday
    have hzero : strays (f.append e) = 0 := by
      refine List.countP_eq_zero.mpr fun e' he' => ?_
      have hpos := (hfiles.names f (List.mem_append_right _ List.mem_cons_self)).1
      have hsame := periodOf_between (Int.le_of_lt hpos) (happend.opened e' he') (hall e' he') hday
      simpa [AppendFile.append] using hsame
    rw [hzero]
    exact Int.le_refl 0
  · have := h.flushed
    simp only [AppendFile.append, List.length_append, List.length_singleton]
    omega
  · rw [unflushed_append h.flushed]
    intro e' he'
    rcases List.mem_append.mp he' with he' | he'
    · exact h.unflushed e' he'
    · rw [List.mem_singleton.mp he']
      exact Int.le_trans h.lastFlush htime

/-- A new file is opened. -/
theorem Written.next (h : Written s f now) (hfile : s.file = some f) {now' : Int}
    (hroll : s.lastRoll < now') (hclock : now' ≤ s.clock) :
    ∃ g, (s.rollFile now').file = some g ∧ g.unflushed = [] ∧ Days (s.rollFile now') g := by
  have hnew : s.rollFile now' =
      { s with
        lastRoll := now', lastFlush := now', startOfPeriod := periodOf now'
        old := s.old ++ [f.flush]
        file := some { filename := getLogFilename s.config now', opened := now' } } := by
    simp [LogFile.rollFile, hroll, hfile]
  have hcount := h.count
  rw [hnew]
  refine ⟨_, rfl, rfl, hclock, hclock, by simp, ?_, hcount, ?_, ?_, Nat.le_refl _,
    by simp [AppendFile.unflushed]⟩
  · intro g hg
    rcases List.mem_append.mp hg with hg | hg
    · exact timed_flush h.timed g hg
    · rw [List.mem_singleton.mp hg]
      exact ⟨List.Pairwise.nil, by simp⟩
  · exact hcount.1
  · intro g hg
    rcases List.mem_append.mp hg with hg | hg
    · exact h.old g hg
    · rw [List.mem_singleton.mp hg]
      exact h.stray

theorem Written.days (h : Written s f now) (hclock : now ≤ s.clock)
    (hstray : (strays f : Int) ≤ s.count) : Days s f where
  lastRoll := Int.le_trans h.lastRoll hclock
  lastFlush := Int.le_trans h.lastFlush hclock
  times e he := Int.le_trans (h.times e he) hclock
  timed := h.timed
  count := h.count
  stray := hstray
  old := h.old
  flushed := h.flushed
  unflushed := h.unflushed

theorem Written.frame (h : Written s f now) (count : Int)
    (hcount : 0 ≤ count ∧ count < max 1 s.config.checkEveryN) : Written { s with count } f now :=
  ⟨h.lastRoll, h.lastFlush, h.times, h.timed, hcount, h.stray, h.sameDay, h.old, h.flushed,
    h.unflushed⟩

theorem Written.flush (h : Written s f now) (hclock : now ≤ s.clock)
    (hstray : (strays f : Int) ≤ s.count) :
    Days { s with lastFlush := now, file := some f.flush } f.flush where
  lastRoll := Int.le_trans h.lastRoll hclock
  lastFlush := hclock
  times e he := Int.le_trans (h.times e he) hclock
  timed := timed_flush h.timed
  count := h.count
  stray := hstray
  old := h.old
  flushed := Nat.le_refl _
  unflushed e he := by
    rw [unflushed_flush] at he
    cases he

/-- With these many written bytes the call looks at the clock. -/
def Checks (s : LogFile) (writtenBytes : Int) : Prop :=
  writtenBytes ≤ s.config.rollSize ∧ s.config.checkEveryN ≤ s.count + 1

/-- `AppendUnlocked` after the entry. -/
theorem Written.afterAppend (h : Written { s with file := some f } f now)
    (hlast : f.opened = s.lastRoll) (hstart : s.startOfPeriod = periodOf s.lastRoll)
    (hstray : (strays f : Int) ≤ s.count + 1) {now' : Int} (hnow : now ≤ now')
    (hclock : s.clock = now') :
    ∃ g, (s.afterAppend f now now').file = some g ∧ Days (s.afterAppend f now now') g ∧
      (s.Checks f.writtenBytes → ∀ e ∈ g.unflushed, now - e.time ≤ s.config.flushInterval) := by
  have hcount := h.count
  unfold LogFile.afterAppend
  dsimp only at hcount ⊢
  split
  · rename_i hlong
    have hchecks : ¬ s.Checks f.writtenBytes := fun hc => absurd hlong (Int.not_lt.mpr hc.1)
    rcases Int.lt_or_le s.lastRoll now with hroll | hroll
    · obtain ⟨g, hg, -, hdays⟩ := h.next rfl hroll (hclock ▸ hnow)
      exact ⟨g, hg, hdays, fun hc => absurd hc hchecks⟩
    · -- Still in the second of the name, so on its day.
      have hsame : now = f.opened := by
        have := h.lastRoll
        dsimp only at this
        omega
      have hzero := h.sameDay (by rw [hsame])
      have hnot : ({ s with file := some f } : LogFile).rollFile now = { s with file := some f } :=
        if_neg (Int.not_lt.mpr hroll)
      rw [hnot]
      exact ⟨f, rfl, h.days (hclock ▸ hnow) (Int.le_trans hzero hcount.1),
        fun hc => absurd hc hchecks⟩
  · rename_i hshort
    split
    · rename_i hcheck
      split
      · -- Another day: the roll succeeds.
        rename_i hday
        have hroll : s.lastRoll < now' := by
          have hle := h.lastRoll
          dsimp only at hle
          rcases Int.lt_or_eq_of_le hle with hlt | heq
          · exact Int.lt_of_lt_of_le hlt hnow
          · rw [hstart, heq] at hday
            exact absurd rfl hday
        obtain ⟨g, hg, hnone, hdays⟩ := (h.frame 0 (by dsimp only; omega)).next rfl hroll
          (Int.le_of_eq hclock.symm)
        refine ⟨g, hg, hdays, fun _ e he => ?_⟩
        rw [hnone] at he
        cases he
      · rename_i hday
        have hzero := h.sameDay (by rw [hlast, ← hstart]; exact not_not.mp hday)
        have hframe := h.frame 0 (by dsimp only; omega)
        split
        · refine ⟨_, rfl, hframe.flush (hclock ▸ hnow) hzero, fun _ e he => ?_⟩
          rw [unflushed_flush] at he
          cases he
        · rename_i hrecent
          refine ⟨_, rfl, hframe.days (hclock ▸ hnow) hzero, fun _ e he => ?_⟩
          have hlate := h.unflushed e he
          dsimp only at hlate
          omega
    · rename_i hcheck
      have hchecks : ¬ s.Checks f.writtenBytes := fun hc => absurd hc.2 hcheck
      have hframe := h.frame (s.count + 1) (by dsimp only; omega)
      exact ⟨f, rfl, hframe.days (hclock ▸ hnow) hstray, fun hc => absurd hc hchecks⟩

theorem Days.later (h : Days s f) {clock : Int} (hclock : s.clock ≤ clock) :
    Days { s with clock } f where
  lastRoll := Int.le_trans h.lastRoll hclock
  lastFlush := Int.le_trans h.lastFlush hclock
  times e he := Int.le_trans (h.times e he) hclock
  timed := h.timed
  count := h.count
  stray := h.stray
  old := h.old
  flushed := h.flushed
  unflushed := h.unflushed

/-- Nothing is written before the rest. -/
theorem Days.nothing (h : Days s f) (hfiles : Files s f) : Written s f s.clock where
  lastRoll := h.lastRoll
  lastFlush := h.lastFlush
  times := h.times
  timed := h.timed
  count := h.count
  stray := by
    have := h.stray
    have := h.count
    omega
  sameDay hday := by
    have hzero : strays f = 0 := by
      refine List.countP_eq_zero.mpr fun e he => ?_
      have hpos := (hfiles.names f (List.mem_append_right _ List.mem_cons_self)).1
      have hf := h.timed f (List.mem_append_right _ List.mem_cons_self)
      simpa using periodOf_between (Int.le_of_lt hpos) (hf.opened e he) (h.times e he) hday
    rw [hzero]
    exact Int.le_refl 0
  old := h.old
  flushed := h.flushed
  unflushed := h.unflushed

theorem Days.step (h : Days s f) (hfiles : Files s f) {i : LogFileCall} (hi : s.Returns i)
    (hforward : s.Forward i) : ∃ g, (s.step i).file = some g ∧ Days (s.step i) g := by
  cases i with
  | append logline answers now now' =>
    obtain ⟨⟨data, counted⟩, hwrite⟩ := Option.isSome_iff_exists.mp hi
    rw [step_append hfiles.file hwrite]
    obtain ⟨g, hg, hdays, -⟩ := (h.written hfiles (e := { data, counted, time := now })
      hforward.1).afterAppend (s := { s with clock := now' }) hfiles.lastRoll hfiles.start
        (h.strays_append_le _) hforward.2 rfl
    exact ⟨g, hg, hdays⟩
  | flush now =>
    rw [step_flush hfiles.file]
    have hlater := h.later hforward
    refine ⟨_, rfl, hlater.lastRoll, hlater.lastFlush, hlater.times, timed_flush h.timed, h.count,
      h.stray, h.old, Nat.le_refl _, fun e he => ?_⟩
    rw [unflushed_flush] at he
    cases he
  | rollFile now =>
    simp only [LogFile.step]
    have hlater := h.later hforward
    rcases Int.lt_or_le s.lastRoll now with hroll | hroll
    · obtain ⟨g, hg, -, hdays⟩ := (hlater.nothing hfiles.frame).next hfiles.file hroll
        (Int.le_refl _)
      exact ⟨g, hg, hdays⟩
    · have hnot : ({ s with clock := now } : LogFile).rollFile now = { s with clock := now } :=
        if_neg (Int.not_lt.mpr hroll)
      rw [hnot]
      exact ⟨f, hfiles.file, hlater⟩

structure Steady (config : LogFileConfig) (s : LogFile) : Prop where
  good : Good config s
  days : ∃ f, s.file = some f ∧ Days s f

theorem Steady.exists (h : Steady config s) :
    ∃ f, Files s f ∧ Days s f ∧ s.config = config := by
  obtain ⟨⟨hsame, -, f, hfiles, -⟩, g, hfile, hdays⟩ := h
  obtain rfl : f = g := Option.some.inj (hfiles.file.symm.trans hfile)
  exact ⟨f, hfiles, hdays, hsame⟩

theorem Steady.step (h : Steady config s) {i : LogFileCall} (hi : s.Returns i)
    (hforward : s.Forward i) : Steady config (s.step i) := by
  obtain ⟨f, hfiles, hdays, -⟩ := h.exists
  exact ⟨(h.good.step hi).1, hdays.step hfiles hi hforward⟩

theorem steady_make (hname : 47 ∉ config.basename) (hnow : 0 < now) :
    Steady config (make config now) := by
  refine ⟨(good_make hname hnow).1, ?_⟩
  rw [make_eq hname hnow]
  refine ⟨_, rfl, Int.le_refl _, Int.le_refl _, by simp, fun g hg => ?_, by dsimp only; omega,
    Int.le_refl _, by simp, Nat.le_refl _, by simp [AppendFile.unflushed]⟩
  obtain rfl := List.mem_singleton.mp hg
  exact ⟨List.Pairwise.nil, by simp⟩

theorem steady_run (hname : 47 ∉ config.basename) (hnow : 0 < now) {is : List LogFileCall}
    (h : Legal step Returns (make config now) is)
    (hclock : Legal step Forward (make config now) is) :
    Steady config (is.foldl step (make config now)) :=
  legal_invariant (fun _ _ hs hi => hs.step hi.1 hi.2) (steady_make hname hnow)
    (legal_and h hclock)

theorem Timed.bytes_le (h : Timed f) {rollSize : Int}
    (hsized : Sized rollSize f.opened f.entries.dropLast) :
    bytes f.entries.dropLast ≤ rollSize ∨ ∀ e ∈ f.entries.dropLast, e.time = f.opened := by
  have hsub : f.entries.dropLast.Sublist f.entries := List.dropLast_sublist _
  rcases List.eq_nil_or_concat f.entries.dropLast with hnil | ⟨pre, last, hlast⟩
  · rw [hnil]
    exact .inr (by simp)
  · by_cases hlong : rollSize < bytes f.entries.dropLast
    · refine .inr fun e he => ?_
      rw [List.concat_eq_append] at hlast
      have htime : last.time ≤ f.opened := hsized pre last [] hlast (hlast ▸ hlong)
      have hle : e.time ≤ last.time := by
        have hsorted := h.sorted.sublist hsub
        rw [hlast] at hsorted he
        rcases List.mem_append.mp he with he | he
        · exact (List.pairwise_append.mp hsorted).2.2 e he last List.mem_cons_self
        · rw [List.mem_singleton.mp he]
      have hge := h.opened e (hsub.subset he)
      omega
    · exact .inl (Int.not_lt.mp hlong)

/-- **When a file ends.** With a clock that does not go back: without its last entry a file has at
most `roll_size` bytes as `written_bytes_` counts them, unless all of these entries were written in
the second in which it was opened; and it has at most `check_every_n` entries (one, if that is not
positive) of another day than that of its name. -/
theorem logFile_rolls (config : LogFileConfig) (hname : 47 ∉ config.basename) (now : Int)
    (hnow : 0 < now) (is : List LogFileCall) (h : Legal step Returns (make config now) is)
    (hclock : Legal step Forward (make config now) is) :
    let s := is.foldl step (make config now)
    ∀ f ∈ s.files,
      (bytes f.entries.dropLast ≤ config.rollSize ∨
        ∀ e ∈ f.entries.dropLast, e.time = f.opened) ∧
      (strays f : Int) ≤ max 1 config.checkEveryN := by
  intro s f hf
  obtain ⟨g, hfiles, hdays, hsame⟩ := (steady_run hname hnow h hclock).exists
  rw [hfiles.files_eq] at hf
  refine ⟨(hdays.timed f hf).bytes_le (hsame ▸ hfiles.sizes f hf), ?_⟩
  rw [← hsame]
  rcases List.mem_append.mp hf with hf | hf
  · exact hdays.old f hf
  · rw [List.mem_singleton.mp hf]
    have hstray := hdays.stray
    have hcount := hdays.count
    omega

theorem threeFiles_rolls :
    let s := threeFiles.foldl step (make smallConfig 5)
    ∀ f ∈ s.files, (bytes f.entries.dropLast ≤ 10 ∨ ∀ e ∈ f.entries.dropLast, e.time = f.opened) ∧
      (strays f : Int) ≤ 2 :=
  logFile_rolls smallConfig (by decide) 5 (by decide) threeFiles (by decide) (by decide)

/-- The bytes that `written_bytes_` has after an `Append`. -/
def writtenAfter (s : LogFile) (logline : List UInt8) (answers : List FwriteAnswer) :
    Option Int := do
  let file ← s.file
  let (_, counted) ← AppendFile.writeLoop logline answers
  return file.writtenBytes + counted

/-- **What is flushed.** After an `Append` that looks at the clock, no entry is older than
`flush_interval` and not flushed, in any file. -/
theorem logFile_flushes (config : LogFileConfig) (hname : 47 ∉ config.basename) (now : Int)
    (hnow : 0 < now) (is : List LogFileCall) (logline : List UInt8) (answers : List FwriteAnswer)
    (t t' : Int)
    (h : Legal step Returns (make config now) (is ++ [.append logline answers t t']))
    (hclock : Legal step Forward (make config now) (is ++ [.append logline answers t t']))
    (hchecks : ∃ written, (is.foldl step (make config now)).writtenAfter logline answers =
      some written ∧ (is.foldl step (make config now)).Checks written) :
    let s := (is ++ [LogFileCall.append logline answers t t']).foldl step (make config now)
    ∀ f ∈ s.files, ∀ e ∈ f.unflushed, t - e.time ≤ config.flushInterval := by
  intro s f hf e he
  obtain ⟨h, hi⟩ := legal_snoc.mp h
  obtain ⟨hclock, hforward⟩ := legal_snoc.mp hclock
  have hsteady := steady_run hname hnow h hclock
  obtain ⟨f₀, hfiles₀, hdays₀, hsame⟩ := hsteady.exists
  obtain ⟨g, hfiles, -, -⟩ := (hsteady.step hi hforward).exists
  have hs : s = (is.foldl step (make config now)).step (.append logline answers t t') := by
    simp only [s, List.foldl_append, List.foldl_cons, List.foldl_nil]
  rw [hs, hfiles.files_eq] at hf
  rcases List.mem_append.mp hf with hf | hf
  · rw [hfiles.closed f hf] at he
    cases he
  · obtain rfl := List.mem_singleton.mp hf
    obtain ⟨⟨data, counted⟩, hwrite⟩ := Option.isSome_iff_exists.mp hi
    obtain ⟨g', hg', -, hflush⟩ := (hdays₀.written hfiles₀ (e := { data, counted, time := t })
      hforward.1).afterAppend (s := { is.foldl step (make config now) with clock := t' })
        hfiles₀.lastRoll hfiles₀.start (hdays₀.strays_append_le _) hforward.2 rfl
    have hfile := hfiles.file
    rw [step_append hfiles₀.file hwrite, hg'] at hfile
    obtain rfl := Option.some.inj hfile
    rw [← hsame]
    refine hflush ?_ e he
    obtain ⟨written, hwritten, hcheck⟩ := hchecks
    simp [writtenAfter, hfiles₀.file, hwrite] at hwritten
    rw [← hwritten] at hcheck
    exact hcheck

/-- The second entry comes too late for the first one. -/
theorem lateEntry_flushes :
    let s := [.append (ascii "a") [⟨1, false⟩] 5 5,
      LogFileCall.append (ascii "b") [⟨1, false⟩] 9 9].foldl step (make smallConfig 5)
    ∀ f ∈ s.files, ∀ e ∈ f.unflushed, 9 - e.time ≤ 3 :=
  logFile_flushes smallConfig (by decide) 5 (by decide) [.append (ascii "a") [⟨1, false⟩] 5 5]
    (ascii "b") [⟨1, false⟩] 9 9 (by decide) (by decide) ⟨2, by decide, by decide, by decide⟩

end LogFile

end MyTinyHttpd
