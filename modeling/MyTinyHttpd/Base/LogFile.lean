import MyTinyHttpd.Lib.Machine
import MyTinyHttpd.Base.LogFileName

/-!
# `base/log_file.cc`, and `AppendFile` of `utils/file.cc`

A log that goes on in a new file when the old one is too long, when the day is over, and when the
caller wants it to (`RollFile`). The clock is read at every call; the run decides what it says, and
what the calls of `fwrite` return.

* `AppendFile.entries`: what each `Append` has put into a file. `flushed` is how many of them
  `fflush` has seen. `counted` is what `written_bytes_` has grown by, which leaves out the bytes of
  a write that fails.
* `Files`: what every call keeps. A file goes on when it is too long only in the second of its name
  (`Sized`).
* `logFile_exact`: what one `Append` writes is in one file, in order, whatever the clock does. The
  files have different names.

`mutex_` makes every call one step. `AppendFile` opens its file without an error.
-/

namespace MyTinyHttpd

open Verif

/-! ## `AppendFile` -/

/-- What `fwrite` has written, and whether `ferror` is set then. -/
structure FwriteAnswer where
  n : Nat
  err : Bool := false
  deriving DecidableEq

/-- What one `Append` has put into the file at `time`. -/
structure LogEntry where
  data : List UInt8
  counted : Nat
  time : Int
  deriving DecidableEq

structure AppendFile where
  filename : List UInt8
  /-- The time of the name. -/
  opened : Int
  writtenBytes : Int := 0
  entries : List LogEntry := []
  flushed : Nat := 0
  deriving DecidableEq

namespace AppendFile

/-- The loop of `Append` over the bytes that are left: what gets into the file, and `written`. With
too few answers the loop has not ended. -/
def writeLoop : List UInt8 → List FwriteAnswer → Option (List UInt8 × Nat)
  | [], _ => some ([], 0)
  | _ :: _, [] => none
  | c :: cs, answer :: answers =>
    let remain := c :: cs
    let n := min answer.n remain.length
    -- The bytes of the failing call are not counted.
    if n ≠ remain.length ∧ answer.err then some (remain.take n, 0)
    else (writeLoop (remain.drop n) answers).map fun r => (remain.take n ++ r.1, n + r.2)

def append (f : AppendFile) (entry : LogEntry) : AppendFile :=
  { f with writtenBytes := f.writtenBytes + entry.counted, entries := f.entries ++ [entry] }

def flush (f : AppendFile) : AppendFile := { f with flushed := f.entries.length }

/-- What `fflush` has not seen. -/
def unflushed (f : AppendFile) : List LogEntry := f.entries.drop f.flushed

def content (f : AppendFile) : List UInt8 := f.entries.flatMap (·.data)

/-- A part of the text gets into the file, and not more is counted. -/
theorem writeLoop_part {text put : List UInt8} {answers : List FwriteAnswer} {written : Nat}
    (h : writeLoop text answers = some (put, written)) : put <+: text ∧ written ≤ put.length := by
  induction answers generalizing text put written with
  | nil =>
    cases text with
    | nil =>
      cases h
      exact ⟨List.prefix_rfl, Nat.le_refl _⟩
    | cons c cs => cases h
  | cons answer answers ih =>
    cases text with
    | nil =>
      cases h
      exact ⟨List.prefix_rfl, Nat.le_refl _⟩
    | cons c cs =>
      simp only [writeLoop] at h
      split at h
      · cases h
        exact ⟨List.take_prefix _ _, Nat.zero_le _⟩
      · obtain ⟨⟨put', written'⟩, hrest, heq⟩ := Option.map_eq_some_iff.mp h
        cases heq
        obtain ⟨⟨tail, htail⟩, hle⟩ := ih hrest
        refine ⟨⟨tail, ?_⟩, ?_⟩
        · rw [List.append_assoc, htail, List.take_append_drop]
        · rw [List.length_append, List.length_take]
          dsimp only
          omega

/-- All of it, if no call fails. -/
theorem writeLoop_whole {text put : List UInt8} {answers : List FwriteAnswer} {written : Nat}
    (h : writeLoop text answers = some (put, written)) (herr : ∀ a ∈ answers, a.err = false) :
    put = text ∧ written = text.length := by
  induction answers generalizing text put written with
  | nil =>
    cases text with
    | nil =>
      cases h
      exact ⟨rfl, rfl⟩
    | cons c cs => cases h
  | cons answer answers ih =>
    cases text with
    | nil =>
      cases h
      exact ⟨rfl, rfl⟩
    | cons c cs =>
      simp only [writeLoop, herr answer List.mem_cons_self, Bool.false_eq_true, and_false,
        if_false] at h
      obtain ⟨⟨put', written'⟩, hrest, heq⟩ := Option.map_eq_some_iff.mp h
      cases heq
      obtain ⟨rfl, rfl⟩ := ih hrest fun a ha => herr a (List.mem_cons_of_mem _ ha)
      refine ⟨List.take_append_drop _ _, ?_⟩
      rw [List.length_drop]
      omega

end AppendFile

/-! ## `LogFile` -/

structure LogFile where
  config : LogFileConfig
  count : Int := 0
  startOfPeriod : Int := 0
  lastRoll : Int := 0
  lastFlush : Int := 0
  file : Option AppendFile := none
  /-- The files before `file_`. -/
  old : List AppendFile := []
  /-- The clock at the last call. -/
  clock : Int := 0
  /-- An assertion has failed, or `file_` was null. -/
  failed : Bool := false

/-- The calls, with the two times that the clock can be read at, and the answers of `fwrite`. -/
inductive LogFileCall where
  | append (logline : List UInt8) (answers : List FwriteAnswer) (now now' : Int)
  | flush (now : Int)
  | rollFile (now : Int)

namespace LogFile

def kRollPerSeconds : Int := 60 * 60 * 24

/-- `now / kRollPerSeconds_ * kRollPerSeconds_`. -/
def periodOf (now : Int) : Int := now.tdiv kRollPerSeconds * kRollPerSeconds

/-- All files, in the order in which they were made. -/
def files (s : LogFile) : List AppendFile := s.old ++ s.file.toList

def rollFile (s : LogFile) (now : Int) : LogFile :=
  if s.lastRoll < now then
    { s with
      lastRoll := now
      lastFlush := now
      startOfPeriod := periodOf now
      -- The old file is closed.
      old := s.old ++ s.file.toList.map AppendFile.flush
      file := some { filename := getLogFilename s.config now, opened := now } }
  else s

/-- The constructor. -/
def make (config : LogFileConfig) (now : Int) : LogFile :=
  { config, clock := now, failed := config.basename.contains 47 : LogFile }.rollFile now

/-- The rest of `AppendUnlocked`, when the entry is in the file. -/
def afterAppend (s : LogFile) (file : AppendFile) (now now' : Int) : LogFile :=
  let s := { s with file := some file }
  if s.config.rollSize < file.writtenBytes then s.rollFile now
  else if s.config.checkEveryN ≤ s.count + 1 then
    let s := { s with count := 0 }
    if periodOf now ≠ s.startOfPeriod then s.rollFile now'
    else if s.config.flushInterval < now - s.lastFlush then
      { s with lastFlush := now, file := some file.flush }
    else s
  else { s with count := s.count + 1 }

def step (s : LogFile) : LogFileCall → LogFile
  | .append logline answers now now' =>
    match s.file, AppendFile.writeLoop logline answers with
    | some file, some (data, counted) =>
      { s with clock := now' }.afterAppend (file.append { data, counted, time := now }) now now'
    | some _, none => s
    | none, _ => { s with failed := true }
  | .flush now =>
    match s.file with
    | some file => { s with clock := now, file := some file.flush }
    | none => { s with failed := true }
  | .rollFile now => { s with clock := now }.rollFile now

/-- The calls of `fwrite` come to an end. -/
def Returns (_ : LogFile) : LogFileCall → Prop
  | .append logline answers _ _ => (AppendFile.writeLoop logline answers).isSome = true
  | .flush _ | .rollFile _ => True

/-- The clock does not go back. -/
def Forward (s : LogFile) : LogFileCall → Prop
  | .append _ _ now now' => s.clock ≤ now ∧ now ≤ now'
  | .flush now | .rollFile now => s.clock ≤ now

instance (s : LogFile) (i : LogFileCall) : Decidable (s.Returns i) :=
  match i with
  | .append logline answers _ _ =>
    inferInstanceAs (Decidable ((AppendFile.writeLoop logline answers).isSome = true))
  | .flush _ | .rollFile _ => isTrue trivial

instance (s : LogFile) (i : LogFileCall) : Decidable (s.Forward i) :=
  match i with
  | .append _ _ now now' => inferInstanceAs (Decidable (s.clock ≤ now ∧ now ≤ now'))
  | .flush now | .rollFile now => inferInstanceAs (Decidable (s.clock ≤ now))

/-- What the call puts into a file. -/
def part : LogFileCall → List (List UInt8)
  | .append logline answers _ _ => ((AppendFile.writeLoop logline answers).map (·.1)).toList
  | .flush _ | .rollFile _ => []

/-! ## One entry after the other -/

variable {s : LogFile}

/-- The counted bytes of the entries. -/
def bytes (entries : List LogEntry) : Int := (entries.map fun e => (e.counted : Int)).sum

/-- When the entries up to one of them are too long, the file goes on because the clock has not left
the second in which it was opened. -/
def Sized (rollSize opened : Int) (entries : List LogEntry) : Prop :=
  ∀ pre e post, entries = pre ++ e :: post → rollSize < bytes (pre ++ [e]) → e.time ≤ opened

theorem Sized.of_prefix {rollSize opened : Int} {entries entries' : List LogEntry}
    (h : Sized rollSize opened entries') (hp : entries <+: entries') :
    Sized rollSize opened entries := by
  obtain ⟨tail, rfl⟩ := hp
  rintro pre e post rfl
  exact h pre e (post ++ tail) (by simp)

theorem Sized.snoc {rollSize opened : Int} {entries : List LogEntry} {e : LogEntry}
    (h : Sized rollSize opened entries)
    (he : rollSize < bytes (entries ++ [e]) → e.time ≤ opened) :
    Sized rollSize opened (entries ++ [e]) := by
  exact forall_step_snoc.mpr ⟨h, he⟩

theorem bytes_snoc (entries : List LogEntry) (e : LogEntry) :
    bytes (entries ++ [e]) = bytes entries + e.counted := by
  simp [bytes]

/-- The files with `f` as the last one. -/
structure Files (s : LogFile) (f : AppendFile) : Prop where
  file : s.file = some f
  lastRoll : f.opened = s.lastRoll
  start : s.startOfPeriod = periodOf s.lastRoll
  pos : 0 < s.lastRoll
  opened : ((s.old ++ [f]).map (·.opened)).Pairwise (· < ·)
  names : ∀ g ∈ s.old ++ [f], 0 < g.opened ∧ g.filename = getLogFilename s.config g.opened ∧
    g.writtenBytes = bytes g.entries
  sizes : ∀ g ∈ s.old ++ [f], Sized s.config.rollSize g.opened g.entries.dropLast
  closed : ∀ g ∈ s.old, g.unflushed = []

variable {f : AppendFile} {now : Int}

def allEntries (s : LogFile) : List LogEntry := s.files.flatMap (·.entries)

theorem Files.files_eq (h : Files s f) : s.files = s.old ++ [f] := by
  rw [files, h.file]
  rfl

theorem Files.frame (h : Files s f) {count lastFlush clock : Int} {failed : Bool} :
    Files { s with count, lastFlush, clock, failed } f :=
  ⟨h.file, h.lastRoll, h.start, h.pos, h.opened, h.names, h.sizes, h.closed⟩

/-- What is kept of the last file. -/
theorem Files.replace (h : Files s f) {g : AppendFile} (hname : g.filename = f.filename)
    (hopened : g.opened = f.opened) (hwritten : g.writtenBytes = bytes g.entries)
    (hsized : Sized s.config.rollSize f.opened g.entries.dropLast) :
    Files { s with file := some g } g where
  file := rfl
  lastRoll := hopened.trans h.lastRoll
  start := h.start
  pos := h.pos
  opened := by
    have hall := h.opened
    rw [List.map_append] at hall ⊢
    simpa [hopened] using hall
  names g' hmem := by
    rcases List.mem_append.mp hmem with hmem | hmem
    · exact h.names g' (List.mem_append_left _ hmem)
    · obtain rfl := List.mem_singleton.mp hmem
      have hf := h.names f (List.mem_append_right _ List.mem_cons_self)
      exact ⟨hopened ▸ hf.1, by rw [hname, hopened, hf.2.1], hwritten⟩
  sizes g' hmem := by
    rcases List.mem_append.mp hmem with hmem | hmem
    · exact h.sizes g' (List.mem_append_left _ hmem)
    · obtain rfl := List.mem_singleton.mp hmem
      rw [hopened]
      exact hsized
  closed := h.closed

theorem Files.writtenBytes_eq (h : Files s f) : f.writtenBytes = bytes f.entries :=
  (h.names f (List.mem_append_right _ List.mem_cons_self)).2.2

theorem Files.append (h : Files s f) (hsized : Sized s.config.rollSize f.opened f.entries)
    (e : LogEntry) : Files { s with file := some (f.append e) } (f.append e) := by
  refine h.replace rfl rfl ?_ ?_
  · simp only [AppendFile.append]
    rw [bytes_snoc, h.writtenBytes_eq]
  · simpa [AppendFile.append] using hsized

theorem Files.flush (h : Files s f) (hsized : Sized s.config.rollSize f.opened f.entries) :
    Files { s with file := some f.flush } f.flush :=
  h.replace rfl rfl h.writtenBytes_eq (hsized.of_prefix (List.dropLast_prefix _))

theorem unflushed_flush (f : AppendFile) : f.flush.unflushed = [] := List.drop_length

theorem bytes_nil : bytes [] = 0 := rfl

theorem sized_nil (rollSize opened : Int) : Sized rollSize opened [] := by
  rintro pre e post heq
  simp at heq

/-- A new file after the last one. -/
theorem Files.next (h : Files s f) {now : Int} (hnow : s.lastRoll < now) :
    let g : AppendFile := { filename := getLogFilename s.config now, opened := now }
    Files { s with lastRoll := now, lastFlush := now, startOfPeriod := periodOf now,
                   old := s.old ++ [f.flush], file := some g } g := by
  intro g
  have hclosed : Files { s with file := some f.flush } f.flush :=
    h.replace rfl rfl h.writtenBytes_eq (h.sizes f (List.mem_append_right _ List.mem_cons_self))
  refine ⟨rfl, rfl, rfl, Int.lt_trans h.pos hnow, ?_, fun g' hmem => ?_, fun g' hmem => ?_,
    fun g' hmem => ?_⟩
  · have hall := h.opened
    have hlast := h.lastRoll
    simp only [List.map_append, List.map_cons, List.map_nil, List.pairwise_append,
      List.pairwise_cons, List.mem_append, List.mem_singleton, List.not_mem_nil,
      List.Pairwise.nil, AppendFile.flush, and_true] at hall ⊢
    grind
  · rcases List.mem_append.mp hmem with hmem | hmem
    · exact hclosed.names g' hmem
    · obtain rfl := List.mem_singleton.mp hmem
      exact ⟨Int.lt_trans h.pos hnow, rfl, rfl⟩
  · rcases List.mem_append.mp hmem with hmem | hmem
    · exact hclosed.sizes g' hmem
    · obtain rfl := List.mem_singleton.mp hmem
      exact sized_nil _ _
  · rcases List.mem_append.mp hmem with hmem | hmem
    · exact h.closed g' hmem
    · obtain rfl := List.mem_singleton.mp hmem
      exact unflushed_flush f

/-- A new file, or the second is not over. -/
theorem Files.rollFile (h : Files s f) (now : Int)
    (hstay : now ≤ s.lastRoll → Sized s.config.rollSize f.opened f.entries) :
    ∃ g, Files (s.rollFile now) g ∧ Sized s.config.rollSize g.opened g.entries ∧
      (s.rollFile now).allEntries = s.allEntries := by
  unfold LogFile.rollFile
  split
  · rename_i hnow
    rw [h.file]
    refine ⟨_, h.next hnow, sized_nil _ _, ?_⟩
    simp [allEntries, files, h.file, AppendFile.flush]
  · rename_i hnow
    exact ⟨f, h, hstay (Int.not_lt.mp hnow), rfl⟩

theorem Files.allEntries_eq (h : Files s f) :
    s.allEntries = s.old.flatMap (·.entries) ++ f.entries := by
  simp [allEntries, h.files_eq]

/-- The entry, and what comes after it. -/
theorem Files.afterAppend (h : Files s f) (hsized : Sized s.config.rollSize f.opened f.entries)
    {e : LogEntry} {now : Int} (now' : Int) (htime : e.time = now) :
    ∃ g, Files (s.afterAppend (f.append e) now now') g ∧
      Sized s.config.rollSize g.opened g.entries ∧
      (s.afterAppend (f.append e) now now').allEntries = s.allEntries ++ [e] := by
  have happend := h.append hsized e
  have hentries : ({ s with file := some (f.append e) } : LogFile).allEntries =
      s.allEntries ++ [e] := by
    rw [happend.allEntries_eq, h.allEntries_eq]
    simp [AppendFile.append]
  have hlast : bytes (f.entries ++ [e]) = (f.append e).writtenBytes :=
    happend.writtenBytes_eq.symm
  unfold LogFile.afterAppend
  dsimp only
  split
  · -- Too long: there is a new file, unless it is too early for one.
    obtain ⟨g, hfiles, hg, hall⟩ := happend.rollFile now fun hnow => by
      refine hsized.snoc fun _ => ?_
      rw [htime, h.lastRoll]
      exact hnow
    exact ⟨g, hfiles, hg, hall.trans hentries⟩
  · rename_i hfits
    have hsized' : Sized s.config.rollSize f.opened (f.append e).entries :=
      hsized.snoc fun hlong => absurd (hlast ▸ hlong) hfits
    split
    · split
      · have hzero : Files { s with count := 0, file := some (f.append e) } (f.append e) :=
          happend.frame
        obtain ⟨g, hfiles, hg, hall⟩ := hzero.rollFile now' fun _ => hsized'
        exact ⟨g, hfiles, hg, hall.trans hentries⟩
      · split
        · refine ⟨_, (happend.flush hsized').frame, hsized', ?_⟩
          rw [← hentries]
          simp [allEntries, files, AppendFile.flush]
        · exact ⟨_, happend.frame, hsized', hentries⟩
    · exact ⟨_, happend.frame, hsized', hentries⟩

theorem rollFile_frame (s : LogFile) (now : Int) :
    (s.rollFile now).config = s.config ∧ (s.rollFile now).failed = s.failed := by
  unfold LogFile.rollFile
  split <;> exact ⟨rfl, rfl⟩

theorem afterAppend_frame (s : LogFile) (file : AppendFile) (now now' : Int) :
    (s.afterAppend file now now').config = s.config ∧
      (s.afterAppend file now now').failed = s.failed := by
  unfold LogFile.afterAppend
  dsimp only
  split
  · exact rollFile_frame _ now
  · split
    · split
      · exact rollFile_frame _ now'
      · split <;> exact ⟨rfl, rfl⟩
    · exact ⟨rfl, rfl⟩

structure Good (config : LogFileConfig) (s : LogFile) : Prop where
  same : s.config = config
  passed : s.failed = false
  files : ∃ f, Files s f ∧ Sized config.rollSize f.opened f.entries

variable {config : LogFileConfig}

theorem make_eq (hname : 47 ∉ config.basename) {now : Int} (hnow : 0 < now) : make config now =
    { config, clock := now, lastRoll := now, lastFlush := now, startOfPeriod := periodOf now,
      file := some { filename := getLogFilename config now, opened := now } } := by
  simp [make, LogFile.rollFile, hnow, hname]

theorem good_make (hname : 47 ∉ config.basename) {now : Int} (hnow : 0 < now) :
    Good config (make config now) ∧ (make config now).allEntries = [] := by
  rw [make_eq hname hnow]
  refine ⟨⟨rfl, rfl, _, ⟨rfl, rfl, rfl, hnow, ?_, ?_, ?_, ?_⟩, sized_nil _ _⟩, rfl⟩
  · simp
  · simp [bytes_nil, hnow]
  · simpa using sized_nil _ _
  · simp

theorem step_append (h : s.file = some f) {logline data : List UInt8} {answers : List FwriteAnswer}
    {counted : Nat} (hwrite : AppendFile.writeLoop logline answers = some (data, counted))
    (now now' : Int) : s.step (.append logline answers now now') =
      { s with clock := now' }.afterAppend (f.append { data, counted, time := now }) now now' := by
  cases s
  cases h
  simp only [LogFile.step, hwrite]

theorem step_flush (h : s.file = some f) (now : Int) :
    s.step (.flush now) = { s with clock := now, file := some f.flush } := by
  cases s
  cases h
  rfl

/-- Every call adds its entry at the end. -/
theorem Good.step (h : Good config s) {i : LogFileCall} (hi : s.Returns i) :
    Good config (s.step i) ∧
      (s.step i).allEntries.map (·.data) = s.allEntries.map (·.data) ++ part i := by
  obtain ⟨rfl, hpassed, f, hfiles, hsized⟩ := h
  cases i with
  | append logline answers now now' =>
    obtain ⟨⟨data, counted⟩, hwrite⟩ := Option.isSome_iff_exists.mp hi
    have hlater : Files { s with clock := now' } f := hfiles.frame
    obtain ⟨g, hg, hgsized, hall⟩ := hlater.afterAppend hsized
      (e := { data, counted, time := now }) now' rfl
    have hframe := afterAppend_frame { s with clock := now' }
      (f.append { data, counted, time := now }) now now'
    rw [step_append hfiles.file hwrite]
    refine ⟨⟨hframe.1, hframe.2.trans hpassed, g, hg, hgsized⟩, ?_⟩
    simp only [part, hwrite, hall, List.map_append]
    rfl
  | flush now =>
    rw [step_flush hfiles.file]
    refine ⟨⟨rfl, hpassed, _, (hfiles.flush hsized).frame, hsized⟩, ?_⟩
    simp [allEntries, LogFile.files, hfiles.file, AppendFile.flush, part]
  | rollFile now =>
    have hlater : Files { s with clock := now } f := hfiles.frame
    obtain ⟨g, hg, hgsized, hall⟩ := hlater.rollFile now fun _ => hsized
    have hframe := rollFile_frame { s with clock := now } now
    simp only [LogFile.step, part, List.append_nil]
    refine ⟨⟨hframe.1, hframe.2.trans hpassed, g, hg, hgsized⟩, ?_⟩
    rw [hall]
    rfl

theorem good_run (hname : 47 ∉ config.basename) {now : Int} (hnow : 0 < now)
    {is : List LogFileCall} (h : Legal step Returns (make config now) is) :
    Good config (is.foldl step (make config now)) ∧
      (is.foldl step (make config now)).allEntries.map (·.data) = is.flatMap part := by
  obtain ⟨hgood, hnil⟩ := good_make hname hnow
  refine legal_induction (P := fun is => Good config (is.foldl step (make config now)) ∧
    (is.foldl step (make config now)).allEntries.map (·.data) = is.flatMap part)
    ⟨hgood, by simp [hnil]⟩ (fun is i _ hi ih => ?_) h
  obtain ⟨hg, hall⟩ := ih.1.step hi
  rw [List.foldl_append, List.foldl_cons, List.foldl_nil]
  refine ⟨hg, ?_⟩
  rw [hall, ih.2]
  simp

/-- The line of an `Append` and the answers to it. -/
def appended : LogFileCall → List (List UInt8 × List FwriteAnswer)
  | .append logline answers _ _ => [(logline, answers)]
  | .flush _ | .rollFile _ => []

/-- What a line leaves in a file: all of it, or its beginning when a write fails. -/
def Leaves (line : List UInt8 × List FwriteAnswer) (data : List UInt8) : Prop :=
  data <+: line.1 ∧ ((∀ a ∈ line.2, a.err = false) → data = line.1)

theorem leaves_part {i : LogFileCall} (hi : s.Returns i) :
    List.Forall₂ Leaves (appended i) (part i) := by
  cases i with
  | append logline answers now now' =>
    obtain ⟨⟨data, counted⟩, hwrite⟩ := Option.isSome_iff_exists.mp hi
    simp only [appended, part, hwrite, Option.map_some, Option.toList_some]
    refine .cons ⟨(AppendFile.writeLoop_part hwrite).1, fun herr => ?_⟩ .nil
    exact (AppendFile.writeLoop_whole hwrite herr).1
  | flush now | rollFile now => exact .nil

theorem leaves_parts {s : LogFile} {is : List LogFileCall} (h : Legal step Returns s is) :
    List.Forall₂ Leaves (is.flatMap appended) (is.flatMap part) := by
  induction is generalizing s with
  | nil => exact .nil
  | cons i is ih =>
    rw [List.flatMap_cons, List.flatMap_cons]
    exact List.rel_append (leaves_part h.1) (ih h.2)

/-- **Nothing is lost, split or mixed up by rolling.** When the constructor runs after the epoch,
whatever the clock says later and `fwrite` returns: the files one after the other hold what the
calls of `Append` have written, each part in one file; the files are in the order of their times,
and up to the year 9999 of their names; `file_` is never null. -/
theorem logFile_exact (config : LogFileConfig) (hname : 47 ∉ config.basename) (now : Int)
    (hnow : 0 < now) (is : List LogFileCall) (h : Legal step Returns (make config now) is) :
    let s := is.foldl step (make config now)
    s.failed = false ∧
      List.Forall₂ Leaves (is.flatMap appended) (s.files.flatMap fun f => f.entries.map (·.data)) ∧
      s.files.Pairwise fun f g => f.opened < g.opened ∧
        (g.opened < 253402300800 → f.filename < g.filename) := by
  intro s
  obtain ⟨⟨hsame, hpassed, f, hfiles, -⟩, hall⟩ := good_run hname hnow h
  refine ⟨hpassed, ?_, ?_⟩
  · have hdata : (s.files.flatMap fun f => f.entries.map (·.data)) = is.flatMap part := by
      rw [← hall, allEntries, List.map_flatMap]
    rw [hdata]
    exact leaves_parts h
  · have hopened := List.pairwise_map.mp hfiles.opened
    rw [hfiles.files_eq]
    refine hopened.imp_of_mem fun {g g'} hg hg' hlt => ⟨hlt, fun hmax => ?_⟩
    obtain ⟨hpos, hname, -⟩ := hfiles.names g hg
    rw [hname, (hfiles.names g' hg').2.1, hsame]
    exact getLogFilename_lt config (Int.le_of_lt hpos) hlt hmax

/-- Short writes, a file that is too long in its first second, a new day, and a write that
fails. -/
def threeFiles : List LogFileCall :=
  [.append (ascii "abcdef") [⟨6, false⟩] 5 5, .append (ascii "ghijkl") [⟨2, false⟩, ⟨4, false⟩] 5 5,
    .append (ascii "m") [⟨1, false⟩] 6 6, .append (ascii "nop") [⟨3, false⟩] 90000 90000,
    .append (ascii "qr") [⟨2, false⟩] 90001 90001, .append (ascii "st") [⟨1, true⟩] 90002 90002,
    .flush 90003, .rollFile 90003]

def smallConfig : LogFileConfig where
  basename := ascii "log"
  rollSize := 10
  checkEveryN := 2
  hostname := ascii "host"
  pid := 7

theorem threeFiles_exact :
    let s := threeFiles.foldl step (make smallConfig 5)
    s.failed = false ∧
      s.files.map (·.entries.map (·.data)) =
        [[ascii "abcdef", ascii "ghijkl", ascii "m"], [ascii "nop"], [ascii "qr", ascii "s"], []] ∧
      List.Forall₂ Leaves (threeFiles.flatMap appended)
        (s.files.flatMap fun f => f.entries.map (·.data)) := by
  obtain ⟨hpassed, hleaves, -⟩ := logFile_exact smallConfig (by decide) 5 (by decide) threeFiles
    (by decide)
  exact ⟨hpassed, by decide, hleaves⟩

end LogFile

end MyTinyHttpd
