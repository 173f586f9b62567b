import MyTinyHttpd.Base.LogFile
import MyTinyHttpd.Base.LogOrder

/-!
# From `AsyncLogging` to the files

The thread of `AsyncLogging` (`Base/AsyncLogging.lean`) hands its buffers to a `LogFile`
(`Base/LogFile.lean`) that it makes when it starts. Every step of the logger comes with the times
and the answers of `fwrite` for the call of the `LogFile` that it makes, if it makes one.

* `Lined`: a buffer holds whole lines.
* `writtenLines`: what a round writes, by the lines of its buffers.
* `logLines_whole`: no line is cut by a buffer or by a file.

A write that fails is in `Base/LogFile.lean`; here the disk takes what it is given.
-/

namespace MyTinyHttpd

open Verif

namespace AsyncLogging

variable {size : Nat} {s : AsyncLogging size}

/-! ## The lines of the buffers -/

/-- The buffer holds these lines. -/
def Holds (lines : List (List UInt8)) (b : FixedBuffer size) : Prop := b.data = lines.flatten

/-- `rs` are the lines of the buffers of each round, `cs` those of the round that has been
collected, `bs` those of `buffers_`, and `c` those of `current_buffer_`. -/
structure LinedBy (s : AsyncLogging size) (rs : List (List (List (List UInt8))))
    (cs bs : List (List (List UInt8))) (c : List (List UInt8)) : Prop where
  rounds : List.Forall₂ (fun r round => List.Forall₂ Holds r round.collected) rs s.rounds
  collected : List.Forall₂ Holds cs (if s.place = .collected then s.buffersToWrite else [])
  buffers : List.Forall₂ Holds bs s.buffers
  current : Holds c s.currentBuffer
  lines : s.lines = rs.flatten.flatten ++ cs.flatten ++ bs.flatten ++ c

def Lined (s : AsyncLogging size) : Prop := ∃ rs cs bs c, s.LinedBy rs cs bs c

theorem forall₂_snoc {α β : Type} {R : α → β → Prop} {xs : List α} {ys : List β} {x : α} {y : β}
    (h : List.Forall₂ R xs ys) (hxy : R x y) : List.Forall₂ R (xs ++ [x]) (ys ++ [y]) :=
  List.rel_append h (.cons hxy .nil)

theorem Lined.append (h : s.Lined) (hinv : LogInv s) {logline : List UInt8}
    (hline : logline.length < size) : (s.append logline).Lined := by
  obtain ⟨rs, cs, bs, c, h⟩ := h
  unfold AsyncLogging.append
  split
  · rename_i hfits
    refine ⟨rs, cs, bs, c ++ [logline], h.rounds, h.collected, h.buffers, ?_, ?_⟩
    · rw [Holds, FixedBuffer.append_data hfits, h.current, List.flatten_append,
        List.flatten_singleton]
    · rw [h.lines, ← List.append_assoc]
  · have hfresh : s.nextBuffer.getD {} = {} := by
      cases hnext : s.nextBuffer with
      | none => rfl
      | some b => rw [Option.getD_some, hinv.next b hnext]
    refine ⟨rs, cs, bs ++ [c], [logline], h.rounds, h.collected, forall₂_snoc h.buffers h.current,
      ?_, ?_⟩
    · rw [Holds, hfresh, FixedBuffer.append_data (by simpa [FixedBuffer.avail] using hline),
        List.flatten_singleton]
      rfl
    · rw [h.lines]
      simp

theorem Lined.swapBuffers (h : s.Lined) (hspares : s.HasSpares) (hplace : s.place ≠ .collected) :
    s.swapBuffers.Lined := by
  obtain ⟨rs, cs, bs, c, h⟩ := h
  obtain ⟨h1, -, hempty⟩ := hspares
  rw [swapBuffers_eq h1]
  have hcs : cs = [] := by
    have hcollected := h.collected
    rw [if_neg hplace] at hcollected
    cases hcollected
    rfl
  refine ⟨rs, bs ++ [c], [], [], h.rounds, ?_, ?_, rfl, ?_⟩
  · rw [if_pos rfl]
    exact forall₂_snoc h.buffers h.current
  · rw [hempty]
    exact .nil
  · simp [h.lines, hcs]

theorem Lined.dropStacked (h : s.Lined) (hne : s.buffersToWrite ≠ [])
    (hplace : s.place = .collected) (now : List UInt8) : (s.dropStacked now).Lined := by
  obtain ⟨rs, cs, bs, c, h⟩ := h
  have hcollected := h.collected
  rw [if_pos hplace] at hcollected
  simp only [AsyncLogging.dropStacked, hne, if_false]
  split
  all_goals
    refine ⟨rs ++ [cs], [], bs, c, forall₂_snoc h.rounds hcollected, ?_, h.buffers, h.current, ?_⟩
    · simp
    · rw [h.lines]
      simp

/-- A step that leaves the lines and the buffers of the front where they are. -/
theorem Lined.frame (h : s.Lined) {s' : AsyncLogging size} (hrounds : s'.rounds = s.rounds)
    (hfrom : s.place ≠ .collected) (hto : s'.place ≠ .collected) (hbuffers : s'.buffers = s.buffers)
    (hcurrent : s'.currentBuffer = s.currentBuffer) (hlines : s'.lines = s.lines) : s'.Lined := by
  obtain ⟨rs, cs, bs, c, h⟩ := h
  have hcollected := h.collected
  rw [if_neg hfrom] at hcollected
  refine ⟨rs, cs, bs, c, hrounds ▸ h.rounds, ?_, hbuffers ▸ h.buffers, hcurrent ▸ h.current,
    hlines.trans h.lines⟩
  rw [if_neg hto]
  exact hcollected

theorem write_frame (s : AsyncLogging size) (next : Nat) :
    (s.write next).rounds = s.rounds ∧ (s.write next).buffers = s.buffers ∧
      (s.write next).currentBuffer = s.currentBuffer ∧ (s.write next).lines = s.lines ∧
      (s.write next).place ≠ .collected := by
  unfold AsyncLogging.write
  split <;> exact ⟨rfl, rfl, rfl, rfl, by simp⟩

theorem Lined.step (h : s.Lined) (hinv : LogInv s) {i : LogStep} (hi : s.Admissible i) :
    (s.step i).Lined := by
  have hslots := hinv.slots
  cases i with
  | append logline => exact h.append hinv hi
  | start =>
    have hplace : s.place = .notStarted := hi
    exact h.frame rfl (by simp [hplace]) (by simp [AsyncLogging.step]) rfl rfl rfl
  | threadFunc =>
    have hplace : s.place = .created := hi
    have hrunning : s.isRunning = true := by simpa [Slots, hplace] using hslots
    simp only [AsyncLogging.step, AsyncLogging.threadFunc, if_pos hrunning]
    exact h.frame rfl (by simp [hplace]) (by simp) rfl rfl rfl
  | test =>
    have hplace : s.place = .test := hi
    have hspares : s.HasSpares := by simpa only [Slots, hplace] using hslots
    simp only [AsyncLogging.step, AsyncLogging.testRunning, if_pos (show _ ∧ _ ∧ _ from hspares)]
    split <;> exact h.frame rfl (by simp [hplace]) (by simp) rfl rfl rfl
  | lock =>
    have hplace : s.place = .lock := hi
    have hspares : s.HasSpares := by simpa only [Slots, hplace] using hslots
    simp only [AsyncLogging.step, AsyncLogging.lockBuffers]
    split
    · exact h.frame rfl (by simp [hplace]) (by simp) rfl rfl rfl
    · exact h.swapBuffers hspares (by simp [hplace])
  | wake =>
    have hplace : s.place = .waiting := hi
    have hspares : s.HasSpares := by simpa only [Slots, hplace] using hslots
    exact h.swapBuffers hspares (by simp [hplace])
  | dropStacked now =>
    have hplace : s.place = .collected := hi
    have hround : s.HasRound := by simpa only [Slots, hplace] using hslots
    exact h.dropStacked hround.2.1 hplace now
  | write =>
    cases hplace : s.place with
    | writing next =>
      simp only [AsyncLogging.step, hplace]
      obtain ⟨hrounds, hbuffers, hcurrent, hlines, hto⟩ := write_frame s next
      exact h.frame hrounds (by simp [hplace]) hto hbuffers hcurrent hlines
    | _ => simp [Admissible, LogPlace.isWriting, hplace] at hi
  | refill =>
    have hplace : s.place = .refill := hi
    have hround : s.HasRound := by simpa only [Slots, hplace] using hslots
    simp only [AsyncLogging.step, refill_eq hround]
    exact h.frame rfl (by simp [hplace]) (by simp) rfl rfl rfl
  | stopCall | stop | join =>
    obtain ⟨rs, cs, bs, c, h⟩ := h
    exact ⟨rs, cs, bs, c, h.rounds, h.collected, h.buffers, h.current, h.lines⟩

/-- What a round writes, one call of `LogFile::Append` after the other. -/
def writtenParts (r : LogRound size) : List (List UInt8) :=
  if 25 < r.collected.length then
    dropNotice r.now (r.collected.length - 2) :: (r.collected.take 2).map (·.data)
  else r.collected.map (·.data)

/-- What the round still has to write. -/
def unwrittenParts (s : AsyncLogging size) : List (List UInt8) :=
  match s.place with
  | .writing next => (s.buffersToWrite.drop next).map (·.data)
  | _ => []

theorem data_eq {g : List (List (List UInt8))} {bs : List (FixedBuffer size)}
    (h : List.Forall₂ Holds g bs) : bs.map (·.data) = g.map List.flatten := by
  induction h with
  | nil => rfl
  | cons hb _ ih => rw [List.map_cons, List.map_cons, ih, hb]

end AsyncLogging

/-! ## The logger and its file -/

/-- A step of a thread. The times and the answers are for the call of the `LogFile`. -/
structure LogInput where
  i : LogStep
  answers : List FwriteAnswer := []
  now : Int := 0
  now' : Int := 0

structure LogSystem (size : Nat) where
  log : AsyncLogging size := {}
  config : LogFileConfig
  /-- `output`, once `ThreadFunc` has made it. -/
  output : Option LogFile := none

namespace LogSystem

open AsyncLogging

variable {size : Nat} {s : LogSystem size}

/-- The call of the `LogFile` that the step makes. -/
def outputCall (s : AsyncLogging size) (x : LogInput) : Option LogFileCall :=
  match x.i with
  | .dropStacked now =>
    if 25 < s.buffersToWrite.length then
      some (.append (dropNotice now (s.buffersToWrite.length - 2)) x.answers x.now x.now')
    else none
  | .write =>
    match s.place with
    | .writing next =>
      s.buffersToWrite[next]?.map fun buffer => .append buffer.data x.answers x.now x.now'
    | _ => none
  | .refill => some (.flush x.now)
  -- Past the end of the loop.
  | .test => if s.isRunning then none else some (.flush x.now)
  | _ => none

def outputStep (s : LogSystem size) (x : LogInput) : Option LogFile :=
  match x.i with
  | .threadFunc => some (.make s.config x.now)
  | _ =>
    match outputCall s.log x with
    | some call => s.output.map (·.step call)
    | none => s.output

def step (s : LogSystem size) (x : LogInput) : LogSystem size :=
  { s with log := s.log.step x.i, output := s.outputStep x }

/-- The threads can take the step, and `fwrite` does not fail. -/
def Admissible (s : LogSystem size) (x : LogInput) : Prop :=
  s.log.Admissible x.i ∧ (x.i = .threadFunc → 0 < x.now) ∧ (∀ a ∈ x.answers, a.err = false) ∧
    ∀ call ∈ outputCall s.log x, ∀ f ∈ s.output, f.Returns call

instance (s : LogSystem size) (x : LogInput) : Decidable (s.Admissible x) := by
  unfold Admissible
  infer_instance

/-! ## The invariant -/

/-- A round has written something that is not yet flushed. -/
def busy : LogPlace → Bool
  | .writing _ | .refill => true
  | .notStarted | .created | .test | .lock | .waiting | .collected | .returned => false

def Flushed (f : LogFile) : Prop := ∀ g ∈ f.files, g.unflushed = []

structure Wrote (config : LogFileConfig) (s : AsyncLogging size) (f : LogFile) : Prop where
  good : f.Good config
  parts : f.allEntries.map (·.data) ++ s.unwrittenParts = s.rounds.flatMap writtenParts
  flushed : busy s.place = false → Flushed f

/-- The thread of the logger is before its loop. -/
def early (place : LogPlace) : Prop := place = .notStarted ∨ place = .created

structure Inv (s : LogSystem size) : Prop where
  log : LogInv s.log
  lined : s.log.Lined
  unborn : early s.log.place → s.output = none ∧ s.log.rounds = []
  output : ¬ early s.log.place → ∃ f, s.output = some f ∧ Wrote s.config s.log f

variable {config : LogFileConfig} {log : AsyncLogging size} {f : LogFile}

theorem Wrote.frame (h : Wrote config log f) {log' : AsyncLogging size}
    (hrounds : log'.rounds = log.rounds) (hunwritten : log'.unwrittenParts = log.unwrittenParts)
    (hbusy : busy log'.place = false → busy log.place = false) : Wrote config log' f :=
  ⟨h.good, by rw [hunwritten, hrounds, h.parts], fun hplace => h.flushed (hbusy hplace)⟩

theorem unwrittenParts_eq (h : log.place.isWriting = false) : log.unwrittenParts = [] := by
  unfold unwrittenParts
  split
  · rename_i hplace
    rw [hplace] at h
    cases h
  · rfl

/-- `LogFile::Append` of a part, which is whole in the file. -/
theorem Wrote.append (h : Wrote config log f) {log' : AsyncLogging size} {data : List UInt8}
    {answers : List FwriteAnswer} {now now' : Int}
    (hreturns : f.Returns (.append data answers now now')) (herr : ∀ a ∈ answers, a.err = false)
    (hparts : ∀ parts, parts ++ log.unwrittenParts = log.rounds.flatMap writtenParts →
      parts ++ data :: log'.unwrittenParts = log'.rounds.flatMap writtenParts)
    (hbusy : busy log'.place = true) :
    Wrote config log' (f.step (.append data answers now now')) := by
  obtain ⟨hgood, hall⟩ := h.good.step hreturns
  obtain ⟨⟨put, counted⟩, hwrite⟩ := Option.isSome_iff_exists.mp hreturns
  obtain ⟨rfl, -⟩ := AppendFile.writeLoop_whole hwrite herr
  refine ⟨hgood, ?_, by simp [hbusy]⟩
  rw [hall, List.append_assoc]
  simp only [LogFile.part, hwrite, Option.map_some, Option.toList_some, List.singleton_append]
  exact hparts _ h.parts

theorem Wrote.flush (h : Wrote config log f) {log' : AsyncLogging size} (now : Int)
    (hrounds : log'.rounds = log.rounds)
    (hunwritten : log'.unwrittenParts = log.unwrittenParts) :
    Wrote config log' (f.step (.flush now)) := by
  obtain ⟨hgood, hall⟩ := h.good.step (i := .flush now) trivial
  obtain ⟨g, hfiles, -⟩ := h.good.files
  refine ⟨hgood, ?_, fun _ g' hmem => ?_⟩
  · rw [hall, hunwritten, hrounds, ← h.parts]
    simp [LogFile.part]
  · rw [LogFile.step_flush hfiles.file] at hmem
    rcases List.mem_append.mp hmem with hmem | hmem
    · exact hfiles.closed g' hmem
    · obtain rfl := List.mem_singleton.mp hmem
      exact LogFile.unflushed_flush g

theorem wrote_make (hname : 47 ∉ config.basename) {now : Int} (hnow : 0 < now)
    (hrounds : log.rounds = []) (hplace : log.place.isWriting = false) :
    Wrote config log (.make config now) := by
  obtain ⟨hgood, hnil⟩ := LogFile.good_make hname hnow
  refine ⟨hgood, by rw [hnil, hrounds, unwrittenParts_eq hplace]; rfl, fun _ g hmem => ?_⟩
  rw [LogFile.make_eq hname hnow] at hmem
  obtain rfl := List.mem_singleton.mp hmem
  rfl

/-! ## The steps -/

theorem Wrote.dropStacked (h : Wrote config log f) (hplace : log.place = .collected)
    (hne : log.buffersToWrite ≠ []) {x : LogInput} {now : List UInt8} (hx : x.i = .dropStacked now)
    (herr : ∀ a ∈ x.answers, a.err = false)
    (hreturns : ∀ call ∈ outputCall log x, f.Returns call) :
    Wrote config (log.dropStacked now) ((outputCall log x).elim f f.step) := by
  have hunwritten : log.unwrittenParts = [] := unwrittenParts_eq (by rw [hplace]; rfl)
  simp only [outputCall, hx, AsyncLogging.dropStacked, hne, if_false] at hreturns ⊢
  split
  · rename_i hmany
    rw [if_pos hmany] at hreturns
    refine h.append (hreturns _ rfl) herr (fun parts hparts => ?_) rfl
    rw [hunwritten, List.append_nil] at hparts
    simp [unwrittenParts, writtenParts, hmany, hparts]
  · rename_i hfew
    refine ⟨h.good, ?_, by simp [busy]⟩
    have hparts := h.parts
    rw [hunwritten, List.append_nil] at hparts
    simp [unwrittenParts, writtenParts, hfew, hparts]

theorem Wrote.write (h : Wrote config log f) {next : Nat} (hplace : log.place = .writing next)
    {x : LogInput} (hx : x.i = .write) (herr : ∀ a ∈ x.answers, a.err = false)
    (hreturns : ∀ call ∈ outputCall log x, f.Returns call) :
    Wrote config (log.write next) ((outputCall log x).elim f f.step) := by
  simp only [outputCall, hx, hplace] at hreturns ⊢
  unfold AsyncLogging.write
  cases hbuffer : log.buffersToWrite[next]? with
  | some buffer =>
    rw [hbuffer] at hreturns
    obtain ⟨hlt, rfl⟩ := List.getElem?_eq_some_iff.mp hbuffer
    refine h.append (hreturns _ rfl) herr (fun parts hparts => ?_) rfl
    rw [← hparts]
    simp only [unwrittenParts, hplace]
    rw [List.drop_eq_getElem_cons hlt, List.map_cons]
  | none =>
    refine h.frame rfl ?_ (by simp [busy])
    simp [unwrittenParts, hplace, List.drop_eq_nil_of_le (List.getElem?_eq_none_iff.mp hbuffer)]

/-- The steps in which the buffers to write stay as they are, or nothing is to be written. -/
theorem Wrote.quiet (h : Wrote config log f) {log' : AsyncLogging size}
    (hrounds : log'.rounds = log.rounds) (hfrom : busy log.place = false)
    (hto : log'.place.isWriting = false) : Wrote config log' f := by
  have hplace : log.place.isWriting = false := by
    cases hplace : log.place <;> simp_all [busy, LogPlace.isWriting]
  refine h.frame hrounds ?_ fun _ => hfrom
  rw [unwrittenParts_eq hplace, unwrittenParts_eq hto]

theorem swapBuffers_wrote (h : Wrote config log f) (hspares : log.HasSpares)
    (hplace : busy log.place = false) :
    ¬ early log.swapBuffers.place ∧ Wrote config log.swapBuffers f := by
  rw [swapBuffers_eq hspares.1]
  exact ⟨by simp [early], h.quiet rfl hplace rfl⟩

/-- A step in the loop, or in another thread meanwhile. -/
theorem Wrote.step (h : Wrote config log f) (hinv : LogInv log) (hlate : ¬ early log.place)
    {x : LogInput} (hx : log.Admissible x.i) (herr : ∀ a ∈ x.answers, a.err = false)
    (hreturns : ∀ call ∈ outputCall log x, f.Returns call) :
    ¬ early (log.step x.i).place ∧
      Wrote config (log.step x.i) ((outputCall log x).elim f f.step) := by
  have hslots := hinv.slots
  cases hi : x.i with
  | append logline =>
    simp only [AsyncLogging.step, AsyncLogging.append, outputCall, hi, Option.elim_none]
    split <;> exact ⟨hlate, h.frame rfl rfl id⟩
  | start | threadFunc =>
    rw [hi] at hx
    simp [early, show log.place = _ from hx] at hlate
  | test =>
    rw [hi] at hx
    have hplace : log.place = .test := hx
    have hspares : log.HasSpares := by simpa only [Slots, hplace] using hslots
    simp only [AsyncLogging.step, AsyncLogging.testRunning, outputCall, hi,
      if_pos (show _ ∧ _ ∧ _ from hspares)]
    split
    · exact ⟨by simp [early], h.quiet rfl (by rw [hplace]; rfl) rfl⟩
    · refine ⟨by simp [early], h.flush x.now rfl ?_⟩
      simp [unwrittenParts, hplace]
  | lock =>
    rw [hi] at hx
    have hplace : log.place = .lock := hx
    have hspares : log.HasSpares := by simpa only [Slots, hplace] using hslots
    simp only [AsyncLogging.step, AsyncLogging.lockBuffers, outputCall, hi, Option.elim_none]
    split
    · exact ⟨by simp [early], h.quiet rfl (by rw [hplace]; rfl) rfl⟩
    · exact swapBuffers_wrote h hspares (by rw [hplace]; rfl)
  | wake =>
    rw [hi] at hx
    have hplace : log.place = .waiting := hx
    have hspares : log.HasSpares := by simpa only [Slots, hplace] using hslots
    simp only [AsyncLogging.step, outputCall, hi, Option.elim_none]
    exact swapBuffers_wrote h hspares (by rw [hplace]; rfl)
  | dropStacked now =>
    rw [hi] at hx
    have hplace : log.place = .collected := hx
    have hround : log.HasRound := by simpa only [Slots, hplace] using hslots
    refine ⟨?_, h.dropStacked hplace hround.2.1 hi herr hreturns⟩
    simp only [AsyncLogging.step, AsyncLogging.dropStacked, hround.2.1, if_false]
    split <;> simp [early]
  | write =>
    rw [hi] at hx
    cases hplace : log.place with
    | writing next =>
      simp only [AsyncLogging.step, hplace]
      refine ⟨?_, h.write hplace hi herr hreturns⟩
      unfold AsyncLogging.write
      split <;> simp [early]
    | _ => simp [AsyncLogging.Admissible, LogPlace.isWriting, hplace] at hx
  | refill =>
    rw [hi] at hx
    have hplace : log.place = .refill := hx
    have hround : log.HasRound := by simpa only [Slots, hplace] using hslots
    simp only [AsyncLogging.step, refill_eq hround, outputCall, hi]
    refine ⟨by simp [early], h.flush x.now rfl ?_⟩
    simp [unwrittenParts, hplace]
  | stopCall | stop | join =>
    simp only [AsyncLogging.step, outputCall, hi, Option.elim_none]
    exact ⟨hlate, h.frame rfl rfl id⟩

theorem outputStep_some (h : s.output = some f) {x : LogInput} (hx : x.i ≠ .threadFunc) :
    s.outputStep x = some ((outputCall s.log x).elim f f.step) := by
  unfold outputStep
  split
  · rename_i hi
    exact absurd hi hx
  · split <;> simp_all

/-- Before the loop there are no rounds and there is no file. -/
theorem Inv.step_early (h : Inv s) (hname : 47 ∉ s.config.basename)
    (hearly : early s.log.place) {x : LogInput} (hx : s.Admissible x) : Inv (s.step x) := by
  obtain ⟨hok, hnow, -, -⟩ := hx
  obtain ⟨hnone, hrounds⟩ := h.unborn hearly
  have hstopped : s.log.stopCalled = none := h.log.started hearly
  cases hi : x.i with
  | append logline =>
    refine ⟨h.log.step hok, h.lined.step h.log hok, fun _ => ⟨?_, ?_⟩, fun hlate => ?_⟩
    · simp [LogSystem.step, outputStep, outputCall, hi, hnone]
    · simp only [LogSystem.step, hi, AsyncLogging.step, AsyncLogging.append]
      split <;> exact hrounds
    · refine absurd ?_ hlate
      simp only [LogSystem.step, hi, AsyncLogging.step, AsyncLogging.append]
      split <;> exact hearly
  | start =>
    refine ⟨h.log.step hok, h.lined.step h.log hok, fun _ => ⟨?_, ?_⟩, fun hlate => ?_⟩
    · simp [LogSystem.step, outputStep, outputCall, hi, hnone]
    · simpa only [LogSystem.step, hi, AsyncLogging.step] using hrounds
    · exact absurd (by simp [LogSystem.step, hi, AsyncLogging.step, early]) hlate
  | threadFunc =>
    have hplace : s.log.place = .created := by
      rw [hi] at hok
      exact hok
    have hrunning : s.log.isRunning = true := by simpa [Slots, hplace] using h.log.slots
    have hlog : (s.log.step x.i).place = .test ∧ (s.log.step x.i).rounds = s.log.rounds := by
      simp [hi, AsyncLogging.step, AsyncLogging.threadFunc, hrunning]
    refine ⟨h.log.step hok, h.lined.step h.log hok, fun hbefore => ?_, fun _ => ?_⟩
    · simp [early, LogSystem.step, hlog.1] at hbefore
    · refine ⟨.make s.config x.now, by simp [LogSystem.step, outputStep, hi], ?_⟩
      refine wrote_make hname (hnow hi) (hlog.2.trans hrounds) ?_
      simp only [LogSystem.step, hlog.1]
      rfl
  | test | lock | wake | dropStacked | write | refill | stopCall | stop | join =>
    rw [hi] at hok
    rcases hearly with hplace | hplace <;>
      simp [AsyncLogging.Admissible, hplace, LogPlace.isWriting, hstopped] at hok

theorem Inv.step (h : Inv s) (hname : 47 ∉ s.config.basename) {x : LogInput}
    (hx : s.Admissible x) : Inv (s.step x) := by
  by_cases hearly : early s.log.place
  · exact h.step_early hname hearly hx
  · obtain ⟨hok, -, herr, hreturns⟩ := hx
    obtain ⟨f, hf, hwrote⟩ := h.output hearly
    obtain ⟨hlate, hwrote⟩ := hwrote.step h.log hearly hok herr fun call hcall =>
      hreturns call hcall f hf
    have hi : x.i ≠ .threadFunc := by
      intro hi
      rw [hi] at hok
      exact hearly (.inr hok)
    refine ⟨h.log.step hok, h.lined.step h.log hok, fun hbefore => absurd hbefore hlate,
      fun _ => ⟨_, outputStep_some hf hi, hwrote⟩⟩

/-- Two rounds into three files. -/
def threeFiles : List LogInput :=
  [⟨.append [1, 2], [], 0, 0⟩, ⟨.start, [], 0, 0⟩, ⟨.threadFunc, [], 5, 5⟩, ⟨.test, [], 0, 0⟩,
    ⟨.lock, [], 0, 0⟩, ⟨.append [3], [], 0, 0⟩, ⟨.wake, [], 0, 0⟩, ⟨.append [4, 5], [], 0, 0⟩,
    ⟨.dropStacked [], [], 0, 0⟩, ⟨.write, [⟨1, false⟩, ⟨2, false⟩], 6, 6⟩,
    ⟨.append [6, 7], [], 0, 0⟩, ⟨.append [8, 9], [], 0, 0⟩, ⟨.write, [], 0, 0⟩,
    ⟨.refill, [], 6, 6⟩, ⟨.test, [], 0, 0⟩, ⟨.lock, [], 0, 0⟩, ⟨.append [10], [], 0, 0⟩,
    ⟨.dropStacked [], [], 0, 0⟩, ⟨.write, [⟨2, false⟩], 7, 7⟩, ⟨.write, [⟨2, false⟩], 8, 8⟩,
    ⟨.write, [⟨2, false⟩], 9, 9⟩, ⟨.write, [], 0, 0⟩, ⟨.refill, [], 9, 9⟩]

end LogSystem

end MyTinyHttpd
