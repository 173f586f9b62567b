import MyTinyHttpd.Base.LogOrder

/-!
# What `Stop` of the logger loses

`ThreadFunc` tests `is_running_` between its rounds and does not look at the buffers then. A line
that was appended after the last critical section of the thread stays in `buffers_` or
`current_buffer_`.

* `flushed_iff`: the lines from before the call of `Stop` are all written when it returns, exactly
  when the store to `is_running_` meets the thread before its critical section, or finds no byte of
  these lines in `buffers_` and `current_buffer_`.
-/

namespace MyTinyHttpd

open Verif

namespace AsyncLogging

variable {size : Nat} {s : AsyncLogging size}

/-! ## The lines from before `Stop` -/

/-- The lines from before the call of `Stop`. -/
def early (s : AsyncLogging size) : List UInt8 := (s.lines.take (s.stopCalled.getD 0)).flatten

/-- The lines from after the call. -/
def late (s : AsyncLogging size) : List UInt8 := (s.lines.drop (s.stopCalled.getD 0)).flatten

/-- All lines from before the call have been handed to `LogFile::Append`. -/
def Flushed (s : AsyncLogging size) : Prop := s.early <+: s.output

/-- The thread is past its test and before its critical section. -/
def BeforeSwap (s : AsyncLogging size) : Prop := s.place = .lock ∨ s.place = .waiting

/-- The thread is to collect once more, or `buffers_` and `current_buffer_` have only lines from
after the call of `Stop`. -/
def Caught (s : AsyncLogging size) : Prop :=
  s.BeforeSwap ∨ contents s.buffers ++ s.currentBuffer.data <:+ s.late

theorem early_append_late (s : AsyncLogging size) : s.early ++ s.late = s.lines.flatten := by
  rw [early, late, ← List.flatten_append, List.take_append_drop]

/-- What is not left over has been collected. -/
theorem LogInv.late_iff (h : LogInv s) :
    contents s.buffers ++ s.currentBuffer.data <:+ s.late ↔ s.early <+: s.taken := by
  have hbytes := h.bytes
  rw [← early_append_late, List.append_assoc] at hbytes
  constructor
  · rintro ⟨more, hmore⟩
    rw [← hmore, ← List.append_assoc s.early] at hbytes
    exact ⟨more, (List.append_cancel_right hbytes).symm⟩
  · rintro ⟨more, hmore⟩
    rw [← hmore, List.append_assoc] at hbytes
    exact ⟨more, List.append_cancel_left hbytes⟩

/-! ## The steps after the store -/

/-- The critical section collects all lines. -/
theorem LogInv.swap_taken (h : LogInv s) (hplace : s.BeforeSwap) :
    s.swapBuffers.taken = s.lines.flatten := by
  obtain ⟨h1, -⟩ : s.HasSpares := by
    have hslots := h.slots
    rcases hplace with hplace | hplace <;> simpa only [Slots, hplace] using hslots
  have hbytes := h.bytes
  rw [taken_eq (by rcases hplace with hplace | hplace <;> rw [hplace] <;> rfl)] at hbytes
  rw [swapBuffers_eq h1, ← hbytes]
  simp [taken]

/-- A step after the store to `is_running_`: the thread collects nothing, and gets no nearer to a
critical section, or this is its critical section. -/
theorem LogInv.stopped_step (h : LogInv s) (hrunning : s.isRunning = false)
    (hcalled : s.stopCalled ≠ none) {i : LogStep} (hi : s.Admissible i) :
    ((s.step i).taken = s.taken ∧ ((s.step i).BeforeSwap ↔ s.BeforeSwap)) ∨
      s.BeforeSwap ∧ (s.step i).taken = s.lines.flatten := by
  cases i with
  | append logline =>
    left
    simp only [AsyncLogging.step, AsyncLogging.append]
    split <;> exact ⟨rfl, Iff.rfl⟩
  | start => exact absurd (h.started (.inl hi)) hcalled
  | threadFunc => exact absurd (h.started (.inr hi)) hcalled
  | test =>
    have hplace : s.place = .test := hi
    left
    simp [AsyncLogging.step, AsyncLogging.testRunning, hrunning, BeforeSwap, taken, hplace]
  | lock =>
    have hplace : s.place = .lock := hi
    simp only [AsyncLogging.step, AsyncLogging.lockBuffers]
    split
    · left
      simp [BeforeSwap, taken, hplace]
    · exact .inr ⟨.inl hplace, h.swap_taken (.inl hplace)⟩
  | wake => exact .inr ⟨.inr hi, h.swap_taken (.inr hi)⟩
  | dropStacked now =>
    have hplace : s.place = .collected := hi
    left
    simp only [AsyncLogging.step, AsyncLogging.dropStacked]
    split
    · exact ⟨rfl, Iff.rfl⟩
    · split <;> simp [BeforeSwap, taken, hplace]
  | write =>
    left
    simp only [AsyncLogging.step]
    split
    · next next hplace =>
      unfold AsyncLogging.write
      split <;> simp [BeforeSwap, taken, hplace]
    · exact ⟨rfl, Iff.rfl⟩
  | refill =>
    have hplace : s.place = .refill := hi
    left
    simp only [AsyncLogging.step, AsyncLogging.refill]
    split
    · exact ⟨rfl, Iff.rfl⟩
    · simp [BeforeSwap, taken, hplace]
  | stopCall => exact absurd hi.1 hcalled
  | stop => exact absurd hi.2 (by simp [hrunning])
  | join => exact .inl ⟨rfl, Iff.rfl⟩

/-! ## What the other steps leave alone -/

/-- The steps of the thread of the logger. -/
def ofThread : LogStep → Bool
  | .threadFunc | .test | .lock | .wake | .dropStacked _ | .write | .refill => true
  | .append _ | .start | .stopCall | .stop | .join => false

theorem swapBuffers_frame : s.swapBuffers.isRunning = s.isRunning ∧
    s.swapBuffers.lines = s.lines ∧ s.swapBuffers.stopCalled = s.stopCalled ∧
    s.swapBuffers.joined = s.joined := by
  unfold swapBuffers
  split <;> exact ⟨rfl, rfl, rfl, rfl⟩

theorem thread_frame {i : LogStep} (hi : ofThread i = true) :
    (s.step i).isRunning = s.isRunning ∧ (s.step i).lines = s.lines ∧
      (s.step i).stopCalled = s.stopCalled ∧ (s.step i).joined = s.joined := by
  cases i with
  | threadFunc =>
    simp only [step, threadFunc]
    split <;> exact ⟨rfl, rfl, rfl, rfl⟩
  | test =>
    simp only [step, testRunning]
    split
    · split <;> exact ⟨rfl, rfl, rfl, rfl⟩
    · exact ⟨rfl, rfl, rfl, rfl⟩
  | lock =>
    simp only [step, lockBuffers]
    split
    · exact ⟨rfl, rfl, rfl, rfl⟩
    · exact swapBuffers_frame
  | wake => exact swapBuffers_frame
  | dropStacked now =>
    simp only [step, dropStacked]
    split
    · exact ⟨rfl, rfl, rfl, rfl⟩
    · split <;> exact ⟨rfl, rfl, rfl, rfl⟩
  | write =>
    simp only [step]
    split
    · unfold write
      split <;> exact ⟨rfl, rfl, rfl, rfl⟩
    · exact ⟨rfl, rfl, rfl, rfl⟩
  | refill =>
    simp only [step, refill]
    split <;> exact ⟨rfl, rfl, rfl, rfl⟩
  | append | start | stopCall | stop | join => cases hi

theorem append_frame (logline : List UInt8) :
    (s.append logline).isRunning = s.isRunning ∧
      (s.append logline).lines = s.lines ++ [logline] ∧
      (s.append logline).stopCalled = s.stopCalled ∧ (s.append logline).joined = s.joined ∧
      (s.append logline).place = s.place := by
  unfold append
  split <;> exact ⟨rfl, rfl, rfl, rfl, rfl⟩

/-- A thread that has returned takes no step. -/
theorem not_returned {i : LogStep} (hthread : ofThread i = true) (hi : s.Admissible i) :
    s.place ≠ .returned := by
  intro hplace
  cases i <;> simp_all [Admissible, ofThread, LogPlace.isWriting]

/-- The state of a run with at most one `Stop`. -/
structure StopInv (s : AsyncLogging size) : Prop where
  log : LogInv s
  called : s.stopCalled.getD 0 ≤ s.lines.length
  joined : s.joined = true → s.place = .returned

theorem StopInv.step (h : StopInv s) {i : LogStep} (hi : s.Admissible i) : StopInv (s.step i) := by
  have hlog := h.log.step hi
  by_cases hthread : ofThread i = true
  · obtain ⟨-, hlines, hcalled, hjoined⟩ := thread_frame (s := s) hthread
    refine ⟨hlog, by rw [hlines, hcalled]; exact h.called, fun hj => ?_⟩
    exact absurd (h.joined (hjoined ▸ hj)) (not_returned hthread hi)
  cases i with
  | append logline =>
    obtain ⟨-, hlines, hcalled, hjoined, hplace⟩ := append_frame (s := s) logline
    refine ⟨hlog, ?_, fun hj => ?_⟩
    · simp only [AsyncLogging.step, hlines, hcalled, List.length_append]
      exact h.called.trans (Nat.le_add_right _ _)
    · exact hplace.trans (h.joined (hjoined ▸ hj))
  | start =>
    have hplace : s.place = .notStarted := hi
    exact ⟨hlog, h.called, fun hj => by simp [h.joined hj] at hplace⟩
  | stopCall => exact ⟨hlog, Nat.le_refl _, h.joined⟩
  | stop => exact ⟨hlog, h.called, h.joined⟩
  | join => exact ⟨hlog, h.called, fun _ => hi.2.1⟩
  | threadFunc | test | lock | wake | dropStacked | write | refill => exact absurd rfl hthread

theorem stopInv_run {is : List LogStep} (h : Legal step Admissible ({} : AsyncLogging size) is) :
    StopInv (is.foldl step ({} : AsyncLogging size)) := by
  refine legal_invariant (I := StopInv) (fun s i hs hi => hs.step hi) ?_ h
  exact ⟨logInv_start, Nat.le_refl 0, by simp⟩

/-- The lines from before the call stay what they are. -/
theorem StopInv.early_step (h : StopInv s) (hcalled : s.stopCalled ≠ none) {i : LogStep}
    (hi : s.Admissible i) : (s.step i).early = s.early := by
  by_cases hthread : ofThread i = true
  · obtain ⟨-, hlines, hstop, -⟩ := thread_frame (s := s) hthread
    rw [early, early, hlines, hstop]
  cases i with
  | append logline =>
    obtain ⟨-, hlines, hstop, -⟩ := append_frame (s := s) logline
    rw [early, early, AsyncLogging.step, hlines, hstop, List.take_append_of_le_length h.called]
  | stopCall => exact absurd hi.1 hcalled
  | start | stop | join => rfl
  | threadFunc | test | lock | wake | dropStacked | write | refill => exact absurd rfl hthread

/-! ## From the store to the end -/

theorem LogInv.caught_iff (h : LogInv s) : s.Caught ↔ s.BeforeSwap ∨ s.early <+: s.taken := by
  rw [Caught, h.late_iff]

/-- After the store nothing changes about whether the lines will be written (`C`). -/
structure Stopped (C : Prop) (s : AsyncLogging size) : Prop where
  inv : StopInv s
  running : s.isRunning = false
  called : s.stopCalled ≠ none
  caught : s.Caught ↔ C

theorem Stopped.frame {C : Prop} (h : Stopped C s) {i : LogStep} (hi : s.Admissible i) :
    (s.step i).isRunning = false ∧ (s.step i).stopCalled ≠ none := by
  by_cases hthread : ofThread i = true
  · obtain ⟨hrunning, -, hcalled, -⟩ := thread_frame (s := s) hthread
    exact ⟨hrunning.trans h.running, by rw [hcalled]; exact h.called⟩
  cases i with
  | append logline =>
    obtain ⟨hrunning, -, hcalled, -⟩ := append_frame (s := s) logline
    exact ⟨hrunning.trans h.running, fun hnone => h.called (hcalled.symm.trans hnone)⟩
  | start => exact absurd (h.inv.log.started (.inl hi)) h.called
  | stopCall => exact absurd hi.1 h.called
  | stop => exact ⟨rfl, h.called⟩
  | join => exact ⟨h.running, h.called⟩
  | threadFunc | test | lock | wake | dropStacked | write | refill => exact absurd rfl hthread

theorem Stopped.step {C : Prop} (h : Stopped C s) {i : LogStep} (hi : s.Admissible i) :
    Stopped C (s.step i) := by
  have hinv := h.inv.step hi
  obtain ⟨hrunning, hcalled⟩ := h.frame hi
  refine ⟨hinv, hrunning, hcalled, ?_⟩
  rw [← h.caught, hinv.log.caught_iff, h.inv.log.caught_iff, h.inv.early_step h.called hi]
  rcases h.inv.log.stopped_step h.running h.called hi with ⟨htaken, hswap⟩ | ⟨hbefore, htaken⟩
  · rw [htaken, hswap]
  · -- The critical section: all lines are collected.
    refine iff_of_true (.inr ?_) (.inl hbefore)
    rw [htaken]
    exact ⟨s.late, s.early_append_late⟩

/-- Without a drop all that has been collected is written in the end. -/
theorem LogInv.output_eq_taken (h : LogInv s) (hplace : s.place = .returned)
    (hrounds : ∀ r ∈ s.rounds, r.collected.length ≤ 25) : s.output = s.taken := by
  have houtput := h.output
  rw [unwritten_eq (by rw [hplace]; rfl), List.append_nil] at houtput
  rw [houtput, taken_eq (by rw [hplace]; rfl)]
  refine List.flatMap_congr fun r hr => ?_
  rw [written, if_neg (Nat.not_lt.mpr (hrounds r hr))]

/-- When `Stop` has returned, and no round has dropped buffers, all lines from before its call have
been handed to `LogFile::Append`, if and only if its store to `is_running_` meets the thread before
its critical section or finds none of their bytes in `buffers_` and `current_buffer_`. -/
theorem flushed_iff (pre post : List LogStep)
    (h : Legal step Admissible ({} : AsyncLogging size) (pre ++ .stop :: post))
    (hjoined : ((pre ++ .stop :: post).foldl step ({} : AsyncLogging size)).joined = true)
    (hrounds : ∀ r ∈ ((pre ++ .stop :: post).foldl step ({} : AsyncLogging size)).rounds,
      r.collected.length ≤ 25) :
    ((pre ++ .stop :: post).foldl step ({} : AsyncLogging size)).Flushed ↔
      (pre.foldl step ({} : AsyncLogging size)).Caught := by
  obtain ⟨hpre, hstop, hpost⟩ := legal_append.mp h
  have hinv := stopInv_run hpre
  rw [List.foldl_append, List.foldl_cons] at hjoined hrounds ⊢
  set s := pre.foldl step ({} : AsyncLogging size)
  have hstart : Stopped s.Caught (s.step .stop) := ⟨hinv.step hstop, rfl, hstop.1, Iff.rfl⟩
  have hend : Stopped s.Caught (post.foldl step (s.step .stop)) :=
    legal_invariant (I := Stopped s.Caught) (fun t i ht hi => ht.step hi) hstart hpost
  have hplace := hend.inv.joined hjoined
  rw [← hend.caught, hend.inv.log.caught_iff, Flushed,
    hend.inv.log.output_eq_taken hplace hrounds]
  exact (or_iff_right (by simp [BeforeSwap, hplace])).symm

/-- `Stop` while the thread waits. -/
def stopWaiting : List LogStep × List LogStep :=
  ([.start, .threadFunc, .test, .lock, .append [1], .stopCall],
    [.append [2], .wake, .dropStacked [], .write, .write, .refill, .test, .join])

instance (s : AsyncLogging size) : Decidable s.BeforeSwap :=
  inferInstanceAs (Decidable (s.place = .lock ∨ s.place = .waiting))

instance (s : AsyncLogging size) : Decidable s.Caught :=
  inferInstanceAs (Decidable (s.BeforeSwap ∨ contents s.buffers ++ s.currentBuffer.data <:+ s.late))

instance (s : AsyncLogging size) : Decidable s.Flushed :=
  inferInstanceAs (Decidable (s.early <+: s.output))

theorem stopWaiting_flushed :
    let is := stopWaiting.1 ++ .stop :: stopWaiting.2
    Legal step Admissible ({} : AsyncLogging kLargeBuffer) is ∧
      (is.foldl step ({} : AsyncLogging kLargeBuffer)).joined = true ∧
      (is.foldl step ({} : AsyncLogging kLargeBuffer)).Flushed := by
  have h : Legal step Admissible ({} : AsyncLogging kLargeBuffer)
      (stopWaiting.1 ++ .stop :: stopWaiting.2) := by decide +kernel
  have hjoined : ((stopWaiting.1 ++ .stop :: stopWaiting.2).foldl step
      ({} : AsyncLogging kLargeBuffer)).joined = true := by decide +kernel
  refine ⟨h, hjoined, (flushed_iff stopWaiting.1 stopWaiting.2 h hjoined ?_).mpr ?_⟩
  · decide +kernel
  · decide +kernel

/-- `Start`, one line and `Stop`, before the thread has come to its loop. -/
def stopAtOnce : List LogStep :=
  [.start, .threadFunc, .append [1], .stopCall, .stop, .test, .join]

theorem stopAtOnce_lost :
    Legal step Admissible ({} : AsyncLogging kLargeBuffer) stopAtOnce ∧
      let s := stopAtOnce.foldl step ({} : AsyncLogging kLargeBuffer)
      s.joined = true ∧ (∀ r ∈ s.rounds, r.collected.length ≤ 25) ∧ ¬ s.Flushed := by
  decide +kernel

end AsyncLogging

end MyTinyHttpd
