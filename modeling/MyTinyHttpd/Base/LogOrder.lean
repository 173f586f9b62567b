import MyTinyHttpd.Base.AsyncLogging

/-!
# The log has the lines in order

Every byte of the lines is in one place: in a buffer that a round has collected, in `buffers_` or in
`current_buffer_`, in the order of the lines. A round writes what it has collected; with more than
25 buffers it writes a notice and the first two.

The buffers for the next round come from those that have been written. That there are enough of them
is `LogInv.consumed`: `Append` takes `next_buffer_` only when it pushes a buffer, so a round that
gives up both of its spare buffers has collected two.

* `lines_in_order`: the output at the end of a round, and no assertion fails.
-/

namespace MyTinyHttpd

open Verif

namespace AsyncLogging

variable {size : Nat} {s : AsyncLogging size}

/-! ## Bytes -/

/-- The bytes in some buffers. -/
def contents (buffers : List (FixedBuffer size)) : List UInt8 := buffers.flatMap (·.data)

@[simp] theorem contents_nil : contents ([] : List (FixedBuffer size)) = [] := rfl

@[simp] theorem contents_append (bs bs' : List (FixedBuffer size)) :
    contents (bs ++ bs') = contents bs ++ contents bs' := List.flatMap_append

@[simp] theorem contents_cons (b : FixedBuffer size) (bs : List (FixedBuffer size)) :
    contents (b :: bs) = b.data ++ contents bs := rfl

/-- What a round writes. -/
def written (r : LogRound size) : List UInt8 :=
  if 25 < r.collected.length then
    dropNotice r.now (r.collected.length - 2) ++ contents (r.collected.take 2)
  else contents r.collected

/-- The bytes that the rounds have collected. -/
def taken (s : AsyncLogging size) : List UInt8 :=
  s.rounds.flatMap (fun r => contents r.collected) ++
    if s.place = .collected then contents s.buffersToWrite else []

/-- What the round still has to write. -/
def unwritten (s : AsyncLogging size) : List UInt8 :=
  match s.place with
  | .writing next => contents (s.buffersToWrite.drop next)
  | _ => []

/-- No round is between its critical section and its last write. -/
def idle : LogPlace → Bool
  | .collected | .writing _ => false
  | .notStarted | .created | .test | .lock | .waiting | .refill | .returned => true

theorem taken_eq (h : idle s.place = true) :
    s.taken = s.rounds.flatMap fun r => contents r.collected := by
  rw [taken, if_neg, List.append_nil]
  intro hplace
  rw [hplace] at h
  cases h

theorem unwritten_eq (h : idle s.place = true) : s.unwritten = [] := by
  unfold unwritten
  split
  · next next hplace =>
    rw [hplace] at h
    cases h
  · rfl

/-! ## The invariant -/

/-- The thread has two empty buffers for the next round. -/
def HasSpares (s : AsyncLogging size) : Prop :=
  s.newBuffer1 = some {} ∧ s.newBuffer2 = some {} ∧ s.buffersToWrite = []

/-- There are enough buffers to write for those that the thread has given away. -/
def HasRound (s : AsyncLogging size) : Prop :=
  s.newBuffer1 = none ∧ s.buffersToWrite ≠ [] ∧
    (s.newBuffer2 = some {} ∨ s.newBuffer2 = none ∧ 2 ≤ s.buffersToWrite.length)

/-- The buffers that the thread has. -/
def Slots (s : AsyncLogging size) : Prop :=
  match s.place with
  | .notStarted | .returned => True
  | .created => s.isRunning = true
  | .test | .lock | .waiting => s.HasSpares
  | .collected | .writing _ | .refill => s.HasRound

structure LogInv (s : AsyncLogging size) : Prop where
  failed : s.failed = false
  next : ∀ b, s.nextBuffer = some b → b = {}
  consumed : s.nextBuffer = none → s.buffers ≠ []
  bytes : s.taken ++ contents s.buffers ++ s.currentBuffer.data = s.lines.flatten
  output : s.output ++ s.unwritten = s.rounds.flatMap written
  slots : s.Slots
  /-- `Stop` is called after `Start` has returned. -/
  started : s.place = .notStarted ∨ s.place = .created → s.stopCalled = none

theorem LogInv.append (h : LogInv s) {logline : List UInt8} (hline : logline.length < size) :
    LogInv (s.append logline) := by
  have hlines : (s.lines ++ [logline]).flatten = s.lines.flatten ++ logline := by simp
  unfold AsyncLogging.append
  split
  · next hfits =>
    refine ⟨h.failed, h.next, h.consumed, ?_, h.output, h.slots, h.started⟩
    rw [hlines, ← h.bytes, FixedBuffer.append_data hfits, ← List.append_assoc]
    rfl
  · -- The next buffer, or a new one: both are empty.
    have hfresh : s.nextBuffer.getD {} = {} := by
      cases hnext : s.nextBuffer with
      | none => rfl
      | some b => rw [Option.getD_some, h.next b hnext]
    refine ⟨h.failed, by simp, by simp, ?_, h.output, h.slots, h.started⟩
    rw [hlines, ← h.bytes]
    simp only [hfresh]
    rw [FixedBuffer.append_data (by simpa [FixedBuffer.avail] using hline), contents_append,
      contents_cons, contents_nil, List.append_nil, List.nil_append, ← List.append_assoc]
    rfl

/-! ## The steps of the thread -/

theorem swapBuffers_eq (h : s.newBuffer1 = some {}) : s.swapBuffers =
    { s with
      currentBuffer := {}
      newBuffer1 := none
      buffersToWrite := s.buffers ++ [s.currentBuffer]
      buffers := s.buffersToWrite
      nextBuffer := if s.nextBuffer.isNone then s.newBuffer2 else s.nextBuffer
      newBuffer2 := if s.nextBuffer.isNone then none else s.newBuffer2
      place := .collected } := by
  simp only [swapBuffers, h]

theorem LogInv.swapBuffers (h : LogInv s) (hplace : s.place = .lock ∨ s.place = .waiting) :
    LogInv s.swapBuffers := by
  obtain ⟨h1, h2, hempty⟩ : s.HasSpares := by
    have hslots := h.slots
    rcases hplace with hplace | hplace <;> simpa only [Slots, hplace] using hslots
  have hidle : idle s.place = true := by
    rcases hplace with hplace | hplace <;> rw [hplace] <;> rfl
  have hbytes := h.bytes
  have houtput := h.output
  rw [taken_eq hidle] at hbytes
  rw [unwritten_eq hidle, List.append_nil] at houtput
  rw [swapBuffers_eq h1]
  refine ⟨h.failed, fun b hb => ?_, ?_, ?_, ?_, ⟨rfl, ?_, ?_⟩, by simp⟩
  · cases hnext : s.nextBuffer with
    | none => simpa [hnext, h2, eq_comm] using hb
    | some b' => exact h.next b (by simpa [hnext] using hb)
  · cases hnext : s.nextBuffer <;> simp [h2]
  · simpa [taken, hempty] using hbytes
  · simpa [unwritten] using houtput
  · simp
  · cases hnext : s.nextBuffer with
    | none =>
      -- `next_buffer_` is gone, so `buffers_` was not empty.
      have hlength := List.length_pos_iff.mpr (h.consumed hnext)
      refine .inr ⟨rfl, ?_⟩
      simp only [List.length_append, List.length_singleton]
      omega
    | some b => exact .inl h2

theorem LogInv.dropStacked (h : LogInv s) (hplace : s.place = .collected) (now : List UInt8) :
    LogInv (s.dropStacked now) := by
  obtain ⟨h1, hne, h2⟩ : s.HasRound := by simpa only [Slots, hplace] using h.slots
  have hbytes : s.rounds.flatMap (fun r => contents r.collected) ++ contents s.buffersToWrite ++
      contents s.buffers ++ s.currentBuffer.data = s.lines.flatten := by
    simpa [taken, hplace] using h.bytes
  have houtput : s.output = s.rounds.flatMap written := by
    simpa [unwritten, hplace] using h.output
  simp only [AsyncLogging.dropStacked, hne, if_false]
  split
  · next hmany =>
    refine ⟨h.failed, h.next, h.consumed, ?_, ?_, ⟨h1, ?_, ?_⟩, by simp⟩
    · simpa [taken] using hbytes
    · simp [unwritten, written, houtput, hmany]
    · simpa using hne
    · refine h2.imp_right fun h2 => ⟨h2.1, ?_⟩
      rw [List.length_take]
      omega
  · next hfew =>
    refine ⟨h.failed, h.next, h.consumed, ?_, ?_, ⟨h1, hne, h2⟩, by simp⟩
    · simpa [taken] using hbytes
    · simp [unwritten, written, houtput, hfew]

theorem LogInv.write (h : LogInv s) {next : Nat} (hplace : s.place = .writing next) :
    LogInv (s.write next) := by
  have hslots := h.slots
  have hbytes := h.bytes
  have houtput := h.output
  simp only [Slots, hplace] at hslots
  simp only [taken, hplace, reduceCtorEq, if_false] at hbytes
  simp only [unwritten, hplace] at houtput
  unfold AsyncLogging.write
  split
  · next buffer hbuffer =>
    obtain ⟨hlt, rfl⟩ := List.getElem?_eq_some_iff.mp hbuffer
    refine ⟨h.failed, h.next, h.consumed, ?_, ?_, hslots, by simp⟩
    · simpa [taken] using hbytes
    · rw [List.drop_eq_getElem_cons hlt, contents_cons] at houtput
      simpa [unwritten] using houtput
  · next hend =>
    refine ⟨h.failed, h.next, h.consumed, ?_, ?_, hslots, by simp⟩
    · simpa [taken] using hbytes
    · rw [List.drop_eq_nil_of_le (List.getElem?_eq_none_iff.mp hend)] at houtput
      simpa [unwritten] using houtput

theorem refillSlot_none {buffersToWrite : List (FixedBuffer size)} (h : buffersToWrite ≠ []) :
    refillSlot none buffersToWrite = some ({}, buffersToWrite.dropLast) := by
  rw [refillSlot, List.getLast?_eq_getLast_of_ne_nil h]
  rfl

theorem refillSlot_some (buffer : FixedBuffer size) (buffersToWrite : List (FixedBuffer size)) :
    refillSlot (some buffer) buffersToWrite = some (buffer, buffersToWrite) := rfl

/-- After a round the thread has two empty buffers again. -/
theorem refill_eq (h : s.HasRound) :
    s.refill =
      { s with
        newBuffer1 := some {}
        newBuffer2 := some {}
        buffersToWrite := []
        place := .test } := by
  obtain ⟨h1, hne, h2⟩ := h
  have hslot : refillSlot s.newBuffer1 (s.buffersToWrite.take 2) =
      some ({}, (s.buffersToWrite.take 2).dropLast) := by
    rw [h1, refillSlot_none]
    simpa using hne
  unfold refill
  rcases h2 with h2 | ⟨h2, htwo⟩
  · simp [hslot, h2, refillSlot_some]
  · have hone : (s.buffersToWrite.take 2).dropLast ≠ [] := by
      rw [← List.length_pos_iff, List.length_dropLast, List.length_take]
      omega
    simp [hslot, h2, refillSlot_none hone]

/-- A step that only moves the thread and its buffers, between two places where nothing is left to
write. -/
theorem LogInv.move (h : LogInv s) {isRunning : Bool} {newBuffer1 newBuffer2}
    {buffersToWrite} {place : LogPlace}
    (hfrom : idle s.place = true) (hto : idle place = true)
    (hslots : { s with isRunning, newBuffer1, newBuffer2, buffersToWrite, place }.Slots)
    (hstarted : place = .notStarted ∨ place = .created → s.stopCalled = none) :
    LogInv { s with isRunning, newBuffer1, newBuffer2, buffersToWrite, place } := by
  have hbytes := h.bytes
  have houtput := h.output
  rw [taken_eq hfrom] at hbytes
  rw [unwritten_eq hfrom] at houtput
  refine ⟨h.failed, h.next, h.consumed, ?_, ?_, hslots, hstarted⟩
  · rw [taken_eq]
    · exact hbytes
    · exact hto
  · rw [unwritten_eq]
    · exact houtput
    · exact hto

theorem LogInv.refill (h : LogInv s) (hplace : s.place = .refill) : LogInv s.refill := by
  rw [refill_eq (by simpa only [Slots, hplace] using h.slots)]
  exact h.move (by rw [hplace]; rfl) rfl ⟨rfl, rfl, rfl⟩ (by simp)

theorem LogInv.testRunning (h : LogInv s) (hplace : s.place = .test) : LogInv s.testRunning := by
  have hslots : s.HasSpares := by simpa only [Slots, hplace] using h.slots
  have hfrom : idle s.place = true := by rw [hplace]; rfl
  simp only [AsyncLogging.testRunning, if_pos (show _ ∧ _ ∧ _ from hslots)]
  split
  · exact h.move hfrom rfl hslots (by simp)
  · exact h.move hfrom rfl trivial (by simp)

theorem LogInv.lockBuffers (h : LogInv s) (hplace : s.place = .lock) : LogInv s.lockBuffers := by
  unfold AsyncLogging.lockBuffers
  split
  · have hslots : s.HasSpares := by simpa only [Slots, hplace] using h.slots
    exact h.move (by rw [hplace]; rfl) rfl hslots (by simp)
  · exact h.swapBuffers (.inl hplace)

theorem LogInv.threadFunc (h : LogInv s) (hplace : s.place = .created) : LogInv s.threadFunc := by
  have hrunning : s.isRunning = true := by simpa [Slots, hplace] using h.slots
  rw [AsyncLogging.threadFunc, if_pos hrunning]
  exact h.move (by rw [hplace]; rfl) rfl ⟨rfl, rfl, rfl⟩ (by simp)

/-- The store of `Stop`. -/
theorem LogInv.stop (h : LogInv s) (hcalled : s.stopCalled ≠ none) :
    LogInv { s with isRunning := false } := by
  refine ⟨h.failed, h.next, h.consumed, h.bytes, h.output, ?_, h.started⟩
  have hslots := h.slots
  cases hplace : s.place with
  | created => exact absurd (h.started (.inr hplace)) hcalled
  | notStarted | returned => trivial
  | test | lock | waiting | collected | writing | refill =>
    simp only [Slots, hplace] at hslots ⊢
    exact hslots

/-! ## Whole runs -/

theorem LogInv.step (h : LogInv s) {i : LogStep} (hi : s.Admissible i) : LogInv (s.step i) := by
  cases i with
  | append logline => exact h.append hi
  | start =>
    have hplace : s.place = .notStarted := hi
    exact h.move (by rw [hplace]; rfl) rfl rfl fun _ => h.started (.inl hplace)
  | threadFunc => exact h.threadFunc hi
  | test => exact h.testRunning hi
  | lock => exact h.lockBuffers hi
  | wake => exact h.swapBuffers (.inr hi)
  | dropStacked now => exact h.dropStacked hi now
  | write =>
    cases hplace : s.place with
    | writing next =>
      simp only [AsyncLogging.step, hplace]
      exact h.write hplace
    | _ => simp [Admissible, LogPlace.isWriting, hplace] at hi
  | refill => exact h.refill hi
  | stopCall =>
    refine ⟨h.failed, h.next, h.consumed, h.bytes, h.output, h.slots, ?_⟩
    rintro (hplace | hplace)
    · exact absurd hplace hi.2.1
    · exact absurd hplace hi.2.2
  | stop => exact h.stop hi.1
  | join => exact ⟨h.failed, h.next, h.consumed, h.bytes, h.output, h.slots, h.started⟩

theorem logInv_start : LogInv ({} : AsyncLogging size) := by
  refine ⟨rfl, ?_, by simp, rfl, rfl, trivial, fun _ => rfl⟩
  rintro b ⟨⟩
  rfl

theorem logInv_run {is : List LogStep}
    (h : Legal step Admissible ({} : AsyncLogging size) is) :
    LogInv (is.foldl step ({} : AsyncLogging size)) :=
  legal_invariant (I := LogInv) (fun _ _ hs hi => hs.step hi) logInv_start h

/-- At the end of a round `LogFile::Append` has been given what the rounds write, and what they have
collected, followed by `buffers_` and `current_buffer_`, are the lines in the order of their
`Append`. No assertion fails. -/
theorem lines_in_order (is : List LogStep)
    (h : Legal step Admissible ({} : AsyncLogging size) is) :
    let s := is.foldl step ({} : AsyncLogging size)
    s.failed = false ∧
      (s.place = .test →
        s.output = s.rounds.flatMap written ∧
          s.rounds.flatMap (fun r => contents r.collected) ++ contents s.buffers ++
            s.currentBuffer.data = s.lines.flatten) := by
  intro s
  have hinv : LogInv s := logInv_run h
  refine ⟨hinv.failed, fun hplace => ⟨?_, ?_⟩⟩
  · rw [← hinv.output, unwritten_eq (by rw [hplace]; rfl), List.append_nil]
  · rw [← taken_eq (by rw [hplace]; rfl)]
    exact hinv.bytes

/-- Two rounds with a small buffer; both spare buffers go to the front in the second one. -/
def twoRounds : List LogStep :=
  [.append [1, 2], .start, .threadFunc, .test, .lock, .append [3], .wake, .append [4, 5],
    .dropStacked [], .write, .append [6, 7], .append [8, 9], .write, .refill, .test, .lock,
    .append [10], .dropStacked [], .write, .write, .write, .write, .refill]

theorem twoRounds_in_order :
    Legal step Admissible ({} : AsyncLogging 4) twoRounds ∧
      let s := twoRounds.foldl step ({} : AsyncLogging 4)
      s.place = .test ∧ s.failed = false ∧ s.output = s.rounds.flatMap written ∧
        s.rounds.flatMap (fun r => contents r.collected) ++ contents s.buffers ++
          s.currentBuffer.data = s.lines.flatten := by
  have h : Legal step Admissible ({} : AsyncLogging 4) twoRounds := by decide +kernel
  have hplace : (twoRounds.foldl step ({} : AsyncLogging 4)).place = .test := by decide +kernel
  obtain ⟨hfailed, hround⟩ := lines_in_order twoRounds h
  exact ⟨h, hplace, hfailed, hround hplace⟩

end AsyncLogging

end MyTinyHttpd
