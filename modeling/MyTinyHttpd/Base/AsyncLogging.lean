import MyTinyHttpd.Base.LogStream

/-!
# `base/async_logging.cc`

The logger: any number of threads call `Append`, one thread runs `ThreadFunc`, and `Stop` ends it. A
step is what a thread does without the others seeing its middle: the critical section of `Append`,
that of `ThreadFunc`, an access to `is_running_`, one `output.Append`.

* `place` is where the thread of the logger is. In `WaitForSeconds` it has let go of `mutex_`, and
  it may come back at any time: on a notification, on the timeout or without a reason. So
  `cond_.Notify()` is no step.
* `size` is the size of a buffer, `kLargeBuffer` in the program.
* `output` is all data that has been handed to `LogFile::Append`. A failed assertion sets `failed`.
* `lines`, `rounds` and `stopCalled` are for the specification: the lines in the order in which
  their `Append` took the lock, what the rounds have collected, and how many lines there were when
  `Stop` was called.

Flushing and rolling the file, and the copy of the drop notice on `stderr`, are left out.
-/

namespace MyTinyHttpd

/-! ## The state -/

/-- Where the thread of the logger is. -/
inductive LogPlace where
  | notStarted
  /-- Before `latch_.CountDown()`. -/
  | created
  /-- At the condition of the `while`. -/
  | test
  /-- Before the critical section. -/
  | lock
  /-- In `cond_.WaitForSeconds`. -/
  | waiting
  /-- After the critical section. -/
  | collected
  /-- In the loop over `buffers_to_write`. -/
  | writing (next : Nat)
  /-- After that loop. -/
  | refill
  | returned
  deriving DecidableEq

def LogPlace.isWriting : LogPlace → Bool
  | .writing _ => true
  | _ => false

/-- What a round has collected; `now` is the time of its drop notice, as text. -/
structure LogRound (size : Nat) where
  collected : List (FixedBuffer size)
  now : List UInt8

structure AsyncLogging (size : Nat) where
  isRunning : Bool := false
  currentBuffer : FixedBuffer size := {}
  nextBuffer : Option (FixedBuffer size) := some {}
  buffers : List (FixedBuffer size) := []
  place : LogPlace := .notStarted
  newBuffer1 : Option (FixedBuffer size) := none
  newBuffer2 : Option (FixedBuffer size) := none
  buffersToWrite : List (FixedBuffer size) := []
  output : List UInt8 := []
  failed : Bool := false
  /-- `Stop()` has returned. -/
  joined : Bool := false
  lines : List (List UInt8) := []
  rounds : List (LogRound size) := []
  stopCalled : Option Nat := none

/-- The steps of the threads. -/
inductive LogStep where
  | append (logline : List UInt8)
  /-- `Start()`. -/
  | start
  /-- `ThreadFunc` up to its loop. -/
  | threadFunc
  /-- `while (is_running_)`, and the assertions at the head of the loop. -/
  | test
  /-- The critical section, up to a wait. -/
  | lock
  /-- The critical section after the wait. -/
  | wake
  /-- The handling of too many buffers, at the time `now`. -/
  | dropStacked (now : List UInt8)
  /-- One turn of the loop that writes, or its end. -/
  | write
  /-- The rest of the round. -/
  | refill
  /-- `Stop()` is called. -/
  | stopCall
  /-- `is_running_ = false`. -/
  | stop
  /-- `thread_.Join()` returns. -/
  | join
  deriving DecidableEq

namespace AsyncLogging

variable {size : Nat}

/-! ## `Append` -/

def append (s : AsyncLogging size) (logline : List UInt8) : AsyncLogging size :=
  if logline.length < s.currentBuffer.avail then
    { s with
      currentBuffer := s.currentBuffer.append logline
      lines := s.lines ++ [logline] }
  else
    { s with
      buffers := s.buffers ++ [s.currentBuffer]
      nextBuffer := none
      -- A new buffer, when there is no next one.
      currentBuffer := (s.nextBuffer.getD {}).append logline
      lines := s.lines ++ [logline] }

/-! ## `ThreadFunc` -/

def threadFunc (s : AsyncLogging size) : AsyncLogging size :=
  if s.isRunning then
    { s with newBuffer1 := some {}, newBuffer2 := some {}, buffersToWrite := [], place := .test }
  else { s with failed := true }

def testRunning (s : AsyncLogging size) : AsyncLogging size :=
  if s.isRunning then
    if s.newBuffer1 = some {} ∧ s.newBuffer2 = some {} ∧ s.buffersToWrite = [] then
      { s with place := .lock }
    else { s with failed := true }
  else { s with place := .returned }

/-- The buffers change hands. -/
def swapBuffers (s : AsyncLogging size) : AsyncLogging size :=
  match s.newBuffer1 with
  -- `current_buffer_` would be null.
  | none => { s with failed := true }
  | some newBuffer1 =>
    { s with
      currentBuffer := newBuffer1
      newBuffer1 := none
      buffersToWrite := s.buffers ++ [s.currentBuffer]
      buffers := s.buffersToWrite
      nextBuffer := if s.nextBuffer.isNone then s.newBuffer2 else s.nextBuffer
      newBuffer2 := if s.nextBuffer.isNone then none else s.newBuffer2
      place := .collected }

def lockBuffers (s : AsyncLogging size) : AsyncLogging size :=
  if s.buffers = [] then { s with place := .waiting } else s.swapBuffers

/-- The text about `dropped` buffers. -/
def dropNotice (now : List UInt8) (dropped : Nat) : List UInt8 :=
  snprintf 256 (ascii "Dropped log messages at " ++ now ++ ascii ", " ++ decimal dropped ++
    ascii " larger buffers\n")

def dropStacked (s : AsyncLogging size) (now : List UInt8) : AsyncLogging size :=
  if s.buffersToWrite = [] then { s with failed := true }
  else
    let rounds := s.rounds ++ [{ collected := s.buffersToWrite, now }]
    if 25 < s.buffersToWrite.length then
      { s with
        output := s.output ++ dropNotice now (s.buffersToWrite.length - 2)
        buffersToWrite := s.buffersToWrite.take 2
        rounds
        place := .writing 0 }
    else { s with rounds, place := .writing 0 }

def write (s : AsyncLogging size) (next : Nat) : AsyncLogging size :=
  match s.buffersToWrite[next]? with
  | some buffer => { s with output := s.output ++ buffer.data, place := .writing (next + 1) }
  | none => { s with place := .refill }

/-- A buffer for an empty slot, and what is left of `buffers_to_write`; `none` is the failed
assertion. -/
def refillSlot (slot : Option (FixedBuffer size)) (buffersToWrite : List (FixedBuffer size)) :
    Option (FixedBuffer size × List (FixedBuffer size)) :=
  match slot with
  | some buffer => some (buffer, buffersToWrite)
  | none => buffersToWrite.getLast?.map fun back => (back.reset, buffersToWrite.dropLast)

def refill (s : AsyncLogging size) : AsyncLogging size :=
  let refilled := do
    -- `resize(2)`, when there are more.
    let (newBuffer1, rest) ← refillSlot s.newBuffer1 (s.buffersToWrite.take 2)
    let (newBuffer2, _) ← refillSlot s.newBuffer2 rest
    return (newBuffer1, newBuffer2)
  match refilled with
  | none => { s with failed := true }
  | some (newBuffer1, newBuffer2) =>
    { s with
      newBuffer1 := some newBuffer1
      newBuffer2 := some newBuffer2
      buffersToWrite := []
      place := .test }

/-! ## Steps -/

def step (s : AsyncLogging size) : LogStep → AsyncLogging size
  | .append logline => s.append logline
  | .start => { s with isRunning := true, place := .created }
  | .threadFunc => s.threadFunc
  | .test => s.testRunning
  | .lock => s.lockBuffers
  | .wake => s.swapBuffers
  | .dropStacked now => s.dropStacked now
  | .write =>
    match s.place with
    | .writing next => s.write next
    | _ => s
  | .refill => s.refill
  | .stopCall => { s with stopCalled := some s.lines.length }
  | .stop => { s with isRunning := false }
  | .join => { s with joined := true }

/-- The steps that the threads can take. `Stop` is called once, after `Start` has returned, and the
lines are shorter than a buffer. -/
def Admissible (s : AsyncLogging size) : LogStep → Prop
  | .append logline => logline.length < size
  | .start => s.place = .notStarted
  | .threadFunc => s.place = .created
  | .test => s.place = .test
  | .lock => s.place = .lock
  | .wake => s.place = .waiting
  | .dropStacked _ => s.place = .collected
  | .write => s.place.isWriting = true
  | .refill => s.place = .refill
  | .stopCall => s.stopCalled = none ∧ s.place ≠ .notStarted ∧ s.place ≠ .created
  | .stop => s.stopCalled ≠ none ∧ s.isRunning = true
  | .join => s.stopCalled ≠ none ∧ s.place = .returned ∧ s.joined = false

instance (s : AsyncLogging size) (i : LogStep) : Decidable (s.Admissible i) :=
  match i with
  | .append logline => inferInstanceAs (Decidable (logline.length < size))
  | .start => inferInstanceAs (Decidable (s.place = .notStarted))
  | .threadFunc => inferInstanceAs (Decidable (s.place = .created))
  | .test => inferInstanceAs (Decidable (s.place = .test))
  | .lock => inferInstanceAs (Decidable (s.place = .lock))
  | .wake => inferInstanceAs (Decidable (s.place = .waiting))
  | .dropStacked _ => inferInstanceAs (Decidable (s.place = .collected))
  | .write => inferInstanceAs (Decidable (s.place.isWriting = true))
  | .refill => inferInstanceAs (Decidable (s.place = .refill))
  | .stopCall => inferInstanceAs (Decidable (s.stopCalled = none ∧ s.place ≠ .notStarted ∧
      s.place ≠ .created))
  | .stop => inferInstanceAs (Decidable (s.stopCalled ≠ none ∧ s.isRunning = true))
  | .join => inferInstanceAs (Decidable (s.stopCalled ≠ none ∧ s.place = .returned ∧
      s.joined = false))

end AsyncLogging

end MyTinyHttpd
