import MyTinyHttpd.Lib.Machine

/-!
# `base/thread_pool.cc`

A pool with any number of threads, any `max_queue_size_` and any number of callers of `Run`. A step
is what a thread does without the others seeing its middle: the critical section of `Run`, `Pop` or
`Stop`, a test of `running_`, a task.

* `Start` creates all threads at once. None of them has tested `running_` by then.
* A thread that waits on a condition has let go of `mutex_`, and goes on with the test of its loop
  at any time, so the notifications are no steps. A critical section that waits changes nothing.
* `calls` are the tasks of the calls of `Run` that have not returned, `returned` those of the calls
  that have. `executed` are the tasks in the order in which they were run.

The initial callback of the threads and tasks that are null are left out; `ResizeThreadNum` is in
`Base/PoolResize.lean`. The assertion in `Run` repeats the condition of the loop before it.
-/

namespace MyTinyHttpd

/-- Where a thread of the pool is, in `RunInThread`. -/
inductive WorkerPlace (τ : Type) where
  /-- At the condition of the `while`. -/
  | test
  /-- In `Pop`. -/
  | popping
  /-- It has a task. -/
  | running (task : τ)
  | returned
  deriving DecidableEq

/-- The task that the thread has. -/
def WorkerPlace.task {τ : Type} : WorkerPlace τ → Option τ
  | .running task => some task
  | .test | .popping | .returned => none

/-- A pool for tasks `τ`. -/
structure ThreadPool (τ : Type) where
  maxQueueSize : Nat := 0
  running : Bool := false
  threads : List (WorkerPlace τ) := []
  queue : List τ := []
  calls : List τ := []
  returned : List τ := []
  executed : List τ := []
  /-- `Stop` has cleared `running_`. -/
  stopped : Bool := false
  /-- `Stop` has returned. -/
  joined : Bool := false

/-- The steps of the threads; `w` is the index of a thread of the pool. -/
inductive PoolStep (τ : Type) where
  | start (numThreads : Nat)
  /-- `Run`, up to the lock. -/
  | runCall (task : τ)
  /-- The critical section of `Run`. -/
  | runLock (task : τ)
  /-- `while (running_)`. -/
  | test (w : Nat)
  /-- The critical section of `Pop`. -/
  | pop (w : Nat)
  /-- `task()`. -/
  | execute (w : Nat)
  /-- The critical section of `Stop`. -/
  | stop
  /-- `Stop` has joined all threads. -/
  | join
  deriving DecidableEq

namespace ThreadPool

variable {τ : Type}

def isFull (s : ThreadPool τ) : Bool := 0 < s.maxQueueSize && s.maxQueueSize ≤ s.queue.length

def setPlace (s : ThreadPool τ) (w : Nat) (place : WorkerPlace τ) : ThreadPool τ :=
  { s with threads := s.threads.set w place }

def start (s : ThreadPool τ) (numThreads : Nat) : ThreadPool τ :=
  { s with running := true, threads := List.replicate numThreads .test }

/-- Without threads the caller runs the task. -/
def runCall (s : ThreadPool τ) (task : τ) : ThreadPool τ :=
  if s.threads.isEmpty then
    { s with executed := s.executed ++ [task], returned := s.returned ++ [task] }
  else { s with calls := s.calls ++ [task] }

def runLock [DecidableEq τ] (s : ThreadPool τ) (task : τ) : ThreadPool τ :=
  if s.running && s.isFull then s
  else
    let s := { s with calls := s.calls.erase task, returned := s.returned ++ [task] }
    if s.running then { s with queue := s.queue ++ [task] } else s

def testRunning (s : ThreadPool τ) (w : Nat) : ThreadPool τ :=
  s.setPlace w (if s.running then .popping else .returned)

/-- `Pop`: a task, or none when the pool has stopped. -/
def pop (s : ThreadPool τ) (w : Nat) : ThreadPool τ :=
  match s.queue with
  | task :: queue => { s with queue }.setPlace w (.running task)
  | [] => if s.running then s else s.setPlace w .test

def execute (s : ThreadPool τ) (w : Nat) : ThreadPool τ :=
  match s.threads[w]?.bind WorkerPlace.task with
  | some task => { s with executed := s.executed ++ [task] }.setPlace w .test
  | none => s

def step [DecidableEq τ] (s : ThreadPool τ) : PoolStep τ → ThreadPool τ
  | .start numThreads => s.start numThreads
  | .runCall task => s.runCall task
  | .runLock task => s.runLock task
  | .test w => s.testRunning w
  | .pop w => s.pop w
  | .execute w => s.execute w
  | .stop => { s with running := false, stopped := true }
  | .join => { s with joined := true }

/-- The steps that the threads can take. `Stop` comes once, after all calls of `Run` have
returned. -/
def Admissible (s : ThreadPool τ) : PoolStep τ → Prop
  | .start _ => s.threads = [] ∧ s.stopped = false
  | .runCall _ => s.stopped = false
  | .runLock task => task ∈ s.calls
  | .test w => s.threads[w]? = some .test
  | .pop w => s.threads[w]? = some .popping
  | .execute w => (s.threads[w]?.bind WorkerPlace.task).isSome = true
  | .stop => s.calls = [] ∧ s.stopped = false
  | .join => s.stopped = true ∧ (∀ place ∈ s.threads, place = .returned) ∧ s.joined = false

instance [DecidableEq τ] (s : ThreadPool τ) (i : PoolStep τ) : Decidable (s.Admissible i) :=
  match i with
  | .start _ => inferInstanceAs (Decidable (s.threads = [] ∧ s.stopped = false))
  | .runCall _ => inferInstanceAs (Decidable (s.stopped = false))
  | .runLock task => inferInstanceAs (Decidable (task ∈ s.calls))
  | .test w => inferInstanceAs (Decidable (s.threads[w]? = some .test))
  | .pop w => inferInstanceAs (Decidable (s.threads[w]? = some .popping))
  | .execute w => inferInstanceAs (Decidable ((s.threads[w]?.bind WorkerPlace.task).isSome = true))
  | .stop => inferInstanceAs (Decidable (s.calls = [] ∧ s.stopped = false))
  | .join => inferInstanceAs (Decidable (s.stopped = true ∧
      (∀ place ∈ s.threads, place = .returned) ∧ s.joined = false))

end ThreadPool

end MyTinyHttpd
