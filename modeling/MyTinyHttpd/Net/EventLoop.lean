import MyTinyHttpd.Lib.Machine

/-!
# `net/event_loop.cc`: the queue of functors, the wakeups and the quit flag

An `EventLoop` with any number of threads that call `QueueInLoop`, `RunInLoop` and `Quit` while its
own thread goes round in `Loop()`. A step is what one thread does without the others seeing its
middle: a critical section of `mutex_`, an access to `is_quit_`, a read or a write of the eventfd.

* `QueueInLoop` and `Quit` are two steps each: the push (the store), and the rest with `Wakeup()`.
  `calls` has the threads that are between the two.
* `place` is where the loop's own thread is. Handlers, functors and the code around `Loop()` are the
  user's: what they do to the loop are steps of that thread at these places.
* `eventfd` is the counter of `wakeup_fd_`. The wakeup channel reads all the time, so the poller
  reports it exactly when the counter is positive, and then `Poll` does not wait.

The channels apart from the wakeup channel, `iteration_` and `poll_return_time_` are left out.
-/

namespace MyTinyHttpd

/-- Where the thread of the loop is. -/
inductive LoopPlace where
  /-- Not in `Loop()`. -/
  | outside
  /-- In `Loop()`, before `is_quit_ = false`. -/
  | entered
  /-- At the condition of the `while`. -/
  | test
  /-- In `poller_->Poll`. -/
  | polling
  /-- In the loop over the active channels. The flag: the wakeup channel is one of those to come. -/
  | handling (wakeupActive : Bool)
  /-- In `DoPendingFunctors`, before the critical section. -/
  | swapping
  /-- In the loop over the functors. -/
  | calling
  deriving DecidableEq

/-- The thread may be in the code of the user. -/
def LoopPlace.inUserCode : LoopPlace → Bool
  | .outside | .handling _ | .calling => true
  | _ => false

/-- The functions of the loop that end with a `Wakeup()`. -/
inductive LoopCall where
  | queueInLoop
  | quit
  deriving DecidableEq

/-- A loop with threads `τ` and functors `φ`. -/
structure EventLoop (τ φ : Type) where
  threadId : τ
  isLooping : Bool := false
  isQuit : Bool := false
  isEventHandling : Bool := false
  isCallingPendingFunctors : Bool := false
  pendingFunctors : List φ := []
  eventfd : Nat := 0
  place : LoopPlace := .outside
  /-- The vector of `DoPendingFunctors`, without the functors that have been called. -/
  functors : List φ := []
  calls : List (τ × LoopCall) := []
  /-- The functors that have been called. -/
  ran : List φ := []

/-- The steps of the threads. -/
inductive LoopStep (τ φ : Type) where
  | queueInLoop (t : τ) (f : φ)
  | runInLoop (t : τ) (f : φ)
  /-- `QueueInLoop` from the unlock on. -/
  | queueInLoopRest (t : τ)
  | quit (t : τ)
  /-- `Quit` after the store. -/
  | quitRest (t : τ)
  /-- `Loop()` is called. -/
  | loop
  /-- `is_quit_ = false`. -/
  | resetQuit
  /-- `while (!is_quit_)`. -/
  | testQuit
  /-- `Poll` returns; whether the wakeup channel is active. -/
  | poll (wakeupActive : Bool)
  /-- The wakeup channel is handled. -/
  | handleRead
  /-- The last active channel has been handled, and `DoPendingFunctors` begins. -/
  | handled
  /-- `functors.swap(pending_functors_)`. -/
  | swap
  /-- The next functor is called. -/
  | call
  /-- `DoPendingFunctors` returns. -/
  | done
  deriving DecidableEq

namespace EventLoop

variable {τ φ : Type} [DecidableEq τ]

/-- The loop after its construction in the thread `threadId`. -/
def make (threadId : τ) : EventLoop τ φ := { threadId }

/-! ## Functions of any thread -/

/-- `Wakeup()`: a write to an eventfd that is full fails and leaves it alone. -/
def wakeup (s : EventLoop τ φ) : EventLoop τ φ :=
  { s with eventfd := if s.eventfd < 0xfffffffffffffffe then s.eventfd + 1 else s.eventfd }

def isInLoopThread (s : EventLoop τ φ) (t : τ) : Bool := t = s.threadId

/-- `QueueInLoop(f)` up to the unlock. -/
def queueInLoop (s : EventLoop τ φ) (t : τ) (f : φ) : EventLoop τ φ :=
  { s with
    pendingFunctors := s.pendingFunctors ++ [f]
    calls := (t, .queueInLoop) :: s.calls }

def queueInLoopRest (s : EventLoop τ φ) (t : τ) : EventLoop τ φ :=
  let s := { s with calls := s.calls.erase (t, .queueInLoop) }
  if !s.isInLoopThread t || s.isCallingPendingFunctors then s.wakeup else s

/-- `RunInLoop(f)`. In the thread of the loop `f` is called right here, not by the loop. -/
def runInLoop (s : EventLoop τ φ) (t : τ) (f : φ) : EventLoop τ φ :=
  if s.isInLoopThread t then s else s.queueInLoop t f

/-- `Quit()` up to the store. -/
def quit (s : EventLoop τ φ) (t : τ) : EventLoop τ φ :=
  { s with isQuit := true, calls := (t, .quit) :: s.calls }

def quitRest (s : EventLoop τ φ) (t : τ) : EventLoop τ φ :=
  let s := { s with calls := s.calls.erase (t, .quit) }
  if !s.isInLoopThread t then s.wakeup else s

/-! ## `Loop()` -/

/-- The condition of the `while`, and what follows it: `Poll` or the end of `Loop()`. -/
def testQuit (s : EventLoop τ φ) : EventLoop τ φ :=
  if !s.isQuit then { s with place := .polling }
  else { s with place := .outside, isLooping := false }

/-- `HandleRead()`: reading an eventfd sets it to zero. -/
def handleRead (s : EventLoop τ φ) : EventLoop τ φ :=
  { s with eventfd := 0, place := .handling false }

/-- The critical section of `DoPendingFunctors`. -/
def swap (s : EventLoop τ φ) : EventLoop τ φ :=
  { s with functors := s.pendingFunctors, pendingFunctors := [], place := .calling }

/-- One round of the loop of `DoPendingFunctors`. -/
def call (s : EventLoop τ φ) : EventLoop τ φ :=
  match s.functors with
  | [] => s
  | f :: functors => { s with functors, ran := s.ran ++ [f] }

def step (s : EventLoop τ φ) : LoopStep τ φ → EventLoop τ φ
  | .queueInLoop t f => s.queueInLoop t f
  | .runInLoop t f => s.runInLoop t f
  | .queueInLoopRest t => s.queueInLoopRest t
  | .quit t => s.quit t
  | .quitRest t => s.quitRest t
  | .loop => { s with place := .entered, isLooping := true }
  | .resetQuit => { s with place := .test, isQuit := false }
  | .testQuit => s.testQuit
  | .poll wakeupActive => { s with place := .handling wakeupActive, isEventHandling := true }
  | .handleRead => s.handleRead
  | .handled =>
    { s with place := .swapping, isEventHandling := false, isCallingPendingFunctors := true }
  | .swap => s.swap
  | .call => s.call
  | .done => { s with place := .test, isCallingPendingFunctors := false }

/-! ## Interleavings -/

/-- The thread is in none of the functions above. -/
def Free (s : EventLoop τ φ) (t : τ) : Prop := t ∉ s.calls.map Prod.fst

/-- The thread of the loop is at a place, and goes on with the code there. -/
def At (s : EventLoop τ φ) (place : LoopPlace) : Prop := s.place = place ∧ s.Free s.threadId

/-- A thread calls one function at a time; the loop's own thread calls them in the user's code. The
steps of `Loop()` come in the order of its code. -/
def Admissible (s : EventLoop τ φ) : LoopStep τ φ → Prop
  | .queueInLoop t _ | .runInLoop t _ | .quit t =>
    s.Free t ∧ (t = s.threadId → s.place.inUserCode = true)
  | .queueInLoopRest t => (t, .queueInLoop) ∈ s.calls
  | .quitRest t => (t, .quit) ∈ s.calls
  | .loop => s.At .outside
  | .resetQuit => s.At .entered
  | .testQuit => s.At .test
  | .poll wakeupActive => s.At .polling ∧ (wakeupActive = true → 0 < s.eventfd)
  | .handleRead => s.At (.handling true)
  | .handled => s.At (.handling false)
  | .swap => s.At .swapping
  | .call => s.At .calling ∧ s.functors ≠ []
  | .done => s.At .calling ∧ s.functors = []

instance (s : EventLoop τ φ) (t : τ) : Decidable (s.Free t) :=
  inferInstanceAs (Decidable (t ∉ s.calls.map Prod.fst))

instance (s : EventLoop τ φ) (place : LoopPlace) : Decidable (s.At place) :=
  inferInstanceAs (Decidable (s.place = place ∧ s.Free s.threadId))

instance (s : EventLoop τ φ) (i : LoopStep τ φ) : Decidable (s.Admissible i) :=
  match i with
  | .queueInLoop t _ | .runInLoop t _ | .quit t =>
    inferInstanceAs (Decidable (s.Free t ∧ (t = s.threadId → s.place.inUserCode = true)))
  | .queueInLoopRest t => inferInstanceAs (Decidable ((t, .queueInLoop) ∈ s.calls))
  | .quitRest t => inferInstanceAs (Decidable ((t, .quit) ∈ s.calls))
  | .loop => inferInstanceAs (Decidable (s.At .outside))
  | .resetQuit => inferInstanceAs (Decidable (s.At .entered))
  | .testQuit => inferInstanceAs (Decidable (s.At .test))
  | .poll wakeupActive =>
    inferInstanceAs (Decidable (s.At .polling ∧ (wakeupActive = true → 0 < s.eventfd)))
  | .handleRead => inferInstanceAs (Decidable (s.At (.handling true)))
  | .handled => inferInstanceAs (Decidable (s.At (.handling false)))
  | .swap => inferInstanceAs (Decidable (s.At .swapping))
  | .call => inferInstanceAs (Decidable (s.At .calling ∧ s.functors ≠ []))
  | .done => inferInstanceAs (Decidable (s.At .calling ∧ s.functors = []))

end EventLoop

end MyTinyHttpd
