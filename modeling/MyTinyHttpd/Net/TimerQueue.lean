import Mathlib.Data.Prod.Lex
import MyTinyHttpd.Lib.Machine
import MyTinyHttpd.Lib.OrdSet
import MyTinyHttpd.Utils.Timestamp

/-!
# `net/timer_queue.cc` and `net/timer.cc`

The queue with its two indexes, the heap of the `Timer` objects by address, and the timerfd. An
assertion that fails and a pointer to a deleted timer set `failed`.

`HandleRead` is not one step: its callbacks add and cancel timers. It is cut into `handleRead`, up
to the first callback, `runNext` for each callback, and `finish`, which is `Reset`. `batch` holds
the local variables of `HandleRead` between them. What a callback does are steps of their own.

The timerfd and the wall clock advance together: an expiry of the timerfd is a `Timestamp`. A step
that reads the clock has the time as an argument. `log` and `Batch.cancelled` only serve the
statements.
-/

namespace MyTinyHttpd

open Verif

/-- The address of a `Timer`. -/
abbrev Address := Nat

def uintptrMax : Address := 0xffffffffffffffff

/-- The interval is `Timestamp(interval_)`, the interval in microseconds. It is not negative when
`interval_ > 0.0`. -/
structure Timer where
  expiration : Timestamp
  interval : Timestamp
  isRepeat : Bool
  sequence : Int
  interval_nonneg : isRepeat = true → 0 ≤ interval

/-- A timer of `RunAt` and `RunAfter`. -/
def Timer.once (when : Timestamp) (sequence : Int) : Timer where
  expiration := when
  interval := 0
  isRepeat := false
  sequence := sequence
  interval_nonneg _ := le_refl 0

/-- A timer of `RunEvery`. -/
def Timer.every (when : Timestamp) (interval : Nat) (sequence : Int) : Timer where
  expiration := when
  interval := interval
  isRepeat := true
  sequence := sequence
  interval_nonneg _ := Int.natCast_nonneg interval

def Timer.restart (t : Timer) (now : Timestamp) : Timer :=
  { t with expiration := if t.isRepeat then now + t.interval else Timestamp.invalid }

abbrev Entry := Timestamp ×ₗ Address

/-- An `ActiveTimer`, and a `TimerId`: address and sequence number. -/
abbrev ActiveTimer := Address ×ₗ Int

inductive TimerEvent where
  | added (id : ActiveTimer)
  | ran (id : ActiveTimer)
  /-- `CancelInLoop(id)` has returned. -/
  | cancelled (id : ActiveTimer)
  | deleted (id : ActiveTimer)
  deriving DecidableEq

/-- The event is not a timer at `a` with the sequence number `s` or a larger one. -/
def TimerEvent.OlderAt (a : Address) (s : Int) : TimerEvent → Prop
  | .added id => (ofLex id).1 = a → (ofLex id).2 < s
  | _ => True

instance (a : Address) (s : Int) (e : TimerEvent) : Decidable (TimerEvent.OlderAt a s e) :=
  match e with
  | .added id => inferInstanceAs (Decidable ((ofLex id).1 = a → (ofLex id).2 < s))
  | .ran _ | .cancelled _ | .deleted _ => isTrue trivial

/-- `HandleRead` while it runs: the callbacks of `ran` have been called, those of `todo` not. -/
structure Batch where
  now : Timestamp
  ran : List Entry := []
  todo : List Entry
  /-- The calls of `CancelInLoop` since the batch was taken. -/
  cancelled : List ActiveTimer := []

structure TimerQueue where
  heap : Address → Option Timer := fun _ => none
  timers : OrdSet Entry := .empty
  activeTimers : OrdSet ActiveTimer := .empty
  isCallingExpiredTimers : Bool := false
  cancelingTimers : OrdSet ActiveTimer := .empty
  /-- When the timerfd expires, if it is armed. -/
  timerfd : Option Timestamp := none
  /-- The time of the last `timerfd_settime`. -/
  lastArmed : Timestamp := 0
  batch : Option Batch := none
  failed : Bool := false
  log : List TimerEvent := []

namespace TimerQueue

/-- `assert(p)`. -/
def check (q : TimerQueue) (p : Prop) [Decidable p] : TimerQueue :=
  { q with failed := q.failed || !decide p }

/-- What reads a `Timer` through its address. -/
def deref (q : TimerQueue) (a : Address) (f : Timer → TimerQueue) : TimerQueue :=
  match q.heap a with
  | none => { q with failed := true }
  | some t => f t

def note (q : TimerQueue) (e : TimerEvent) : TimerQueue := { q with log := q.log ++ [e] }

def setHeap (q : TimerQueue) (a : Address) (t : Option Timer) : TimerQueue :=
  { q with heap := Function.update q.heap a t }

/-- `delete`. -/
def delete (q : TimerQueue) (a : Address) : TimerQueue :=
  q.deref a fun t => (q.setHeap a none).note (.deleted (toLex (a, t.sequence)))

/-! ## The timerfd -/

structure Timespec where
  sec : Int
  nsec : Int

/-- `HowMuchTimeFromNow(when)`, where `now` is `Timestamp::Now()`. -/
def howMuchTimeFromNow (when now : Timestamp) : Timespec :=
  let microseconds := when - now
  let microseconds := if microseconds < 100 then 100 else microseconds
  { sec := microseconds.tdiv Timestamp.kMicroSecondsPerSecond
    nsec := microseconds.tmod Timestamp.kMicroSecondsPerSecond * 1000 }

/-- `timerfd_settime`: a time of zero disarms. -/
def settime (ts : Timespec) (now : Timestamp) : Option Timestamp :=
  if ts.sec = 0 ∧ ts.nsec = 0 then none
  else some (now + ts.sec * Timestamp.kMicroSecondsPerSecond + ts.nsec / 1000)

def resetTimerfd (q : TimerQueue) (expiration now : Timestamp) : TimerQueue :=
  { q with timerfd := settime (howMuchTimeFromNow expiration now) now, lastArmed := now }

/-- `ReadTimerfd`: the expiry is consumed. A timerfd that has not expired stays armed. -/
def readTimerfd (q : TimerQueue) (now : Timestamp) : TimerQueue :=
  match q.timerfd with
  | none => q
  | some expiry => if expiry ≤ now then { q with timerfd := none } else q

/-! ## The queue -/

/-- `Insert(timer)`, and whether the earliest time has changed. -/
def insert (q : TimerQueue) (a : Address) : TimerQueue × Bool :=
  match q.heap a with
  | none => ({ q with failed := true }, false)
  | some t =>
    let q := q.check (q.timers.size = q.activeTimers.size)
    let earliestChanged :=
      match q.timers.first with
      | none => true
      | some e => decide (t.expiration < (ofLex e).1)
    let entry : Entry := toLex (t.expiration, a)
    let q := q.check (entry ∉ q.timers)
    let q := { q with timers := q.timers.insert entry }
    let active : ActiveTimer := toLex (a, t.sequence)
    let q := q.check (active ∉ q.activeTimers)
    let q := { q with activeTimers := q.activeTimers.insert active }
    (q.check (q.timers.size = q.activeTimers.size), earliestChanged)

def addTimerInLoop (q : TimerQueue) (a : Address) (now : Timestamp) : TimerQueue :=
  let r := q.insert a
  if r.2 then r.1.deref a fun t => r.1.resetTimerfd t.expiration now else r.1

/-- `CancelInLoop`, for a timer in the queue. -/
def cancelActive (q : TimerQueue) (id : ActiveTimer) : TimerQueue :=
  let a := (ofLex id).1
  q.deref a fun t =>
    let entry : Entry := toLex (t.expiration, a)
    let q := q.check (entry ∈ q.timers)
    let q := { q with timers := q.timers.erase entry }
    let q := q.delete a
    { q with activeTimers := q.activeTimers.erase id }

def cancelInLoop (q : TimerQueue) (id : ActiveTimer) : TimerQueue :=
  let q := q.check (q.timers.size = q.activeTimers.size)
  let q :=
    if id ∈ q.activeTimers then q.cancelActive id
    else if q.isCallingExpiredTimers then
      { q with cancelingTimers := q.cancelingTimers.insert id }
    else q
  q.check (q.timers.size = q.activeTimers.size)

/-- The loop of `GetExpired`, for one entry. -/
def eraseActive (q : TimerQueue) (e : Entry) : TimerQueue :=
  let a := (ofLex e).2
  q.deref a fun t =>
    let timer : ActiveTimer := toLex (a, t.sequence)
    let q := q.check (timer ∈ q.activeTimers)
    { q with activeTimers := q.activeTimers.erase timer }

def getExpired (q : TimerQueue) (now : Timestamp) : List Entry × TimerQueue :=
  let q := q.check (q.timers.size = q.activeTimers.size)
  let sentry : Entry := toLex (now, uintptrMax)
  let rest := q.timers.notBelow sentry
  let q := q.check (∀ e ∈ rest.first, now < (ofLex e).1)
  let expired := (q.timers.below sentry).elems
  let q := { q with timers := rest }
  let q := expired.foldl eraseActive q
  (expired, q.check (q.timers.size = q.activeTimers.size))

/-- The loop of `Reset`, for one entry. -/
def resetOne (now : Timestamp) (q : TimerQueue) (e : Entry) : TimerQueue :=
  let a := (ofLex e).2
  q.deref a fun t =>
    let timer : ActiveTimer := toLex (a, t.sequence)
    if t.isRepeat = true ∧ timer ∉ q.cancelingTimers then
      ((q.setHeap a (some (t.restart now))).insert a).1
    else q.delete a

/-- `Reset(expired, now)`, where `clock` is the time when the timerfd is armed. -/
def reset (q : TimerQueue) (expired : List Entry) (now clock : Timestamp) : TimerQueue :=
  let q := expired.foldl (resetOne now) q
  match q.timers.first with
  | none => q
  | some e =>
    q.deref (ofLex e).2 fun t =>
      if t.expiration.isValid then q.resetTimerfd t.expiration clock else q

/-! ## Steps -/

inductive TimerStep where
  /-- `new Timer` at the address, and `AddTimerInLoop`. -/
  | addTimer (a : Address) (t : Timer) (now : Timestamp)
  | cancel (id : ActiveTimer)
  /-- `HandleRead` up to its first callback. -/
  | handleRead (now : Timestamp)
  /-- The next callback of the batch. -/
  | runNext
  /-- The rest of `HandleRead`. -/
  | finish (clock : Timestamp)

def addTimer (q : TimerQueue) (a : Address) (t : Timer) (now : Timestamp) : TimerQueue :=
  ((q.setHeap a (some t)).note (.added (toLex (a, t.sequence)))).addTimerInLoop a now

/-- `CancelInLoop(id)` has returned. -/
def noteCancelled (q : TimerQueue) (id : ActiveTimer) : TimerQueue :=
  { q.note (.cancelled id) with
    batch := q.batch.map fun b => { b with cancelled := b.cancelled ++ [id] } }

def cancel (q : TimerQueue) (id : ActiveTimer) : TimerQueue :=
  (q.cancelInLoop id).noteCancelled id

def handleRead (q : TimerQueue) (now : Timestamp) : TimerQueue :=
  let r := (q.readTimerfd now).getExpired now
  { r.2 with
    isCallingExpiredTimers := true, cancelingTimers := .empty, batch := some { now, todo := r.1 } }

def runNext (q : TimerQueue) : TimerQueue :=
  match q.batch with
  | some { now, ran, todo := e :: todo, cancelled } =>
    let a := (ofLex e).2
    let q := { q with batch := some { now, ran := ran ++ [e], todo, cancelled } }
    q.deref a fun t => q.note (.ran (toLex (a, t.sequence)))
  | _ => q

def finish (q : TimerQueue) (clock : Timestamp) : TimerQueue :=
  match q.batch with
  | none => q
  | some b =>
    { { q with isCallingExpiredTimers := false }.reset b.ran b.now clock with batch := none }

def step (q : TimerQueue) : TimerStep → TimerQueue
  | .addTimer a t now => q.addTimer a t now
  | .cancel id => q.cancel id
  | .handleRead now => q.handleRead now
  | .runNext => q.runNext
  | .finish clock => q.finish clock

/-- The steps of a run. An address is free when it is allocated, and its sequence numbers grow;
`HandleRead` is not entered again before it returns, and runs all callbacks of its batch. -/
def Admissible (q : TimerQueue) : TimerStep → Prop
  | .addTimer a t _ =>
    q.heap a = none ∧ a < uintptrMax ∧ ∀ e ∈ q.log, TimerEvent.OlderAt a t.sequence e
  | .cancel _ => True
  | .handleRead _ => q.batch = none
  | .runNext => True
  | .finish _ => ∀ b ∈ q.batch, b.todo = []

instance (q : TimerQueue) (s : TimerStep) : Decidable (q.Admissible s) :=
  match s with
  | .addTimer a t _ => inferInstanceAs (Decidable (q.heap a = none ∧ a < uintptrMax ∧
      ∀ e ∈ q.log, TimerEvent.OlderAt a t.sequence e))
  | .cancel _ => isTrue trivial
  | .handleRead _ => inferInstanceAs (Decidable (q.batch = none))
  | .runNext => isTrue trivial
  | .finish _ => inferInstanceAs (Decidable (∀ b ∈ q.batch, b.todo = []))

end TimerQueue

end MyTinyHttpd
