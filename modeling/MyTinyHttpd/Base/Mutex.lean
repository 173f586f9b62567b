import MyTinyHttpd.Lib.Monitor

/-!
# `base/mutex.h` and `base/condition.h`

Any number of threads call the methods of an object that guards its members by one `MutexLock`. A
method takes a `MutexLockGuard`, waits on a `Condition` in a loop, and goes on with the statements
of its body; the end of the scope unlocks. A step is one access to the mutex, to `holder_` or to the
members, or one statement of a body, so the steps of the threads may come in any order that the
mutex allows.

* `GuardedClass` is the class: for each call the condition that it waits on, the test of the loop
  and the statements after it. A statement works on the local variables and the members, and may
  notify. `ops` are the same calls as operations of a monitor (`Lib/Monitor.lean`).
* `holder` is `holder_`, by the index of the thread; `none` is 0. It is written after
  `pthread_mutex_lock` and before `pthread_mutex_unlock`, and around `pthread_cond_wait`
  (`UnassignGuard`), in steps of their own.
* `pthread_cond_wait` sleeps and unlocks in one step. A sleeper wakes up when it is notified, or
  without a reason, and then has to take the mutex again. `WaitForSeconds` is the same, since a
  timeout may come at any time.

The return values of the pthread functions (`CheckRetVal`) are left out.
-/

namespace MyTinyHttpd

open Verif

/-- A statement under the lock: the locals and the members after it, and its notification. -/
abbrev Statement (σ κ ρ : Type) : Type := ρ → σ → ρ × σ × Option (Signal κ)

/-- A class with the members `σ`, the conditions `κ`, the calls `ο` and the local variables `ρ`. -/
structure GuardedClass (σ κ ο ρ : Type) where
  /-- The condition that the loop waits on. -/
  cond : ο → Option κ
  /-- The loop ends. -/
  ready : ο → σ → Bool
  start : ο → ρ
  body : ο → List (Statement σ κ ρ)

/-- Where a thread is. -/
inductive LockPlace (ο ρ : Type) where
  | out
  /-- In `pthread_mutex_lock`. -/
  | locking (op : ο)
  /-- It has the mutex, and has to assign `holder_`. -/
  | locked (op : ο)
  /-- At the condition of the loop. -/
  | test (op : ο)
  /-- At `Condition::Wait`. -/
  | wait (op : ο)
  /-- In `pthread_cond_wait`, before it sleeps. -/
  | unassigned (op : ο)
  | asleep (op : ο)
  /-- In `pthread_cond_wait`, after it. -/
  | woken (op : ο)
  | body (op : ο) (next : Nat) (locals : ρ)
  /-- `holder_` is cleared. -/
  | unlocking (op : ο) (locals : ρ)
  deriving DecidableEq

namespace LockPlace

variable {ο ρ : Type}

/-- The thread has the mutex. -/
def owns : LockPlace ο ρ → Bool
  | .locked _ | .test _ | .wait _ | .unassigned _ | .body _ _ _ | .unlocking _ _ => true
  | .out | .locking _ | .asleep _ | .woken _ => false

/-- The thread is between `AssignHolder` and `UnassignHolder`. -/
def holds : LockPlace ο ρ → Bool
  | .test _ | .wait _ | .body _ _ _ => true
  | .out | .locking _ | .locked _ | .unassigned _ | .asleep _ | .woken _ | .unlocking _ _ => false

def wake : LockPlace ο ρ → LockPlace ο ρ
  | .asleep op => .woken op
  | place => place

end LockPlace

/-- An object, its mutex and the threads. -/
structure Locked (σ ο ρ : Type) where
  members : σ
  /-- The thread that has the mutex. -/
  mutex : Option Nat := none
  holder : Option Nat := none
  threads : List (LockPlace ο ρ)
  /-- The calls that have returned, with their threads and their locals. -/
  returned : List (Nat × ο × ρ) := []

inductive LockStep (ο : Type) where
  | call (t : Nat) (op : ο)
  /-- The thread `t` goes on; a notification to one thread wakes `u` up. -/
  | next (t : Nat) (u : Option Nat)
  /-- A sleeper wakes up without a notification. -/
  | rouse (t : Nat)
  deriving DecidableEq

/-- The thread `t` goes on `m` times. -/
def LockStep.goes {ο : Type} (t m : Nat) : List (LockStep ο) := List.replicate m (.next t none)

namespace GuardedClass

variable {σ κ ο ρ : Type} (cls : GuardedClass σ κ ο ρ)

/-- Statements one after the other, and their notifications. -/
def exec : List (Statement σ κ ρ) → ρ → σ → ρ × σ × List (Signal κ)
  | [], locals, members => (locals, members, [])
  | statement :: rest, locals, members =>
    let r := statement locals members
    let r' := exec rest r.1 r.2.1
    (r'.1, r'.2.1, r.2.2.toList ++ r'.2.2)

/-- A whole body. -/
def execBody (op : ο) (members : σ) : ρ × σ × List (Signal κ) :=
  exec (cls.body op) (cls.start op) members

/-- The calls, each in one step. -/
def ops : MonitorOps σ κ ο ρ where
  cond := cls.cond
  ready := cls.ready
  act op members := ((cls.execBody op members).2.1, (cls.execBody op members).1)
  signals op members := (cls.execBody op members).2.2

theorem ops_act (op : ο) (members : σ) :
    cls.ops.act op members = ((cls.execBody op members).2.1, (cls.execBody op members).1) := rfl

theorem ops_signals (op : ο) (members : σ) :
    cls.ops.signals op members = (cls.execBody op members).2.2 := rfl

variable [DecidableEq κ]

def asleepOn (c : κ) : LockPlace ο ρ → Bool
  | .asleep op => cls.cond op = some c
  | _ => false

/-- The threads after a notification. -/
def notify (threads : List (LockPlace ο ρ)) (u : Option Nat) :
    Option (Signal κ) → List (LockPlace ο ρ)
  | none => threads
  | some (.one _) =>
    match u.bind fun u => threads[u]?.map (u, ·) with
    | some (u, place) => threads.set u place.wake
    | none => threads
  | some (.all c) => threads.map fun place => if cls.asleepOn c place then place.wake else place

end GuardedClass

namespace Locked

variable {σ κ ο ρ : Type} [DecidableEq κ] (cls : GuardedClass σ κ ο ρ)

def setPlace (s : Locked σ ο ρ) (t : Nat) (place : LockPlace ο ρ) : Locked σ ο ρ :=
  { s with threads := s.threads.set t place }

/-- One statement, or `UnassignHolder` at the end of the scope. -/
def nextInBody (s : Locked σ ο ρ) (t : Nat) (u : Option Nat) (op : ο) (next : Nat) (locals : ρ) :
    Locked σ ο ρ :=
  match (cls.body op)[next]? with
  | some statement =>
    let r := statement locals s.members
    { s with
      members := r.2.1
      threads := cls.notify (s.threads.set t (.body op (next + 1) r.1)) u r.2.2 }
  | none => { s with holder := none }.setPlace t (.unlocking op locals)

/-- What a thread does next. -/
def next (s : Locked σ ο ρ) (t : Nat) (u : Option Nat) : Locked σ ο ρ :=
  match s.threads[t]? with
  | some (.locking op) | some (.woken op) => { s with mutex := some t }.setPlace t (.locked op)
  | some (.locked op) => { s with holder := some t }.setPlace t (.test op)
  | some (.test op) =>
    s.setPlace t (if cls.ready op s.members then .body op 0 (cls.start op) else .wait op)
  | some (.wait op) => { s with holder := none }.setPlace t (.unassigned op)
  | some (.unassigned op) => { s with mutex := none }.setPlace t (.asleep op)
  | some (.body op next locals) => s.nextInBody cls t u op next locals
  | some (.unlocking op locals) =>
    { s with mutex := none, returned := s.returned ++ [(t, op, locals)] }.setPlace t .out
  | some .out | some (.asleep _) | none => s

def step (s : Locked σ ο ρ) : LockStep ο → Locked σ ο ρ
  | .call t op => s.setPlace t (.locking op)
  | .next t u => s.next cls t u
  | .rouse t =>
    match s.threads[t]? with
    | some place => s.setPlace t place.wake
    | none => s

/-- Who gets a notification: one of those that sleep on the condition, if there is one. -/
def Receives (threads : List (LockPlace ο ρ)) (u : Option Nat) : Option (Signal κ) → Prop
  | some (.one c) =>
    match u with
    | some u => ∃ place, threads[u]? = some place ∧ cls.asleepOn c place = true
    | none => ∀ place ∈ threads, cls.asleepOn c place = false
  | some (.all _) | none => u = none

/-- The thread can go on: the mutex is free when it wants it, and `u` is who gets its
notification. -/
def CanGo (s : Locked σ ο ρ) (u : Option Nat) : LockPlace ο ρ → Prop
  | .locking _ | .woken _ => s.mutex = none
  | .body op next locals =>
    match (cls.body op)[next]? with
    | some statement => Receives cls s.threads u (statement locals s.members).2.2
    | none => True
  | .locked _ | .test _ | .wait _ | .unassigned _ | .unlocking _ _ => True
  | .out | .asleep _ => False

/-- The steps that the threads can take. -/
def Admissible (s : Locked σ ο ρ) : LockStep ο → Prop
  | .call t _ => s.threads[t]? = some .out
  | .next t u => ∃ place, s.threads[t]? = some place ∧ s.CanGo cls u place
  | .rouse t => ∃ op, s.threads[t]? = some (.asleep op)

/-- `holder_ == CurrentThread::tid()`, in the thread `t`. -/
def isLockedByThisThread (s : Locked σ ο ρ) (t : Nat) : Bool := s.holder == some t

/-- An object that no thread has used. -/
def fresh (members : σ) (n : Nat) : Locked σ ο ρ where
  members := members
  threads := List.replicate n .out

/-! ## Decidability -/

instance (threads : List (LockPlace ο ρ)) (u : Option Nat) (signal : Option (Signal κ)) :
    Decidable (Receives cls threads u signal) :=
  match signal with
  | some (.one c) =>
    match u with
    | some u =>
      decidable_of_iff (∃ place ∈ threads[u]?, cls.asleepOn c place = true) (by
        simp [Receives, Option.mem_def])
    | none => inferInstanceAs (Decidable (∀ place ∈ threads, cls.asleepOn c place = false))
  | some (.all _) => inferInstanceAs (Decidable (u = none))
  | none => inferInstanceAs (Decidable (u = none))

instance (s : Locked σ ο ρ) (u : Option Nat) (place : LockPlace ο ρ) :
    Decidable (s.CanGo cls u place) :=
  match place with
  | .locking _ | .woken _ => inferInstanceAs (Decidable (s.mutex = none))
  | .body op next locals =>
    match h : (cls.body op)[next]? with
    | some statement =>
      decidable_of_iff (Receives cls s.threads u (statement locals s.members).2.2) (by
        simp only [CanGo, h])
    | none => isTrue (by simp only [CanGo, h])
  | .locked _ | .test _ | .wait _ | .unassigned _ | .unlocking _ _ => isTrue trivial
  | .out | .asleep _ => isFalse id

instance [DecidableEq ο] [DecidableEq ρ] (s : Locked σ ο ρ) (i : LockStep ο) :
    Decidable (s.Admissible cls i) :=
  match i with
  | .call t _ => inferInstanceAs (Decidable (s.threads[t]? = some .out))
  | .next t u =>
    decidable_of_iff (∃ place ∈ s.threads[t]?, s.CanGo cls u place) (by
      simp [Admissible, Option.mem_def])
  | .rouse t =>
    match h : s.threads[t]? with
    | some (.asleep op) => isTrue ⟨op, h⟩
    | some .out | some (.locking _) | some (.locked _) | some (.test _) | some (.wait _)
    | some (.unassigned _) | some (.woken _) | some (.body _ _ _) | some (.unlocking _ _)
    | none => isFalse (by simp [Admissible, h])

end Locked

end MyTinyHttpd
