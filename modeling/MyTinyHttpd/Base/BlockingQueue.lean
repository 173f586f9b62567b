import MyTinyHttpd.Base.CriticalSection

/-!
# `base/blocking_queue.h`

A queue between any number of threads. `pop` waits while it is empty, `clear` takes all values at
once.

* `blockingQueue_fifo`: the values come out once each and in the order in which they went in,
  whether `pop` or `clear` takes them, and no assertion fails.
* `blockingQueue_stuck`: no consumer is left asleep while there is a value.

The two overloads of `push` differ in how the value is moved.
-/

namespace MyTinyHttpd

open Verif

/-! ## The class -/

/-- The members; a failed assertion sets `failed`. -/
structure SharedQueue (T : Type) where
  queue : List T := []
  failed : Bool := false

inductive QueueCall (T : Type) where
  | push (x : T)
  | pop
  | clear
  | size
  deriving DecidableEq

/-- The local variable of a call, which is its result. -/
inductive QueueReply (T : Type) where
  | none
  | value (x : T)
  | values (xs : List T)
  | flag (b : Bool)
  | number (n : Nat)
  deriving DecidableEq

/-- The values that the caller gets. -/
def QueueReply.taken {T : Type} : QueueReply T → List T
  | .value x => [x]
  | .values xs => xs
  | .none | .flag _ | .number _ => []

/-- The value that the call brings. -/
def QueueCall.given {T : Type} : QueueCall T → List T
  | .push x => [x]
  | .pop | .clear | .size => []

namespace BlockingQueue

variable {T : Type}

/-- `not_empty_` is the only condition. -/
def cond : QueueCall T → Option Unit
  | .pop => some ()
  | .push _ | .clear | .size => none

def ready : QueueCall T → SharedQueue T → Bool
  | .pop, s => !s.queue.isEmpty
  | .push _, _ | .clear, _ | .size, _ => true

def body : QueueCall T → List (Statement (SharedQueue T) Unit (QueueReply T))
  | .push x =>
    [fun r s => (r, { s with queue := s.queue ++ [x] }, none),
      -- `not_empty_.Notify()`
      fun r s => (r, s, some (.one ()))]
  | .pop =>
    [fun r s => (r, { s with failed := s.failed || s.queue.isEmpty }, none),
      fun r s => ((s.queue.head?.map .value).getD r, s, none),
      fun r s => (r, { s with queue := s.queue.drop 1 }, none)]
  | .clear =>
    [fun _ s => (.values s.queue, { s with queue := [] }, none),
      fun r s => (r, { s with failed := s.failed || !s.queue.isEmpty }, none)]
  | .size => [fun _ s => (.number s.queue.length, s, none)]

def cls : GuardedClass (SharedQueue T) Unit (QueueCall T) (QueueReply T) where
  cond := cond
  ready := ready
  start _ := .none
  body := body

/-- A new queue, before any of `n` threads has used it. -/
abbrev make (n : Nat) : Locked (SharedQueue T) (QueueCall T) (QueueReply T) := .fresh {} n

/-! ## What the calls do -/

variable {s : SharedQueue T}

theorem execBody_push (x : T) (s : SharedQueue T) :
    cls.execBody (.push x) s = (.none, { s with queue := s.queue ++ [x] }, [.one ()]) := rfl

theorem execBody_pop (h : cls.ready .pop s = true) :
    ∃ x rest, s.queue = x :: rest ∧
      cls.execBody .pop s = (.value x, { s with queue := rest }, []) := by
  obtain ⟨queue, failed⟩ := s
  cases queue with
  | nil => cases h
  | cons x rest =>
    exact ⟨x, rest, rfl, by simp [GuardedClass.execBody, GuardedClass.exec, cls, body]⟩

theorem execBody_clear (s : SharedQueue T) :
    cls.execBody .clear s = (.values s.queue, { s with queue := [] }, []) := by
  simp [GuardedClass.execBody, GuardedClass.exec, cls, body]

theorem execBody_size (s : SharedQueue T) :
    cls.execBody .size s = (.number s.queue.length, s, []) := rfl

theorem pop_refused (h : cls.ready .pop s = false) : s.queue = [] := by
  simpa [cls, ready] using h

/-! ## First in, first out -/

/-- The values that the calls have brought. -/
def given (log : List (Nat × QueueCall T × QueueReply T)) : List T :=
  log.flatMap fun entry => entry.2.1.given

/-- The values that the callers have got. -/
def taken (log : List (Nat × QueueCall T × QueueReply T)) : List T :=
  log.flatMap fun entry => entry.2.2.taken

/-- One call after the other. -/
theorem replays_fifo {log : List (Nat × QueueCall T × QueueReply T)} {b : SharedQueue T}
    (h : Monitor.Replays cls.ops {} log b) : given log = taken log ++ b.queue := by
  induction h with
  | nil => rfl
  | @snoc log b h t op hready ih =>
    simp only [given, taken, List.flatMap_append, List.flatMap_cons, List.flatMap_nil] at ih ⊢
    rw [ih]
    cases op with
    | push x => simp [GuardedClass.ops_act, execBody_push, QueueCall.given, QueueReply.taken]
    | pop =>
      obtain ⟨x, rest, hqueue, hbody⟩ := execBody_pop hready
      simp [GuardedClass.ops_act, hbody, hqueue, QueueCall.given, QueueReply.taken]
    | clear => simp [GuardedClass.ops_act, execBody_clear, QueueCall.given, QueueReply.taken]
    | size => simp [GuardedClass.ops_act, execBody_size, QueueCall.given, QueueReply.taken]

/-- Every `pop` has a value. -/
theorem replays_pop {log : List (Nat × QueueCall T × QueueReply T)} {b : SharedQueue T}
    (h : Monitor.Replays cls.ops {} log b) {t : Nat} {r : QueueReply T}
    (hmem : (t, .pop, r) ∈ log) : ∃ x, r = .value x := by
  induction h with
  | nil => cases hmem
  | @snoc log b h t' op hready ih =>
    rcases List.mem_append.mp hmem with hmem | hmem
    · exact ih hmem
    · obtain ⟨-, rfl, rfl⟩ := by simpa using hmem
      obtain ⟨x, rest, -, hbody⟩ := execBody_pop hready
      exact ⟨x, by rw [GuardedClass.ops_act, hbody]⟩

/-- No statement fails. -/
theorem exec_not_failed (op : QueueCall T) (a : SharedQueue T) (next : Nat)
    (hfailed : a.failed = false) (hready : cls.ready op a = true) :
    (GuardedClass.exec ((cls.body op).take next) (cls.start op) a).2.1.failed = false := by
  cases op with
  | push x => rcases next with _ | _ | next <;> simp [GuardedClass.exec, cls, body, hfailed]
  | pop =>
    have hempty : a.queue.isEmpty = false := by simpa [cls, ready] using hready
    rcases next with _ | _ | _ | next <;> simp [GuardedClass.exec, cls, body, hfailed, hempty]
  | clear => rcases next with _ | _ | next <;> simp [GuardedClass.exec, cls, body, hfailed]
  | size => rcases next with _ | next <;> simp [GuardedClass.exec, cls, body, hfailed]

/-- **First in, first out.** For any number of threads and any order of their steps: no assertion
fails, every `pop` that has returned has a value, and the values that `pop` and `clear` have
returned are the first ones that were pushed; the queue has the others. -/
theorem blockingQueue_fifo (n : Nat) (is : List (LockStep (QueueCall T)))
    (h : Legal (Locked.step cls) (Locked.Admissible cls) (make n) is) :
    let s := is.foldl (Locked.step cls) (make n)
    s.members.failed = false ∧
      (∀ t r, (t, .pop, r) ∈ s.returned → ∃ x, r = .value x) ∧
      taken s.returned <+: given s.returned ∧
      (s.mutex = none → given s.returned = taken s.returned ++ s.members.queue) := by
  intro s
  obtain ⟨b, hreplays, hmembers⟩ := Locked.returned_replays h
  have hfifo : given s.returned = taken s.returned ++ b.queue := replays_fifo hreplays
  refine ⟨?_, fun t r => replays_pop hreplays, ?_, fun hfree => ?_⟩
  · exact Locked.members_run (I := fun s => s.failed = false) exec_not_failed rfl h
  · exact ⟨b.queue, hfifo.symm⟩
  · rw [hfifo, hmembers hfree]

open LockStep in
/-- A consumer sleeps and is notified of a value, but another one is faster. It sleeps again. -/
def stolen : List (LockStep (QueueCall Nat)) :=
  [[.call 0 .pop], goes 0 5, [.call 1 (.push 7)], goes 1 4, [.next 1 (some 0)], goes 1 2,
    [.call 2 .pop], goes 2 8, goes 0 5].flatten

theorem stolen_legal :
    Legal (Locked.step cls) (Locked.Admissible cls) (make 3) stolen := by
  decide +kernel

theorem stolen_fifo :
    let s := stolen.foldl (Locked.step cls) (make 3)
    s.members.failed = false ∧ taken s.returned <+: given s.returned ∧ taken s.returned = [7] := by
  obtain ⟨hfailed, -, htaken, -⟩ := blockingQueue_fifo 3 stolen stolen_legal
  exact ⟨hfailed, htaken, by decide +kernel⟩

/-! ## No consumer is forgotten -/

/-- Each value in the queue is for one consumer. -/
theorem wakes : Monitor.Wakes (cls (T := T)).ops (fun _ s => s.queue.length) fun _ _ => False where
  stay op a hready := by
    cases op with
    | pop => exact ⟨(), rfl, by rw [pop_refused hready]; rfl, id⟩
    | push | clear | size => cases hready
  go op a c hready _ := by
    refine .inr ⟨id, ?_⟩
    rw [GuardedClass.ops_act, GuardedClass.ops_signals]
    cases op with
    | push x => exact Nat.le_of_eq (List.length_append ..)
    | pop =>
      obtain ⟨x, rest, hqueue, hbody⟩ := execBody_pop hready
      rw [hbody, hqueue]
      split <;> simp
    | clear => rw [execBody_clear]; exact Nat.zero_le _
    | size => exact Nat.le_refl _
  blocked op a c hcond hdemand _ := by
    cases op with
    | pop => simpa [GuardedClass.ops, cls, ready] using hdemand
    | push | clear | size => cases hcond

/-- **No consumer is forgotten.** When no thread can go on, every thread is outside, or asleep in
`pop` with an empty queue. -/
theorem blockingQueue_stuck (n : Nat) (is : List (LockStep (QueueCall T)))
    (h : Legal (Locked.step cls) (Locked.Admissible cls) (make n) is)
    (hstuck : (is.foldl (Locked.step cls) (make n)).Stuck cls) :
    let s := is.foldl (Locked.step cls) (make n)
    ∀ place ∈ s.threads, place = .out ∨ place = .asleep .pop ∧ s.members.queue = [] := by
  intro s place hmem
  obtain ⟨-, hidle, hasleep⟩ := Locked.asleep_of_stuck wakes h hstuck
  rcases Locked.idle_cases (hidle place hmem) with rfl | ⟨op, rfl⟩
  · exact .inl rfl
  · have hready := hasleep op hmem
    cases op with
    | pop => exact .inr ⟨rfl, pop_refused hready⟩
    | push | clear | size => cases hready

theorem stolen_stuck :
    let s := stolen.foldl (Locked.step cls) (make 3)
    s.threads = [.asleep .pop, .out, .out] ∧
      ∀ place ∈ s.threads, place = .out ∨ place = .asleep .pop ∧ s.members.queue = [] := by
  refine ⟨by decide +kernel, blockingQueue_stuck 3 stolen stolen_legal ?_⟩
  exact Locked.stuck_of_idle (by decide +kernel)

end BlockingQueue

end MyTinyHttpd
