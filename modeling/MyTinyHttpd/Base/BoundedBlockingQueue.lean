import MyTinyHttpd.Lib.CircularBuffer
import MyTinyHttpd.Base.BlockingQueue

/-!
# `base/bounded_blocking_queue.h`

A queue between any number of threads that holds at most `max_size` values. `push` waits while it
is full, `pop` while it is empty.

* The values are in a `boost::circular_buffer<T>`: at its capacity `push_back` overwrites the front.
* `boundedQueue_fifo`: the values come out once each and in the order in which they went in, nothing
  is overwritten, and no assertion fails.
* `boundedQueue_stuck`: threads are left asleep only because the queue is empty or full. So
  producers and consumers do not wait for each other, unless the capacity is 0.

The two overloads of `push` differ in how the value is moved.
-/

namespace MyTinyHttpd

open Verif

/-- The members; a failed assertion sets `failed`. -/
structure BoundedQueue (T : Type) where
  queue : CircularBuffer T
  failed : Bool := false

inductive QueueCond where
  | notEmpty
  | notFull
  deriving DecidableEq

inductive BoundedCall (T : Type) where
  | push (x : T)
  | pop
  | empty
  | full
  | size
  | capacity
  deriving DecidableEq

/-- The value that the call brings. -/
def BoundedCall.given {T : Type} : BoundedCall T → List T
  | .push x => [x]
  | .pop | .empty | .full | .size | .capacity => []

namespace BoundedBlockingQueue

variable {T : Type}

def cond : BoundedCall T → Option QueueCond
  | .push _ => some .notFull
  | .pop => some .notEmpty
  | .empty | .full | .size | .capacity => none

def ready : BoundedCall T → BoundedQueue T → Bool
  | .push _, s => !s.queue.full
  | .pop, s => !s.queue.empty
  | .empty, _ | .full, _ | .size, _ | .capacity, _ => true

def body : BoundedCall T → List (Statement (BoundedQueue T) QueueCond (QueueReply T))
  | .push x =>
    [fun r s => (r, { s with failed := s.failed || s.queue.full }, none),
      fun r s => (r, { s with queue := s.queue.pushBack x }, none),
      -- `not_empty_.Notify()`
      fun r s => (r, s, some (.one .notEmpty))]
  | .pop =>
    [fun r s => (r, { s with failed := s.failed || s.queue.empty }, none),
      fun r s => ((s.queue.front.map .value).getD r, s, none),
      fun r s => (r, { s with queue := s.queue.popFront }, none),
      -- `not_full_.Notify()`
      fun r s => (r, s, some (.one .notFull))]
  | .empty => [fun _ s => (.flag s.queue.empty, s, none)]
  | .full => [fun _ s => (.flag s.queue.full, s, none)]
  | .size => [fun _ s => (.number s.queue.elems.length, s, none)]
  | .capacity => [fun _ s => (.number s.queue.capacity, s, none)]

def cls : GuardedClass (BoundedQueue T) QueueCond (BoundedCall T) (QueueReply T) where
  cond := cond
  ready := ready
  start _ := .none
  body := body

/-- `BoundedBlockingQueue(max_size)`, before any of `n` threads has used it. -/
abbrev make (maxSize n : Nat) : Locked (BoundedQueue T) (BoundedCall T) (QueueReply T) :=
  .fresh { queue := .make maxSize } n

/-! ## What the calls do -/

variable {s : BoundedQueue T} {x : T}

theorem push_refused_iff :
    cls.ready (.push x) s = false ↔ s.queue.elems.length = s.queue.capacity := by
  rw [← CircularBuffer.full_iff]
  simp [cls, ready]

theorem pop_refused_iff : cls.ready .pop s = false ↔ s.queue.elems = [] := by
  rw [← CircularBuffer.empty_iff]
  simp [cls, ready]

/-- With a place for it the value goes to the end. -/
theorem execBody_push (h : cls.ready (.push x) s = true) :
    s.queue.elems.length < s.queue.capacity ∧
      (s.queue.pushBack x).elems = s.queue.elems ++ [x] ∧
      cls.execBody (.push x) s =
        (.none, { s with queue := s.queue.pushBack x }, [.one .notEmpty]) := by
  have hfull : s.queue.full = false := by simpa [cls, ready] using h
  have hlt := CircularBuffer.full_eq_false_iff.mp hfull
  exact ⟨hlt, if_pos hlt, by simp [GuardedClass.execBody, GuardedClass.exec, cls, body, hfull]⟩

theorem execBody_pop (h : cls.ready .pop s = true) :
    ∃ x rest, s.queue.elems = x :: rest ∧ s.queue.popFront.elems = rest ∧
      cls.execBody .pop s =
        (.value x, { s with queue := s.queue.popFront }, [.one .notFull]) := by
  have hempty : s.queue.empty = false := by simpa [cls, ready] using h
  cases helems : s.queue.elems with
  | nil => simp [CircularBuffer.empty, helems] at hempty
  | cons x rest =>
    refine ⟨x, rest, rfl, ?_, ?_⟩
    · show s.queue.elems.drop 1 = rest
      rw [helems]
      rfl
    · have hfront : s.queue.front = some x := by
        rw [CircularBuffer.front, helems]
        rfl
      simp [GuardedClass.execBody, GuardedClass.exec, cls, body, hempty, hfront]

/-! ## First in, first out -/

/-- The values that the calls have brought. -/
def given (log : List (Nat × BoundedCall T × QueueReply T)) : List T :=
  log.flatMap fun entry => entry.2.1.given

/-- The values that the callers have got. -/
def taken (log : List (Nat × BoundedCall T × QueueReply T)) : List T :=
  log.flatMap fun entry => entry.2.2.taken

variable {maxSize : Nat} {log : List (Nat × BoundedCall T × QueueReply T)} {b : BoundedQueue T}

/-- One call after the other. -/
theorem replays_fifo (h : Monitor.Replays cls.ops { queue := .make maxSize } log b) :
    given log = taken log ++ b.queue.elems := by
  induction h with
  | nil => rfl
  | @snoc log b h t op hready ih =>
    simp only [given, taken, List.flatMap_append, List.flatMap_cons, List.flatMap_nil] at ih ⊢
    rw [ih, GuardedClass.ops_act]
    cases op with
    | push x =>
      obtain ⟨-, helems, hbody⟩ := execBody_push (x := x) hready
      simp [hbody, helems, BoundedCall.given, QueueReply.taken]
    | pop =>
      obtain ⟨x, rest, helems, hrest, hbody⟩ := execBody_pop hready
      simp [hbody, helems, hrest, BoundedCall.given, QueueReply.taken]
    | empty | full | size | capacity =>
      simp [GuardedClass.execBody, GuardedClass.exec, cls, body, BoundedCall.given,
        QueueReply.taken]

/-- Every `pop` has a value. -/
theorem replays_pop (h : Monitor.Replays cls.ops { queue := .make maxSize } log b) {t : Nat}
    {r : QueueReply T} (hmem : (t, .pop, r) ∈ log) : ∃ x, r = .value x := by
  induction h with
  | nil => cases hmem
  | @snoc log b h t' op hready ih =>
    rcases List.mem_append.mp hmem with hmem | hmem
    · exact ih hmem
    · obtain ⟨-, rfl, rfl⟩ := by simpa using hmem
      obtain ⟨x, rest, -, -, hbody⟩ := execBody_pop hready
      exact ⟨x, by rw [GuardedClass.ops_act, hbody]⟩

/-- No statement fails, and the capacity stays. -/
theorem exec_safe (op : BoundedCall T) (a : BoundedQueue T) (next : Nat)
    (h : a.failed = false ∧ a.queue.capacity = maxSize) (hready : cls.ready op a = true) :
    let a' := (GuardedClass.exec ((cls.body op).take next) (cls.start op) a).2.1
    a'.failed = false ∧ a'.queue.capacity = maxSize := by
  obtain ⟨hfailed, hcapacity⟩ := h
  cases op with
  | push x =>
    have hfull : a.queue.full = false := by simpa [cls, ready] using hready
    rcases next with _ | _ | _ | next <;>
      simp [GuardedClass.exec, cls, body, hfailed, hfull, hcapacity, CircularBuffer.pushBack]
  | pop =>
    have hempty : a.queue.empty = false := by simpa [cls, ready] using hready
    rcases next with _ | _ | _ | _ | next <;>
      simp [GuardedClass.exec, cls, body, hfailed, hempty, hcapacity, CircularBuffer.popFront]
  | empty | full | size | capacity =>
    rcases next with _ | next <;> simp [GuardedClass.exec, cls, body, hfailed, hcapacity]

/-- **First in, first out.** For any number of threads and any order of their steps: no assertion
fails and there are at most `maxSize` values at any time; every `pop` that has returned has a value,
and the values that have come out are the first ones that went in; the queue has the others. -/
theorem boundedQueue_fifo (maxSize n : Nat) (is : List (LockStep (BoundedCall T)))
    (h : Legal (Locked.step cls) (Locked.Admissible cls) (make maxSize n) is) :
    let s := is.foldl (Locked.step cls) (make maxSize n)
    s.members.failed = false ∧ s.members.queue.elems.length ≤ maxSize ∧
      (∀ t r, (t, .pop, r) ∈ s.returned → ∃ x, r = .value x) ∧
      taken s.returned <+: given s.returned ∧
      (s.mutex = none → given s.returned = taken s.returned ++ s.members.queue.elems) := by
  intro s
  obtain ⟨b, hreplays, hmembers⟩ := Locked.returned_replays h
  have hfifo : given s.returned = taken s.returned ++ b.queue.elems := replays_fifo hreplays
  obtain ⟨hfailed, hcapacity⟩ : s.members.failed = false ∧ s.members.queue.capacity = maxSize :=
    Locked.members_run (I := fun s => s.failed = false ∧ s.queue.capacity = maxSize) exec_safe
      ⟨rfl, rfl⟩ h
  refine ⟨hfailed, ?_, fun t r => replays_pop hreplays, ⟨b.queue.elems, hfifo.symm⟩,
    fun hfree => ?_⟩
  · exact hcapacity ▸ s.members.queue.fits
  · rw [hfifo, hmembers hfree]

open LockStep in
/-- A consumer sleeps and is notified. Before it runs, a second producer finds the queue full and
sleeps until the consumer has its value. Then a third one finds it full. -/
def handOver : List (LockStep (BoundedCall Nat)) :=
  [[.call 0 .pop], goes 0 5, [.call 1 (.push 7)], goes 1 5, [.next 1 (some 0)], goes 1 2,
    [.call 2 (.push 8)], goes 2 5, goes 0 6, [.next 0 (some 2)], goes 0 2, goes 2 8,
    [.call 1 (.push 9)], goes 1 5].flatten

theorem handOver_legal :
    Legal (Locked.step cls) (Locked.Admissible cls) (make 1 3) handOver := by
  decide +kernel

theorem handOver_fifo :
    let s := handOver.foldl (Locked.step cls) (make 1 3)
    s.mutex = none ∧ s.members.failed = false ∧ taken s.returned = [7] ∧
      given s.returned = taken s.returned ++ s.members.queue.elems := by
  have hfree : (handOver.foldl (Locked.step cls) (make 1 3)).mutex = none := by decide +kernel
  obtain ⟨hfailed, -, -, -, hfifo⟩ := boundedQueue_fifo 1 3 handOver handOver_legal
  exact ⟨hfree, hfailed, by decide +kernel, hfifo hfree⟩

/-! ## Producers and consumers -/

/-- Each value is for one consumer, each free place for one producer. -/
def demand : QueueCond → BoundedQueue T → Nat
  | .notEmpty, s => s.queue.elems.length
  | .notFull, s => s.queue.capacity - s.queue.elems.length

theorem wakes : Monitor.Wakes (cls (T := T)).ops demand fun _ _ => False where
  stay op a hready := by
    cases op with
    | push x =>
      refine ⟨.notFull, rfl, ?_, id⟩
      rw [demand, (push_refused_iff (x := x)).mp hready, Nat.sub_self]
    | pop =>
      refine ⟨.notEmpty, rfl, ?_, id⟩
      rw [demand, pop_refused_iff.mp hready]
      rfl
    | empty | full | size | capacity => cases hready
  go op a c hready _ := by
    refine .inr ⟨id, ?_⟩
    rw [GuardedClass.ops_act, GuardedClass.ops_signals]
    cases op with
    | push x =>
      obtain ⟨hlt, helems, hbody⟩ := execBody_push (x := x) hready
      have hlength : (a.queue.pushBack x).elems.length = a.queue.elems.length + 1 := by
        rw [helems, List.length_append, List.length_singleton]
      have hcapacity : (a.queue.pushBack x).capacity = a.queue.capacity := rfl
      rw [hbody]
      cases c with
      | notEmpty => simp [demand, hlength, GuardedClass.ops, cls, cond]
      | notFull =>
        simp [demand, hlength, hcapacity, GuardedClass.ops, cls, cond]
        omega
    | pop =>
      obtain ⟨x, rest, helems, hrest, hbody⟩ := execBody_pop hready
      have hcapacity : a.queue.popFront.capacity = a.queue.capacity := rfl
      rw [hbody]
      cases c with
      | notEmpty => simp [demand, helems, hrest, GuardedClass.ops, cls, cond]
      | notFull =>
        simp [demand, helems, hrest, hcapacity, GuardedClass.ops, cls, cond]
        omega
    | empty | full | size | capacity => exact Nat.le_refl _
  blocked op a c hcond hdemand _ := by
    cases op with
    | push x =>
      cases hcond
      have := a.queue.fits
      rw [demand] at hdemand
      exact (push_refused_iff (x := x)).mpr (by omega)
    | pop =>
      cases hcond
      exact pop_refused_iff.mpr (List.length_eq_zero_iff.mp hdemand)
    | empty | full | size | capacity => cases hcond

/-- **Nobody waits without a reason.** When no thread can go on, every thread is outside, or asleep
in `push` with a full queue, or asleep in `pop` with an empty one. Both together happen only with
the capacity 0. -/
theorem boundedQueue_stuck (maxSize n : Nat) (is : List (LockStep (BoundedCall T)))
    (h : Legal (Locked.step cls) (Locked.Admissible cls) (make maxSize n) is)
    (hstuck : (is.foldl (Locked.step cls) (make maxSize n)).Stuck cls) :
    let s := is.foldl (Locked.step cls) (make maxSize n)
    (∀ place ∈ s.threads, place = .out ∨
        (∃ x, place = .asleep (.push x)) ∧ s.members.queue.elems.length = maxSize ∨
        place = .asleep .pop ∧ s.members.queue.elems = []) ∧
      (0 < maxSize → ∀ x, .asleep (.push x) ∈ s.threads → .asleep .pop ∉ s.threads) := by
  intro s
  obtain ⟨-, hidle, hasleep⟩ := Locked.asleep_of_stuck wakes h hstuck
  have hcapacity : s.members.queue.capacity = maxSize :=
    (Locked.members_run (I := fun s => s.failed = false ∧ s.queue.capacity = maxSize) exec_safe
      ⟨rfl, rfl⟩ h).2
  have hpush : ∀ x, .asleep (.push x) ∈ s.threads → s.members.queue.elems.length = maxSize := by
    intro x hmem
    rw [← hcapacity]
    exact push_refused_iff.mp (hasleep (.push x) hmem)
  have hpop : .asleep .pop ∈ s.threads → s.members.queue.elems = [] := fun hmem =>
    pop_refused_iff.mp (hasleep .pop hmem)
  refine ⟨fun place hmem => ?_, fun hpos x hmem hmem' => ?_⟩
  · rcases Locked.idle_cases (hidle place hmem) with rfl | ⟨op, rfl⟩
    · exact .inl rfl
    · cases op with
      | push x => exact .inr (.inl ⟨⟨x, rfl⟩, hpush x hmem⟩)
      | pop => exact .inr (.inr ⟨rfl, hpop hmem⟩)
      | empty | full | size | capacity => cases hasleep _ hmem
  · have hlength := hpush x hmem
    rw [hpop hmem', List.length_nil] at hlength
    omega

theorem handOver_stuck :
    let s := handOver.foldl (Locked.step cls) (make 1 3)
    .asleep (.push 9) ∈ s.threads ∧ .asleep .pop ∉ s.threads := by
  have hmem : .asleep (.push 9) ∈ (handOver.foldl (Locked.step cls) (make 1 3)).threads := by
    decide +kernel
  have hstuck : (handOver.foldl (Locked.step cls) (make 1 3)).Stuck cls :=
    Locked.stuck_of_idle (by decide +kernel)
  exact ⟨hmem, (boundedQueue_stuck 1 3 handOver handOver_legal hstuck).2 (by decide) 9 hmem⟩

end BoundedBlockingQueue

end MyTinyHttpd
