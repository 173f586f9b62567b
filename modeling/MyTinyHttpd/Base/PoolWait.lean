import MyTinyHttpd.Base.CriticalSection

/-!
# The waiting of `base/thread_pool.cc`

The members of the pool with its mutex, its two conditions and every statement of `Run`, `Pop`,
`queue_size()` and the critical section of `Stop` as a step (`Base/Mutex.lean`).

* `execBody_run`, `execBody_pop`, `execBody_stop`: what the calls do one after the other.
* `replays_fifo`: the tasks that `Pop` has given out are the first ones that `Run` has taken.
* `wakes`: the calls notify as many threads as can go on.

`Run` reads `threads_.empty()` before the lock; here there are threads. The loop of `Stop` that
joins them is in `Base/PoolRun.lean`. Null tasks are left out.
-/

namespace MyTinyHttpd

open Verif

/-- The members; a failed assertion sets `failed`. -/
structure PoolMembers (τ : Type) where
  maxQueueSize : Nat
  running : Bool := true
  queue : List τ := []
  failed : Bool := false

inductive PoolCond where
  | notEmpty
  | notFull
  deriving DecidableEq

inductive PoolCall (τ : Type) where
  | run (task : τ)
  | pop
  | stop
  | queueSize
  deriving DecidableEq

/-- The local variables of the calls. -/
structure PoolLocals (τ : Type) where
  /-- `Run` has returned because the pool has stopped. -/
  left : Bool := false
  /-- The task of `Pop`. -/
  task : Option τ := none
  /-- The result of `queue_size()`. -/
  size : Nat := 0
  deriving DecidableEq

namespace PoolWait

variable {τ : Type}

def isFull (s : PoolMembers τ) : Bool := 0 < s.maxQueueSize && s.maxQueueSize ≤ s.queue.length

def cond : PoolCall τ → Option PoolCond
  | .run _ => some .notFull
  | .pop => some .notEmpty
  | .stop | .queueSize => none

def ready : PoolCall τ → PoolMembers τ → Bool
  | .run _, s => !(s.running && isFull s)
  | .pop, s => !(s.queue.isEmpty && s.running)
  | .stop, _ | .queueSize, _ => true

def body : PoolCall τ → List (Statement (PoolMembers τ) PoolCond (PoolLocals τ))
  | .run task =>
    [ -- `if (!running_) return;`
      fun r s => ({ r with left := !s.running }, s, none),
      fun r s => (r, if r.left then s else { s with failed := s.failed || isFull s }, none),
      fun r s => (r, if r.left then s else { s with queue := s.queue ++ [task] }, none),
      -- `not_empty_.Notify()`
      fun r s => (r, s, if r.left then none else some (.one .notEmpty))]
  | .pop =>
    [fun r s => ({ r with task := s.queue.head? }, s, none),
      fun r s => (r, { s with queue := s.queue.tail }, none),
      -- `not_full_.Notify()`
      fun r s => (r, s, if r.task.isSome && 0 < s.maxQueueSize then some (.one .notFull) else none)]
  | .stop =>
    [fun r s => (r, { s with running := false }, none),
      fun r s => (r, s, some (.all .notEmpty)),
      fun r s => (r, s, some (.all .notFull))]
  | .queueSize => [fun r s => ({ r with size := s.queue.length }, s, none)]

def cls : GuardedClass (PoolMembers τ) PoolCond (PoolCall τ) (PoolLocals τ) where
  cond := cond
  ready := ready
  start _ := {}
  body := body

/-- A started pool, before any of `n` threads has used it. -/
abbrev make (maxQueueSize n : Nat) : Locked (PoolMembers τ) (PoolCall τ) (PoolLocals τ) :=
  .fresh { maxQueueSize } n

/-! ## What the calls do -/

variable {s : PoolMembers τ} {task : τ}

theorem run_refused_iff (task : τ) : cls.ready (.run task) s = false ↔
    s.running = true ∧ 0 < s.maxQueueSize ∧ s.maxQueueSize ≤ s.queue.length := by
  simp [cls, ready, isFull]

theorem pop_refused_iff : cls.ready .pop s = false ↔ s.queue = [] ∧ s.running = true := by
  simp [cls, ready]

theorem execBody_run {task : τ} (h : cls.ready (.run task) s = true)
    (hrunning : s.running = true) :
    isFull s = false ∧ cls.execBody (.run task) s =
      ({}, { s with queue := s.queue ++ [task] }, [.one .notEmpty]) := by
  have hfull : isFull s = false := by simpa [cls, ready, hrunning] using h
  exact ⟨hfull, by simp [GuardedClass.execBody, GuardedClass.exec, cls, body, hrunning, hfull]⟩

theorem execBody_run_stopped (hrunning : s.running = false) :
    cls.execBody (.run task) s = ({ left := true }, s, []) := by
  simp [GuardedClass.execBody, GuardedClass.exec, cls, body, hrunning]

theorem execBody_pop : cls.execBody .pop s =
    ({ task := s.queue.head? }, { s with queue := s.queue.tail },
      if s.queue.head?.isSome && 0 < s.maxQueueSize then [.one .notFull] else []) := by
  simp only [GuardedClass.execBody, GuardedClass.exec, cls, body]
  split <;> rfl

theorem execBody_stop : cls.execBody .stop s =
    ({}, { s with running := false }, [.all .notEmpty, .all .notFull]) := rfl

theorem execBody_queueSize :
    cls.execBody .queueSize s = ({ size := s.queue.length }, s, []) := rfl

/-! ## First in, first out -/

/-- The task, if `Run` has taken it. -/
def acceptedOf : PoolCall τ → PoolLocals τ → List τ
  | .run task, r => if r.left then [] else [task]
  | .pop, _ | .stop, _ | .queueSize, _ => []

/-- The tasks that `Run` has taken. -/
def accepted (log : List (Nat × PoolCall τ × PoolLocals τ)) : List τ :=
  log.flatMap fun entry => acceptedOf entry.2.1 entry.2.2

/-- The tasks that `Pop` has given out. -/
def popped (log : List (Nat × PoolCall τ × PoolLocals τ)) : List τ :=
  log.flatMap fun entry => entry.2.2.task.toList

theorem popped_append (log log' : List (Nat × PoolCall τ × PoolLocals τ)) :
    popped (log ++ log') = popped log ++ popped log' := List.flatMap_append

/-- One call after the other. -/
theorem replays_fifo {maxQueueSize : Nat} {log : List (Nat × PoolCall τ × PoolLocals τ)}
    {b : PoolMembers τ} (h : Monitor.Replays cls.ops { maxQueueSize } log b) :
    accepted log = popped log ++ b.queue := by
  induction h with
  | nil => rfl
  | @snoc log b h t op hready ih =>
    simp only [accepted, popped, List.flatMap_append, List.flatMap_cons, List.flatMap_nil] at ih ⊢
    rw [ih, GuardedClass.ops_act]
    cases op with
    | run task =>
      cases hrunning : b.running with
      | true => simp [(execBody_run hready hrunning).2, acceptedOf]
      | false => simp [execBody_run_stopped hrunning, acceptedOf]
    | pop => cases hqueue : b.queue <;> simp [execBody_pop, acceptedOf, hqueue]
    | stop => simp [execBody_stop, acceptedOf]
    | queueSize => simp [execBody_queueSize, acceptedOf]

/-- What holds of the members at any time. -/
def Bounded (maxQueueSize : Nat) (a : PoolMembers τ) : Prop :=
  a.failed = false ∧ a.maxQueueSize = maxQueueSize ∧
    (0 < maxQueueSize → a.queue.length ≤ maxQueueSize)

/-- No statement fails. -/
theorem exec_bounded {maxQueueSize : Nat} (op : PoolCall τ) (a : PoolMembers τ) (next : Nat)
    (h : Bounded maxQueueSize a) (hready : cls.ready op a = true) :
    Bounded maxQueueSize
      (GuardedClass.exec ((cls.body op).take next) (cls.start op) a).2.1 := by
  obtain ⟨hfailed, hmax, hbound⟩ := h
  cases op with
  | run task =>
    cases hrunning : a.running with
    | true =>
      obtain ⟨hfull, -⟩ := execBody_run hready hrunning
      have hroom : 0 < maxQueueSize → a.queue.length < maxQueueSize := by
        simpa [isFull, hmax] using hfull
      rcases next with _ | _ | _ | _ | next <;>
        simp [GuardedClass.exec, cls, body, Bounded, hrunning, hfailed, hfull, hmax] <;> omega
    | false =>
      rcases next with _ | _ | _ | _ | next <;>
        simp [GuardedClass.exec, cls, body, Bounded, hrunning, hfailed, hmax] <;> omega
  | pop =>
    rcases next with _ | _ | _ | next <;>
      simp [GuardedClass.exec, cls, body, Bounded, hfailed, hmax] <;> omega
  | stop =>
    rcases next with _ | _ | _ | next <;>
      simp [GuardedClass.exec, cls, body, Bounded, hfailed, hmax] <;> omega
  | queueSize =>
    rcases next with _ | next <;>
      simp [GuardedClass.exec, cls, body, Bounded, hfailed, hmax] <;> omega

/-! ## The notifications -/

/-- Each task is for one thread of the pool, each free place for one caller. -/
def demand : PoolCond → PoolMembers τ → Nat
  | .notEmpty, s => s.queue.length
  | .notFull, s => s.maxQueueSize - s.queue.length

/-- All may go on. -/
def freed : PoolCond → PoolMembers τ → Prop
  | .notEmpty, s => s.running = false
  | .notFull, s => s.running = false ∨ s.maxQueueSize = 0

theorem running_of_not_freed {c : PoolCond} (h : ¬ freed c s) : s.running = true := by
  cases c with
  | notEmpty => simpa [freed] using h
  | notFull =>
    simp only [freed, not_or] at h
    simpa using h.1

theorem wakes : Monitor.Wakes (cls (τ := τ)).ops demand freed where
  stay op a hready := by
    cases op with
    | run task =>
      obtain ⟨hrunning, hpos, hfull⟩ := (run_refused_iff task).mp hready
      refine ⟨.notFull, rfl, Nat.sub_eq_zero_of_le hfull, ?_⟩
      simp [freed, hrunning]
      omega
    | pop =>
      obtain ⟨hqueue, hrunning⟩ := pop_refused_iff.mp hready
      refine ⟨.notEmpty, rfl, ?_, ?_⟩
      · rw [demand, hqueue, List.length_nil]
      · simp [freed, hrunning]
    | stop | queueSize => cases hready
  go op a c hready hclosed := by
    have hrunning := running_of_not_freed hclosed
    rw [GuardedClass.ops_act, GuardedClass.ops_signals]
    cases op with
    | run task =>
      obtain ⟨hfull, hbody⟩ := execBody_run hready hrunning
      rw [hbody]
      refine .inr ⟨by cases c <;> simpa [freed] using hclosed, ?_⟩
      cases c with
      | notEmpty => simp [demand, GuardedClass.ops, cls, cond]
      | notFull =>
        have hroom : 0 < a.maxQueueSize → a.queue.length < a.maxQueueSize := by
          simpa [isFull] using hfull
        have hpos : 0 < a.maxQueueSize := by
          simp only [freed, not_or] at hclosed
          omega
        simp [demand, GuardedClass.ops, cls, cond]
        omega
    | pop =>
      rw [execBody_pop]
      refine .inr ⟨by cases c <;> simpa [freed] using hclosed, ?_⟩
      cases hqueue : a.queue with
      | nil => simp [cls, ready, hqueue, hrunning, GuardedClass.ops] at hready
      | cons task rest =>
        cases c with
        | notEmpty => simp [demand, GuardedClass.ops, cls, cond, hqueue]
        | notFull =>
          have hpos : 0 < a.maxQueueSize := by
            simp only [freed, not_or] at hclosed
            omega
          simp [demand, GuardedClass.ops, cls, cond, hqueue, hpos]
          omega
    | stop => exact .inl (by cases c <;> simp [execBody_stop])
    | queueSize => exact .inr ⟨hclosed, Nat.le_refl _⟩
  blocked op a c hcond hdemand hclosed := by
    have hrunning := running_of_not_freed hclosed
    cases op with
    | run task =>
      cases hcond
      simp only [freed, not_or] at hclosed
      rw [demand] at hdemand
      exact (run_refused_iff task).mpr ⟨hrunning, by omega, by omega⟩
    | pop =>
      cases hcond
      exact pop_refused_iff.mpr ⟨List.length_eq_zero_iff.mp hdemand, hrunning⟩
    | stop | queueSize => cases hcond

/-- `Stop` has cleared `running_` and let go of the lock. -/
def stopped (log : List (Nat × PoolCall τ × PoolLocals τ)) : Bool :=
  log.any fun entry => entry.2.1 matches .stop

theorem replays_running {maxQueueSize : Nat} {log : List (Nat × PoolCall τ × PoolLocals τ)}
    {b : PoolMembers τ} (h : Monitor.Replays cls.ops { maxQueueSize } log b) :
    b.running = !stopped log := by
  induction h with
  | nil => rfl
  | @snoc log b h t op hready ih =>
    simp only [stopped, List.any_append, List.any_cons, List.any_nil, Bool.or_false] at ih ⊢
    rw [GuardedClass.ops_act]
    cases op with
    | run task =>
      cases hrunning : b.running with
      | true => simp [(execBody_run hready hrunning).2, ← ih, hrunning]
      | false => simp [execBody_run_stopped hrunning, ← ih, hrunning]
    | pop => simp [execBody_pop, ih]
    | stop => simp [execBody_stop]
    | queueSize => simp [execBody_queueSize, ih]

/-- Only `Pop` has a task. -/
theorem replays_task {maxQueueSize : Nat} {log : List (Nat × PoolCall τ × PoolLocals τ)}
    {b : PoolMembers τ} (h : Monitor.Replays cls.ops { maxQueueSize } log b) {t : Nat}
    {op : PoolCall τ} {r : PoolLocals τ} (hmem : (t, op, r) ∈ log) (hop : op ≠ .pop) :
    r.task = none := by
  induction h with
  | nil => cases hmem
  | @snoc log b h t' op' hready ih =>
    rcases List.mem_append.mp hmem with hmem | hmem
    · exact ih hmem
    · obtain ⟨-, rfl, rfl⟩ := by simpa using hmem
      rw [GuardedClass.ops_act]
      cases op with
      | run task =>
        cases hrunning : b.running with
        | true => rw [(execBody_run hready hrunning).2]
        | false => rw [execBody_run_stopped hrunning]
      | pop => exact absurd rfl hop
      | stop => rfl
      | queueSize => rfl

/-- The pool does not start again. -/
theorem stopped_stays (op : PoolCall τ) (statement : Statement (PoolMembers τ) PoolCond _)
    (hmem : statement ∈ cls.body op) (r : PoolLocals τ) (a : PoolMembers τ)
    (h : a.running = false) : (statement r a).2.1.running = false := by
  cases op with
  | run task =>
    simp only [cls, body, List.mem_cons, List.not_mem_nil, or_false] at hmem
    rcases hmem with rfl | rfl | rfl | rfl <;> simp only <;> first | exact h | split <;> exact h
  | pop =>
    simp only [cls, body, List.mem_cons, List.not_mem_nil, or_false] at hmem
    rcases hmem with rfl | rfl | rfl <;> exact h
  | stop =>
    simp only [cls, body, List.mem_cons, List.not_mem_nil, or_false] at hmem
    rcases hmem with rfl | rfl | rfl <;> first | rfl | exact h
  | queueSize =>
    simp only [cls, body, List.mem_cons, List.not_mem_nil, or_false] at hmem
    rcases hmem with rfl
    exact h

end PoolWait

end MyTinyHttpd
