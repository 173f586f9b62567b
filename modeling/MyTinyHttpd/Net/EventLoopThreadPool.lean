import MyTinyHttpd.Lib.Machine

/-!
# `net/event_loop_thread_pool.cc`

The threads of the I/O loops, and the loops that connections are given to. A loop lives on the stack
of the thread that made it, so it is named by its thread; `created` numbers the threads. The init
callback of the threads is left out, and so are `GetLoopByHash` and `GetAllLoops`. `next_` is an
`int`, and no pool has so many loops that it overflows.

* `resizeThreadNum`: when the pool shrinks, `loops_` keeps the loops of the threads that are gone.
  When it grows, new threads are made up to `num_threads_`, the number that the pool was started
  with, and not up to the argument.
* `inStep_iff`: the tables stay in step exactly when every resize asks for the number of threads
  that the pool was started with.
-/

namespace MyTinyHttpd

open Verif

/-- An event loop: the one that the pool was made with, or the one of a thread. -/
inductive LoopRef where
  | base
  | ofThread (thread : Nat)
  deriving DecidableEq

structure EventLoopThreadPool where
  numThreads : Nat
  next : Nat := 0
  threads : List Nat := []
  loops : List LoopRef := []
  /-- How many threads have been made. -/
  created : Nat := 0
  deriving DecidableEq

/-- The calls on a pool that has been started. -/
inductive LoopPoolCall where
  | resizeThreadNum (numThreads : Nat)
  | getNextLoop
  deriving DecidableEq

namespace EventLoopThreadPool

/-- One `EventLoopThread` and its `StartLoop()`. -/
def startThread (s : EventLoopThreadPool) : EventLoopThreadPool :=
  { s with
    threads := s.threads ++ [s.created]
    loops := s.loops ++ [.ofThread s.created]
    created := s.created + 1 }

/-- The loop that makes `count` threads. -/
def startThreads (s : EventLoopThreadPool) : Nat → EventLoopThreadPool
  | 0 => s
  | count + 1 => s.startThread.startThreads count

/-- `SetThreadNum(numThreads)` and `Start()`. -/
def start (numThreads : Nat) : EventLoopThreadPool :=
  startThreads { numThreads } numThreads

def resizeThreadNum (s : EventLoopThreadPool) (numThreads : Nat) : EventLoopThreadPool :=
  let oldNumThreads := s.threads.length
  if numThreads < oldNumThreads then { s with threads := s.threads.take numThreads }
  else if oldNumThreads < numThreads then s.startThreads (s.numThreads - oldNumThreads)
  else s

/-- The loop, which is `none` when `next_` is not an index of `loops_`, and the pool after it. -/
def getNextLoop (s : EventLoopThreadPool) : Option LoopRef × EventLoopThreadPool :=
  if s.loops.isEmpty then (some .base, s)
  else
    (s.loops[s.next]?,
      { s with next := if s.loops.length ≤ s.next + 1 then 0 else s.next + 1 })

def step (s : EventLoopThreadPool) : LoopPoolCall → EventLoopThreadPool
  | .resizeThreadNum numThreads => s.resizeThreadNum numThreads
  | .getNextLoop => s.getNextLoop.2

/-- `loops_[i]` is the loop of `threads_[i]`. -/
def InStep (s : EventLoopThreadPool) : Prop := s.loops = s.threads.map .ofThread

/-- `next_` is an index of `loops_`. -/
def NextValid (s : EventLoopThreadPool) : Prop := s.loops ≠ [] → s.next < s.loops.length

/-- What a call should do: resizing leaves tables of the size that was asked for, and the next loop
is that of a thread of the pool, or the base loop when there is no thread. -/
def Serves (s : EventLoopThreadPool) : LoopPoolCall → Prop
  | .resizeThreadNum numThreads =>
    let s := s.resizeThreadNum numThreads
    s.threads.length = numThreads ∧ s.loops.length = numThreads ∧ s.InStep
  | .getNextLoop =>
    if s.threads = [] then s.getNextLoop.1 = some .base
    else ∃ t ∈ s.threads, s.getNextLoop.1 = some (.ofThread t)

instance (s : EventLoopThreadPool) : Decidable s.InStep :=
  inferInstanceAs (Decidable (s.loops = _))

instance (s : EventLoopThreadPool) (i : LoopPoolCall) : Decidable (s.Serves i) :=
  match i with
  | .resizeThreadNum _ => inferInstanceAs (Decidable (_ ∧ _ ∧ InStep _))
  | .getNextLoop => inferInstanceAs (Decidable (ite _ _ _))

theorem startThreads_eq (s : EventLoopThreadPool) (count : Nat) :
    s.startThreads count =
      { s with
        threads := s.threads ++ List.range' s.created count
        loops := s.loops ++ (List.range' s.created count).map .ofThread
        created := s.created + count } := by
  induction count generalizing s with
  | zero => simp [startThreads]
  | succ count ih =>
    rw [startThreads, ih, startThread]
    simp only [List.range'_succ, List.map_cons, List.append_assoc, List.singleton_append,
      Nat.add_assoc, Nat.add_comm 1]

/-! ## `next_` stays valid -/

/-- `loops_` never gets shorter. -/
theorem resizeThreadNum_loops (s : EventLoopThreadPool) (n : Nat) :
    ∃ more, (s.resizeThreadNum n).loops = s.loops ++ more ∧
      (s.resizeThreadNum n).next = s.next := by
  unfold resizeThreadNum
  dsimp only
  split
  · exact ⟨[], by simp, rfl⟩
  · split
    · rw [startThreads_eq]
      exact ⟨_, rfl, rfl⟩
    · exact ⟨[], by simp, rfl⟩

/-- Without loops `next_` has not moved. -/
def NextInv (s : EventLoopThreadPool) : Prop := s.next = 0 ∨ s.next < s.loops.length

theorem NextInv.nextValid {s : EventLoopThreadPool} (h : s.NextInv) : s.NextValid := by
  intro hne
  have hpos := List.length_pos_iff.mpr hne
  rcases h with h | h <;> omega

theorem step_nextInv (s : EventLoopThreadPool) (i : LoopPoolCall) (h : s.NextInv) :
    (s.step i).NextInv := by
  cases i with
  | resizeThreadNum n =>
    obtain ⟨more, hloops, hnext⟩ := s.resizeThreadNum_loops n
    simp only [step, NextInv, hloops, hnext, List.length_append]
    rcases h with h | h
    · exact .inl h
    · exact .inr (by omega)
  | getNextLoop =>
    simp only [step, getNextLoop]
    split
    · exact h
    · simp only [NextInv]
      split <;> omega

theorem start_eq (numThreads : Nat) :
    start numThreads =
      { numThreads
        threads := List.range' 0 numThreads
        loops := (List.range' 0 numThreads).map .ofThread
        created := numThreads } := by
  rw [start, startThreads_eq]
  simp

/-! ## The tables -/

/-- The pool has the threads that it was started with. -/
structure Whole (s : EventLoopThreadPool) : Prop where
  length_eq : s.threads.length = s.numThreads
  inStep : s.InStep
  next : s.NextInv

theorem start_whole (numThreads : Nat) : (start numThreads).Whole := by
  rw [start_eq]
  exact ⟨by simp, rfl, .inl rfl⟩

variable {s : EventLoopThreadPool}

theorem Whole.resize_self (h : s.Whole) : s.resizeThreadNum s.numThreads = s := by
  simp [resizeThreadNum, h.length_eq]

/-- Any other number leaves one of the tables with the old one. -/
theorem Whole.serves_resize_iff (h : s.Whole) (n : Nat) :
    s.Serves (.resizeThreadNum n) ↔ n = s.numThreads := by
  have hloops : s.loops.length = s.numThreads := by
    rw [h.inStep, List.length_map, h.length_eq]
  constructor
  · rintro ⟨hthreads, hlength, -⟩
    unfold resizeThreadNum at hthreads hlength
    dsimp only at hthreads hlength
    split at hlength
    · exact hlength.symm.trans hloops
    · rename_i hge
      rw [if_neg hge, h.length_eq, Nat.sub_self] at hthreads
      simp only [startThreads, ite_self, h.length_eq] at hthreads
      exact hthreads.symm
  · rintro rfl
    simp only [Serves, h.resize_self]
    exact ⟨h.length_eq, hloops, h.inStep⟩

theorem Whole.serves_getNextLoop (h : s.Whole) : s.Serves .getNextLoop := by
  have hfirst : s.getNextLoop.1 = if s.threads = [] then some .base else s.loops[s.next]? := by
    have hempty : s.loops.isEmpty = true ↔ s.threads = [] := by
      rw [h.inStep, List.isEmpty_iff, List.map_eq_nil_iff]
    simp only [EventLoopThreadPool.getNextLoop, hempty]
    split <;> rfl
  simp only [Serves, hfirst]
  split
  · rfl
  · rename_i hne
    have hnext : s.next < s.threads.length := by
      have hvalid := h.next.nextValid
      rw [NextValid, h.inStep, List.length_map] at hvalid
      exact hvalid (by simpa using hne)
    refine ⟨s.threads[s.next], List.getElem_mem hnext, ?_⟩
    rw [h.inStep, List.getElem?_map, List.getElem?_eq_getElem hnext, Option.map_some]

theorem Whole.getNextLoop (h : s.Whole) : s.getNextLoop.2.Whole := by
  refine ⟨?_, ?_, step_nextInv s .getNextLoop h.next⟩
  · simp only [EventLoopThreadPool.getNextLoop]
    split <;> exact h.length_eq
  · simp only [EventLoopThreadPool.getNextLoop]
    split <;> exact h.inStep

theorem getNextLoop_numThreads (s : EventLoopThreadPool) :
    s.getNextLoop.2.numThreads = s.numThreads := by
  unfold EventLoopThreadPool.getNextLoop
  split <;> rfl

/-- The first resize to another number breaks the tables. -/
theorem Whole.legal_iff_forall (h : s.Whole) (is : List LoopPoolCall) :
    Legal step Serves s is ↔ ∀ n, .resizeThreadNum n ∈ is → n = s.numThreads := by
  induction is generalizing s with
  | nil => exact iff_of_true trivial (by simp)
  | cons i is ih =>
    rw [legal_cons]
    cases i with
    | resizeThreadNum n =>
      rw [h.serves_resize_iff]
      constructor
      · rintro ⟨rfl, hrest⟩ m hm
        rw [step, h.resize_self, ih h] at hrest
        rcases List.mem_cons.mp hm with heq | hm
        · cases heq
          rfl
        · exact hrest m hm
      · intro hall
        have hn := hall n List.mem_cons_self
        subst hn
        rw [step, h.resize_self, ih h]
        exact ⟨rfl, fun m hm => hall m (List.mem_cons_of_mem _ hm)⟩
    | getNextLoop =>
      rw [and_iff_right h.serves_getNextLoop, step, ih h.getNextLoop, getNextLoop_numThreads]
      simp

/-- **Resizing the pool of loops.** For every pool that has been started and every sequence of
`ResizeThreadNum` and `GetNextLoop`: each resize leaves `threads_` and `loops_` with the number of
elements that was asked for, `loops_[i]` the loop of `threads_[i]`, each `GetNextLoop` returns the
loop of a thread in `threads_` (the base loop when there is none), and `next_` is an index of
`loops_` at any time, if and only if every resize asks for the number of threads that the pool was
started with. -/
theorem inStep_iff (numThreads : Nat) (is : List LoopPoolCall) :
    ((∀ pre i post, is = pre ++ i :: post → (pre.foldl step (start numThreads)).Serves i) ∧
      ∀ pre post, is = pre ++ post → (pre.foldl step (start numThreads)).NextValid) ↔
      ∀ n, .resizeThreadNum n ∈ is → n = numThreads := by
  have hwhole := start_whole numThreads
  have hnumber : (start numThreads).numThreads = numThreads := by rw [start_eq]
  have hvalid : ∀ pre post, is = pre ++ post →
      (pre.foldl step (start numThreads)).NextValid := by
    intro pre _ _
    exact (foldl_invariant (I := NextInv) step_nextInv hwhole.next pre).nextValid
  rw [and_iff_left hvalid, ← legal_iff, hwhole.legal_iff_forall, hnumber]

/-- Two loops. After a resize to one thread the second connection is given to the loop of a thread
that is gone; a resize to three threads makes none. -/
theorem twoLoops_stale :
    ¬ (start 2).Serves (.resizeThreadNum 1) ∧ ¬ (start 2).Serves (.resizeThreadNum 3) ∧
      ((start 2).resizeThreadNum 1).threads = [0] ∧
      ((start 2).resizeThreadNum 1).getNextLoop.2.getNextLoop.1 = some (.ofThread 1) ∧
      (start 2).resizeThreadNum 3 = start 2 := by
  decide

end EventLoopThreadPool

end MyTinyHttpd
