import MyTinyHttpd.Base.ThreadPool

/-!
# `ResizeThreadNum` of the pool

A pool whose threads change in number while it runs. To shrink, `ResizeThreadNum` drops `Thread`
objects from `threads_`. Their destructor detaches the threads, and nothing tells them to leave
`RunInThread`: they take tasks like the others, and `Stop` does not join them.

* `ResizedPool`: the pool with its detached threads. A thread runs the same code in both places.
* `Inv`: while the pool runs, no thread has left `RunInThread`.
* `resize_iff`: after every resize the number of threads is the one asked for, and `Stop` returns
  after all threads have left, exactly when no resize asks for fewer threads than there are.
-/

namespace MyTinyHttpd

open Verif

structure ResizedPool (τ : Type) where
  pool : ThreadPool τ
  /-- The threads whose `Thread` objects are gone. -/
  detached : List (WorkerPlace τ) := []

/-- The steps of a pool, of a detached thread, and `ResizeThreadNum(numThreads)`. -/
inductive ResizeStep (τ : Type) where
  | pool (i : PoolStep τ)
  | detached (i : PoolStep τ)
  | resize (numThreads : Nat)
  deriving DecidableEq

/-- What a thread does in `RunInThread`. -/
def PoolStep.isWorker {τ : Type} : PoolStep τ → Bool
  | .test _ | .pop _ | .execute _ => true
  | .start _ | .runCall _ | .runLock _ | .stop | .join => false

/-- The thread will come back for a task unless the pool stops. -/
def WorkerPlace.isLive {τ : Type} : WorkerPlace τ → Bool
  | .test | .popping | .running _ => true
  | .returned => false

namespace ResizedPool

variable {τ : Type} [DecidableEq τ] {s : ResizedPool τ}

/-- A pool before `Start`. -/
def make (maxQueueSize : Nat) : ResizedPool τ where
  pool := { maxQueueSize }

/-- `thread_num()`. -/
def threadNum (s : ResizedPool τ) : Nat := s.pool.threads.length

/-- All threads that were ever started. -/
def workers (s : ResizedPool τ) : List (WorkerPlace τ) := s.pool.threads ++ s.detached

/-- How many threads have not left `RunInThread`. -/
def liveWorkers (s : ResizedPool τ) : Nat := s.workers.countP WorkerPlace.isLive

def resizeThreadNum (s : ResizedPool τ) (numThreads : Nat) : ResizedPool τ :=
  let threads := s.pool.threads
  if numThreads < threads.length then
    { pool := { s.pool with threads := threads.take numThreads }
      detached := s.detached ++ threads.drop numThreads }
  else
    { s with
      pool := { s.pool with
        threads := threads ++ List.replicate (numThreads - threads.length) .test } }

/-- The pool as a detached thread sees it. -/
def seen (s : ResizedPool τ) : ThreadPool τ := { s.pool with threads := s.detached }

def step (s : ResizedPool τ) : ResizeStep τ → ResizedPool τ
  | .pool i => { s with pool := s.pool.step i }
  | .detached i =>
    let p := s.seen.step i
    { pool := { p with threads := s.pool.threads }, detached := p.threads }
  | .resize numThreads => s.resizeThreadNum numThreads

/-- `Run` may be called at any time, and `Stop` while calls of `Run` wait; `ResizeThreadNum` asserts
`running_`. -/
def Admissible (s : ResizedPool τ) : ResizeStep τ → Prop
  | .pool (.runCall _) => True
  | .pool .stop => s.pool.stopped = false
  | .pool i => s.pool.Admissible i
  | .detached i => i.isWorker = true ∧ s.seen.Admissible i
  | .resize numThreads => s.pool.running = true ∧ 1 ≤ numThreads

instance (s : ResizedPool τ) (i : ResizeStep τ) : Decidable (s.Admissible i) :=
  match i with
  | .pool (.runCall _) => isTrue trivial
  | .pool .stop => inferInstanceAs (Decidable (s.pool.stopped = false))
  | .pool (.start n) => inferInstanceAs (Decidable (s.pool.Admissible (.start n)))
  | .pool (.runLock task) => inferInstanceAs (Decidable (s.pool.Admissible (.runLock task)))
  | .pool (.test w) => inferInstanceAs (Decidable (s.pool.Admissible (.test w)))
  | .pool (.pop w) => inferInstanceAs (Decidable (s.pool.Admissible (.pop w)))
  | .pool (.execute w) => inferInstanceAs (Decidable (s.pool.Admissible (.execute w)))
  | .pool .join => inferInstanceAs (Decidable (s.pool.Admissible .join))
  | .detached i => inferInstanceAs (Decidable (i.isWorker = true ∧ s.seen.Admissible i))
  | .resize numThreads => inferInstanceAs (Decidable (s.pool.running = true ∧ 1 ≤ numThreads))

end ResizedPool

/-! ## What a thread changes -/

namespace ThreadPool

variable {τ : Type} {p : ThreadPool τ}

theorem setPlace_live {w : Nat} {place : WorkerPlace τ} (hplace : place ≠ .returned)
    (h : .returned ∉ p.threads) : .returned ∉ (p.setPlace w place).threads := by
  intro hmem
  rcases List.mem_or_eq_of_mem_set hmem with hmem | heq
  · exact h hmem
  · exact hplace heq.symm

/-- `Run` changes neither the flags nor the threads. -/
theorem runCall_frame (p : ThreadPool τ) (task : τ) :
    (p.runCall task).running = p.running ∧ (p.runCall task).stopped = p.stopped ∧
      (p.runCall task).threads = p.threads := by
  unfold runCall
  split <;> exact ⟨rfl, rfl, rfl⟩

variable [DecidableEq τ]

/-- A thread moves between its places, and leaves `RunInThread` only when the pool has stopped. -/
theorem worker_step (p : ThreadPool τ) {i : PoolStep τ} (hi : i.isWorker = true) :
    (p.step i).running = p.running ∧ (p.step i).stopped = p.stopped ∧
      (p.step i).threads.length = p.threads.length ∧
      (p.running = true → .returned ∉ p.threads → .returned ∉ (p.step i).threads) := by
  cases i with
  | test w =>
    refine ⟨rfl, rfl, List.length_set, fun hrun => ?_⟩
    simp only [ThreadPool.step, testRunning, hrun]
    exact setPlace_live (by simp)
  | pop w =>
    simp only [ThreadPool.step, pop]
    split
    · exact ⟨rfl, rfl, List.length_set, fun _ => setPlace_live (by simp)⟩
    · split
      · exact ⟨rfl, rfl, rfl, fun _ => id⟩
      · exact ⟨rfl, rfl, List.length_set, fun _ => setPlace_live (by simp)⟩
  | execute w =>
    simp only [ThreadPool.step, execute]
    split
    · exact ⟨rfl, rfl, List.length_set, fun _ => setPlace_live (by simp)⟩
    · exact ⟨rfl, rfl, rfl, fun _ => id⟩
  | start | runCall | runLock | stop | join => cases hi

theorem runLock_frame (p : ThreadPool τ) (task : τ) :
    (p.runLock task).running = p.running ∧ (p.runLock task).stopped = p.stopped ∧
      (p.runLock task).threads = p.threads := by
  unfold runLock
  split
  · exact ⟨rfl, rfl, rfl⟩
  · dsimp only
    split <;> exact ⟨rfl, rfl, rfl⟩

end ThreadPool

namespace ResizedPool

variable {τ : Type} {s : ResizedPool τ}

/-! ## While the pool runs -/

/-- Threads exist once the pool has been started, and stay until it is stopped. -/
structure Inv (s : ResizedPool τ) : Prop where
  running : s.pool.running = true → s.pool.stopped = false
  started : s.workers ≠ [] → s.pool.running = true ∨ s.pool.stopped = true
  live : s.pool.running = true → .returned ∉ s.workers

theorem make_inv (maxQueueSize : Nat) : (make maxQueueSize : ResizedPool τ).Inv :=
  ⟨by simp [make], by simp [make, workers], by simp [make]⟩

/-- Steps that change the places of the threads at most. -/
theorem Inv.of_workers (h : s.Inv) {s' : ResizedPool τ}
    (hrunning : s'.pool.running = s.pool.running) (hstopped : s'.pool.stopped = s.pool.stopped)
    (hlength : s'.workers.length = s.workers.length)
    (hlive : s.pool.running = true → .returned ∉ s.workers → .returned ∉ s'.workers) : s'.Inv := by
  refine ⟨?_, fun hne => ?_, fun hrun => ?_⟩
  · rw [hrunning, hstopped]
    exact h.running
  · rw [hrunning, hstopped]
    refine h.started fun hnil => hne (List.length_eq_zero_iff.mp ?_)
    rw [hlength, hnil]
    rfl
  · rw [hrunning] at hrun
    exact hlive hrun (h.live hrun)

theorem notMem_workers : .returned ∉ s.workers ↔
    .returned ∉ s.pool.threads ∧ .returned ∉ s.detached := by
  rw [workers, List.mem_append, not_or]

/-- Steps of the pool that change no thread. -/
theorem Inv.of_threads (h : s.Inv) {pool : ThreadPool τ} (hrunning : pool.running = s.pool.running)
    (hstopped : pool.stopped = s.pool.stopped) (hthreads : pool.threads = s.pool.threads) :
    { s with pool }.Inv := by
  have hworkers : { s with pool }.workers = s.workers := congrArg (· ++ s.detached) hthreads
  refine h.of_workers hrunning hstopped (by rw [hworkers]) fun _ hold => ?_
  rw [hworkers]
  exact hold

theorem mem_workers_resize (s : ResizedPool τ) (n : Nat) {place : WorkerPlace τ}
    (h : place ∈ (s.resizeThreadNum n).workers) : place ∈ s.workers ∨ place = .test := by
  unfold resizeThreadNum at h
  dsimp only at h
  split at h
  · simp only [workers, List.mem_append] at h ⊢
    rcases h with h | h | h
    · exact .inl (.inl (List.mem_of_mem_take h))
    · exact .inl (.inr h)
    · exact .inl (.inl (List.mem_of_mem_drop h))
  · simp only [workers, List.mem_append, List.mem_replicate] at h ⊢
    rcases h with (h | h) | h
    · exact .inl (.inl h)
    · exact .inr h.2
    · exact .inl (.inr h)

theorem resizeThreadNum_flags (s : ResizedPool τ) (n : Nat) :
    (s.resizeThreadNum n).pool.running = s.pool.running ∧
      (s.resizeThreadNum n).pool.stopped = s.pool.stopped := by
  unfold resizeThreadNum
  dsimp only
  split <;> exact ⟨rfl, rfl⟩

theorem Inv.resizeThreadNum (h : s.Inv) (hrun : s.pool.running = true) (n : Nat) :
    (s.resizeThreadNum n).Inv := by
  obtain ⟨hrunning, hstopped⟩ := s.resizeThreadNum_flags n
  refine ⟨?_, fun _ => .inl (hrunning.trans hrun), fun _ hmem => ?_⟩
  · rw [hrunning, hstopped]
    exact h.running
  · rcases s.mem_workers_resize n hmem with hmem | heq
    · exact h.live hrun hmem
    · cases heq

/-! ## Resizing -/

/-- While the pool runs, all threads are live. -/
theorem Inv.liveWorkers_eq (h : s.Inv) (hrun : s.pool.running = true) :
    s.liveWorkers = s.workers.length := by
  refine List.countP_eq_length.mpr fun place hmem => ?_
  cases place with
  | returned => exact absurd hmem (h.live hrun)
  | test | popping | running => rfl

theorem threadNum_resize (s : ResizedPool τ) (n : Nat) : (s.resizeThreadNum n).threadNum = n := by
  unfold threadNum resizeThreadNum
  dsimp only
  split
  · simp only [List.length_take]
    omega
  · simp only [List.length_append, List.length_replicate]
    omega

/-- No thread is lost when the pool shrinks. -/
theorem length_workers_le_resize (s : ResizedPool τ) (n : Nat) :
    s.workers.length ≤ (s.resizeThreadNum n).workers.length := by
  unfold resizeThreadNum workers
  dsimp only
  split
  · simp only [List.length_append, List.length_take, List.length_drop]
    omega
  · simp only [List.length_append, List.length_replicate]
    omega

theorem resizeThreadNum_detached {n : Nat} (h : s.threadNum ≤ n) :
    (s.resizeThreadNum n).detached = s.detached := by
  have hnot : ¬ n < s.pool.threads.length := Nat.not_lt.mpr h
  rw [resizeThreadNum, if_neg hnot]

theorem Inv.liveWorkers_resize (h : s.Inv) (hrun : s.pool.running = true) (n : Nat) :
    (s.resizeThreadNum n).liveWorkers = (s.resizeThreadNum n).workers.length :=
  (h.resizeThreadNum hrun n).liveWorkers_eq ((s.resizeThreadNum_flags n).1.trans hrun)

/-- A pool that shrinks has more threads than were asked for. -/
theorem Inv.threadNum_le (h : s.Inv) (hrun : s.pool.running = true) {n : Nat}
    (hlive : (s.resizeThreadNum n).liveWorkers = n) : s.threadNum ≤ n := by
  have hle := s.length_workers_le_resize n
  rw [← h.liveWorkers_resize hrun, hlive] at hle
  have hthreads : s.threadNum ≤ s.workers.length := by simp [threadNum, workers]
  omega

/-- The number of threads is what was asked for when there was no thread to drop, now or before. -/
theorem Inv.liveWorkers_grow (h : s.Inv) (hrun : s.pool.running = true)
    (hdetached : s.detached = []) {n : Nat} (hn : s.threadNum ≤ n) :
    (s.resizeThreadNum n).liveWorkers = n := by
  rw [h.liveWorkers_resize hrun, workers, resizeThreadNum_detached hn, hdetached, List.append_nil]
  exact s.threadNum_resize n

/-! ## Runs -/

variable [DecidableEq τ]

theorem step_inv (h : s.Inv) {i : ResizeStep τ} (hi : s.Admissible i) : (s.step i).Inv := by
  cases i with
  | resize n => exact h.resizeThreadNum hi.1 n
  | detached i =>
    obtain ⟨hrunning, hstopped, hlength, hlive⟩ := ThreadPool.worker_step s.seen hi.1
    refine h.of_workers hrunning hstopped ?_ fun hrun hold => ?_
    · simp only [step, workers, List.length_append, hlength]
      rfl
    · rw [notMem_workers] at hold ⊢
      exact ⟨hold.1, hlive hrun hold.2⟩
  | pool i =>
    by_cases hw : i.isWorker = true
    · obtain ⟨hrunning, hstopped, hlength, hlive⟩ := ThreadPool.worker_step s.pool hw
      refine h.of_workers hrunning hstopped ?_ fun hrun hold => ?_
      · simp only [step, workers, List.length_append, hlength]
      · rw [notMem_workers] at hold ⊢
        exact ⟨hlive hrun hold.1, hold.2⟩
    · cases i with
      | start n =>
        obtain ⟨hnone, hnot⟩ := hi
        -- A pool that is not running has no threads yet.
        have hdetached : .returned ∉ s.detached := by
          intro hmem
          have hmem : .returned ∈ s.workers := List.mem_append_right _ hmem
          rcases h.started (List.ne_nil_of_mem hmem) with hrun | hstop
          · exact h.live hrun hmem
          · rw [hnot] at hstop
            cases hstop
        refine ⟨fun _ => hnot, fun _ => .inl rfl, fun _ => notMem_workers.mpr ⟨?_, hdetached⟩⟩
        intro hmem
        cases List.eq_of_mem_replicate hmem
      | runCall task =>
        obtain ⟨hrunning, hstopped, hthreads⟩ := s.pool.runCall_frame task
        exact h.of_threads hrunning hstopped hthreads
      | runLock task =>
        obtain ⟨hrunning, hstopped, hthreads⟩ := s.pool.runLock_frame task
        exact h.of_threads hrunning hstopped hthreads
      | stop =>
        have hrun : ¬ (s.step (.pool .stop)).pool.running = true := by simp [step, ThreadPool.step]
        exact ⟨fun h => absurd h hrun, fun _ => .inr rfl, fun h => absurd h hrun⟩
      | join => exact ⟨h.running, h.started, h.live⟩
      | test | pop | execute => exact absurd rfl hw

/-- The step does not ask for fewer threads than there are. -/
def KeepsThreads (s : ResizedPool τ) : ResizeStep τ → Prop
  | .resize numThreads => s.threadNum ≤ numThreads
  | .pool _ | .detached _ => True

instance (s : ResizedPool τ) (i : ResizeStep τ) : Decidable (s.KeepsThreads i) :=
  match i with
  | .resize numThreads => inferInstanceAs (Decidable (s.threadNum ≤ numThreads))
  | .pool _ | .detached _ => isTrue trivial

theorem step_detached (hdetached : s.detached = []) {i : ResizeStep τ} (hi : s.Admissible i)
    (hkeeps : s.KeepsThreads i) : (s.step i).detached = [] := by
  cases i with
  | pool i => exact hdetached
  | detached i =>
    obtain ⟨-, -, hlength, -⟩ := ThreadPool.worker_step s.seen hi.1
    refine List.length_eq_zero_iff.mp ?_
    rw [step, hlength, seen, hdetached]
    rfl
  | resize n => exact (resizeThreadNum_detached hkeeps).trans hdetached

/-- **Resizing the pool.** For every run of a pool with any number of callers and of resizes to at
least one thread: after each `ResizeThreadNum(n)` the threads that take tasks and `thread_num()` are
`n`, and `Stop` returns only after every thread that was ever started has left `RunInThread`, if and
only if no resize asks for fewer threads than the pool has. -/
theorem resize_iff (maxQueueSize : Nat) {is : List (ResizeStep τ)}
    (h : Legal step Admissible (make maxQueueSize) is) :
    ((∀ pre n post, is = pre ++ .resize n :: post →
        let s := (pre.foldl step (make maxQueueSize)).resizeThreadNum n
        s.liveWorkers = n ∧ s.threadNum = n) ∧
      ∀ pre post, is = pre ++ .pool .join :: post →
        ∀ place ∈ (pre.foldl step (make maxQueueSize)).workers, place = .returned) ↔
      ∀ pre n post, is = pre ++ .resize n :: post →
        (pre.foldl step (make maxQueueSize)).threadNum ≤ n := by
  have hinv : ∀ pre i post, is = pre ++ i :: post →
      (pre.foldl step (make maxQueueSize)).Inv ∧
        (pre.foldl step (make maxQueueSize)).Admissible i := by
    rintro pre i post rfl
    have hpre := (legal_append.mp h).1
    refine ⟨?_, legal_iff.mp h pre i post rfl⟩
    exact legal_invariant (I := Inv) (fun _ _ hs hi => step_inv hs hi) (make_inv maxQueueSize) hpre
  constructor
  · rintro ⟨hsize, -⟩ pre n post he
    obtain ⟨hinv, hok⟩ := hinv pre _ post he
    exact hinv.threadNum_le hok.1 (hsize pre n post he).1
  · intro hkeeps
    have hlegal : Legal step (fun s i => s.Admissible i ∧ s.KeepsThreads i) (make maxQueueSize)
        is := by
      refine legal_and h (legal_iff.mpr fun pre i post he => ?_)
      cases i with
      | pool | detached => trivial
      | resize n => exact hkeeps pre n post he
    have hnone : ∀ pre i post, is = pre ++ i :: post →
        (pre.foldl step (make maxQueueSize)).detached = [] := by
      rintro pre i post rfl
      exact legal_invariant (I := fun s => s.detached = [])
        (fun _ _ hs hi => step_detached hs hi.1 hi.2) rfl (legal_append.mp hlegal).1
    refine ⟨fun pre n post he => ⟨?_, threadNum_resize _ n⟩, fun pre post he => ?_⟩
    · obtain ⟨hinv, hok⟩ := hinv pre _ post he
      exact hinv.liveWorkers_grow hok.1 (hnone pre _ post he) (hkeeps pre n post he)
    · have hjoin := (hinv pre _ post he).2
      rw [workers, hnone pre _ post he, List.append_nil]
      exact hjoin.2.1

/-- A pool that grows from one thread to two; a task is run, and the pool stops. -/
def growing : List (ResizeStep Nat) :=
  [.pool (.start 1), .resize 2, .pool (.runCall 7), .pool (.runLock 7), .pool (.test 1),
    .pool (.pop 1), .pool .stop, .pool (.test 0), .pool (.execute 1), .pool (.test 1), .pool .join]

theorem growing_joined :
    Legal step Admissible (make 0) growing ∧
      ∀ pre post, growing = pre ++ .pool .join :: post →
        ∀ place ∈ (pre.foldl step (make 0)).workers, place = .returned := by
  have hlegal : Legal step Admissible (make 0) growing := by decide
  have hkeeps : Legal step KeepsThreads (make 0) growing := by decide
  refine ⟨hlegal, ((resize_iff 0 hlegal).mpr fun pre n post he => ?_).2⟩
  exact legal_iff.mp hkeeps pre _ post he

/-- A pool of two threads that is resized to one. The thread that is dropped takes a task, and
`Stop` returns while it runs it. -/
def shrinking : List (ResizeStep Nat) :=
  [.pool (.start 2), .resize 1, .pool (.runCall 7), .pool (.runLock 7), .detached (.test 0),
    .detached (.pop 0), .pool .stop, .pool (.test 0), .pool .join]

theorem shrinking_leaves :
    Legal step Admissible (make 0) shrinking ∧
      ((shrinking.take 2).foldl step (make 0)).liveWorkers = 2 ∧
      ((shrinking.take 2).foldl step (make 0)).threadNum = 1 ∧
      .running 7 ∈ (shrinking.foldl step (make 0)).workers := by
  decide

end ResizedPool

end MyTinyHttpd
