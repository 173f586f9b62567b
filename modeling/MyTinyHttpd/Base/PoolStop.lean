import MyTinyHttpd.Base.ThreadPool
import MyTinyHttpd.Lib.Seq

/-!
# The tasks that `Stop` of the pool leaves

After `Stop` has cleared `running_`, a thread that comes to the condition of its loop returns, with
tasks in the queue or without. A thread that is in `Pop` by then still takes a task if there is one,
and runs it. So each thread in `Pop` saves one task.

* `all_executed_iff`: all tasks are executed when `Stop` returns, each once, exactly when `Stop`
  finds no more tasks in the queue than threads in `Pop`.
-/

namespace MyTinyHttpd

open Verif

namespace ThreadPool

variable {τ : Type} {s : ThreadPool τ}

/-! ## The threads -/

/-- The tasks that the threads have. -/
def inHand (s : ThreadPool τ) : List τ := s.threads.filterMap WorkerPlace.task

def isPopping : WorkerPlace τ → Bool
  | .popping => true
  | .test | .running _ | .returned => false

/-- How many threads are in `Pop`. -/
def inPop (s : ThreadPool τ) : Nat := s.threads.countP isPopping

/-- One thread moves. -/
theorem setPlace_inPop {w : Nat} {old : WorkerPlace τ} (h : s.threads[w]? = some old)
    (new : WorkerPlace τ) :
    (s.setPlace w new).inPop + (if isPopping old then 1 else 0) =
      s.inPop + if isPopping new then 1 else 0 := by
  obtain ⟨l₁, l₂, hthreads, hset⟩ := set_split h
  simp only [inPop, setPlace, hset]
  rw [hthreads]
  simp only [List.countP_append, List.countP_cons]
  omega

/-! ## Threads and tasks after the store -/

/-- There is a thread in `Pop` for each task in the queue. -/
def Enough (s : ThreadPool τ) : Prop := s.queue.length ≤ s.inPop

theorem testRunning_enough (hrunning : s.running = false) {w : Nat}
    (hw : s.threads[w]? = some .test) : (s.testRunning w).Enough ↔ s.Enough := by
  have hmove := setPlace_inPop hw .returned
  simp only [isPopping, Bool.false_eq_true, if_false, Nat.add_zero] at hmove
  simp only [Enough, testRunning, hrunning, Bool.false_eq_true, if_false]
  rw [hmove]
  rfl

/-- A thread in `Pop` takes one task, if there is one. -/
theorem pop_enough (hrunning : s.running = false) {w : Nat}
    (hw : s.threads[w]? = some .popping) : (s.pop w).Enough ↔ s.Enough := by
  unfold pop
  split
  · next task queue hqueue =>
    have hmove := setPlace_inPop hw (.running task)
    simp only [isPopping, if_true, Bool.false_eq_true, if_false, Nat.add_zero] at hmove
    rw [Enough, Enough, hqueue, List.length_cons, ← hmove]
    exact Nat.succ_le_succ_iff.symm
  · next hqueue => simp [Enough, setPlace, hrunning, hqueue]

theorem execute_enough (w : Nat) : (s.execute w).Enough ↔ s.Enough := by
  unfold execute
  split
  · next task htask =>
    obtain ⟨place, hplace, htask⟩ := Option.bind_eq_some_iff.mp htask
    have hmove := setPlace_inPop hplace .test
    have hbusy : isPopping place = false := by
      cases place with
      | popping => cases htask
      | test | running | returned => rfl
    rw [hbusy] at hmove
    simp only [isPopping, Bool.false_eq_true, if_false, Nat.add_zero] at hmove
    rw [Enough, Enough, ← hmove]
    rfl
  · rfl

/-! ## Every task is in one place -/

variable [DecidableEq τ]

theorem setPlace_inHand {w : Nat} {old : WorkerPlace τ} (h : s.threads[w]? = some old)
    (new : WorkerPlace τ) (t : τ) :
    (s.setPlace w new).inHand.count t + old.task.toList.count t =
      s.inHand.count t + new.task.toList.count t := by
  obtain ⟨l₁, l₂, hthreads, hset⟩ := set_split h
  have hcons : ∀ place : WorkerPlace τ, (l₁ ++ place :: l₂).filterMap WorkerPlace.task =
      l₁.filterMap WorkerPlace.task ++ (place.task.toList ++ l₂.filterMap WorkerPlace.task) := by
    intro place
    rw [List.filterMap_append, List.filterMap_cons]
    cases place.task <;> rfl
  simp only [inHand, setPlace, hset]
  rw [hthreads]
  simp only [hcons, List.count_append]
  omega

structure PoolInv (s : ThreadPool τ) : Prop where
  tasks : ∀ t, s.returned.count t = s.executed.count t + s.inHand.count t + s.queue.count t
  running : s.threads ≠ [] → s.stopped = false → s.running = true
  calls : s.calls ≠ [] → s.threads ≠ []
  stopped : s.stopped = true → s.running = false ∧ s.calls = []
  joined : s.joined = true → s.stopped = true ∧ ∀ place ∈ s.threads, place = .returned

/-- A thread moves; its task and the queue are as `htasks` says. -/
theorem PoolInv.move (h : PoolInv s) {w : Nat} {old new : WorkerPlace τ}
    (hold : s.threads[w]? = some old) (hlive : old ≠ .returned) {executed queue : List τ}
    (htasks : ∀ t, s.executed.count t + old.task.toList.count t + s.queue.count t =
      executed.count t + new.task.toList.count t + queue.count t) :
    PoolInv ({ s with executed, queue }.setPlace w new) := by
  have hne : (s.threads.set w new = []) ↔ s.threads = [] := by simp
  refine ⟨fun t => ?_, fun hthreads => ?_, fun hcalls => ?_, h.stopped, fun hjoined => ?_⟩
  · have hhand := setPlace_inHand hold new t
    have htask := htasks t
    have hbefore := h.tasks t
    show s.returned.count t = executed.count t + (s.setPlace w new).inHand.count t + queue.count t
    omega
  · exact h.running fun hnil => hthreads (hne.mpr hnil)
  · exact fun hnil => h.calls hcalls (hne.mp hnil)
  · exact absurd ((h.joined hjoined).2 old (List.mem_of_getElem? hold)) hlive

theorem PoolInv.start (h : PoolInv s) (hthreads : s.threads = []) (hstopped : s.stopped = false)
    (numThreads : Nat) : PoolInv (s.start numThreads) := by
  have hcalls : s.calls = [] := not_not.mp fun hne => h.calls hne hthreads
  refine ⟨fun t => ?_, fun _ _ => rfl, fun hne => absurd hcalls hne, fun hs => ?_, fun hj => ?_⟩
  · have hfresh : (List.replicate numThreads (.test : WorkerPlace τ)).filterMap
        WorkerPlace.task = [] := by
      refine List.filterMap_eq_nil_iff.mpr fun place hplace => ?_
      rw [List.eq_of_mem_replicate hplace]
      rfl
    have htasks := h.tasks t
    rw [inHand, hthreads] at htasks
    simp only [ThreadPool.start, inHand, hfresh]
    exact htasks
  · exact absurd hs (by simp [ThreadPool.start, hstopped])
  · exact absurd (h.joined hj).1 (by simp [hstopped])

theorem PoolInv.runCall (h : PoolInv s) (hstopped : s.stopped = false) (task : τ) :
    PoolInv (s.runCall task) := by
  unfold ThreadPool.runCall
  split
  · refine ⟨fun t => ?_, h.running, h.calls, h.stopped, h.joined⟩
    have htasks := h.tasks t
    simp only [List.count_append]
    show _ = _ + s.inHand.count t + _
    omega
  · next hne =>
    refine ⟨h.tasks, h.running, fun _ => by simpa using hne, fun hs => ?_, h.joined⟩
    exact absurd hs (by simp [hstopped])

theorem PoolInv.runLock (h : PoolInv s) {task : τ} (htask : task ∈ s.calls) :
    PoolInv (s.runLock task) := by
  have hcalls := List.ne_nil_of_mem htask
  have hstopped : s.stopped = false := by
    rw [← Bool.not_eq_true]
    exact fun hs => hcalls (h.stopped hs).2
  have hrunning := h.running (h.calls hcalls) hstopped
  simp only [ThreadPool.runLock, hrunning, Bool.true_and, if_true]
  split
  · exact h
  · refine ⟨fun t => ?_, fun _ _ => rfl, fun hne => ?_, fun hs => ?_, h.joined⟩
    · have htasks := h.tasks t
      simp only [List.count_append]
      show _ = _ + s.inHand.count t + _
      omega
    · exact h.calls hcalls
    · exact absurd hs (by simp [hstopped])

theorem PoolInv.pop (h : PoolInv s) {w : Nat} (hw : s.threads[w]? = some .popping) :
    PoolInv (s.pop w) := by
  unfold ThreadPool.pop
  split
  · next task queue hqueue =>
    refine h.move hw (by simp) fun t => ?_
    rw [hqueue]
    simp [WorkerPlace.task, List.count_cons]
    omega
  · split
    · exact h
    · exact h.move hw (by simp) fun t => rfl

theorem PoolInv.execute (h : PoolInv s) (w : Nat) : PoolInv (s.execute w) := by
  unfold ThreadPool.execute
  split
  · next task htask =>
    obtain ⟨place, hplace, htask⟩ := Option.bind_eq_some_iff.mp htask
    refine h.move hplace ?_ fun t => ?_
    · rintro rfl
      cases htask
    · rw [htask]
      simp [WorkerPlace.task]
  · exact h

theorem PoolInv.step (h : PoolInv s) {i : PoolStep τ} (hi : s.Admissible i) :
    PoolInv (s.step i) := by
  cases i with
  | start numThreads => exact h.start hi.1 hi.2 numThreads
  | runCall task => exact h.runCall hi task
  | runLock task => exact h.runLock hi
  | test w =>
    refine h.move hi (by simp) fun t => ?_
    split <;> rfl
  | pop w => exact h.pop hi
  | execute w => exact h.execute w
  | stop =>
    exact ⟨h.tasks, fun _ hs => by simp [ThreadPool.step] at hs, h.calls, fun _ => ⟨rfl, hi.1⟩,
      fun hj => absurd (h.joined hj).1 (by simp [hi.2])⟩
  | join => exact ⟨h.tasks, h.running, h.calls, h.stopped, fun _ => ⟨hi.1, hi.2.1⟩⟩

theorem poolInv_run {maxQueueSize : Nat} {is : List (PoolStep τ)}
    (h : Legal step Admissible ({ maxQueueSize } : ThreadPool τ) is) :
    PoolInv (is.foldl step ({ maxQueueSize } : ThreadPool τ)) := by
  refine legal_invariant (I := PoolInv) (fun s i hs hi => hs.step hi) ?_ h
  exact ⟨fun t => rfl, by simp, by simp, by simp, by simp⟩

/-! ## From the store to the end -/

/-- After the store each step keeps what `C` says about the queue and the threads in `Pop`. -/
structure Stopped (C : Prop) (s : ThreadPool τ) : Prop where
  inv : PoolInv s
  stopped : s.stopped = true
  enough : s.Enough ↔ C

theorem Stopped.step {C : Prop} (h : Stopped C s) {i : PoolStep τ} (hi : s.Admissible i) :
    Stopped C (s.step i) := by
  have hinv := h.inv.step hi
  obtain ⟨hrunning, hcalls⟩ := h.inv.stopped h.stopped
  have hno : s.stopped ≠ false := by simp [h.stopped]
  cases i with
  | start => exact absurd hi.2 hno
  | runCall => exact absurd hi hno
  | runLock task =>
    have hmem : task ∈ s.calls := hi
    simp [hcalls] at hmem
  | test w => exact ⟨hinv, h.stopped, (testRunning_enough hrunning hi).trans h.enough⟩
  | pop w =>
    refine ⟨hinv, ?_, (pop_enough hrunning hi).trans h.enough⟩
    simp only [ThreadPool.step, pop]
    split
    · exact h.stopped
    · split <;> exact h.stopped
  | execute w =>
    refine ⟨hinv, ?_, (execute_enough w).trans h.enough⟩
    simp only [ThreadPool.step, execute]
    split <;> exact h.stopped
  | stop => exact absurd hi.2 hno
  | join => exact ⟨hinv, h.stopped, h.enough⟩

/-- When all threads have returned, the tasks that were not executed are in the queue. -/
theorem PoolInv.executed_iff (h : PoolInv s) (hreturned : ∀ place ∈ s.threads, place = .returned) :
    s.executed.Perm s.returned ↔ s.Enough := by
  have hhand : s.inHand = [] := by
    refine List.filterMap_eq_nil_iff.mpr fun place hplace => ?_
    rw [hreturned place hplace]
    rfl
  have hpop : s.inPop = 0 := by
    refine List.countP_eq_zero.mpr fun place hplace => ?_
    rw [hreturned place hplace]
    simp [isPopping]
  rw [Enough, hpop, Nat.le_zero, List.length_eq_zero_iff]
  constructor
  · intro hperm
    refine List.eq_nil_iff_forall_not_mem.mpr fun t ht => ?_
    have htasks := h.tasks t
    have hcount := hperm.count_eq t
    have hpos := List.count_pos_iff.mpr ht
    omega
  · intro hqueue
    refine List.perm_iff_count.mpr fun t => ?_
    have htasks := h.tasks t
    rw [hhand, hqueue, List.count_nil] at htasks
    omega

/-- When `Stop` has returned, the tasks of all calls of `Run` have been executed, each once, if and
only if `Stop` has found no more tasks in the queue than threads in `Pop`. -/
theorem all_executed_iff (maxQueueSize : Nat) (pre post : List (PoolStep τ))
    (h : Legal step Admissible ({ maxQueueSize } : ThreadPool τ) (pre ++ .stop :: post))
    (hjoined :
      ((pre ++ .stop :: post).foldl step ({ maxQueueSize } : ThreadPool τ)).joined = true) :
    let s := (pre ++ .stop :: post).foldl step ({ maxQueueSize } : ThreadPool τ)
    s.executed.Perm s.returned ↔ (pre.foldl step ({ maxQueueSize } : ThreadPool τ)).Enough := by
  intro final
  obtain ⟨hpre, hstop, hpost⟩ := legal_append.mp h
  have hinv := poolInv_run hpre
  have hfinal : final = post.foldl step ((pre.foldl step { maxQueueSize }).step .stop) := by
    simp only [final, List.foldl_append, List.foldl_cons]
  set s := pre.foldl step ({ maxQueueSize } : ThreadPool τ)
  have hend : Stopped s.Enough final := by
    rw [hfinal]
    exact legal_invariant (I := Stopped s.Enough) (fun t i ht hi => ht.step hi)
      ⟨hinv.step hstop, rfl, Iff.rfl⟩ hpost
  rw [hend.inv.executed_iff (hend.inv.joined hjoined).2, hend.enough]

/-- Two threads wait in `Pop` when `Stop` comes; there is one task for each. -/
def twoWaiting : List (PoolStep Nat) × List (PoolStep Nat) :=
  ([.start 2, .test 0, .test 1, .runCall 7, .runCall 8, .runLock 7, .runLock 8],
    [.pop 1, .pop 0, .execute 0, .execute 1, .test 0, .test 1, .join])

instance (s : ThreadPool τ) : Decidable s.Enough :=
  inferInstanceAs (Decidable (s.queue.length ≤ s.inPop))

theorem twoWaiting_executed :
    let is := twoWaiting.1 ++ .stop :: twoWaiting.2
    let s := is.foldl step ({} : ThreadPool Nat)
    Legal step Admissible ({} : ThreadPool Nat) is ∧ s.joined = true ∧
      s.executed.Perm s.returned := by
  have h : Legal step Admissible ({} : ThreadPool Nat)
      (twoWaiting.1 ++ .stop :: twoWaiting.2) := by decide +kernel
  have hjoined : ((twoWaiting.1 ++ .stop :: twoWaiting.2).foldl step
      ({} : ThreadPool Nat)).joined = true := by decide +kernel
  refine ⟨h, hjoined, (all_executed_iff 0 twoWaiting.1 twoWaiting.2 h hjoined).mpr ?_⟩
  decide +kernel

/-- One thread, which has not come to `Pop` when `Stop` comes. -/
def stopBeforePop : List (PoolStep Nat) :=
  [.start 1, .runCall 7, .runLock 7, .stop, .test 0, .join]

theorem stopBeforePop_not_executed :
    Legal step Admissible ({} : ThreadPool Nat) stopBeforePop ∧
      let s := stopBeforePop.foldl step ({} : ThreadPool Nat)
      s.joined = true ∧ ¬ s.executed.Perm s.returned := by
  decide +kernel

end ThreadPool

end MyTinyHttpd
