import MyTinyHttpd.Base.PoolResize
import MyTinyHttpd.Base.PoolRun

/-!
# The critical sections of the pool in one step

`Base/ThreadPool.lean` takes the critical sections of `Run`, `Pop` and `Stop` as one step each, and
has no notifications. In `Base/PoolRun.lean` they are the statements between the lock and the
unlock. A call takes effect with its statement that changes `queue_` or `running_`.

* `view`: what the others can see of a call.
* `Matches s p`: the pool `p` is the threads `s` with every call that has taken effect.
* `pool_refines`: every run of the threads is a run of the pool of `Base/PoolResize.lean`, in which
  `Run` may be called at any time and `Stop` while calls of `Run` wait.
* `pool_refines_orderly`: it is a run of the pool of `Base/PoolStop.lean` when `Stop` is called
  once, after all calls of `Run` have returned.
-/

namespace MyTinyHttpd

open Verif

/-- What the others can see of a call. -/
inductive PoolView (τ : Type) where
  | idle
  /-- In `Run`, before the task is in the queue. -/
  | calling (task : τ)
  /-- In `Run`, after it. -/
  | called (task : τ)
  /-- In `Pop`, after the task has been taken from the queue. -/
  | taken (locals : PoolLocals τ)
  deriving DecidableEq

namespace PoolRun

open PoolWait

variable {τ : Type}

def view : LockPlace (PoolCall τ) (PoolLocals τ) → PoolView τ
  | .locking (.run task) | .locked (.run task) | .test (.run task) | .wait (.run task)
  | .unassigned (.run task) | .asleep (.run task) | .woken (.run task) => .calling task
  | .body (.run task) next _ => if next ≤ 2 then .calling task else .called task
  | .unlocking (.run task) _ => .called task
  | .body .pop next r => if next ≤ 1 then .idle else .taken r
  | .unlocking .pop r => .taken r
  | _ => .idle

theorem view_wake (place : LockPlace (PoolCall τ) (PoolLocals τ)) :
    view place.wake = view place := by
  cases place with
  | asleep op => cases op <;> rfl
  | out | locking | locked | test | wait | unassigned | woken | body | unlocking => rfl

/-- A call of `Run` that has not taken effect. -/
theorem callOf_of_view {place : LockPlace (PoolCall τ) (PoolLocals τ)} {task : τ}
    (h : view place = .calling task) : Locked.callOf place = some (.run task) := by
  cases place with
  | out => cases h
  | locking op | locked op | test op | wait op | unassigned op | asleep op | woken op =>
    cases op <;> cases h
    rfl
  | body op next r =>
    cases op <;> simp only [view] at h <;> try split at h
    all_goals cases h
    rfl
  | unlocking op r => cases op <;> cases h

def views (s : PoolRun τ) : List (PoolView τ) := s.pool.threads.map view

/-- Where a thread of the pool is, once `Pop` has taken effect. -/
def placeOf (worker : WorkerPlace τ) : Option (PoolView τ) → WorkerPlace τ
  | some (.taken r) => afterPop r
  | some .idle | some (.calling _) | some (.called _) | none => worker

def runOf : PoolCall τ → Option τ
  | .run task => some task
  | .pop | .stop | .queueSize => none

/-- The tasks of the calls of `Run` that have returned. -/
def runs (log : List (Nat × PoolCall τ × PoolLocals τ)) : List τ :=
  log.filterMap fun entry => runOf entry.2.1

variable {maxQueueSize n k : Nat} {s s' : PoolRun τ} {p : ThreadPool τ}

/-- The view of a thread. -/
theorem views_eq {t : Nat} {place : LockPlace (PoolCall τ) (PoolLocals τ)}
    (ht : s.pool.threads[t]? = some place) : s.views[t]? = some (view place) := by
  rw [views, List.getElem?_map, ht]
  rfl

section Places

variable {threads workers : List (WorkerPlace τ)} {views : List (PoolView τ)}
  (h : ∀ w : Nat, threads[w]? = workers[w]?.map (placeOf · views[w]?))
include h

/-- A thread of the pool moves. -/
theorem places_set {t : Nat} {old : WorkerPlace τ} (hold : workers[t]? = some old) {v : PoolView τ}
    (hv : views[t]? = some v) (worker : WorkerPlace τ) (v' : PoolView τ) (w : Nat) :
    (threads.set t (placeOf worker (some v')))[w]? =
      (workers.set t worker)[w]?.map (placeOf · (views.set t v')[w]?) := by
  by_cases hw : t = w
  · subst hw
    have hthread : threads[t]? = some (placeOf old (some v)) := by rw [h, hold, hv]; rfl
    obtain ⟨hlt, -⟩ := List.getElem?_eq_some_iff.mp hthread
    obtain ⟨hlt', -⟩ := List.getElem?_eq_some_iff.mp hold
    obtain ⟨hlt'', -⟩ := List.getElem?_eq_some_iff.mp hv
    rw [List.getElem?_set_self hlt, List.getElem?_set_self hlt', List.getElem?_set_self hlt'']
    rfl
  · simp only [List.getElem?_set_ne hw, h]

/-- A caller moves. -/
theorem places_caller {t : Nat} (ht : workers[t]? = none) (v' : PoolView τ) (w : Nat) :
    threads[w]? = workers[w]?.map (placeOf · (views.set t v')[w]?) := by
  by_cases hw : t = w
  · subst hw
    rw [h, ht]
    rfl
  · rw [List.getElem?_set_ne hw, h]

end Places

/-- A thread executes a statement of its body. -/
theorem step_statement {t : Nat} {op : PoolCall τ} {next : Nat} {r : PoolLocals τ}
    (ht : s.pool.threads[t]? = some (.body op next r)) (u : Option Nat)
    {statement : Statement (PoolMembers τ) PoolCond (PoolLocals τ)}
    (hst : (cls.body op)[next]? = some statement) :
    s.step (.lock (.next t u)) = { s with pool := { s.pool with
      members := (statement r s.pool.members).2.1
      threads := cls.notify (s.pool.threads.set t
        (.body op (next + 1) (statement r s.pool.members).1)) u
        (statement r s.pool.members).2.2 } } := by
  simp only [PoolRun.step, Locked.step, Locked.next, ht, Locked.nextInBody, hst, workersAfter,
    joinsAfter, Option.bind_some, Locked.leaving]

theorem views_statement {t : Nat} {op : PoolCall τ} {next : Nat} {r : PoolLocals τ}
    (ht : s.pool.threads[t]? = some (.body op next r)) (u : Option Nat)
    {statement : Statement (PoolMembers τ) PoolCond (PoolLocals τ)}
    (hst : (cls.body op)[next]? = some statement) :
    (s.step (.lock (.next t u))).views =
      s.views.set t (view (.body op (next + 1) (statement r s.pool.members).1)) := by
  rw [step_statement ht u hst]
  exact (Locked.map_notify view_wake _ u _).trans List.map_set

/-- The steps of the pool when `Run` may be called at any time, and `Stop` while calls of `Run`
wait. -/
def Loose (p : ThreadPool τ) (i : PoolStep τ) : Prop :=
  ResizedPool.Admissible { pool := p } (.pool i)

theorem loose_of_admissible {i : PoolStep τ} (h : p.Admissible i) : Loose p i := by
  cases i with
  | runCall task => trivial
  | stop => exact h.2
  | start | runLock | test | pop | execute | join => exact h

/-- The pool is the threads with every call that has taken effect. -/
structure Matches [DecidableEq τ] (s : PoolRun τ) (p : ThreadPool τ) : Prop where
  maxQueueSize : p.maxQueueSize = s.pool.members.maxQueueSize
  running : p.running = s.pool.members.running
  queue : p.queue = s.pool.members.queue
  executed : p.executed = s.executed
  threads : ∀ w : Nat, p.threads[w]? = s.workers[w]?.map (placeOf · s.views[w]?)
  calls : ∀ x, p.calls.count x = s.views.count (.calling x)
  returned : ∀ x, p.returned.count x = (runs s.pool.returned).count x + s.views.count (.called x)
  stopped : p.stopped = !s.pool.members.running
  joined : p.joined = s.stopReturned

variable [DecidableEq τ]

/-- A step that the others do not see. -/
theorem Matches.frame (h : s.Matches p)
    (hmax : s'.pool.members.maxQueueSize = s.pool.members.maxQueueSize)
    (hrunning : s'.pool.members.running = s.pool.members.running)
    (hqueue : s'.pool.members.queue = s.pool.members.queue) (hexecuted : s'.executed = s.executed)
    (hworkers : s'.workers = s.workers) (hviews : s'.views = s.views)
    (hruns : runs s'.pool.returned = runs s.pool.returned)
    (hjoined : s'.stopReturned = s.stopReturned) : s'.Matches p := by
  refine ⟨?_, ?_, ?_, ?_, ?_, ?_, ?_, ?_, ?_⟩
  · rw [hmax, h.maxQueueSize]
  · rw [hrunning, h.running]
  · rw [hqueue, h.queue]
  · rw [hexecuted, h.executed]
  · rw [hworkers, hviews]
    exact h.threads
  · rw [hviews]
    exact h.calls
  · rw [hviews, hruns]
    exact h.returned
  · rw [hrunning, h.stopped]
  · rw [hjoined, h.joined]

/-! ## The threads outside of the lock -/

/-- A thread of the pool goes on outside of the lock. -/
theorem Matches.move (h : s.Matches p) (hs : s.Sound maxQueueSize n k) {w : Nat}
    {old : WorkerPlace τ} (hw : s.workers[w]? = some old) (hold : old ≠ .popping)
    (new : WorkerPlace τ) (executed : List τ) :
    Matches { s with workers := s.workers.set w new, executed }
      ({ p with executed }.setPlace w new) := by
  have hidle : s.views[w]? = some .idle := views_eq (hs.out_of_worker hw hold)
  have hset : s.views.set w .idle = s.views := set_self hidle
  have hthreads := places_set h.threads hw hidle new .idle
  rw [hset] at hthreads
  exact ⟨h.maxQueueSize, h.running, h.queue, rfl, hthreads, h.calls, h.returned, h.stopped,
    h.joined⟩

/-- A thread of the pool that is not in `Pop`, as the pool has it. -/
theorem Matches.thread_eq (h : s.Matches p) (hs : s.Sound maxQueueSize n k) {w : Nat}
    {place : WorkerPlace τ} (hw : s.workers[w]? = some place) (hplace : place ≠ .popping) :
    p.threads[w]? = some place := by
  rw [h.threads, hw, views_eq (hs.out_of_worker hw hplace)]
  rfl

theorem Matches.test (h : s.Matches p) (hs : s.Sound maxQueueSize n k) {w : Nat}
    (hw : s.workers[w]? = some .test) : (s.step (.test w)).Matches (p.step (.test w)) := by
  have hout := hs.out_of_worker hw (by simp)
  simp only [PoolRun.step, ThreadPool.step, ThreadPool.testRunning, h.running]
  split
  · have hviews : (s.pool.threads.set w (.locking .pop)).map view = s.views :=
      Locked.map_set_same hout rfl
    exact (h.move hs hw (by simp) .popping p.executed).frame rfl rfl rfl h.executed.symm rfl
      hviews rfl rfl
  · exact (h.move hs hw (by simp) .returned p.executed).frame rfl rfl rfl h.executed.symm
      rfl rfl rfl rfl

theorem Matches.execute (h : s.Matches p) (hs : s.Sound maxQueueSize n k) {w : Nat} {task : τ}
    (hw : s.workers[w]? = some (.running task)) :
    (s.step (.execute w)).Matches (p.step (.execute w)) := by
  have hthread := h.thread_eq hs hw (by simp)
  simp only [PoolRun.step, ThreadPool.step, ThreadPool.execute, hw, hthread, Option.bind_some,
    WorkerPlace.task, h.executed]
  exact h.move hs hw (by simp) .test _

/-! ## The calls -/

theorem Matches.runCall (h : s.Matches p) (hs : s.Sound maxQueueSize n k) (hn : 0 < n) {t : Nat}
    {task : τ} (hcalls : s.Calls (.call t (.run task))) (ht : s.pool.threads[t]? = some .out) :
    (s.step (.lock (.call t (.run task)))).Matches (p.step (.runCall task)) := by
  have hidle : s.views[t]? = some .idle := views_eq ht
  have hviews : (s.step (.lock (.call t (.run task)))).views = s.views.set t (.calling task) :=
    List.map_set
  have hne : p.threads.isEmpty = false := by
    obtain ⟨worker, hworker⟩ : ∃ worker, s.workers[0]? = some worker :=
      ⟨_, List.getElem?_eq_getElem (hs.workers ▸ hn)⟩
    have hthread := h.threads 0
    rw [hworker] at hthread
    cases hthreads : p.threads with
    | nil => simp [hthreads] at hthread
    | cons => rfl
  have hcaller := places_caller h.threads (List.getElem?_eq_none_iff.mpr hcalls.1) (.calling task)
  simp only [ThreadPool.step, ThreadPool.runCall, hne, Bool.false_eq_true, if_false]
  refine ⟨h.maxQueueSize, h.running, h.queue, h.executed, ?_, fun x => ?_, fun x => ?_, h.stopped,
    h.joined⟩
  · rw [hviews]
    exact hcaller
  · have hset := count_set hidle (.calling task) (.calling x)
    rw [hviews, List.count_append, h.calls]
    simp only [reduceCtorEq, if_false, PoolView.calling.injEq, Nat.add_zero] at hset
    rw [hset, List.count_singleton]
    simp
  · have hset := count_set hidle (.calling task) (.called x)
    simp only [reduceCtorEq, if_false, Nat.add_zero] at hset
    rw [hviews, hset]
    exact h.returned x

/-- The task of `Run` comes into the queue, unless the pool has stopped. -/
theorem Sound.run_facts (hs : s.Sound maxQueueSize n k) {t : Nat} {task : τ} {r : PoolLocals τ}
    (ht : s.pool.threads[t]? = some (.body (.run task) 2 r)) :
    r.left = !s.pool.members.running ∧
      (s.pool.members.running && isFull s.pool.members) = false := by
  obtain ⟨is, his, heq⟩ := hs.pool
  obtain ⟨a, hready, hlocals, hmembers⟩ := Locked.body_run his (heq ▸ ht)
  have hfull : (a.running && isFull a) = false := by
    simpa only [cls, ready, Bool.not_eq_true'] using hready
  rw [heq] at hmembers
  rw [hlocals, hmembers]
  cases hrunning : a.running with
  | true => simp_all [GuardedClass.exec, cls, body, isFull]
  | false => simp [GuardedClass.exec, cls, body, hrunning]

/-- `Pop` takes the first task; there is none only if the pool has stopped. -/
theorem Sound.pop_facts (hs : s.Sound maxQueueSize n k) {t : Nat} {r : PoolLocals τ}
    (ht : s.pool.threads[t]? = some (.body .pop 1 r)) :
    r.task = s.pool.members.queue.head? ∧
      (s.pool.members.queue = [] → s.pool.members.running = false) := by
  obtain ⟨is, his, heq⟩ := hs.pool
  obtain ⟨a, hready, hlocals, hmembers⟩ := Locked.body_run his (heq ▸ ht)
  rw [heq] at hmembers
  have hsame : s.pool.members = a := hmembers
  rw [hlocals, hsame]
  refine ⟨rfl, fun hnil => ?_⟩
  simpa [cls, ready, hnil] using hready

/-- A caller is no thread of the pool. -/
theorem Sound.caller (hs : s.Sound maxQueueSize n k) {t : Nat}
    {place : LockPlace (PoolCall τ) (PoolLocals τ)} (ht : s.pool.threads[t]? = some place)
    {op : PoolCall τ} (hcall : Locked.callOf place = some op) (hop : op ≠ .pop) :
    s.workers[t]? = none := by
  have hfits := hs.fits t
  rw [ht, Option.bind_some, hcall] at hfits
  cases hw : s.workers[t]? with
  | none => rfl
  | some worker =>
    rw [hw] at hfits
    cases worker with
    | popping => exact absurd (Option.some.inj hfits) hop
    | test | running | returned => cases hfits

/-- A thread in `Pop` is one of the pool. -/
theorem Sound.popper (hs : s.Sound maxQueueSize n k) {t : Nat}
    {place : LockPlace (PoolCall τ) (PoolLocals τ)} (ht : s.pool.threads[t]? = some place)
    (hcall : Locked.callOf place = some .pop) : s.workers[t]? = some .popping := by
  have hfits := hs.fits t
  rw [ht, Option.bind_some, hcall] at hfits
  cases hw : s.workers[t]? with
  | none =>
    rw [hw] at hfits
    exact absurd rfl hfits
  | some worker =>
    rw [hw] at hfits
    cases worker with
    | popping => rfl
    | test | running | returned => cases hfits

/-- A statement that changes neither the queue nor `running_`. -/
theorem Matches.statement (h : s.Matches p) {t : Nat} {op : PoolCall τ} {next : Nat}
    {r : PoolLocals τ} (ht : s.pool.threads[t]? = some (.body op next r)) (u : Option Nat)
    {statement : Statement (PoolMembers τ) PoolCond (PoolLocals τ)}
    (hst : (cls.body op)[next]? = some statement)
    (hmembers : ∃ failed, (statement r s.pool.members).2.1 = { s.pool.members with failed })
    (hview : view (.body op (next + 1) (statement r s.pool.members).1) = view (.body op next r)) :
    (s.step (.lock (.next t u))).Matches p := by
  obtain ⟨failed, hmembers⟩ := hmembers
  have hviews : (s.step (.lock (.next t u))).views = s.views := by
    rw [views_statement ht u hst, hview]
    exact set_self (views_eq ht)
  rw [step_statement ht u hst, hmembers] at hviews ⊢
  exact h.frame rfl rfl rfl rfl rfl hviews rfl rfl

/-- `queue_.push_back(task)`. -/
theorem Matches.push (h : s.Matches p) (hs : s.Sound maxQueueSize n k) {t : Nat} {task : τ}
    {r : PoolLocals τ} (ht : s.pool.threads[t]? = some (.body (.run task) 2 r)) (u : Option Nat) :
    (s.step (.lock (.next t u))).Matches (p.step (.runLock task)) := by
  obtain ⟨hleft, hroom⟩ := hs.run_facts ht
  have hview : s.views[t]? = some (.calling task) := views_eq ht
  have hthreads := places_caller h.threads (hs.caller ht rfl (by simp)) (.called task)
  have hcalls : ∀ x, (p.calls.erase task).count x =
      (s.views.set t (.called task)).count (.calling x) := by
    intro x
    have hset := count_set hview (.called task) (.calling x)
    simp only [reduceCtorEq, if_false, PoolView.calling.injEq, Nat.add_zero] at hset
    rw [List.count_erase, h.calls, beq_eq_decide]
    simp only [decide_eq_true_eq]
    omega
  have hreturned : ∀ x, (p.returned ++ [task]).count x =
      (runs s.pool.returned).count x + (s.views.set t (.called task)).count (.called x) := by
    intro x
    have hset := count_set hview (.called task) (.called x)
    simp only [reduceCtorEq, if_false, PoolView.called.injEq, Nat.add_zero] at hset
    rw [List.count_append, h.returned, hset, List.count_singleton, beq_eq_decide]
    simp only [decide_eq_true_eq]
    omega
  have hfull : p.isFull = isFull s.pool.members := by
    rw [ThreadPool.isFull, h.maxQueueSize, h.queue]
    rfl
  -- The queue of both, when the pool runs and when it has stopped.
  obtain ⟨queue, hmembers, hpush⟩ : ∃ queue,
      (if r.left then s.pool.members
        else { s.pool.members with queue := s.pool.members.queue ++ [task] }) =
          { s.pool.members with queue } ∧
        p.step (.runLock task) =
          { p with queue, calls := p.calls.erase task, returned := p.returned ++ [task] } := by
    cases hrunning : s.pool.members.running with
    | true =>
      rw [hrunning] at hleft hroom
      refine ⟨s.pool.members.queue ++ [task], by simp [hleft, hrunning], ?_⟩
      simp [ThreadPool.step, ThreadPool.runLock, hfull, h.running, hrunning, ← h.queue, hroom]
    | false =>
      rw [hrunning] at hleft
      refine ⟨s.pool.members.queue, by simp [hleft, ← hrunning], ?_⟩
      simp [ThreadPool.step, ThreadPool.runLock, h.running, hrunning, ← h.queue]
  have hviews : (s.step (.lock (.next t u))).views = s.views.set t (.called task) :=
    views_statement ht u rfl
  have hst : (cls.body (.run task))[2]? = some fun (r : PoolLocals τ) (s : PoolMembers τ) =>
      (r, if r.left then s else { s with queue := s.queue ++ [task] }, none) := rfl
  rw [step_statement ht u hst] at hviews ⊢
  simp only [hmembers] at hviews ⊢
  rw [hpush]
  exact ⟨h.maxQueueSize, h.running, rfl, h.executed, fun w => by rw [hviews]; exact hthreads w,
    fun x => by rw [hviews]; exact hcalls x, fun x => by rw [hviews]; exact hreturned x, h.stopped,
    h.joined⟩

/-- `queue_.pop_front()`. -/
theorem Matches.take (h : s.Matches p) (hs : s.Sound maxQueueSize n k) {t : Nat}
    {r : PoolLocals τ} (ht : s.pool.threads[t]? = some (.body .pop 1 r)) (u : Option Nat) :
    (s.step (.lock (.next t u))).Matches (p.step (.pop t)) := by
  obtain ⟨htask, hempty⟩ := hs.pop_facts ht
  have hview : s.views[t]? = some .idle := views_eq ht
  have hworker := hs.popper ht rfl
  have hthreads := places_set h.threads hworker hview .popping (.taken r)
  rw [set_self hworker] at hthreads
  have hcount : ∀ v : PoolView τ, v ≠ .idle → (∀ r, v ≠ .taken r) →
      (s.views.set t (.taken r)).count v = s.views.count v := fun v hidle htaken => by
    have hset := count_set hview (.taken r) v
    rwa [if_neg (Ne.symm hidle), if_neg (Ne.symm (htaken r)), Nat.add_zero, Nat.add_zero] at hset
  have hpop : p.step (.pop t) =
      { p with queue := s.pool.members.queue.tail }.setPlace t (afterPop r) := by
    have hqueue := h.queue
    simp only [ThreadPool.step, ThreadPool.pop, afterPop, htask]
    cases hcases : s.pool.members.queue with
    | nil =>
      rw [hcases] at hqueue
      have heta : { p with queue := ([] : List τ) } = p := by rw [← hqueue]
      rw [List.tail_nil, heta, hqueue, h.running, hempty hcases]
      rfl
    | cons task queue =>
      rw [hcases] at hqueue
      rw [hqueue]
      rfl
  have hviews : (s.step (.lock (.next t u))).views = s.views.set t (.taken r) :=
    views_statement ht u rfl
  rw [step_statement ht u rfl] at hviews ⊢
  rw [hpop]
  refine ⟨h.maxQueueSize, h.running, rfl, h.executed, fun w => by rw [hviews]; exact hthreads w,
    fun x => ?_, fun x => ?_, h.stopped, h.joined⟩
  · rw [hviews, hcount _ (by simp) (by simp)]
    exact h.calls x
  · rw [hviews, hcount _ (by simp) (by simp)]
    exact h.returned x

/-- `running_ = false`. Another call of `Stop` changes nothing. -/
theorem Matches.stop (h : s.Matches p) {t : Nat} {r : PoolLocals τ}
    (ht : s.pool.threads[t]? = some (.body .stop 0 r)) (u : Option Nat) :
    (s.step (.lock (.next t u))).Matches (if p.running then p.step .stop else p) := by
  have hviews : (s.step (.lock (.next t u))).views = s.views :=
    (views_statement ht u rfl).trans (set_self (show s.views[t]? = some .idle from views_eq ht))
  rw [step_statement ht u rfl] at hviews ⊢
  split
  · exact ⟨h.maxQueueSize, rfl, h.queue, h.executed, fun w => by rw [hviews]; exact h.threads w,
      fun x => by rw [hviews]; exact h.calls x, fun x => by rw [hviews]; exact h.returned x, rfl,
      h.joined⟩
  · rename_i hstopped
    have hrunning : s.pool.members.running = false := by simpa [← h.running] using hstopped
    exact h.frame rfl hrunning.symm rfl rfl rfl hviews rfl rfl

/-- A call returns. -/
theorem Matches.leave (h : s.Matches p) (hs : s.Sound maxQueueSize n k) {t : Nat}
    {op : PoolCall τ} {r : PoolLocals τ} (ht : s.pool.threads[t]? = some (.unlocking op r))
    (u : Option Nat) : (s.step (.lock (.next t u))).Matches p := by
  have hviews : (s.step (.lock (.next t u))).views = s.views.set t .idle := by
    simp only [PoolRun.step, Locked.step, Locked.next, ht, views]
    exact List.map_set
  have hworkers : (s.step (.lock (.next t u))).workers = s.workers.set t (afterPop r) := by
    simp only [PoolRun.step, workersAfter, ht, Option.bind_some, Locked.leaving]
  have hmembers : (s.step (.lock (.next t u))).pool.members = s.pool.members := by
    simp only [PoolRun.step, Locked.step, Locked.next, ht, Locked.setPlace]
  have hruns : runs (s.step (.lock (.next t u))).pool.returned =
      runs s.pool.returned ++ (runOf op).toList := by
    have hlog : (s.pool.next cls t u).returned = _ := Locked.returned_next ht u
    rw [show (s.step (.lock (.next t u))).pool.returned = _ from hlog, runs, List.filterMap_append]
    cases op <;> rfl
  have hview := views_eq ht
  have hcount := count_set hview .idle
  refine ⟨?_, ?_, ?_, h.executed, ?_, fun x => ?_, fun x => ?_, ?_, h.joined⟩
  · rw [hmembers, h.maxQueueSize]
  · rw [hmembers, h.running]
  · rw [hmembers, h.queue]
  · rw [hviews, hworkers]
    by_cases hop : op = .pop
    · subst hop
      have hworker := hs.popper ht rfl
      have hthread : p.threads[t]? = some (afterPop r) := by
        rw [h.threads, hworker, hview]
        rfl
      have hthreads := places_set h.threads hworker hview (afterPop r) .idle
      rwa [show placeOf (afterPop r) (some .idle) = afterPop r from rfl, set_self hthread]
        at hthreads
    · have hcaller := hs.caller ht rfl hop
      rw [List.set_eq_of_length_le (List.getElem?_eq_none_iff.mp hcaller)]
      exact places_caller h.threads hcaller .idle
  · have hset := hcount (.calling x)
    rw [hviews, h.calls]
    cases op <;> simpa [view] using hset.symm
  · have hset := hcount (.called x)
    rw [hviews, h.returned, hruns, List.count_append]
    cases op with
    | run task =>
      simp only [view, PoolView.called.injEq, reduceCtorEq, if_false, Nat.add_zero] at hset
      simp only [runOf, Option.toList_some, List.count_singleton, beq_iff_eq]
      omega
    | pop | stop | queueSize => simpa [view, runOf] using hset.symm
  · rw [hmembers, h.stopped]

/-- A step under the lock that the others do not see. -/
theorem Matches.inside (h : s.Matches p) {t : Nat}
    {place : LockPlace (PoolCall τ) (PoolLocals τ)} (ht : s.pool.threads[t]? = some place)
    (u : Option Nat) (new : LockPlace (PoolCall τ) (PoolLocals τ))
    (hleaving : Locked.leaving place = none)
    (hmembers : (s.pool.next cls t u).members = s.pool.members)
    (hthreads : (s.pool.next cls t u).threads = s.pool.threads.set t new)
    (hview : view new = view place) : (s.step (.lock (.next t u))).Matches p := by
  have hviews : (s.step (.lock (.next t u))).views = s.views := by
    rw [views, PoolRun.step, Locked.step, hthreads]
    exact Locked.map_set_same ht hview
  have hworkers : (s.step (.lock (.next t u))).workers = s.workers := by
    simp only [PoolRun.step, workersAfter, ht, Option.bind_some, hleaving]
  have hruns : (s.step (.lock (.next t u))).pool.returned = s.pool.returned := by
    have hlog : (s.pool.next cls t u).returned = _ := Locked.returned_next ht u
    rwa [hleaving, Option.toList_none, List.map_nil, List.append_nil] at hlog
  refine h.frame ?_ ?_ ?_ rfl hworkers hviews (congrArg runs hruns) rfl
  all_goals exact congrArg _ hmembers

/-! ## Every step -/

/-- The steps of the pool that a step of the threads is. -/
def effects (s : PoolRun τ) : PoolRunStep τ → List (PoolStep τ)
  | .test w => [.test w]
  | .execute w => [.execute w]
  | .lock (.call _ (.run task)) => [.runCall task]
  | .lock (.call _ .pop) | .lock (.call _ .stop) | .lock (.call _ .queueSize) | .lock (.rouse _) =>
    []
  | .lock (.next t _) =>
    match s.pool.threads[t]? with
    | some (.body (.run task) 2 _) => [.runLock task]
    | some (.body .pop 1 _) => [.pop t]
    | some (.body .stop 0 _) => if s.pool.members.running then [.stop] else []
    | _ => []
  | .join t =>
    match s.joins[t]?.join with
    | some (.before w) => if w < s.workers.length ∨ s.stopReturned = true then [] else [.join]
    | _ => []

/-- A thread executes a statement of its body, or comes to the end of it. -/
theorem Matches.body (h : s.Matches p) (hs : s.Sound maxQueueSize n k) {t : Nat} {op : PoolCall τ}
    {next : Nat} {r : PoolLocals τ} (ht : s.pool.threads[t]? = some (.body op next r))
    (u : Option Nat) :
    (s.step (.lock (.next t u))).Matches
      ((s.effects (.lock (.next t u))).foldl ThreadPool.step p) := by
  have hend : (cls.body op)[next]? = none → view (.unlocking op r) = view (.body op next r) →
      (s.step (.lock (.next t u))).Matches p := fun hnone hview => by
    refine h.inside ht u (.unlocking op r) rfl ?_ ?_ hview <;>
      simp [Locked.next, ht, Locked.nextInBody, hnone, Locked.setPlace]
  have hsame : ∀ members : PoolMembers τ, ∃ failed, members = { members with failed } :=
    fun members => ⟨members.failed, rfl⟩
  simp only [effects, ht]
  cases op with
  | run task =>
    rcases next with _ | _ | _ | _ | next
    · exact h.statement ht u rfl (hsame _) rfl
    · refine h.statement ht u rfl ?_ rfl
      by_cases hleft : r.left = true
      · exact ⟨_, if_pos hleft⟩
      · exact ⟨_, if_neg hleft⟩
    · exact h.push hs ht u
    · exact h.statement ht u rfl (hsame _) rfl
    · exact hend rfl (by simp [view])
  | pop =>
    rcases next with _ | _ | _ | next
    · exact h.statement ht u rfl (hsame _) rfl
    · exact h.take hs ht u
    · exact h.statement ht u rfl (hsame _) rfl
    · exact hend rfl (by simp [view])
  | stop =>
    rcases next with _ | _ | _ | next
    · have hstop := h.stop ht u
      show Matches _ ((if s.pool.members.running then [PoolStep.stop] else []).foldl _ p)
      rw [h.running] at hstop
      cases hrunning : s.pool.members.running <;> rw [hrunning] at hstop <;> exact hstop
    · exact h.statement ht u rfl (hsame _) rfl
    · exact h.statement ht u rfl (hsame _) rfl
    · exact hend rfl rfl
  | queueSize =>
    rcases next with _ | next
    · exact h.statement ht u rfl (hsame _) rfl
    · exact hend rfl rfl

theorem Matches.next (h : s.Matches p) (hs : s.Sound maxQueueSize n k) {t : Nat} {u : Option Nat}
    {place : LockPlace (PoolCall τ) (PoolLocals τ)} (ht : s.pool.threads[t]? = some place)
    (hgo : s.pool.CanGo cls u place) :
    (s.step (.lock (.next t u))).Matches
      ((s.effects (.lock (.next t u))).foldl ThreadPool.step p) := by
  cases place with
  | out | asleep => exact hgo.elim
  | body op next r => exact h.body hs ht u
  | unlocking op r =>
    simp only [effects, ht]
    exact h.leave hs ht u
  | locking op | woken op =>
    simp only [effects, ht]
    refine h.inside ht u (.locked op) rfl ?_ ?_ (by cases op <;> rfl) <;>
      simp [Locked.next, ht, Locked.setPlace]
  | locked op =>
    simp only [effects, ht]
    refine h.inside ht u (.test op) rfl ?_ ?_ (by cases op <;> rfl) <;>
      simp [Locked.next, ht, Locked.setPlace]
  | test op =>
    simp only [effects, ht]
    refine h.inside ht u (if cls.ready op s.pool.members then .body op 0 (cls.start op)
      else .wait op) rfl ?_ ?_ (by split <;> cases op <;> rfl) <;>
      simp [Locked.next, ht, Locked.setPlace]
  | wait op =>
    simp only [effects, ht]
    refine h.inside ht u (.unassigned op) rfl ?_ ?_ (by cases op <;> rfl) <;>
      simp [Locked.next, ht, Locked.setPlace]
  | unassigned op =>
    simp only [effects, ht]
    refine h.inside ht u (.asleep op) rfl ?_ ?_ (by cases op <;> rfl) <;>
      simp [Locked.next, ht, Locked.setPlace]

/-- When `Stop` has joined all threads, they have ended. -/
theorem Matches.ended (h : s.Matches p) (hs : s.Sound maxQueueSize n k) (hj : s.Joining)
    (hn : 0 < n) {t w : Nat} (ht : s.joins[t]?.join = some (.before w))
    (hlast : ¬ w < s.workers.length) :
    p.stopped = true ∧ ∀ place ∈ p.threads, place = .returned := by
  have hreturned : ∀ v < s.workers.length, s.workers[v]? = some .returned := fun v hv =>
    hj.ended t _ ht v (Nat.lt_of_lt_of_le hv (Nat.not_lt.mp hlast))
  refine ⟨?_, fun place hmem => ?_⟩
  · have hmem := List.mem_of_getElem? (hreturned 0 (hs.workers ▸ hn))
    rw [h.stopped, hs.ended hmem]
    rfl
  · obtain ⟨v, hv⟩ := List.mem_iff_getElem?.mp hmem
    have hplace := h.threads v
    rw [hv] at hplace
    cases hworker : s.workers[v]? with
    | none => simp [hworker] at hplace
    | some worker =>
      have hlt := (List.getElem?_eq_some_iff.mp hworker).1
      have hsame := h.thread_eq hs (hreturned v hlt) (by simp)
      rw [hv] at hsame
      exact Option.some.inj hsame

theorem Matches.join (h : s.Matches p) (t : Nat) :
    (s.step (.join t)).Matches ((s.effects (.join t)).foldl ThreadPool.step p) := by
  have hsame := h.joined
  simp only [PoolRun.step, PoolRun.join, effects]
  cases s.joins[t]?.join with
  | none => exact h
  | some place =>
    cases place with
    | waiting w => exact h.frame rfl rfl rfl rfl rfl rfl rfl rfl
    | before w =>
      by_cases hlt : w < s.workers.length
      · simp only [hlt, if_true, true_or]
        exact h.frame rfl rfl rfl rfl rfl rfl rfl rfl
      · simp only [hlt, if_false, false_or]
        split
        · rename_i hreturned
          exact h.frame rfl rfl rfl rfl rfl rfl rfl hreturned.symm
        · exact ⟨h.maxQueueSize, h.running, h.queue, h.executed, h.threads, h.calls, h.returned,
            h.stopped, rfl⟩

/-- **A step of the threads is its effects.** -/
theorem Matches.step (h : s.Matches p) (hs : s.Sound maxQueueSize n k) (hn : 0 < n)
    {i : PoolRunStep τ} (hi : s.Admissible i) :
    (s.step i).Matches ((s.effects i).foldl ThreadPool.step p) := by
  cases i with
  | test w => exact h.test hs hi
  | join t => exact h.join t
  | execute w =>
    obtain ⟨task, hw⟩ := running_of_execute hi
    exact h.execute hs hw
  | lock i =>
    cases i with
    | next t u =>
      obtain ⟨place, ht, hgo⟩ := hi.2
      exact h.next hs ht hgo
    | rouse t =>
      obtain ⟨op, ht⟩ := hi.2
      simp only [PoolRun.step, Locked.step, ht]
      exact h.frame rfl rfl rfl rfl rfl (Locked.map_set_same ht (view_wake _)) rfl rfl
    | call t op =>
      have ht : s.pool.threads[t]? = some .out := hi.2
      cases op with
      | run task => exact h.runCall hs hn hi.1 ht
      | pop => exact absurd rfl hi.1.2.1
      | stop | queueSize =>
        exact h.frame rfl rfl rfl rfl rfl (Locked.map_set_same ht rfl) rfl rfl

theorem Matches.mem_calls (h : s.Matches p) {t : Nat} {task : τ}
    (hview : s.views[t]? = some (.calling task)) : task ∈ p.calls := by
  rw [← List.count_pos_iff, h.calls, List.count_pos_iff]
  exact List.mem_of_getElem? hview

/-- An effect is a step that the pool can take, as far as the calls of `Run` and `Stop` go. -/
theorem Matches.effects_cases (h : s.Matches p) (hs : s.Sound maxQueueSize n k) (hj : s.Joining)
    (hn : 0 < n) {i : PoolRunStep τ} (hi : s.Admissible i) :
    s.effects i = [] ∨ ∃ j, s.effects i = [j] ∧
      ((∃ t task, i = .lock (.call t (.run task)) ∧ j = .runCall task) ∨
        (j = .stop ∧ p.stopped = false ∧
          ∃ t : Nat, s.pool.threads[t]?.bind Locked.callOf = some .stop) ∨
        p.Admissible j) := by
  cases i with
  | test w => exact .inr ⟨_, rfl, .inr (.inr (h.thread_eq hs hi (by simp)))⟩
  | execute w =>
    refine .inr ⟨_, rfl, .inr (.inr ?_)⟩
    obtain ⟨task, hw⟩ := running_of_execute hi
    rw [ThreadPool.Admissible, h.thread_eq hs hw (by simp)]
    rfl
  | join t =>
    simp only [effects]
    split
    · rename_i w hw
      split
      · exact .inl rfl
      · rename_i hlast
        rw [not_or] at hlast
        obtain ⟨hstopped, hended⟩ := h.ended hs hj hn hw hlast.1
        refine .inr ⟨_, rfl, .inr (.inr ⟨hstopped, hended, ?_⟩)⟩
        rw [h.joined]
        exact Bool.not_eq_true _ ▸ hlast.2
    · exact .inl rfl
  | lock i =>
    cases i with
    | call t op =>
      cases op with
      | run task => exact .inr ⟨_, rfl, .inl ⟨t, task, rfl, rfl⟩⟩
      | pop | stop | queueSize => exact .inl rfl
    | rouse t => exact .inl rfl
    | next t u =>
      simp only [effects]
      split
      · rename_i task r ht
        exact .inr ⟨_, rfl, .inr (.inr (h.mem_calls (views_eq ht)))⟩
      · rename_i r ht
        refine .inr ⟨_, rfl, .inr (.inr ?_)⟩
        rw [ThreadPool.Admissible, h.threads, hs.popper ht rfl, views_eq ht]
        rfl
      · rename_i r ht
        split
        · rename_i hrunning
          refine .inr ⟨_, rfl, .inr (.inl ⟨rfl, by rw [h.stopped, hrunning]; rfl, t, ?_⟩)⟩
          rw [ht]
          rfl
        · exact .inl rfl
      · exact .inl rfl

/-! ## Runs -/

theorem matches_make :
    (make maxQueueSize n k : PoolRun τ).Matches (({ maxQueueSize } : ThreadPool τ).start n) := by
  have hviews : (make maxQueueSize n k : PoolRun τ).views = List.replicate (n + k) .idle :=
    List.map_replicate
  refine ⟨rfl, rfl, rfl, rfl, fun w => ?_, fun x => ?_, fun x => ?_, rfl, rfl⟩
  · rw [hviews]
    simp only [ThreadPool.start, make, List.getElem?_replicate]
    split
    · rw [if_pos (by omega)]
      rfl
    · rfl
  · rw [hviews]
    simp [ThreadPool.start, List.count_replicate]
  · rw [hviews]
    simp [ThreadPool.start, List.count_replicate, runs, make, Locked.fresh]

/-- The invariant of the simulation. -/
structure Simulates (maxQueueSize n k : Nat) (s : PoolRun τ) (p : ThreadPool τ) : Prop where
  sound : s.Sound maxQueueSize n k
  joining : s.Joining
  pool : s.Matches p

theorem Simulates.step (h : Simulates maxQueueSize n k s p) (hn : 0 < n) {i : PoolRunStep τ}
    (hi : s.Admissible i) :
    Simulates maxQueueSize n k (s.step i) ((s.effects i).foldl ThreadPool.step p) :=
  ⟨h.sound.step hi, h.sound.joining h.joining hi, h.pool.step h.sound hn hi⟩

theorem simulates_make :
    Simulates maxQueueSize n k (make maxQueueSize n k : PoolRun τ)
      (({ maxQueueSize } : ThreadPool τ).start n) :=
  ⟨sound_make, joining_make, matches_make⟩

/-- A pool that is not resized. -/
theorem legal_of_loose {js : List (PoolStep τ)} (h : Legal ThreadPool.step Loose p js) :
    Legal ResizedPool.step ResizedPool.Admissible { pool := p } (js.map .pool) ∧
      (js.map .pool).foldl ResizedPool.step { pool := p } =
        { pool := js.foldl ThreadPool.step p } := by
  induction js generalizing p with
  | nil => exact ⟨trivial, rfl⟩
  | cons j js ih =>
    obtain ⟨hlegal, hfold⟩ := ih h.2
    exact ⟨⟨h.1, hlegal⟩, hfold⟩

/-- **The critical sections of the pool are atomic.** Every run of the threads, with any number of
callers that call `Run`, `Stop` and `queue_size()` as they like, is a run of the pool in which each
critical section is one step: the queue, `running_`, the tasks that were run and the places of the
threads are the same. -/
theorem pool_refines (maxQueueSize n k : Nat) (hn : 0 < n) (is : List (PoolRunStep τ))
    (h : Legal step Admissible (make maxQueueSize n k) is) :
    ∃ js : List (PoolStep τ),
      Legal ResizedPool.step ResizedPool.Admissible (ResizedPool.make maxQueueSize)
        ((.start n :: js).map .pool) ∧
      (is.foldl step (make maxQueueSize n k)).Matches
        (((.start n :: js).map .pool).foldl ResizedPool.step
          (ResizedPool.make maxQueueSize : ResizedPool τ)).pool := by
  have hstep : ∀ (s : PoolRun τ) (p : ThreadPool τ) i, Simulates maxQueueSize n k s p →
      s.Admissible i → ∃ js, Legal ThreadPool.step Loose p js ∧
        Simulates maxQueueSize n k (s.step i) (js.foldl ThreadPool.step p) := fun s p i hR hi => by
    refine ⟨s.effects i, ?_, hR.step hn hi⟩
    obtain hnil | ⟨j, hone, hj⟩ := hR.pool.effects_cases hR.sound hR.joining hn hi
    · rw [hnil]
      trivial
    · rw [hone]
      refine ⟨?_, trivial⟩
      obtain ⟨t, task, -, rfl⟩ | ⟨rfl, hstopped, -⟩ | hj := hj
      · trivial
      · exact hstopped
      · exact loose_of_admissible hj
  obtain ⟨js, hjs, hend⟩ := legal_simulates hstep simulates_make h
  have hstart : Legal ThreadPool.step Loose { maxQueueSize } (.start n :: js) := ⟨⟨rfl, rfl⟩, hjs⟩
  obtain ⟨hlegal, hfold⟩ := legal_of_loose hstart
  refine ⟨js, hlegal, ?_⟩
  rw [show (ResizedPool.make maxQueueSize : ResizedPool τ) = { pool := { maxQueueSize } } from rfl,
    hfold]
  exact hend.pool

/-! ## When `Stop` is called once -/

/-- `Stop` is called when all calls of `Run` have returned, and no call of `Run` follows. -/
def Orderly (s : PoolRun τ) : PoolRunStep τ → Prop
  | .lock (.call _ (.run _)) => s.pool.members.running = true ∧
      ∀ t : Nat, s.pool.threads[t]?.bind Locked.callOf ≠ some .stop
  | .lock (.call _ .stop) =>
    ∀ (t : Nat) task, s.pool.threads[t]?.bind Locked.callOf ≠ some (.run task)
  | _ => True

/-- While a thread is in `Stop`, none is in `Run`. -/
def Apart (s : PoolRun τ) : Prop :=
  ∀ t : Nat, s.pool.threads[t]?.bind Locked.callOf = some .stop →
    ∀ (v : Nat) task, s.pool.threads[v]?.bind Locked.callOf ≠ some (.run task)

/-- The calls that threads are in after a step. -/
theorem callOf_step (hs : s.Sound maxQueueSize n k) {i : PoolRunStep τ} (hi : s.Admissible i)
    {v : Nat} {op : PoolCall τ}
    (h : (s.step i).pool.threads[v]?.bind Locked.callOf = some op) :
    s.pool.threads[v]?.bind Locked.callOf = some op ∨ op = .pop ∨ i = .lock (.call v op) := by
  cases i with
  | test w =>
    simp only [PoolRun.step] at h
    split at h
    · have hout := hs.out_of_worker hi (by simp)
      simp only [Locked.step, Locked.setPlace, Locked.callOf_set hout] at h
      split at h
      · exact .inr (.inl (Option.some.inj h).symm)
      · exact .inl h
    · exact .inl h
  | execute w =>
    simp only [PoolRun.step] at h
    split at h <;> exact .inl h
  | join t =>
    simp only [PoolRun.step, PoolRun.join] at h
    split at h
    · split at h <;> exact .inl h
    · exact .inl h
    · exact .inl h
  | lock i =>
    cases i with
    | call t op' =>
      have hout : s.pool.threads[t]? = some .out := hi.2
      simp only [PoolRun.step, Locked.step, Locked.setPlace, Locked.callOf_set hout] at h
      split at h
      · subst_vars
        cases h
        exact .inr (.inr rfl)
      · exact .inl h
    | rouse t =>
      obtain ⟨op', ht⟩ := hi.2
      simp only [PoolRun.step, Locked.step, Locked.setPlace, ht] at h
      rw [Locked.callOf_set_same ht _ (Locked.callOf_wake _)] at h
      exact .inl h
    | next t u =>
      obtain ⟨place, ht, -⟩ := hi.2
      simp only [PoolRun.step, Locked.step, Locked.callOf_next ht] at h
      split at h
      · cases h
      · exact .inl h

theorem Apart.step (h : s.Apart) (hs : s.Sound maxQueueSize n k) {i : PoolRunStep τ}
    (hi : s.Admissible i) (horder : s.Orderly i) : (s.step i).Apart := by
  intro t ht v task hv
  rcases callOf_step hs hi ht with hstop | hpop | rfl
  · rcases callOf_step hs hi hv with hrun | hpop | rfl
    · exact h t hstop v task hrun
    · cases hpop
    · exact horder.2 t hstop
  · cases hpop
  · rcases callOf_step hs hi hv with hrun | hpop | heq
    · exact horder v task hrun
    · cases hpop
    · cases heq

/-- While no thread is in `Run`, no call of `Run` waits. -/
theorem Matches.calls_eq_nil (h : s.Matches p)
    (hnone : ∀ (v : Nat) task, s.pool.threads[v]?.bind Locked.callOf ≠ some (.run task)) :
    p.calls = [] := by
  refine List.eq_nil_iff_forall_not_mem.mpr fun task hmem => ?_
  rw [← List.count_pos_iff, h.calls, List.count_pos_iff] at hmem
  obtain ⟨place, hplace, hview⟩ := List.mem_map.mp hmem
  obtain ⟨v, hv⟩ := List.mem_iff_getElem?.mp hplace
  refine hnone v task ?_
  rw [hv]
  exact callOf_of_view hview

/-- **A pool that is stopped after its calls.** When `Stop` is called after all calls of `Run` have
returned, the run is one of the pool in which this is the only way to stop it. -/
theorem pool_refines_orderly (maxQueueSize n k : Nat) (hn : 0 < n) (is : List (PoolRunStep τ))
    (h : Legal step (fun s i => s.Admissible i ∧ s.Orderly i) (make maxQueueSize n k) is) :
    ∃ js : List (PoolStep τ),
      Legal ThreadPool.step ThreadPool.Admissible ({ maxQueueSize } : ThreadPool τ)
        (.start n :: js) ∧
      (is.foldl step (make maxQueueSize n k)).Matches
        ((.start n :: js).foldl ThreadPool.step { maxQueueSize }) := by
  have hstep : ∀ (s : PoolRun τ) (p : ThreadPool τ) i,
      Simulates maxQueueSize n k s p ∧ s.Apart → s.Admissible i ∧ s.Orderly i →
        ∃ js, Legal ThreadPool.step ThreadPool.Admissible p js ∧
          Simulates maxQueueSize n k (s.step i) (js.foldl ThreadPool.step p) ∧
          (s.step i).Apart := by
    rintro s p i ⟨hR, hapart⟩ ⟨hi, horder⟩
    refine ⟨s.effects i, ?_, hR.step hn hi, hapart.step hR.sound hi horder⟩
    obtain hnil | ⟨j, hone, hj⟩ := hR.pool.effects_cases hR.sound hR.joining hn hi
    · rw [hnil]
      trivial
    · rw [hone]
      refine ⟨?_, trivial⟩
      obtain ⟨t, task, rfl, rfl⟩ | ⟨rfl, hstopped, t, ht⟩ | hj := hj
      · rw [ThreadPool.Admissible, hR.pool.stopped, horder.1]
        rfl
      · exact ⟨hR.pool.calls_eq_nil (hapart t ht), hstopped⟩
      · exact hj
  have happart : (make maxQueueSize n k : PoolRun τ).Apart := fun t ht => by
    simp only [make, Locked.fresh, List.getElem?_replicate] at ht
    split at ht <;> cases ht
  obtain ⟨js, hjs, hend, -⟩ := legal_simulates hstep ⟨simulates_make, happart⟩ h
  exact ⟨js, ⟨⟨rfl, rfl⟩, hjs⟩, hend.pool⟩

end PoolRun

end MyTinyHttpd
