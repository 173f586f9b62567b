import MyTinyHttpd.Base.PoolStop
import MyTinyHttpd.Base.PoolWait

/-!
# The threads of `base/thread_pool.cc`

The pool with its mutex (`Base/PoolWait.lean`) and its threads. The first threads are those of the
pool, in `RunInThread`; the others call `Run`, `Stop` and `queue_size()` as they like, `Stop` also
while others are in `Run`. The threads read `running_` without the lock. The initial callback is
left out.

* `pool_exact`: no assertion of `Run` and `IsFull` fails, the queue keeps its bound, and the tasks
  that the threads have run or have in hand are the first ones that `Run` has taken. As long as
  only one call of `Stop` has come to its loop, no assertion of `Join` fails.
* `pool_stuck`: no notification is missing. When no thread can go on, all callers have returned,
  those of `Stop` too. Without `Stop` the threads of the pool have then run every task that `Run`
  has taken; with `Stop` they have ended.
-/

namespace MyTinyHttpd

open Verif

/-- Where a caller is in the loop of `Stop`. -/
inductive JoinPlace where
  /-- Before `threads_[w]->Join()`. -/
  | before (w : Nat)
  /-- In `pthread_join`. -/
  | waiting (w : Nat)
  deriving DecidableEq

namespace JoinPlace

/-- The thread that is to be joined. -/
def thread : JoinPlace → Nat
  | .before w | .waiting w => w

/-- The next thread whose `joined_` the caller sets. -/
def next : JoinPlace → Nat
  | .before w => w
  | .waiting w => w + 1

end JoinPlace

/-- The object, the threads of the pool and the callers. -/
structure PoolRun (τ : Type) where
  pool : Locked (PoolMembers τ) (PoolCall τ) (PoolLocals τ)
  workers : List (WorkerPlace τ)
  /-- Where the threads are that have let go of the lock in `Stop`. -/
  joins : List (Option JoinPlace)
  /-- The tasks in the order in which they were run. -/
  executed : List τ := []
  /-- The threads whose `joined_` is set. -/
  joined : List Nat := []
  /-- An assertion in `Thread::Join` has failed. -/
  joinFailed : Bool := false
  /-- A call of `Stop` has returned. -/
  stopReturned : Bool := false

inductive PoolRunStep (τ : Type) where
  /-- `while (running_)`. -/
  | test (w : Nat)
  /-- `task()`. -/
  | execute (w : Nat)
  | lock (i : LockStep (PoolCall τ))
  /-- The caller `t` goes on in the loop of `Stop`. -/
  | join (t : Nat)
  deriving DecidableEq

namespace PoolRun

open PoolWait

variable {τ : Type}

/-- A pool of `n` threads and `k` other ones. -/
def make (maxQueueSize n k : Nat) : PoolRun τ where
  pool := PoolWait.make maxQueueSize (n + k)
  workers := List.replicate n .test
  joins := List.replicate (n + k) none

/-- `if (task)`. -/
def afterPop (r : PoolLocals τ) : WorkerPlace τ :=
  match r.task with
  | some task => .running task
  | none => .test

/-- The threads of the pool when `Pop` returns. -/
def workersAfter (s : PoolRun τ) : LockStep (PoolCall τ) → List (WorkerPlace τ)
  | .next t _ =>
    match s.pool.threads[t]?.bind Locked.leaving with
    | some (_, r) => s.workers.set t (afterPop r)
    | none => s.workers
  | .call _ _ | .rouse _ => s.workers

/-- The callers when the critical section of `Stop` ends. -/
def joinsAfter (s : PoolRun τ) : LockStep (PoolCall τ) → List (Option JoinPlace)
  | .next t _ =>
    match s.pool.threads[t]?.bind Locked.leaving with
    | some (.stop, _) => s.joins.set t (some (.before 0))
    | _ => s.joins
  | .call _ _ | .rouse _ => s.joins

/-- `for (auto& t : threads_) t->Join();` -/
def join (s : PoolRun τ) (t : Nat) : PoolRun τ :=
  match s.joins[t]?.join with
  | some (.before w) =>
    if w < s.workers.length then
      -- `assert(!joined_); joined_ = true;`
      { s with
        joinFailed := s.joinFailed || s.joined.contains w
        joined := w :: s.joined
        joins := s.joins.set t (some (.waiting w)) }
    else { s with joins := s.joins.set t none, stopReturned := true }
  | some (.waiting w) => { s with joins := s.joins.set t (some (.before (w + 1))) }
  | none => s

def step (s : PoolRun τ) : PoolRunStep τ → PoolRun τ
  | .test w =>
    if s.pool.members.running then
      { s with pool := s.pool.step cls (.call w .pop), workers := s.workers.set w .popping }
    else { s with workers := s.workers.set w .returned }
  | .execute w =>
    match s.workers[w]?.bind WorkerPlace.task with
    | some task =>
      { s with executed := s.executed ++ [task], workers := s.workers.set w .test }
    | none => s
  | .lock i =>
    { s with pool := s.pool.step cls i, workers := s.workersAfter i, joins := s.joinsAfter i }
  | .join t => s.join t

/-- Only the other threads call the rest, when they are not in a call. -/
def Calls (s : PoolRun τ) : LockStep (PoolCall τ) → Prop
  | .call t op => s.workers.length ≤ t ∧ op ≠ .pop ∧ s.joins[t]? = some none
  | .next _ _ | .rouse _ => True

/-- `pthread_join` returns when the thread has ended. -/
def CanJoin (s : PoolRun τ) : JoinPlace → Prop
  | .before _ => True
  | .waiting w => s.workers[w]? = some .returned

/-- The steps that the threads can take. -/
def Admissible (s : PoolRun τ) : PoolRunStep τ → Prop
  | .test w => s.workers[w]? = some .test
  | .execute w => (s.workers[w]?.bind WorkerPlace.task).isSome = true
  | .lock i => s.Calls i ∧ s.pool.Admissible cls i
  | .join t => ∃ place ∈ s.joins[t]?.join, s.CanJoin place

instance [DecidableEq τ] (s : PoolRun τ) (i : LockStep (PoolCall τ)) : Decidable (s.Calls i) :=
  match i with
  | .call t op =>
    inferInstanceAs (Decidable (s.workers.length ≤ t ∧ op ≠ .pop ∧ s.joins[t]? = some none))
  | .next _ _ | .rouse _ => isTrue trivial

instance [DecidableEq τ] (s : PoolRun τ) : DecidablePred s.CanJoin
  | .before _ => isTrue trivial
  | .waiting w => inferInstanceAs (Decidable (s.workers[w]? = some .returned))

instance [DecidableEq τ] (s : PoolRun τ) (i : PoolRunStep τ) : Decidable (s.Admissible i) :=
  match i with
  | .test w => inferInstanceAs (Decidable (s.workers[w]? = some .test))
  | .execute w => inferInstanceAs (Decidable ((s.workers[w]?.bind WorkerPlace.task).isSome = true))
  | .lock i => inferInstanceAs (Decidable (s.Calls i ∧ s.pool.Admissible cls i))
  | .join t => inferInstanceAs (Decidable (∃ place ∈ s.joins[t]?.join, s.CanJoin place))

theorem running_of_execute {s : PoolRun τ} {w : Nat} (h : s.Admissible (.execute w)) :
    ∃ task, s.workers[w]? = some (.running task) := by
  obtain ⟨task, htask⟩ := Option.isSome_iff_exists.mp h
  obtain ⟨place, hw, hplace⟩ := Option.bind_eq_some_iff.mp htask
  cases place with
  | running task => exact ⟨task, hw⟩
  | test | popping | returned => cases hplace

/-! ## Every task is in one place -/

/-- The tasks that the threads of the pool have in hand. -/
def inHand (s : PoolRun τ) : List τ := s.workers.filterMap WorkerPlace.task

/-- The call of a thread: those of the pool are in `Pop` or outside. -/
def Fits (call : Option (PoolCall τ)) : Option (WorkerPlace τ) → Prop
  | some .popping => call = some .pop
  | some _ => call = none
  | none => call ≠ some .pop

variable {maxQueueSize n k : Nat} {s : PoolRun τ}

/-- A thread of the pool moves. -/
theorem fits_set {w : Nat} {old : WorkerPlace τ} (hold : s.workers[w]? = some old)
    {call : Nat → Option (PoolCall τ)} {new : WorkerPlace τ} (hnew : Fits (call w) (some new))
    (hrest : ∀ t, t ≠ w → Fits (call t) s.workers[t]?) (t : Nat) :
    Fits (call t) (s.workers.set w new)[t]? := by
  obtain ⟨hlt, -⟩ := List.getElem?_eq_some_iff.mp hold
  by_cases ht : t = w
  · subst ht
    rw [List.getElem?_set_self hlt]
    exact hnew
  · rw [List.getElem?_set_ne (Ne.symm ht)]
    exact hrest t ht

theorem afterPop_task (r : PoolLocals τ) : (afterPop r).task = r.task := by
  unfold afterPop
  cases r.task <;> rfl

theorem returned_of_mem_set {w : Nat} {new : WorkerPlace τ} (hnew : new ≠ .returned)
    (h : .returned ∈ s.workers.set w new) : .returned ∈ s.workers :=
  (List.mem_or_eq_of_mem_set h).resolve_right (Ne.symm hnew)

/-! ## The loop of `Stop` -/

/-- How many calls of `Stop` have let go of the lock. -/
def stops (log : List (Nat × PoolCall τ × PoolLocals τ)) : Nat :=
  log.countP fun entry => entry.2.1 matches .stop

/-- What the callers in the loop have done. `once` is about the first call of `Stop`: the caller is
alone in the loop, and goes from thread to thread. -/
structure Joining (s : PoolRun τ) : Prop where
  ended : ∀ (t : Nat) place, s.joins[t]?.join = some place →
    ∀ v < place.thread, s.workers[v]? = some .returned
  waits : ∀ (t w : Nat), s.joins[t]?.join = some (.waiting w) → w < s.workers.length
  fresh : stops s.pool.returned = 0 → s.joined = [] ∧ ∀ t : Nat, s.joins[t]?.join = none
  once : stops s.pool.returned ≤ 1 → s.joinFailed = false ∧
    ∀ (t : Nat) place, s.joins[t]?.join = some place →
      (∀ w ∈ s.joined, w < place.next) ∧ ∀ t' : Nat, t' ≠ t → s.joins[t']?.join = none
  returned : s.stopReturned = true → ∀ place ∈ s.workers, place = .returned

theorem join_set {joins : List (Option JoinPlace)} {t v : Nat} {new : Option JoinPlace}
    {place : JoinPlace} (h : (joins.set t new)[v]?.join = some place) :
    v = t ∧ new = some place ∨ v ≠ t ∧ joins[v]?.join = some place := by
  by_cases hv : v = t
  · subst hv
    rw [List.getElem?_set_self'] at h
    cases hold : joins[v]? with
    | none => simp [hold] at h
    | some old => exact .inl ⟨rfl, by simpa [hold] using h⟩
  · rw [List.getElem?_set_ne (Ne.symm hv)] at h
    exact .inr ⟨hv, h⟩

/-- The callers stay behind the threads that have ended when one of them moves. -/
theorem Joining.ended_set (h : s.Joining) {t : Nat} {new : Option JoinPlace}
    (hnew : ∀ place ∈ new, ∀ v < place.thread, s.workers[v]? = some .returned) (t' : Nat)
    (place : JoinPlace) (hplace : (s.joins.set t new)[t']?.join = some place) :
    ∀ v < place.thread, s.workers[v]? = some .returned := by
  rcases join_set hplace with ⟨-, hmoved⟩ | ⟨-, hold⟩
  · exact hnew place hmoved
  · exact h.ended t' place hold

theorem Joining.waits_set (h : s.Joining) {t : Nat} {new : Option JoinPlace}
    (hnew : ∀ w, new = some (.waiting w) → w < s.workers.length) (t' w : Nat)
    (hplace : (s.joins.set t new)[t']?.join = some (.waiting w)) : w < s.workers.length := by
  rcases join_set hplace with ⟨-, hmoved⟩ | ⟨-, hold⟩
  · exact hnew w hmoved
  · exact h.waits t' w hold

/-- A step that does not go on in the loop, and is not the end of a critical section of `Stop`. -/
theorem Joining.keep (h : s.Joining) {s' : PoolRun τ} (hjoins : s'.joins = s.joins)
    (hjoined : s'.joined = s.joined) (hfailed : s'.joinFailed = s.joinFailed)
    (hreturned : s'.stopReturned = s.stopReturned)
    (hstops : stops s'.pool.returned = stops s.pool.returned)
    (hworkers : ∀ v : Nat, s.workers[v]? = some .returned → s'.workers[v]? = some .returned)
    (hlength : s'.workers.length = s.workers.length) : s'.Joining where
  ended t place hplace v hv := hworkers v (h.ended t place (hjoins ▸ hplace) v hv)
  waits t w hw := hlength ▸ h.waits t w (hjoins ▸ hw)
  fresh hzero := by
    rw [hjoined, hjoins]
    exact h.fresh (hstops ▸ hzero)
  once hone := by
    rw [hfailed, hjoined, hjoins]
    exact h.once (hstops ▸ hone)
  returned hret place hmem := by
    obtain ⟨v, hlt, rfl⟩ := List.mem_iff_getElem.mp hmem
    have hold := h.returned (hreturned ▸ hret) s.workers[v] (List.getElem_mem _)
    have hnew := hworkers v (List.getElem?_eq_some_iff.mpr ⟨hlength ▸ hlt, hold⟩)
    exact (List.getElem?_eq_some_iff.mp hnew).2

/-- A caller in the loop goes on: it comes to the next thread, or is done. -/
theorem Joining.join (h : s.Joining) {t : Nat} {place : JoinPlace}
    (hplace : s.joins[t]?.join = some place) (hcan : s.CanJoin place) : (s.join t).Joining := by
  have hended := h.ended t place hplace
  have hfresh : stops s.pool.returned ≠ 0 := fun hzero => by
    rw [(h.fresh hzero).2 t] at hplace
    cases hplace
  -- The callers that are in the loop afterwards.
  have hjoiners : ∀ {new : Option JoinPlace} {v : Nat} {place' : JoinPlace},
      (s.joins.set t new)[v]?.join = some place' → stops s.pool.returned ≤ 1 →
        v = t ∧ new = some place' := fun hv hone =>
    (join_set hv).elim id fun hother => by
      rw [((h.once hone).2 t place hplace).2 _ hother.1] at hother
      cases hother.2
  have hothers : ∀ {new : Option JoinPlace}, stops s.pool.returned ≤ 1 →
      ∀ t' : Nat, t' ≠ t → (s.joins.set t new)[t']?.join = none := fun hone t' ht' => by
    rw [List.getElem?_set_ne (Ne.symm ht')]
    exact ((h.once hone).2 t place hplace).2 t' ht'
  unfold PoolRun.join
  cases place with
  | before w =>
    simp only [hplace]
    split
    · rename_i hlt
      refine ⟨h.ended_set ?_, h.waits_set ?_, fun hzero => absurd hzero hfresh, fun hone => ?_,
        h.returned⟩
      · rintro _ ⟨⟩
        exact hended
      · rintro _ ⟨⟩
        exact hlt
      · obtain ⟨hfailed, hbefore⟩ := h.once hone
        have hlt := (hbefore t _ hplace).1
        have hnot : w ∉ s.joined := fun hmem => Nat.lt_irrefl w (hlt w hmem)
        refine ⟨by simpa [hfailed] using hnot, fun v place' hv => ?_⟩
        obtain ⟨rfl, hnew⟩ := hjoiners hv hone
        cases hnew
        refine ⟨fun u hu => ?_, hothers hone⟩
        rcases List.mem_cons.mp hu with rfl | hu
        · exact Nat.lt_succ_self _
        · exact Nat.lt_succ_of_lt (hlt u hu)
    · rename_i hlast
      refine ⟨h.ended_set ?_, h.waits_set ?_, fun hzero => absurd hzero hfresh, fun hone => ?_,
        fun _ worker hmem => ?_⟩
      · rintro _ ⟨⟩
      · rintro _ ⟨⟩
      · refine ⟨(h.once hone).1, fun v place' hv => ?_⟩
        cases (hjoiners hv hone).2
      · obtain ⟨v, hlt, rfl⟩ := List.mem_iff_getElem.mp hmem
        have hv : v < w := Nat.lt_of_lt_of_le hlt (Nat.not_lt.mp hlast)
        exact (List.getElem?_eq_some_iff.mp (hended v hv)).2
  | waiting w =>
    simp only [hplace]
    refine ⟨h.ended_set ?_, h.waits_set ?_, fun hzero => absurd hzero hfresh, fun hone => ?_,
      h.returned⟩
    · rintro _ ⟨⟩ v hv
      rcases Nat.lt_succ_iff_lt_or_eq.mp hv with hv | rfl
      · exact hended v hv
      · exact hcan
    · rintro _ ⟨⟩
    · obtain ⟨hfailed, hbefore⟩ := h.once hone
      refine ⟨hfailed, fun v place' hv => ?_⟩
      obtain ⟨rfl, hnew⟩ := hjoiners hv hone
      cases hnew
      exact ⟨(hbefore v _ hplace).1, hothers hone⟩

/-- The critical section of `Stop` ends. -/
theorem Joining.stop (h : s.Joining) (t : Nat)
    {pool : Locked (PoolMembers τ) (PoolCall τ) (PoolLocals τ)}
    (hstops : stops pool.returned = stops s.pool.returned + 1) :
    Joining { s with pool, joins := s.joins.set t (some (.before 0)) } := by
  refine ⟨h.ended_set ?_, h.waits_set ?_, fun hzero => ?_, fun hone => ?_, h.returned⟩
  · rintro _ ⟨⟩ v hv
    exact absurd hv (Nat.not_lt_zero v)
  · rintro _ ⟨⟩
  · exact absurd (hstops.symm.trans hzero) (Nat.succ_ne_zero _)
  · -- It is the first one.
    have hzero : stops s.pool.returned = 0 := by
      have hle : stops pool.returned ≤ 1 := hone
      omega
    obtain ⟨hjoined, hnone⟩ := h.fresh hzero
    refine ⟨(h.once (by omega)).1, fun v place hv => ?_⟩
    rcases join_set hv with ⟨rfl, -⟩ | ⟨-, hold⟩
    · refine ⟨by simp [hjoined], fun t' ht' => ?_⟩
      rw [List.getElem?_set_ne (Ne.symm ht')]
      exact hnone t'
    · rw [hnone v] at hold
      cases hold

theorem joining_make : (make maxQueueSize n k : PoolRun τ).Joining := by
  have hnone : ∀ t : Nat, (make maxQueueSize n k : PoolRun τ).joins[t]?.join = none := fun t => by
    simp only [make, List.getElem?_replicate]
    split <;> rfl
  refine ⟨fun t place hplace => ?_, fun t w hplace => ?_, fun _ => ⟨rfl, hnone⟩,
    fun _ => ⟨rfl, fun t place hplace => ?_⟩, fun h => Bool.noConfusion h⟩
  all_goals
    rw [hnone t] at hplace
    cases hplace

/-- A caller comes to the loop only after the critical section of `Stop`. -/
theorem Joining.stopped (h : s.Joining) {t : Nat} {place : JoinPlace}
    (hplace : s.joins[t]?.join = some place) : PoolWait.stopped s.pool.returned = true := by
  have hpos : 0 < stops s.pool.returned := by
    by_contra hzero
    rw [(h.fresh (Nat.eq_zero_of_not_pos hzero)).2 t] at hplace
    cases hplace
  obtain ⟨entry, hmem, hstop⟩ := List.countP_pos_iff.mp hpos
  exact List.any_eq_true.mpr ⟨entry, hmem, hstop⟩

/-! ## The tasks -/

variable [DecidableEq τ]

structure Sound (maxQueueSize n k : Nat) (s : PoolRun τ) : Prop where
  pool : Leads (Locked.step cls) (Locked.Admissible cls) (PoolWait.make maxQueueSize (n + k)) s.pool
  length : s.pool.threads.length = n + k
  workers : s.workers.length = n
  fits : ∀ t : Nat, Fits (s.pool.threads[t]?.bind Locked.callOf) s.workers[t]?
  tasks : ∀ x, s.executed.count x + s.inHand.count x = (popped s.pool.returned).count x
  ended : .returned ∈ s.workers → s.pool.members.running = false

theorem inHand_set {w : Nat} {old : WorkerPlace τ} (h : s.workers[w]? = some old)
    (new : WorkerPlace τ) (x : τ) :
    ((s.workers.set w new).filterMap WorkerPlace.task).count x + old.task.toList.count x =
      s.inHand.count x + new.task.toList.count x :=
  ThreadPool.setPlace_inHand (s := { threads := s.workers }) h new x

theorem Sound.out_of_worker (h : s.Sound maxQueueSize n k) {w : Nat} {place : WorkerPlace τ}
    (hw : s.workers[w]? = some place) (hplace : place ≠ .popping) :
    s.pool.threads[w]? = some .out := by
  obtain ⟨hlt, -⟩ := List.getElem?_eq_some_iff.mp hw
  have hfits := h.fits w
  rw [hw] at hfits
  have hlen := h.length
  have hworkers := h.workers
  have hget : s.pool.threads[w]? = some s.pool.threads[w] :=
    List.getElem?_eq_getElem (by omega)
  cases hcall : s.pool.threads[w]?.bind Locked.callOf with
  | some op =>
    rw [hcall] at hfits
    cases place <;> first | exact absurd rfl hplace | cases hfits
  | none =>
    rw [hget] at hcall ⊢
    exact congrArg some (Locked.callOf_eq_none.mp hcall)

/-- A thread of the pool goes on outside of the lock. -/
theorem Sound.move (h : s.Sound maxQueueSize n k) {w : Nat} {old new : WorkerPlace τ}
    (hw : s.workers[w]? = some old) (hold : old ≠ .popping) (hnew : new ≠ .popping)
    {executed : List τ} (htasks : ∀ x, executed.count x + new.task.toList.count x =
      s.executed.count x + old.task.toList.count x)
    (hended : new = .returned → s.pool.members.running = false) :
    Sound maxQueueSize n k { s with workers := s.workers.set w new, executed } where
  pool := h.pool
  length := h.length
  workers := (List.length_set).trans h.workers
  fits := by
    refine fits_set hw ?_ fun t _ => h.fits t
    rw [h.out_of_worker hw hold]
    cases new <;> first | rfl | exact absurd rfl hnew
  tasks x := by
    have hset := inHand_set hw new x
    have hx := htasks x
    have hbefore := h.tasks x
    simp only [inHand] at hset hbefore ⊢
    omega
  ended hmem := by
    rcases List.mem_or_eq_of_mem_set hmem with hmem | rfl
    · exact h.ended hmem
    · exact hended rfl

theorem Sound.test (h : s.Sound maxQueueSize n k) {w : Nat} (hw : s.workers[w]? = some .test) :
    (s.step (.test w)).Sound maxQueueSize n k := by
  have hout := h.out_of_worker hw (by simp)
  simp only [PoolRun.step]
  split
  · exact {
      pool := h.pool.next (i := .call w .pop) hout
      length := (Locked.length_step _ _).trans h.length
      workers := (List.length_set).trans h.workers
      fits := by
        refine fits_set hw ?_ fun t ht => ?_
        · simp [Locked.step, Locked.setPlace, Locked.callOf_set hout, Fits, Locked.callOf]
        · simpa [Locked.step, Locked.setPlace, Locked.callOf_set hout, ht] using h.fits t
      tasks := fun x => by
        have hset := inHand_set hw .popping x
        have htasks := h.tasks x
        simp only [WorkerPlace.task, Option.toList_none, List.count_nil, Nat.add_zero] at hset
        simp only [inHand, hset] at htasks ⊢
        exact htasks
      ended := fun hmem => h.ended (returned_of_mem_set (by simp) hmem) }
  · rename_i hstopped
    exact h.move hw (by simp) (by simp) (fun _ => rfl) fun _ => by simpa using hstopped

theorem Sound.execute (h : s.Sound maxQueueSize n k) {w : Nat} {task : τ}
    (hw : s.workers[w]? = some (.running task)) : (s.step (.execute w)).Sound maxQueueSize n k := by
  have hstep : s.step (.execute w) =
      { s with executed := s.executed ++ [task], workers := s.workers.set w .test } := by
    simp [PoolRun.step, hw, WorkerPlace.task]
  rw [hstep]
  refine h.move hw (by simp) (by simp) (fun x => ?_) (by simp)
  simp [WorkerPlace.task]

/-- A thread goes on under the lock, within its call. -/
theorem Sound.next_inside (h : s.Sound maxQueueSize n k) {t : Nat} {u : Option Nat}
    {place : LockPlace (PoolCall τ) (PoolLocals τ)} (ht : s.pool.threads[t]? = some place)
    (hgo : s.pool.CanGo cls u place) (hleaving : Locked.leaving place = none) :
    (s.step (.lock (.next t u))).Sound maxQueueSize n k := by
  have hworkers : s.workersAfter (.next t u) = s.workers := by simp [workersAfter, ht, hleaving]
  simp only [PoolRun.step, hworkers]
  exact {
    pool := h.pool.next (i := .next t u) ⟨place, ht, hgo⟩
    length := (Locked.length_step _ _).trans h.length
    workers := h.workers
    fits := fun v => by
      simpa [Locked.step, Locked.callOf_next ht, hleaving] using h.fits v
    tasks := fun x => by
      simpa [Locked.step, Locked.returned_next ht, hleaving, inHand] using h.tasks x
    ended := fun hmem => Locked.members_step stopped_stays s.pool _ (h.ended hmem) }

/-- A thread returns. -/
theorem Sound.next_leaving (h : s.Sound maxQueueSize n k) {t : Nat} {u : Option Nat}
    {op : PoolCall τ} {r : PoolLocals τ} (ht : s.pool.threads[t]? = some (.unlocking op r)) :
    (s.step (.lock (.next t u))).Sound maxQueueSize n k := by
  have hpool := h.pool.next (i := .next t u) ⟨_, ht, trivial⟩
  have hfits := h.fits t
  have hreturned : (s.pool.step cls (.next t u)).returned = s.pool.returned ++ [(t, op, r)] :=
    Locked.returned_next ht u
  have hcall : ∀ v, (s.pool.step cls (.next t u)).threads[v]?.bind Locked.callOf =
      if v = t then none else s.pool.threads[v]?.bind Locked.callOf := fun v => by
    rw [Locked.step, Locked.callOf_next ht]
    simp [Locked.leaving]
  have hended : s.pool.members.running = false →
      (s.pool.step cls (.next t u)).members.running = false :=
    Locked.members_step stopped_stays s.pool (.next t u)
  have hworkers : s.workersAfter (.next t u) = s.workers.set t (afterPop r) := by
    simp [workersAfter, ht, Locked.leaving]
  simp only [PoolRun.step, hworkers]
  cases hw : s.workers[t]? with
  | none =>
    -- A caller: it has no task, since it was not in `Pop`.
    have hle : s.workers.length ≤ t := List.getElem?_eq_none_iff.mp hw
    have hop : op ≠ .pop := by
      simpa [hw, ht, Fits, Locked.callOf] using hfits
    have htask : r.task = none := by
      obtain ⟨is, his, heq⟩ := hpool
      obtain ⟨b, hreplays, -⟩ := Locked.returned_replays his
      rw [heq, hreturned] at hreplays
      exact replays_task hreplays (List.mem_append_right _ List.mem_cons_self) hop
    rw [List.set_eq_of_length_le hle]
    exact {
      pool := hpool
      length := (Locked.length_step _ _).trans h.length
      workers := h.workers
      fits := fun v => by
        rw [hcall]
        split
        · subst_vars
          simp [hw, Fits]
        · exact h.fits v
      tasks := fun x => by
        simpa [hreturned, popped_append, popped, htask, inHand] using h.tasks x
      ended := fun hmem => hended (h.ended hmem) }
  | some worker =>
    rw [hw, ht] at hfits
    cases worker with
    | test | running | returned => cases hfits
    | popping =>
      exact {
        pool := hpool
        length := (Locked.length_step _ _).trans h.length
        workers := (List.length_set).trans h.workers
        fits := by
          refine fits_set hw ?_ fun v hv => ?_
          · rw [hcall, if_pos rfl, afterPop]
            cases r.task <;> rfl
          · rw [hcall, if_neg hv]
            exact h.fits v
        tasks := fun x => by
          have hset := inHand_set hw (afterPop r) x
          have htasks := h.tasks x
          rw [afterPop_task] at hset
          simp only [WorkerPlace.task, Option.toList_none, List.count_nil] at hset
          simp only [hreturned, popped_append, List.count_append, inHand] at hset htasks ⊢
          simp only [popped, List.flatMap_cons, List.flatMap_nil, List.append_nil] at htasks ⊢
          omega
        ended := fun hmem => by
          refine hended (h.ended (returned_of_mem_set ?_ hmem))
          unfold afterPop
          cases r.task <;> simp }

theorem Sound.lock (h : s.Sound maxQueueSize n k) {i : LockStep (PoolCall τ)} (hcalls : s.Calls i)
    (hi : s.pool.Admissible cls i) : (s.step (.lock i)).Sound maxQueueSize n k := by
  cases i with
  | next t u =>
    obtain ⟨place, ht, hgo⟩ := hi
    cases hleaving : Locked.leaving place with
    | none => exact h.next_inside ht hgo hleaving
    | some leaving =>
      cases place with
      | unlocking op r => exact h.next_leaving ht
      | out | locking | locked | test | wait | unassigned | asleep | woken | body => cases hleaving
  | call t op =>
    exact {
      pool := h.pool.next hi
      length := (Locked.length_step _ _).trans h.length
      workers := h.workers
      fits := fun v => by
        have hout : s.pool.threads[t]? = some .out := hi
        simp only [PoolRun.step, Locked.step, Locked.setPlace, Locked.callOf_set hout,
          workersAfter]
        split
        · subst_vars
          rw [List.getElem?_eq_none_iff.mpr hcalls.1]
          simpa [Fits, Locked.callOf] using hcalls.2.1
        · exact h.fits v
      tasks := h.tasks
      ended := h.ended }
  | rouse t =>
    obtain ⟨op, ht⟩ := hi
    exact {
      pool := h.pool.next (i := .rouse t) ⟨op, ht⟩
      length := (Locked.length_step _ _).trans h.length
      workers := h.workers
      fits := fun v => by
        have hcall := Locked.callOf_set_same ht (LockPlace.asleep op).wake rfl v
        simpa [PoolRun.step, Locked.step, Locked.setPlace, ht, hcall, workersAfter] using h.fits v
      tasks := fun x => by
        simpa [PoolRun.step, Locked.step, Locked.setPlace, ht, inHand, workersAfter] using h.tasks x
      ended := fun hmem => Locked.members_step stopped_stays s.pool (.rouse t) (h.ended hmem) }

theorem Sound.join (h : s.Sound maxQueueSize n k) (t : Nat) :
    (s.join t).Sound maxQueueSize n k := by
  unfold PoolRun.join
  split
  · split <;> exact ⟨h.pool, h.length, h.workers, h.fits, h.tasks, h.ended⟩
  · exact ⟨h.pool, h.length, h.workers, h.fits, h.tasks, h.ended⟩
  · exact h

theorem Sound.step (h : s.Sound maxQueueSize n k) {i : PoolRunStep τ} (hi : s.Admissible i) :
    (s.step i).Sound maxQueueSize n k := by
  cases i with
  | test w => exact h.test hi
  | lock i => exact h.lock hi.1 hi.2
  | join t => exact h.join t
  | execute w =>
    obtain ⟨task, hw⟩ := running_of_execute hi
    exact h.execute hw

theorem sound_make : (make maxQueueSize n k : PoolRun τ).Sound maxQueueSize n k where
  pool := Leads.refl _
  length := List.length_replicate
  workers := List.length_replicate
  fits t := by
    simp only [make, Locked.fresh, List.getElem?_replicate]
    split <;> split <;> simp [Fits, Locked.callOf]
  tasks x := by
    have hnil : (List.replicate n (.test : WorkerPlace τ)).filterMap WorkerPlace.task = [] :=
      List.filterMap_eq_nil_iff.mpr fun place hplace => by
        rw [List.eq_of_mem_replicate hplace]
        rfl
    simp [make, inHand, hnil, popped, Locked.fresh]
  ended hmem := by cases List.eq_of_mem_replicate hmem

theorem sound_run {is : List (PoolRunStep τ)}
    (h : Legal step Admissible (make maxQueueSize n k) is) :
    (is.foldl step (make maxQueueSize n k)).Sound maxQueueSize n k :=
  legal_invariant (fun _ _ hs hi => hs.step hi) sound_make h

/-- Where the tasks are that `Run` has taken. -/
theorem Sound.accepted_eq (h : s.Sound maxQueueSize n k) :
    ∃ rest, accepted s.pool.returned = popped s.pool.returned ++ rest ∧
      (s.executed ++ s.inHand).Perm (popped s.pool.returned) ∧
      (s.pool.mutex = none →
        rest = s.pool.members.queue ∧ s.pool.members.running = !stopped s.pool.returned) := by
  obtain ⟨is, his, heq⟩ := h.pool
  obtain ⟨b, hreplays, hmembers⟩ := Locked.returned_replays his
  rw [heq] at hreplays hmembers
  refine ⟨b.queue, replays_fifo hreplays, List.perm_iff_count.mpr fun x => ?_, fun hfree => ?_⟩
  · rw [List.count_append]
    exact h.tasks x
  · rw [← hmembers hfree]
    exact ⟨rfl, replays_running hreplays⟩

/-- A thread that has ended does not go on. -/
theorem Sound.step_returned (h : s.Sound maxQueueSize n k) {i : PoolRunStep τ}
    (hi : s.Admissible i) {v : Nat} (hv : s.workers[v]? = some .returned) :
    (s.step i).workers[v]? = some .returned := by
  have hset : ∀ {w : Nat} {new : WorkerPlace τ}, s.workers[w]? ≠ some .returned →
      (s.workers.set w new)[v]? = some .returned := fun hw => by
    rw [List.getElem?_set_ne (by rintro rfl; exact hw hv), hv]
  cases i with
  | test w =>
    have hw : s.workers[w]? ≠ some .returned := by
      rw [show s.workers[w]? = some .test from hi]
      simp
    simp only [PoolRun.step]
    split <;> exact hset hw
  | execute w =>
    simp only [PoolRun.step]
    split
    · rename_i task htask
      refine hset fun hw => ?_
      rw [hw] at htask
      cases htask
    · exact hv
  | join t =>
    simp only [PoolRun.step, PoolRun.join]
    split
    · split <;> exact hv
    · exact hv
    · exact hv
  | lock i =>
    cases i with
    | call t op => exact hv
    | rouse t => exact hv
    | next t u =>
      simp only [PoolRun.step, workersAfter]
      split
      · rename_i op r hleaving
        obtain ⟨place, ht, hplace⟩ := Option.bind_eq_some_iff.mp hleaving
        refine hset fun hw => ?_
        -- It would be outside of the lock.
        rw [h.out_of_worker hw (by simp)] at ht
        cases ht
        cases hplace
      · exact hv

theorem Sound.joining_lock (h : s.Sound maxQueueSize n k) (hj : s.Joining)
    {i : LockStep (PoolCall τ)} (hi : s.Admissible (.lock i)) : (s.step (.lock i)).Joining := by
  have hlength : (s.step (.lock i)).workers.length = s.workers.length :=
    (h.step hi).workers.trans h.workers.symm
  have hworkers := fun v hv => h.step_returned hi (v := v) hv
  cases i with
  | call t op => exact hj.keep rfl rfl rfl rfl rfl hworkers hlength
  | rouse t =>
    refine hj.keep rfl rfl rfl rfl ?_ hworkers hlength
    simp only [PoolRun.step, Locked.step]
    split <;> rfl
  | next t u =>
    obtain ⟨place, ht, -⟩ := hi.2
    have hreturned : (s.step (.lock (.next t u))).pool.returned =
        s.pool.returned ++ (Locked.leaving place).toList.map (t, ·) := Locked.returned_next ht u
    have hkeep : (∀ r, Locked.leaving place ≠ some (.stop, r)) →
        (s.step (.lock (.next t u))).Joining := fun hnot => by
      refine hj.keep ?_ rfl rfl rfl ?_ hworkers hlength
      · simp only [PoolRun.step, joinsAfter, ht, Option.bind_some]
      · rw [hreturned]
        cases hleaving : Locked.leaving place with
        | none => simp
        | some leaving =>
          obtain ⟨op, r⟩ := leaving
          cases op with
          | stop => exact absurd hleaving (hnot r)
          | run | pop | queueSize => simp [stops]
    cases hleaving : Locked.leaving place with
    | none => exact hkeep (by simp [hleaving])
    | some leaving =>
      obtain ⟨op, r⟩ := leaving
      cases op with
      | run | pop | queueSize => exact hkeep (by simp [hleaving])
      | stop =>
        have hstops : stops (s.step (.lock (.next t u))).pool.returned =
            stops s.pool.returned + 1 := by
          rw [hreturned, hleaving]
          simp [stops]
        refine (hj.stop t hstops).keep ?_ rfl rfl rfl rfl hworkers hlength
        simp only [PoolRun.step, joinsAfter, ht, Option.bind_some, hleaving]

theorem Sound.joining (h : s.Sound maxQueueSize n k) (hj : s.Joining) {i : PoolRunStep τ}
    (hi : s.Admissible i) : (s.step i).Joining := by
  cases i with
  | lock i => exact h.joining_lock hj hi
  | join t =>
    obtain ⟨place, hplace, hcan⟩ := hi
    exact hj.join hplace hcan
  | test w =>
    have hlength := (h.step hi).workers.trans h.workers.symm
    have hworkers := fun v hv => h.step_returned hi (v := v) hv
    refine hj.keep ?_ ?_ ?_ ?_ ?_ hworkers hlength <;> simp only [PoolRun.step] <;> split <;> rfl
  | execute w =>
    have hlength := (h.step hi).workers.trans h.workers.symm
    have hworkers := fun v hv => h.step_returned hi (v := v) hv
    refine hj.keep ?_ ?_ ?_ ?_ ?_ hworkers hlength <;> simp only [PoolRun.step] <;> split <;> rfl

theorem joining_run {is : List (PoolRunStep τ)}
    (h : Legal step Admissible (make maxQueueSize n k) is) :
    (is.foldl step (make maxQueueSize n k)).Joining := by
  have hstep : ∀ (s : PoolRun τ) i, s.Sound maxQueueSize n k ∧ s.Joining → s.Admissible i →
      (s.step i).Sound maxQueueSize n k ∧ (s.step i).Joining :=
    fun _ _ hs hi => ⟨hs.1.step hi, hs.1.joining hs.2 hi⟩
  exact (legal_invariant hstep ⟨sound_make, joining_make⟩ h).2

/-- **Every task is run at most once.** For any numbers of threads and any order of their steps: no
assertion of `Run` fails, also not that of `IsFull()` about the lock, and the queue keeps its bound;
the tasks that have been run or are in hand are the first ones that `Run` has taken, and the others
are in the queue. As long as not more than one call of `Stop` has come to its loop, no assertion of
`Join` fails. When a call of `Stop` has returned, all threads of the pool have ended. -/
theorem pool_exact (maxQueueSize n k : Nat) (is : List (PoolRunStep τ))
    (h : Legal step Admissible (make maxQueueSize n k) is) :
    let s := is.foldl step (make maxQueueSize n k)
    s.pool.members.failed = false ∧
      (0 < maxQueueSize → s.pool.members.queue.length ≤ maxQueueSize) ∧
      (∀ (t : Nat) place, s.pool.threads[t]? = some place → place.holds = true →
        s.pool.isLockedByThisThread t = true) ∧
      (∃ first rest, accepted s.pool.returned = first ++ rest ∧
        (s.executed ++ s.inHand).Perm first ∧
        (s.pool.mutex = none → rest = s.pool.members.queue)) ∧
      (stops s.pool.returned ≤ 1 → s.joinFailed = false) ∧
      (s.stopReturned = true → ∀ place ∈ s.workers, place = .returned) := by
  intro s
  have hs : s.Sound maxQueueSize n k := sound_run h
  have hj : s.Joining := joining_run h
  obtain ⟨js, hjs, heq⟩ := hs.pool
  obtain ⟨hfailed, -, hbound⟩ : Bounded maxQueueSize s.pool.members := by
    rw [← heq]
    exact Locked.members_run exec_bounded ⟨rfl, rfl, fun _ => Nat.zero_le _⟩ hjs
  obtain ⟨rest, haccepted, hperm, hfree⟩ := hs.accepted_eq
  refine ⟨hfailed, hbound, fun t place ht hholds => ?_,
    ⟨_, rest, haccepted, hperm, fun hmutex => (hfree hmutex).1⟩,
    fun hone => (hj.once hone).1, hj.returned⟩
  rw [← heq] at ht ⊢
  exact (Locked.isLocked_run hjs ht hholds).1

/-- Thread `t` goes on `m` times under the lock. -/
def goes (t m : Nat) : List (PoolRunStep Nat) := List.replicate m (.lock (.next t none))

/-- The thread of the pool sleeps. It is notified of 7; before it runs, the caller finds the queue
full with 8 and sleeps until 7 is popped. -/
def handOff : List (PoolRunStep Nat) :=
  [[.test 0], goes 0 5, [.lock (.call 1 (.run 7))], goes 1 6, [.lock (.next 1 (some 0))],
    goes 1 2, [.lock (.call 1 (.run 8))], goes 1 5, goes 0 5, [.lock (.next 0 (some 1))],
    goes 0 2, [.execute 0, .test 0], goes 0 5, goes 1 6, [.lock (.next 1 (some 0))],
    goes 1 2, goes 0 8, [.execute 0, .test 0], goes 0 5].flatten

/-- Then the caller stops the pool, and joins the thread. -/
def stopping : List (PoolRunStep Nat) :=
  [handOff, [.lock (.call 1 .stop)], goes 1 8, [.join 1], goes 0 8,
    [.test 0, .join 1, .join 1]].flatten

theorem stopping_legal : Legal step Admissible (make 1 1 1) stopping := by
  decide +kernel

theorem stopping_exact :
    let s := stopping.foldl step (make 1 1 1)
    s.executed = [7, 8] ∧ s.pool.members.failed = false ∧
      (∃ first rest, accepted s.pool.returned = first ++ rest ∧
        (s.executed ++ s.inHand).Perm first ∧
        (s.pool.mutex = none → rest = s.pool.members.queue)) ∧
      s.joined = [0] ∧ s.joinFailed = false ∧ ∀ place ∈ s.workers, place = .returned := by
  obtain ⟨hfailed, -, -, htasks, hjoin, hreturned⟩ := pool_exact 1 1 1 stopping stopping_legal
  exact ⟨by decide +kernel, hfailed, htasks, by decide +kernel, hjoin (by decide +kernel),
    hreturned (by decide +kernel)⟩

-- A second `Stop` fails the assertion of `Join`.
example :
    let again := stopping ++ [.lock (.call 1 .stop)] ++ goes 1 8 ++ [.join 1]
    Legal step Admissible (make 1 1 1) again ∧
      (again.foldl step (make 1 1 1)).joinFailed = true := by
  decide +kernel

/-- No thread can go on. -/
def Stuck (s : PoolRun τ) : Prop :=
  (∀ w, ¬ s.Admissible (.test w)) ∧ (∀ w, ¬ s.Admissible (.execute w)) ∧
    (∀ t, ¬ s.Admissible (.join t)) ∧ s.pool.Stuck cls

end PoolRun

end MyTinyHttpd
