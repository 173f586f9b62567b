import Mathlib.Data.List.Nodup
import MyTinyHttpd.Net.EventLoop

/-!
# The functors of an `EventLoop` run once and in order

`pushes` is the sequence of the functors in the order of their pushes. In every interleaving the
functors that have been called, the rest of the batch and `pending_functors_` make up this sequence
(`contents`). A batch is what the critical section of `DoPendingFunctors` has found: `calling_step`
says that until its end no push changes it, and `batch_runs` that all of it can be called.
-/

namespace MyTinyHttpd

open Verif

variable {τ φ : Type}

namespace EventLoop

variable (s : EventLoop τ φ)

theorem call_eq : ∃ functors ran, s.call = { s with functors, ran } := by
  unfold call
  split
  · exact ⟨_, _, rfl⟩
  · exact ⟨_, _, rfl⟩

theorem testQuit_eq : ∃ isLooping, s.testQuit =
    { s with place := if s.isQuit then .outside else .polling, isLooping } := by
  unfold testQuit
  cases s.isQuit
  · exact ⟨_, rfl⟩
  · exact ⟨_, rfl⟩

end EventLoop

variable [DecidableEq τ]

/-- A step of `QueueInLoop`, `RunInLoop` or `Quit`, which any thread may call. -/
def LoopStep.isCall : LoopStep τ φ → Bool
  | .queueInLoop .. | .runInLoop .. | .queueInLoopRest _ | .quit _ | .quitRest _ => true
  | .loop | .resetQuit | .testQuit | .poll _ | .handleRead | .handled | .swap | .call | .done =>
    false

/-- The functor that a step pushes. -/
def LoopStep.pushed? (threadId : τ) : LoopStep τ φ → Option φ
  | .queueInLoop _ f => some f
  | .runInLoop t f => if t = threadId then none else some f
  | _ => none

namespace EventLoop

/-- The functors in the order of their pushes. -/
def pushes (threadId : τ) (is : List (LoopStep τ φ)) : List φ :=
  is.filterMap (·.pushed? threadId)

theorem pushes_snoc (threadId : τ) (is : List (LoopStep τ φ)) (i : LoopStep τ φ) :
    pushes threadId (is ++ [i]) = pushes threadId is ++ (i.pushed? threadId).toList := by
  rw [pushes, List.filterMap_append]
  cases h : i.pushed? threadId <;> simp [h, pushes]

/-- The functors that have been called, those of the batch and those of the queue. -/
def contents (s : EventLoop τ φ) : List φ := s.ran ++ s.functors ++ s.pendingFunctors

/-- The `n`-th functor in the order of the pushes has been called. -/
def HasRun (s : EventLoop τ φ) (n : Nat) : Prop := n < s.ran.length

variable (s : EventLoop τ φ)

/-! ## What the functions leave alone -/

theorem queueInLoopRest_eq (t : τ) :
    ∃ eventfd, s.queueInLoopRest t =
      { s with calls := s.calls.erase (t, .queueInLoop), eventfd } := by
  simp only [queueInLoopRest]
  split
  · exact ⟨_, rfl⟩
  · exact ⟨_, rfl⟩

theorem quitRest_eq (t : τ) :
    ∃ eventfd, s.quitRest t = { s with calls := s.calls.erase (t, .quit), eventfd } := by
  simp only [quitRest]
  split
  · exact ⟨_, rfl⟩
  · exact ⟨_, rfl⟩

/-- A call leaves the loop's own thread where it is, with its batch. -/
theorem step_isCall {i : LoopStep τ φ} (hi : i.isCall = true) :
    ∃ isQuit pendingFunctors eventfd calls,
      s.step i = { s with isQuit, pendingFunctors, eventfd, calls } := by
  cases i with
  | queueInLoop t f => exact ⟨_, _, _, _, rfl⟩
  | runInLoop t f =>
    simp only [step, runInLoop]
    split
    · exact ⟨_, _, _, _, rfl⟩
    · exact ⟨_, _, _, _, rfl⟩
  | queueInLoopRest t =>
    obtain ⟨_, h⟩ := s.queueInLoopRest_eq t
    exact ⟨_, _, _, _, h⟩
  | quit t => exact ⟨_, _, _, _, rfl⟩
  | quitRest t =>
    obtain ⟨_, h⟩ := s.quitRest_eq t
    exact ⟨_, _, _, _, h⟩
  | loop | resetQuit | testQuit | poll | handleRead | handled | swap | call | done => cases hi

theorem step_threadId (i : LoopStep τ φ) : (s.step i).threadId = s.threadId := by
  by_cases hcall : i.isCall = true
  · obtain ⟨_, _, _, _, h⟩ := s.step_isCall hcall
    rw [h]
  cases i with
  | testQuit => obtain ⟨_, h⟩ := s.testQuit_eq; rw [step, h]
  | call => obtain ⟨_, _, h⟩ := s.call_eq; rw [step, h]
  | loop | resetQuit | poll | handleRead | handled | swap | done => rfl
  | queueInLoop | runInLoop | queueInLoopRest | quit | quitRest => exact absurd rfl hcall

theorem foldl_threadId (is : List (LoopStep τ φ)) : (is.foldl step s).threadId = s.threadId :=
  foldl_invariant (I := fun s' => s'.threadId = s.threadId)
    (fun s' i h => (step_threadId s' i).trans h) rfl is

variable {s}

/-! ## What a step does to the queue and to the batch -/

/-- Outside the loop of `DoPendingFunctors` there is nothing to call. -/
def BatchOver (s : EventLoop τ φ) : Prop := s.place ≠ .calling → s.functors = []

theorem step_batchOver (h : s.BatchOver) {i : LoopStep τ φ} (hi : s.Admissible i) :
    (s.step i).BatchOver := by
  intro hplace
  by_cases hcall : i.isCall = true
  · obtain ⟨_, _, _, _, he⟩ := s.step_isCall hcall
    rw [he] at hplace ⊢
    exact h hplace
  cases i with
  | testQuit =>
    obtain ⟨_, he⟩ := s.testQuit_eq
    rw [step, he]
    exact h (by rw [hi.1]; decide)
  | swap => exact absurd rfl hplace
  | call =>
    obtain ⟨_, _, he⟩ := s.call_eq
    rw [step, he] at hplace
    exact absurd hi.1.1 hplace
  | done => exact hi.2
  | loop => exact h (by rw [hi.1]; decide)
  | resetQuit => exact h (by rw [hi.1]; decide)
  | poll wakeupActive => exact h (by rw [hi.1.1]; decide)
  | handleRead => exact h (by rw [hi.1]; decide)
  | handled => exact h (by rw [hi.1]; decide)
  | queueInLoop | runInLoop | queueInLoopRest | quit | quitRest => exact absurd rfl hcall

theorem contents_step (h : s.BatchOver) {i : LoopStep τ φ} (hi : s.Admissible i) :
    (s.step i).contents = s.contents ++ (i.pushed? s.threadId).toList := by
  have hcongr : ∀ s' : EventLoop τ φ, s'.contents = s.contents →
      s'.contents = s.contents ++ [] := fun s' h => h.trans (List.append_nil _).symm
  cases i with
  | queueInLoop t f => exact (List.append_assoc ..).symm
  | runInLoop t f =>
    simp only [step, runInLoop, isInLoopThread, LoopStep.pushed?, decide_eq_true_eq]
    split
    · exact hcongr s rfl
    · exact (List.append_assoc ..).symm
  | queueInLoopRest t =>
    obtain ⟨e, he⟩ := s.queueInLoopRest_eq t
    rw [step, he]
    exact hcongr _ rfl
  | quitRest t =>
    obtain ⟨e, he⟩ := s.quitRest_eq t
    rw [step, he]
    exact hcongr _ rfl
  | testQuit =>
    obtain ⟨_, he⟩ := s.testQuit_eq
    rw [step, he]
    exact hcongr _ rfl
  | swap =>
    have hover : s.functors = [] := h (by rw [hi.1]; decide)
    refine hcongr _ ?_
    simp [step, swap, contents, hover]
  | call =>
    refine hcongr _ ?_
    simp only [step, call]
    split
    · rfl
    · next f functors hf => simp [contents, hf]
  | quit | loop | resetQuit | poll | handleRead | handled | done => exact hcongr _ rfl

/-- Until `DoPendingFunctors` returns, what it has called and what it has to call stay the same
functors. -/
theorem calling_step (h : s.place = .calling) {i : LoopStep τ φ} (hi : s.Admissible i)
    (hdone : i ≠ .done) :
    (s.step i).place = .calling ∧ (s.step i).ran ++ (s.step i).functors = s.ran ++ s.functors := by
  have hother : ∀ place, place ≠ .calling → ¬ s.At place := fun place hne hat =>
    hne (hat.1.symm.trans h)
  by_cases hcall : i.isCall = true
  · obtain ⟨_, _, _, _, he⟩ := s.step_isCall hcall
    rw [he]
    exact ⟨h, rfl⟩
  cases i with
  | call =>
    simp only [step, call]
    split
    · exact ⟨h, rfl⟩
    · next f functors hf => exact ⟨h, by simp [hf]⟩
  | done => exact absurd rfl hdone
  | loop => exact absurd hi (hother _ (by decide))
  | resetQuit => exact absurd hi (hother _ (by decide))
  | testQuit => exact absurd hi (hother _ (by decide))
  | poll wakeupActive => exact absurd hi.1 (hother _ (by decide))
  | handleRead => exact absurd hi (hother _ (by decide))
  | handled => exact absurd hi (hother _ (by decide))
  | swap => exact absurd hi (hother _ (by decide))
  | queueInLoop | runInLoop | queueInLoopRest | quit | quitRest => exact absurd rfl hcall

/-! ## Whole runs -/

theorem contents_run {threadId : τ} {is : List (LoopStep τ φ)}
    (h : Legal step Admissible (make threadId) is) :
    (is.foldl step (make threadId)).BatchOver ∧
      (is.foldl step (make threadId)).contents = pushes threadId is := by
  refine legal_induction (P := fun is => (is.foldl step (make threadId)).BatchOver ∧
    (is.foldl step (make threadId)).contents = pushes threadId is) ⟨fun _ => rfl, rfl⟩ ?_ h
  rintro is i - hi ⟨hover, hcontents⟩
  rw [List.foldl_append, List.foldl_cons, List.foldl_nil, pushes_snoc]
  refine ⟨step_batchOver hover hi, ?_⟩
  rw [contents_step hover hi, hcontents, foldl_threadId]
  rfl

/-- A part of a run within one batch. -/
theorem batch_run (hplace : s.place = .calling) {is : List (LoopStep τ φ)}
    (h : Legal step Admissible s is) (hdone : .done ∉ is) :
    (is.foldl step s).ran ++ (is.foldl step s).functors = s.ran ++ s.functors := by
  induction is generalizing s with
  | nil => rfl
  | cons i is ih =>
    rw [List.mem_cons, not_or] at hdone
    obtain ⟨hplace', hsame⟩ := calling_step hplace h.1 (Ne.symm hdone.1)
    exact (ih hplace' h.2 hdone.2).trans hsame

/-! ## A batch comes to its end -/

/-- What the loop's own thread has to finish when it is in a function of the loop. -/
def ownRest (s : EventLoop τ φ) : List (LoopStep τ φ) :=
  match s.calls.find? fun call => call.1 = s.threadId with
  | some (t, .queueInLoop) => [.queueInLoopRest t]
  | some (t, .quit) => [.quitRest t]
  | none => []

/-- The functors are called, and `DoPendingFunctors` returns. -/
def callsRest (functors : List φ) : List (LoopStep τ φ) :=
  List.replicate functors.length .call ++ [.done]

/-- The rest of a batch. -/
def batchRest (s : EventLoop τ φ) : List (LoopStep τ φ) := s.ownRest ++ callsRest s.functors

/-- A thread is in one function at a time. -/
def OneCall (s : EventLoop τ φ) : Prop := (s.calls.map Prod.fst).Nodup

theorem OneCall.erase (h : s.OneCall) (call : τ × LoopCall) :
    ((s.calls.erase call).map Prod.fst).Nodup :=
  h.sublist (List.erase_sublist.map _)

theorem OneCall.notMem_erase (h : s.OneCall) {t : τ} {call : LoopCall}
    (hmem : (t, call) ∈ s.calls) : t ∉ (s.calls.erase (t, call)).map Prod.fst := by
  intro ht
  obtain ⟨⟨t', call'⟩, hmem', rfl⟩ := List.mem_map.mp ht
  have heq : (t', call') = (t', call) :=
    List.inj_on_of_nodup_map h (List.mem_of_mem_erase hmem') hmem rfl
  rw [heq] at hmem'
  exact (List.Nodup.of_map _ h).not_mem_erase hmem'

theorem step_oneCall (h : s.OneCall) {i : LoopStep τ φ} (hi : s.Admissible i) :
    (s.step i).OneCall := by
  cases i with
  | queueInLoop t f => exact List.nodup_cons.mpr ⟨hi.1, h⟩
  | quit t => exact List.nodup_cons.mpr ⟨hi.1, h⟩
  | runInLoop t f =>
    simp only [step, runInLoop]
    split
    · exact h
    · exact List.nodup_cons.mpr ⟨hi.1, h⟩
  | queueInLoopRest t =>
    obtain ⟨_, he⟩ := s.queueInLoopRest_eq t
    rw [step, he]
    exact h.erase _
  | quitRest t =>
    obtain ⟨_, he⟩ := s.quitRest_eq t
    rw [step, he]
    exact h.erase _
  | testQuit =>
    obtain ⟨_, he⟩ := s.testQuit_eq
    rw [step, he]
    exact h
  | call =>
    obtain ⟨_, _, he⟩ := s.call_eq
    rw [step, he]
    exact h
  | loop | resetQuit | poll | handleRead | handled | swap | done => exact h

theorem oneCall_run {threadId : τ} {is : List (LoopStep τ φ)}
    (h : Legal step Admissible (make threadId) is) : (is.foldl step (make threadId)).OneCall := by
  have hmake : (make threadId : EventLoop τ φ).OneCall := List.nodup_nil
  have hstep : ∀ (s : EventLoop τ φ) i, s.OneCall → s.Admissible i → (s.step i).OneCall :=
    fun _ _ h hi => step_oneCall h hi
  exact legal_invariant hstep hmake h

/-- The functors of a batch are called one after the other. -/
theorem callsRest_run (hat : s.At .calling) :
    Legal step Admissible s (callsRest s.functors) ∧
      ((callsRest s.functors).foldl step s).ran = s.ran ++ s.functors := by
  induction hf : s.functors generalizing s with
  | nil => exact ⟨⟨⟨hat, hf⟩, trivial⟩, (List.append_nil _).symm⟩
  | cons f functors ih =>
    have hcall : s.step .call = { s with functors, ran := s.ran ++ [f] } := by
      simp only [step, call, hf]
    obtain ⟨hlegal, hran⟩ := ih (s := s.step .call) (by rw [hcall]; exact hat) (by rw [hcall])
    refine ⟨⟨⟨hat, by simp [hf]⟩, hlegal⟩, ?_⟩
    have hrest : (callsRest (f :: functors)).foldl step s =
        (callsRest functors).foldl step (s.step .call) := rfl
    rw [hrest, hran, hcall]
    simp

/-- The loop's own thread can leave the function of the loop that it is in. -/
theorem ownRest_run (h : s.OneCall) :
    Legal step Admissible s s.ownRest ∧
      ∃ eventfd calls, s.ownRest.foldl step s = { s with eventfd, calls } ∧
        s.threadId ∉ calls.map Prod.fst := by
  unfold ownRest
  split
  · rename_i t hfind
    obtain rfl : t = s.threadId := by simpa using List.find?_some hfind
    have hmem := List.mem_of_find?_eq_some hfind
    obtain ⟨eventfd, he⟩ := s.queueInLoopRest_eq s.threadId
    exact ⟨⟨hmem, trivial⟩, eventfd, _, he, h.notMem_erase hmem⟩
  · rename_i t hfind
    obtain rfl : t = s.threadId := by simpa using List.find?_some hfind
    have hmem := List.mem_of_find?_eq_some hfind
    obtain ⟨eventfd, he⟩ := s.quitRest_eq s.threadId
    exact ⟨⟨hmem, trivial⟩, eventfd, _, he, h.notMem_erase hmem⟩
  · rename_i hfind
    refine ⟨trivial, s.eventfd, s.calls, rfl, fun hmem => ?_⟩
    obtain ⟨call, hcall, ht⟩ := List.mem_map.mp hmem
    have hnot := List.find?_eq_none.mp hfind call hcall
    exact hnot (by simpa using ht)

/-- Whatever the functors and the other threads have done, all functors of the batch can be
called. -/
theorem batch_runs (h : s.OneCall) (hplace : s.place = .calling) :
    Legal step Admissible s s.batchRest ∧
      (s.batchRest.foldl step s).ran = s.ran ++ s.functors := by
  obtain ⟨hown, eventfd, calls, heq, hfree⟩ := ownRest_run h
  have hat : At { s with eventfd, calls } .calling := ⟨hplace, hfree⟩
  obtain ⟨hcalls, hran⟩ := callsRest_run hat
  refine ⟨legal_append.mpr ⟨hown, ?_⟩, ?_⟩
  · rw [heq]
    exact hcalls
  · rw [batchRest, List.foldl_append, heq]
    exact hran

/-- When `DoPendingFunctors` returns, the functors have run that were pushed before its critical
section, and no others. -/
theorem batch_done {threadId : τ} {pre mid : List (LoopStep τ φ)}
    (h : Legal step Admissible (make threadId) (pre ++ .swap :: mid ++ [.done]))
    (hdone : .done ∉ mid) :
    (List.foldl step (make threadId) (pre ++ .swap :: mid ++ [.done])).ran =
      pushes threadId pre := by
  obtain ⟨hbefore, hlast⟩ := legal_snoc.mp h
  obtain ⟨hpre, hrest⟩ := legal_append.mp hbefore
  obtain ⟨hover, hcontents⟩ := contents_run hpre
  have hempty : (pre.foldl step (make threadId)).functors = [] :=
    hover (by rw [hrest.1.1]; decide)
  have hbatch := batch_run rfl hrest.2 hdone
  rw [List.foldl_append] at hlast
  have hnone : (mid.foldl step ((pre.foldl step (make threadId)).step .swap)).functors = [] :=
    hlast.2
  rw [hnone, List.append_nil] at hbatch
  rw [contents, hempty, List.append_nil] at hcontents
  rw [List.foldl_append, List.foldl_append]
  exact hbatch.trans hcontents

/-- **Functors run exactly once and in order.** At every moment the functors that have been called,
the rest of the batch and the queue are the functors in the order of their pushes. A functor that is
pushed while a batch runs has not been called when the batch ends. When `DoPendingFunctors` returns,
every functor has been called that was pushed before its critical section. While it runs, nothing
keeps it from calling all of the batch. -/
theorem functors_run_in_order (threadId : τ) (is : List (LoopStep τ φ))
    (h : Legal step Admissible (make threadId) is) :
    let s := is.foldl step (make threadId)
    s.ran ++ s.functors ++ s.pendingFunctors = pushes threadId is ∧
      (∀ pre i mid, is = pre ++ i :: mid → (i.pushed? threadId).isSome = true →
        (pre.foldl step (make threadId)).place = .calling → .done ∉ mid →
          ¬ s.HasRun (pushes threadId pre).length) ∧
      (∀ pre mid, is = pre ++ .swap :: mid ++ [.done] → .done ∉ mid →
        s.ran = pushes threadId pre) ∧
      (s.place = .calling →
        Legal step Admissible s s.batchRest ∧
          (s.batchRest.foldl step s).ran = s.ran ++ s.functors) := by
  refine ⟨(contents_run h).2, ?_, ?_, batch_runs (oneCall_run h)⟩
  · rintro pre i mid rfl hpush hplace hdone
    obtain ⟨hpre, hrest⟩ := legal_append.mp h
    have hi : i ≠ .done := by
      rintro rfl
      cases hpush
    have hbatch := batch_run hplace hrest (by simp [hdone, Ne.symm hi])
    have hbefore := congrArg List.length (contents_run hpre).2
    have hlength := congrArg List.length hbatch
    simp only [contents, List.length_append] at hbefore hlength
    simp only [HasRun, List.foldl_append] at hlength ⊢
    omega
  · rintro pre mid rfl hdone
    exact batch_done h hdone

/-- Thread 1 queues 10 and 12, a handler 11, and the functor 10 queues 13. -/
def mixedQueue : List (LoopStep Nat Nat) :=
  [.queueInLoop 1 10, .queueInLoopRest 1, .loop, .resetQuit, .testQuit, .poll true, .handleRead,
    .queueInLoop 0 11, .queueInLoopRest 0, .handled, .runInLoop 1 12, .swap, .call,
    .queueInLoop 0 13, .queueInLoopRest 1]

/-- The functor 10 is in `QueueInLoop`. Then 11 and 12 run, and 13 does not. -/
theorem mixedQueue_in_order :
    let s := mixedQueue.foldl step (make 0)
    let t := (mixedQueue ++ s.batchRest).foldl step (make 0)
    Legal step Admissible (make 0) (mixedQueue ++ s.batchRest) ∧
      s.ran = [10] ∧ s.functors = [11, 12] ∧ ¬ s.HasRun 3 ∧
      t.ran = [10, 11, 12] ∧ t.ran ++ t.functors ++ t.pendingFunctors = [10, 11, 12, 13] := by
  intro s t
  have h : Legal step Admissible (make 0) mixedQueue := by decide +kernel
  obtain ⟨-, hbatch, -, hrest⟩ := functors_run_in_order 0 mixedQueue h
  obtain ⟨hlegal, -⟩ := hrest (by decide +kernel)
  have hall : Legal step Admissible (make 0) (mixedQueue ++ s.batchRest) :=
    legal_append.mpr ⟨h, hlegal⟩
  obtain ⟨horder, -, hdone, -⟩ := functors_run_in_order 0 _ hall
  refine ⟨hall, by decide +kernel, by decide +kernel, ?_, ?_, horder⟩
  · exact hbatch (mixedQueue.take 13) (.queueInLoop 0 13) [.queueInLoopRest 1] rfl rfl
      (by decide +kernel) (by decide)
  · exact hdone (mixedQueue.take 11)
      [.call, .queueInLoop 0 13, .queueInLoopRest 1, .queueInLoopRest 0, .call, .call]
      (by decide +kernel) (by decide)

end EventLoop

end MyTinyHttpd
