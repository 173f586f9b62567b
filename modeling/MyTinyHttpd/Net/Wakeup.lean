import MyTinyHttpd.Net.FunctorQueue

/-!
# When `Poll` may sleep on pending functors

`QueueInLoop` does not call `Wakeup()` in the loop's own thread unless a batch of functors runs: in
a handler `DoPendingFunctors` is still to come before the next `Poll`. Outside `Loop()` it is not.

* `WakeInv` says what stands behind a functor in the queue: a call that has not come to its end, a
  wakeup that has not been read, a place before the swap, or a call outside `Loop()`.
* `eventfd_pos_iff`: the counter is positive when there has been a wakeup since the last read.
* `never_sleeps_iff`: `Poll` is entered with functors in the queue and an empty eventfd exactly when
  the loop's own thread has queued functors outside `Loop()`, and nobody has woken the loop up.
-/

namespace MyTinyHttpd

open Verif

/-- The swap of `DoPendingFunctors` comes before the next `Poll`. -/
def LoopPlace.beforeSwap : LoopPlace → Bool
  | .handling _ | .swapping => true
  | _ => false

namespace EventLoop

variable {τ φ : Type}

/-- The step writes to the eventfd. -/
def Wakes (s : EventLoop τ φ) : LoopStep τ φ → Prop
  | .queueInLoopRest t => t ≠ s.threadId ∨ s.isCallingPendingFunctors = true
  | .quitRest t => t ≠ s.threadId
  | _ => False

/-- The loop's own thread queues a functor outside `Loop()`. -/
def QueuesOutside (s : EventLoop τ φ) : LoopStep τ φ → Prop
  | .queueInLoop t _ => t = s.threadId ∧ s.place = .outside
  | _ => False

/-- No other thread is between the push and the `Wakeup()` of `QueueInLoop`. -/
def NoOtherQueues (s : EventLoop τ φ) : Prop :=
  ∀ t, (t, LoopCall.queueInLoop) ∈ s.calls → t = s.threadId

variable {s : EventLoop τ φ}

/-! ## What stands behind a functor in the queue -/

/-- `outside`: the loop's own thread has queued a functor outside `Loop()` since the last swap. -/
def Covered (s : EventLoop τ φ) (outside : Prop) : Prop :=
  (∃ t, (t, LoopCall.queueInLoop) ∈ s.calls) ∨ 0 < s.eventfd ∨ outside ∨
    s.place.beforeSwap = true

structure WakeInv (s : EventLoop τ φ) (outside : Prop) : Prop where
  calling : s.isCallingPendingFunctors = true ↔ s.place = .swapping ∨ s.place = .calling
  own : ∀ call, (s.threadId, call) ∈ s.calls → s.place.inUserCode = true
  ownOutside : (s.threadId, LoopCall.queueInLoop) ∈ s.calls → s.place = .outside → outside
  covered : s.pendingFunctors ≠ [] → s.Covered outside

variable {outside : Prop}

theorem WakeInv.imp {outside' : Prop} (h : s.WakeInv outside) (himp : outside → outside') :
    s.WakeInv outside' := by
  refine ⟨h.calling, h.own, fun hown hplace => himp (h.ownOutside hown hplace), fun hne => ?_⟩
  rcases h.covered hne with hcall | hevent | hout | hswap
  · exact .inl hcall
  · exact .inr (.inl hevent)
  · exact .inr (.inr (.inl (himp hout)))
  · exact .inr (.inr (.inr hswap))

/-- The loop's own thread goes on in `Loop()`. -/
theorem WakeInv.move {s' : EventLoop τ φ} (h : s.WakeInv outside) (hfree : s.Free s.threadId)
    (hthread : s'.threadId = s.threadId) (hcalls : s'.calls = s.calls)
    (hpending : s'.pendingFunctors = s.pendingFunctors)
    (hcalling : s'.isCallingPendingFunctors = true ↔ s'.place = .swapping ∨ s'.place = .calling)
    (hswap : s'.place.beforeSwap = true ∨
      s.place.beforeSwap = false ∧ s'.eventfd = s.eventfd) : s'.WakeInv outside := by
  have hnone : ∀ call, (s'.threadId, call) ∉ s'.calls := by
    intro call hmem
    rw [hthread, hcalls] at hmem
    exact hfree (List.mem_map_of_mem hmem)
  refine ⟨hcalling, fun call hmem => absurd hmem (hnone call),
    fun hmem _ => absurd hmem (hnone _), fun hne => ?_⟩
  rw [hpending] at hne
  rcases hswap with hswap | ⟨hswap, heventfd⟩
  · exact .inr (.inr (.inr hswap))
  · rcases h.covered hne with hcall | hevent | hout | hbefore
    · exact .inl (by rw [hcalls]; exact hcall)
    · exact .inr (.inl (by rw [heventfd]; exact hevent))
    · exact .inr (.inr (.inl hout))
    · rw [hswap] at hbefore
      cases hbefore

/-- A thread calls `QueueInLoop`. -/
theorem WakeInv.queueInLoop (h : s.WakeInv outside) {t : τ} (f : φ)
    (hplace : t = s.threadId → s.place.inUserCode = true) :
    (s.queueInLoop t f).WakeInv (t = s.threadId ∧ s.place = .outside ∨ outside) := by
  refine ⟨h.calling, fun call hmem => ?_, fun hmem hout => ?_, fun _ => ?_⟩
  · rcases List.mem_cons.mp hmem with heq | hmem
    · exact hplace (Prod.mk.inj heq).1.symm
    · exact h.own call hmem
  · rcases List.mem_cons.mp hmem with heq | hmem
    · exact .inl ⟨(Prod.mk.inj heq).1.symm, hout⟩
    · exact .inr (h.ownOutside hmem hout)
  · exact .inl ⟨t, List.mem_cons_self⟩

theorem WakeInv.quit (h : s.WakeInv outside) {t : τ}
    (hplace : t = s.threadId → s.place.inUserCode = true) : (s.quit t).WakeInv outside := by
  have hqueue : ∀ u, (u, LoopCall.queueInLoop) ∈ (s.quit t).calls ↔
      (u, LoopCall.queueInLoop) ∈ s.calls := by
    intro u
    simp [EventLoop.quit]
  refine ⟨h.calling, fun call hmem => ?_, fun hmem => h.ownOutside ((hqueue _).mp hmem),
    fun hne => ?_⟩
  · rcases List.mem_cons.mp hmem with heq | hmem
    · exact hplace (Prod.mk.inj heq).1.symm
    · exact h.own call hmem
  · rcases h.covered hne with ⟨u, hu⟩ | hrest
    · exact .inl ⟨u, (hqueue u).mpr hu⟩
    · exact .inr hrest

theorem wakeup_eventfd (s : EventLoop τ φ) : 0 < s.wakeup.eventfd := by
  simp only [wakeup]
  split <;> omega

variable [DecidableEq τ]

/-! ## The counter of the eventfd -/

theorem wakes_step {i : LoopStep τ φ} (h : s.Wakes i) : 0 < (s.step i).eventfd := by
  cases i with
  | queueInLoopRest t =>
    have hif : (!decide (t = s.threadId) || s.isCallingPendingFunctors) = true := by
      rcases h with h | h <;> simp [h]
    simp only [step, queueInLoopRest, isInLoopThread, hif, if_true]
    exact wakeup_eventfd _
  | quitRest t =>
    have hif : (!decide (t = s.threadId)) = true := by simp [show t ≠ s.threadId from h]
    simp only [step, quitRest, isInLoopThread, hif, if_true]
    exact wakeup_eventfd _
  | _ => exact absurd h id

theorem not_wakes_step {i : LoopStep τ φ} (h : ¬ s.Wakes i) (hread : i ≠ .handleRead) :
    (s.step i).eventfd = s.eventfd := by
  cases i with
  | queueInLoopRest t =>
    simp only [Wakes, not_or, ne_eq, not_not, Bool.not_eq_true] at h
    simp [step, queueInLoopRest, isInLoopThread, h]
  | quitRest t =>
    simp only [Wakes, ne_eq, not_not] at h
    simp [step, quitRest, isInLoopThread, h]
  | runInLoop t f => simp only [step, runInLoop]; split <;> rfl
  | testQuit => obtain ⟨_, he⟩ := s.testQuit_eq; rw [step, he]
  | call => obtain ⟨_, _, he⟩ := s.call_eq; rw [step, he]
  | handleRead => exact absurd rfl hread
  | _ => rfl

theorem eventfd_pos_iff (threadId : τ) (is : List (LoopStep τ φ)) :
    0 < (is.foldl step (make threadId)).eventfd ↔
      Since step Wakes (· = .handleRead) (make threadId) is := by
  refine flag_iff_since (F := fun s : EventLoop τ φ => 0 < s.eventfd) ?_ ?_ ?_ (Nat.lt_irrefl 0) is
  · exact fun s i h => wakes_step h
  · rintro s _ rfl
    exact Nat.lt_irrefl 0
  · intro s i hwakes hread
    rw [not_wakes_step hwakes hread]

/-! ## Every step keeps it -/

/-- The end of `QueueInLoop`: it wakes the loop up, or the swap is still to come, or the call is one
of the loop's own thread outside `Loop()`. -/
theorem WakeInv.queueInLoopRest (h : s.WakeInv outside) {t : τ}
    (ht : (t, LoopCall.queueInLoop) ∈ s.calls) : (s.queueInLoopRest t).WakeInv outside := by
  have hcovered : (s.queueInLoopRest t).Covered outside := by
    by_cases hwakes : s.Wakes (.queueInLoopRest t)
    · exact .inr (.inl (wakes_step hwakes))
    · simp only [Wakes, not_or, ne_eq, not_not] at hwakes
      obtain ⟨rfl, hcalling⟩ := hwakes
      rw [h.calling, not_or] at hcalling
      obtain ⟨e, he⟩ := s.queueInLoopRest_eq s.threadId
      have hplace := h.own _ ht
      rw [he]
      cases hp : s.place with
      | outside => exact .inr (.inr (.inl (h.ownOutside ht hp)))
      | handling wakeupActive => exact .inr (.inr (.inr (by simp [LoopPlace.beforeSwap])))
      | calling => exact absurd hp hcalling.2
      | swapping => exact absurd hp hcalling.1
      | entered | test | polling => rw [hp] at hplace; cases hplace
  obtain ⟨e, he⟩ := s.queueInLoopRest_eq t
  rw [he] at hcovered ⊢
  exact ⟨h.calling, fun call hmem => h.own call (List.mem_of_mem_erase hmem),
    fun hmem => h.ownOutside (List.mem_of_mem_erase hmem), fun _ => hcovered⟩

theorem WakeInv.quitRest (h : s.WakeInv outside) (t : τ) : (s.quitRest t).WakeInv outside := by
  have hpos : 0 < s.eventfd → 0 < (s.quitRest t).eventfd := by
    intro hpos
    by_cases hwakes : s.Wakes (.quitRest t)
    · exact wakes_step hwakes
    · exact lt_of_lt_of_eq hpos (not_wakes_step hwakes (by simp)).symm
  obtain ⟨e, he⟩ := s.quitRest_eq t
  rw [he] at hpos ⊢
  refine ⟨h.calling, fun call hmem => h.own call (List.mem_of_mem_erase hmem),
    fun hmem => h.ownOutside (List.mem_of_mem_erase hmem), fun hne => ?_⟩
  rcases h.covered hne with ⟨u, hu⟩ | hevent | hrest
  · exact .inl ⟨u, (List.mem_erase_of_ne (by simp)).mpr hu⟩
  · exact .inr (.inl (hpos hevent))
  · exact .inr (.inr hrest)

theorem WakeInv.step (h : s.WakeInv outside) {i : LoopStep τ φ} (hi : s.Admissible i) :
    (s.step i).WakeInv (s.QueuesOutside i ∨ outside ∧ i ≠ .swap) := by
  have hcalling := h.calling
  have hkeep : ∀ s' : EventLoop τ φ, i ≠ .swap → s'.WakeInv outside →
      s'.WakeInv (s.QueuesOutside i ∨ outside ∧ i ≠ .swap) := fun s' hne h' =>
    h'.imp fun hout => .inr ⟨hout, hne⟩
  cases i with
  | queueInLoop t f =>
    refine (h.queueInLoop f hi.2).imp fun hout => ?_
    exact hout.imp id fun hout => ⟨hout, by simp⟩
  | runInLoop t f =>
    simp only [EventLoop.step, runInLoop]
    split
    · exact hkeep s (by simp) h
    · next hin =>
      have hne : t ≠ s.threadId := by simpa [isInLoopThread] using hin
      refine (h.queueInLoop f hi.2).imp fun hout => ?_
      exact hout.elim (fun hown => absurd hown.1 hne) fun hout => .inr ⟨hout, by simp⟩
  | queueInLoopRest t => exact hkeep _ (by simp) (h.queueInLoopRest hi)
  | quit t => exact hkeep _ (by simp) (h.quit hi.2)
  | quitRest t => exact hkeep _ (by simp) (h.quitRest t)
  | swap =>
    refine ⟨?_, fun call hmem => ?_, fun hmem => ?_, fun hne => absurd rfl hne⟩
    · simpa [EventLoop.step, EventLoop.swap, hi.1] using hcalling
    · exact absurd (List.mem_map_of_mem hmem) hi.2
    · exact absurd (List.mem_map_of_mem hmem) hi.2
  | call =>
    obtain ⟨_, _, he⟩ := s.call_eq
    rw [EventLoop.step, he]
    refine hkeep _ (by simp) (h.move hi.1.2 rfl rfl rfl hcalling ?_)
    exact .inr ⟨by rw [hi.1.1]; rfl, rfl⟩
  | testQuit =>
    obtain ⟨_, he⟩ := s.testQuit_eq
    rw [EventLoop.step, he]
    refine hkeep _ (by simp) (h.move hi.2 rfl rfl rfl ?_ ?_)
    · cases hq : s.isQuit <;> simpa [hi.1] using hcalling
    · exact .inr ⟨by rw [hi.1]; rfl, rfl⟩
  | loop =>
    refine hkeep _ (by simp) (h.move hi.2 rfl rfl rfl ?_ ?_)
    · simpa [EventLoop.step, hi.1] using hcalling
    · exact .inr ⟨by rw [hi.1]; rfl, rfl⟩
  | resetQuit =>
    refine hkeep _ (by simp) (h.move hi.2 rfl rfl rfl ?_ ?_)
    · simpa [EventLoop.step, hi.1] using hcalling
    · exact .inr ⟨by rw [hi.1]; rfl, rfl⟩
  | poll wakeupActive =>
    refine hkeep _ (by simp) (h.move hi.1.2 rfl rfl rfl ?_ (.inl rfl))
    simpa [EventLoop.step, hi.1.1] using hcalling
  | handleRead =>
    refine hkeep _ (by simp) (h.move hi.2 rfl rfl rfl ?_ (.inl rfl))
    simpa [EventLoop.step, EventLoop.handleRead, hi.1] using hcalling
  | handled =>
    refine hkeep _ (by simp) (h.move hi.2 rfl rfl rfl ?_ (.inl rfl))
    simp [EventLoop.step]
  | done =>
    refine hkeep _ (by simp) (h.move hi.1.2 rfl rfl rfl ?_ ?_)
    · simp [EventLoop.step]
    · exact .inr ⟨by rw [hi.1.1]; rfl, rfl⟩

/-! ## Whole runs -/

theorem wakeInv_run {threadId : τ} {is : List (LoopStep τ φ)}
    (h : Legal step Admissible (make threadId) is) :
    (is.foldl step (make threadId)).WakeInv
      (Since step QueuesOutside (· = .swap) (make threadId) is) := by
  refine legal_induction (P := fun is => (is.foldl step (make threadId)).WakeInv
    (Since step QueuesOutside (· = .swap) (make threadId) is)) ?_ ?_ h
  · exact ⟨by simp [make], fun call hmem => absurd hmem (by simp [make]),
      fun hmem => absurd hmem (by simp [make]), fun hne => absurd rfl hne⟩
  · intro is i _ hi ih
    rw [List.foldl_append, List.foldl_cons, List.foldl_nil]
    exact (ih.step hi).imp since_snoc.mpr

theorem pendingFunctors_step (s : EventLoop τ φ) {i : LoopStep τ φ} (hi : i ≠ .swap)
    (hs : s.pendingFunctors ≠ []) : (s.step i).pendingFunctors ≠ [] := by
  cases i with
  | queueInLoop t f => exact List.append_ne_nil_of_left_ne_nil hs [f]
  | runInLoop t f =>
    simp only [step, runInLoop]
    split
    · exact hs
    · exact List.append_ne_nil_of_left_ne_nil hs [f]
  | queueInLoopRest t => obtain ⟨_, he⟩ := s.queueInLoopRest_eq t; rw [step, he]; exact hs
  | quitRest t => obtain ⟨_, he⟩ := s.quitRest_eq t; rw [step, he]; exact hs
  | testQuit => obtain ⟨_, he⟩ := s.testQuit_eq; rw [step, he]; exact hs
  | call => obtain ⟨_, _, he⟩ := s.call_eq; rw [step, he]; exact hs
  | swap => exact absurd rfl hi
  | _ => exact hs

/-- What has been queued outside `Loop()` waits for the swap. -/
theorem pendingFunctors_of_since {threadId : τ} {is : List (LoopStep τ φ)}
    (h : Since step QueuesOutside (· = .swap) (make threadId) is) :
    (is.foldl step (make threadId)).pendingFunctors ≠ [] := by
  induction is using List.reverseRecOn with
  | nil => exact absurd h not_since_nil
  | append_singleton is i ih =>
    rw [List.foldl_append, List.foldl_cons, List.foldl_nil]
    rcases since_snoc.mp h with hqueues | ⟨hsince, hswap⟩
    · cases i with
      | queueInLoop t f => exact List.append_ne_nil_of_right_ne_nil _ (List.cons_ne_nil f [])
      | _ => exact absurd hqueues id
    · exact pendingFunctors_step _ hswap (ih hsince)

/-- The loop at the condition of the `while`, when no other thread is in `QueueInLoop`. -/
theorem sleeps_iff {threadId : τ} {is : List (LoopStep τ φ)}
    (h : Legal step Admissible (make threadId) is)
    (hat : (is.foldl step (make threadId)).At .test)
    (hother : (is.foldl step (make threadId)).NoOtherQueues) :
    (is.foldl step (make threadId)).pendingFunctors ≠ [] ∧
        (is.foldl step (make threadId)).eventfd = 0 ↔
      Since step QueuesOutside (· = .swap) (make threadId) is ∧
        ¬ Since step Wakes (· = .handleRead) (make threadId) is := by
  rw [← eventfd_pos_iff, Nat.not_lt, Nat.le_zero]
  refine and_congr_left fun hzero => ⟨fun hne => ?_, pendingFunctors_of_since⟩
  rcases (wakeInv_run h).covered hne with ⟨t, ht⟩ | hevent | hout | hswap
  · -- The call would be one of the loop's own thread, which is at the `while`.
    rw [hother t ht] at ht
    exact absurd (List.mem_map_of_mem ht) hat.2
  · omega
  · exact hout
  · rw [hat.1] at hswap
    cases hswap

/-- `Poll` is never entered with functors in the queue and an empty eventfd, while no other thread
is in `QueueInLoop`, exactly when each time that the loop's own thread has queued a functor outside
`Loop()` since the last swap, somebody has woken the loop up since the last read. -/
theorem never_sleeps_iff (threadId : τ) (is : List (LoopStep τ φ))
    (h : Legal step Admissible (make threadId) is) :
    (∀ pre post, is = pre ++ .testQuit :: post →
      let s := pre.foldl step (make threadId)
      s.isQuit = false → s.NoOtherQueues → s.pendingFunctors ≠ [] → 0 < s.eventfd) ↔
    ∀ pre post, is = pre ++ .testQuit :: post →
      let s := pre.foldl step (make threadId)
      s.isQuit = false → s.NoOtherQueues →
        Since step QueuesOutside (· = .swap) (make threadId) pre →
          Since step Wakes (· = .handleRead) (make threadId) pre := by
  refine forall_congr' fun pre => forall_congr' fun post => forall_congr' fun he => ?_
  subst he
  obtain ⟨hpre, hat, -⟩ := legal_append.mp h
  refine forall_congr' fun _ => forall_congr' fun hother => ?_
  have hiff := sleeps_iff hpre hat hother
  rw [← not_iff_not, Classical.not_imp, Classical.not_imp, ← hiff, Nat.not_lt, Nat.le_zero]

/-- The loop's own thread queues a functor, and then calls `Loop()`. -/
def queueThenLoop : List (LoopStep Nat Nat) :=
  [.queueInLoop 0 7, .queueInLoopRest 0, .loop, .resetQuit, .testQuit]

theorem queueThenLoop_sleeps :
    Legal step Admissible (make 0) queueThenLoop ∧
      ¬ ∀ pre post, queueThenLoop = pre ++ .testQuit :: post →
        let s := pre.foldl step (make 0)
        s.isQuit = false → s.NoOtherQueues → s.pendingFunctors ≠ [] → 0 < s.eventfd := by
  refine ⟨by decide +kernel, fun h => ?_⟩
  have hcalls : ((queueThenLoop.take 4).foldl step (make 0)).calls = [] := by decide +kernel
  have hpos := h (queueThenLoop.take 4) [] rfl rfl
    (fun t ht => absurd ht (by rw [hcalls]; exact List.not_mem_nil)) (by decide +kernel)
  exact absurd hpos (by decide +kernel)

/-- A handler, a functor and thread 1 queue functors. -/
def queueInside : List (LoopStep Nat Nat) :=
  [.queueInLoop 1 10, .queueInLoopRest 1, .loop, .resetQuit, .testQuit, .poll true, .handleRead,
    .queueInLoop 0 11, .queueInLoopRest 0, .handled, .swap, .call, .queueInLoop 0 12,
    .queueInLoopRest 0, .call, .done, .testQuit, .poll true, .handleRead, .handled, .swap,
    .queueInLoop 1 13, .call, .done, .testQuit]

instance (s : EventLoop τ φ) (i : LoopStep τ φ) : Decidable (s.QueuesOutside i) :=
  match i with
  | .queueInLoop t _ => inferInstanceAs (Decidable (t = s.threadId ∧ s.place = .outside))
  | .runInLoop .. | .queueInLoopRest _ | .quit _ | .quitRest _ | .loop | .resetQuit | .testQuit
  | .poll _ | .handleRead | .handled | .swap | .call | .done => isFalse id

theorem queueInside_awake :
    Legal step Admissible (make 0) queueInside ∧
      ∀ pre post, queueInside = pre ++ .testQuit :: post →
        let s := pre.foldl step (make 0)
        s.isQuit = false → s.NoOtherQueues → s.pendingFunctors ≠ [] → 0 < s.eventfd := by
  have h : Legal step Admissible (make 0) queueInside := by decide +kernel
  have hinside : Legal step (fun s i => ¬ QueuesOutside s i) (make 0) queueInside := by
    decide +kernel
  refine ⟨h, (never_sleeps_iff 0 queueInside h).mpr fun pre post he _ _ hsince => ?_⟩
  rw [he] at hinside
  exact absurd hsince (not_since_of_legal hinside)

end EventLoop

end MyTinyHttpd
