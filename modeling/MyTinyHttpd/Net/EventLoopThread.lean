import MyTinyHttpd.Net.FunctorQueue

/-!
# `net/event_loop_thread.cc`: starting a loop in a thread, and quitting it

The owner calls `StartLoop()` and later destroys the object, which calls `Quit()` on the loop and
joins the thread. The thread makes the loop, publishes it in `loop_` and calls `Loop()`. Between the
publication and the `is_quit_ = false` of `Loop()` the owner may already have come to `Quit()`.

* `quit_kept_iff`: the condition of the `while` sees the request exactly when `Quit()` has not been
  executed before `is_quit_ = false`.
-/

namespace MyTinyHttpd

open Verif

/-- Where the owner is. -/
inductive OwnerPlace where
  | constructed
  /-- In `StartLoop()`, waiting for `loop_`. -/
  | waiting
  /-- `StartLoop()` has returned. -/
  | started
  /-- In the destructor, at `loop_->Quit()`. -/
  | destroying
  /-- In `Quit()`, after the store. -/
  | quitting
  /-- At `thread_.Join()`. -/
  | joining
  | done
  deriving DecidableEq

/-- Where the thread is in `ThreadFunc()`. -/
inductive ThreadPlace where
  | notStarted
  | starting
  /-- `loop` is constructed; `callback_` runs. -/
  | initializing
  /-- `loop_` is set. -/
  | published
  /-- `loop.Loop()` has been called. -/
  | looping
  | ended
  deriving DecidableEq

/-- `Loop()` has not been called. -/
def ThreadPlace.beforeLoop : ThreadPlace → Bool
  | .notStarted | .starting | .initializing | .published => true
  | .looping | .ended => false

/-- The `EventLoop` object exists. -/
def ThreadPlace.hasLoop : ThreadPlace → Bool
  | .initializing | .published | .looping => true
  | .notStarted | .starting | .ended => false

structure EventLoopThread (τ φ : Type) where
  ownerId : τ
  threadId : τ
  owner : OwnerPlace := .constructed
  thread : ThreadPlace := .notStarted
  isExiting : Bool := false
  /-- `loop_` is not null. -/
  loopSet : Bool := false
  /-- The local variable of `ThreadFunc()`. -/
  loop : EventLoop τ φ

inductive ThreadStep (τ φ : Type) where
  /-- `StartLoop()` up to the wait. -/
  | startLoop
  /-- `StartLoop()` sees `loop_`, and returns. -/
  | loopSeen
  /-- The destructor up to the test of `loop_`. -/
  | destroy
  | quit
  | quitRest
  | join
  /-- `EventLoop loop`. -/
  | construct
  /-- `loop_ = &loop`. -/
  | publish
  /-- A step of the loop, or a call of `QueueInLoop` by any thread. -/
  | loop (i : LoopStep τ φ)
  /-- `loop_ = nullptr`, and the end of the thread. -/
  | unpublish
  deriving DecidableEq

namespace EventLoopThread

variable {τ φ : Type} [DecidableEq τ]

def make (ownerId threadId : τ) : EventLoopThread τ φ :=
  { ownerId, threadId, loop := .make threadId }

def step (s : EventLoopThread τ φ) : ThreadStep τ φ → EventLoopThread τ φ
  | .startLoop => { s with owner := .waiting, thread := .starting }
  | .loopSeen => { s with owner := .started }
  | .destroy => { s with owner := if s.loopSet then .destroying else .done, isExiting := true }
  | .quit => { s with owner := .quitting, loop := s.loop.quit s.ownerId }
  | .quitRest => { s with owner := .joining, loop := s.loop.quitRest s.ownerId }
  | .join => { s with owner := .done }
  | .construct => { s with thread := .initializing, loop := .make s.threadId }
  | .publish => { s with thread := .published, loopSet := true }
  | .loop .loop => { s with thread := .looping, loop := s.loop.step .loop }
  | .loop i => { s with loop := s.loop.step i }
  | .unpublish => { s with thread := .ended, loopSet := false }

/-- When the thread is at a place where a step of the loop can come. The owner calls `Quit()`. -/
def ThreadAt (thread : ThreadPlace) : LoopStep τ φ → Prop
  | .quit _ | .quitRest _ => False
  | .queueInLoop .. | .runInLoop .. | .queueInLoopRest _ => thread.hasLoop = true
  | .loop => thread = .published
  | .resetQuit | .testQuit | .poll _ | .handleRead | .handled | .swap | .call | .done =>
    thread = .looping

/-- The steps of the two threads come in the order of their code. -/
def Admissible (s : EventLoopThread τ φ) : ThreadStep τ φ → Prop
  | .startLoop => s.owner = .constructed ∧ s.thread = .notStarted
  | .loopSeen => s.owner = .waiting ∧ s.loopSet = true
  | .destroy => s.owner = .constructed ∨ s.owner = .started
  | .quit => s.owner = .destroying ∧ s.loop.Admissible (.quit s.ownerId)
  | .quitRest => s.owner = .quitting ∧ s.loop.Admissible (.quitRest s.ownerId)
  | .join => s.owner = .joining ∧ s.thread = .ended
  | .construct => s.thread = .starting
  | .publish => s.thread = .initializing ∧ s.loop.At .outside
  | .loop i => s.loop.Admissible i ∧ ThreadAt s.thread i
  | .unpublish => s.thread = .looping ∧ s.loop.At .outside

instance (thread : ThreadPlace) (i : LoopStep τ φ) : Decidable (ThreadAt thread i) :=
  match i with
  | .quit _ | .quitRest _ => isFalse id
  | .queueInLoop .. | .runInLoop .. | .queueInLoopRest _ =>
    inferInstanceAs (Decidable (thread.hasLoop = true))
  | .loop => inferInstanceAs (Decidable (thread = .published))
  | .resetQuit | .testQuit | .poll _ | .handleRead | .handled | .swap | .call | .done =>
    inferInstanceAs (Decidable (thread = .looping))

instance (s : EventLoopThread τ φ) (i : ThreadStep τ φ) : Decidable (s.Admissible i) :=
  match i with
  | .startLoop => inferInstanceAs (Decidable (s.owner = .constructed ∧ s.thread = .notStarted))
  | .loopSeen => inferInstanceAs (Decidable (s.owner = .waiting ∧ s.loopSet = true))
  | .destroy => inferInstanceAs (Decidable (s.owner = .constructed ∨ s.owner = .started))
  | .quit =>
    inferInstanceAs (Decidable (s.owner = .destroying ∧ s.loop.Admissible (.quit s.ownerId)))
  | .quitRest =>
    inferInstanceAs (Decidable (s.owner = .quitting ∧ s.loop.Admissible (.quitRest s.ownerId)))
  | .join => inferInstanceAs (Decidable (s.owner = .joining ∧ s.thread = .ended))
  | .construct => inferInstanceAs (Decidable (s.thread = .starting))
  | .publish => inferInstanceAs (Decidable (s.thread = .initializing ∧ s.loop.At .outside))
  | .loop i => inferInstanceAs (Decidable (s.loop.Admissible i ∧ ThreadAt s.thread i))
  | .unpublish => inferInstanceAs (Decidable (s.thread = .looping ∧ s.loop.At .outside))

/-! ## The store of `Loop()` and the store of `Quit()` -/

/-- The `is_quit_ = false` of `Loop()` is still to come. -/
def ResetToCome (s : EventLoopThread τ φ) : Prop :=
  s.thread.beforeLoop = true ∨ s.loop.place = .entered

/-- `Quit()` has been executed before `is_quit_ = false`. -/
def QuitEarly (ownerId threadId : τ) (is : List (ThreadStep τ φ)) : Prop :=
  Since step (fun s i => i = .quit ∧ s.ResetToCome) (fun _ => False) (make ownerId threadId) is

theorem quitEarly_iff {ownerId threadId : τ} {is : List (ThreadStep τ φ)} :
    QuitEarly ownerId threadId is ↔
      ∃ a b, is = a ++ .quit :: b ∧ (a.foldl step (make ownerId threadId)).ResetToCome := by
  constructor
  · rintro ⟨a, _, b, he, ⟨rfl, hcome⟩, -⟩
    exact ⟨a, b, he, hcome⟩
  · rintro ⟨a, b, he, hcome⟩
    exact ⟨a, _, b, he, ⟨rfl, hcome⟩, fun _ _ => not_false⟩

theorem quitEarly_snoc {ownerId threadId : τ} {is : List (ThreadStep τ φ)} {i : ThreadStep τ φ} :
    QuitEarly ownerId threadId (is ++ [i]) ↔
      i = .quit ∧ (is.foldl step (make ownerId threadId)).ResetToCome ∨
        QuitEarly ownerId threadId is := by
  rw [QuitEarly, since_snoc, not_false_eq_true, and_true]
  rfl

variable {s : EventLoopThread τ φ}

/-- The steps of the loop's own thread after `is_quit_ = false`. -/
theorem loopStep_place {l : EventLoop τ φ} {i : LoopStep τ φ} (hi : l.Admissible i)
    (hloop : i ≠ .loop) (hreset : i ≠ .resetQuit) :
    (l.step i).place = .entered ↔ l.place = .entered := by
  have hmove : ∀ {place place' : LoopPlace}, l.At place → place ≠ .entered → place' ≠ .entered →
      (place' = .entered ↔ l.place = .entered) := fun hat hne hne' =>
    iff_of_false hne' (by rw [hat.1]; exact hne)
  by_cases hcall : i.isCall = true
  · obtain ⟨_, _, _, _, he⟩ := l.step_isCall hcall
    rw [he]
  cases i with
  | loop => exact absurd rfl hloop
  | resetQuit => exact absurd rfl hreset
  | queueInLoop | runInLoop | queueInLoopRest | quit | quitRest => exact absurd rfl hcall
  | call => obtain ⟨_, _, he⟩ := l.call_eq; rw [EventLoop.step, he]
  | testQuit =>
    obtain ⟨_, he⟩ := l.testQuit_eq
    rw [EventLoop.step, he]
    exact hmove hi (by decide) (by cases l.isQuit <;> simp)
  | poll wakeupActive => exact hmove hi.1 (by decide) (by simp [EventLoop.step])
  | handleRead => exact hmove hi (by decide) (by simp [EventLoop.step, EventLoop.handleRead])
  | handled => exact hmove hi (by decide) (by simp [EventLoop.step])
  | swap => exact hmove hi (by decide) (by simp [EventLoop.step, EventLoop.swap])
  | done => exact hmove hi.1 (by decide) (by simp [EventLoop.step])

theorem loopStep_isQuit (l : EventLoop τ φ) {i : LoopStep τ φ} (hquit : ∀ t, i ≠ .quit t)
    (hreset : i ≠ .resetQuit) : (l.step i).isQuit = l.isQuit := by
  cases i with
  | quit t => exact absurd rfl (hquit t)
  | resetQuit => exact absurd rfl hreset
  | runInLoop t f => simp only [EventLoop.step, EventLoop.runInLoop]; split <;> rfl
  | queueInLoopRest t => obtain ⟨_, he⟩ := l.queueInLoopRest_eq t; rw [EventLoop.step, he]
  | quitRest t => obtain ⟨_, he⟩ := l.quitRest_eq t; rw [EventLoop.step, he]
  | testQuit => obtain ⟨_, he⟩ := l.testQuit_eq; rw [EventLoop.step, he]
  | call => obtain ⟨_, _, he⟩ := l.call_eq; rw [EventLoop.step, he]
  | _ => rfl

theorem step_loop {i : LoopStep τ φ} (h : i ≠ .loop) :
    s.step (.loop i) = { s with loop := s.loop.step i } := by
  cases i with
  | loop => exact absurd rfl h
  | _ => rfl

/-- Only the store itself ends the time before it. -/
theorem resetToCome_step {i : ThreadStep τ φ} (hi : s.Admissible i)
    (hreset : i ≠ .loop .resetQuit) : (s.step i).ResetToCome ↔ s.ResetToCome := by
  cases i with
  | startLoop => exact iff_of_true (.inl rfl) (.inl (by rw [hi.2]; rfl))
  | construct => exact iff_of_true (.inl rfl) (.inl (by rw [show s.thread = _ from hi]; rfl))
  | publish => exact iff_of_true (.inl rfl) (.inl (by rw [hi.1]; rfl))
  | unpublish =>
    simp only [ResetToCome, step, hi.1, hi.2.1]
    decide
  | quitRest =>
    obtain ⟨_, he⟩ := s.loop.quitRest_eq s.ownerId
    simp only [ResetToCome, step, he]
  | loop i =>
    by_cases hloop : i = .loop
    · subst hloop
      exact iff_of_true (.inr rfl) (.inl (by rw [show s.thread = _ from hi.2]; rfl))
    · rw [step_loop hloop]
      exact or_congr Iff.rfl (loopStep_place hi.1 hloop fun h => hreset (by rw [h]))
  | loopSeen | destroy | quit | join => exact Iff.rfl

theorem isQuit_step {i : ThreadStep τ φ} (hi : s.Admissible i) (hquit : i ≠ .quit)
    (hreset : i ≠ .loop .resetQuit) (hconstruct : i ≠ .construct) :
    (s.step i).loop.isQuit = s.loop.isQuit := by
  cases i with
  | quit => exact absurd rfl hquit
  | construct => exact absurd rfl hconstruct
  | quitRest =>
    obtain ⟨_, he⟩ := s.loop.quitRest_eq s.ownerId
    simp only [step, he]
  | loop i =>
    by_cases hloop : i = .loop
    · subst hloop
      rfl
    · rw [step_loop hloop]
      refine loopStep_isQuit s.loop (fun t ht => ?_) fun h => hreset (by rw [h])
      subst ht
      exact hi.2
  | startLoop | loopSeen | destroy | join | publish | unpublish => rfl

/-! ## The request over a whole run -/

/-- `quit`: `Quit()` has been executed. `early`: before `is_quit_ = false`. -/
structure QuitInv (s : EventLoopThread τ φ) (quit early : Prop) : Prop where
  owner : quit → s.owner = .quitting ∨ s.owner = .joining ∨ s.owner = .done
  quit_of_early : early → quit
  toCome : quit → s.ResetToCome → early
  isQuit : quit → ¬ s.ResetToCome → (s.loop.isQuit = true ↔ ¬ early)

/-- The steps of the owner after `Quit()`. -/
theorem owner_step {i : ThreadStep τ φ} (hi : s.Admissible i)
    (h : s.owner = .quitting ∨ s.owner = .joining ∨ s.owner = .done) :
    (s.step i).owner = .quitting ∨ (s.step i).owner = .joining ∨ (s.step i).owner = .done := by
  cases i with
  | startLoop => rw [hi.1] at h; simp at h
  | loopSeen => rw [hi.1] at h; simp at h
  | destroy => rcases hi with hi | hi <;> rw [hi] at h <;> simp at h
  | quit => rw [hi.1] at h; simp at h
  | quitRest => exact .inr (.inl rfl)
  | join => exact .inr (.inr rfl)
  | loop i => cases i <;> exact h
  | construct | publish | unpublish => exact h

variable {hasQuit early : Prop}

theorem QuitInv.quit (h : s.QuitInv hasQuit early) (hi : s.Admissible .quit) :
    (s.step .quit).QuitInv True s.ResetToCome ∧ ¬ early := by
  refine ⟨⟨fun _ => .inl rfl, fun _ => trivial, fun _ hcome => ?_, fun _ hcome => ?_⟩,
    fun hearly => ?_⟩
  · exact (resetToCome_step hi (by simp)).mp hcome
  · rw [resetToCome_step hi (by simp)] at hcome
    exact iff_of_true rfl hcome
  · have howner := h.owner (h.quit_of_early hearly)
    rw [hi.1] at howner
    simp at howner

/-- The store of `Loop()` takes an early request back. -/
theorem QuitInv.resetQuit (h : s.QuitInv hasQuit early) (hi : s.Admissible (.loop .resetQuit)) :
    (s.step (.loop .resetQuit)).QuitInv hasQuit early := by
  refine ⟨h.owner, h.quit_of_early, fun hquit _ => ?_, fun hquit _ => ?_⟩
  · exact h.toCome hquit (.inr hi.1.1)
  · exact iff_of_false Bool.false_ne_true (not_not.mpr (h.toCome hquit (.inr hi.1.1)))

theorem QuitInv.other (h : s.QuitInv hasQuit early) {i : ThreadStep τ φ} (hi : s.Admissible i)
    (hquit : i ≠ .quit) (hreset : i ≠ .loop .resetQuit) : (s.step i).QuitInv hasQuit early := by
  have hcome := resetToCome_step hi hreset
  refine ⟨fun hq => owner_step hi (h.owner hq), h.quit_of_early, fun hq hc => ?_, fun hq hc => ?_⟩
  · exact h.toCome hq (hcome.mp hc)
  · rw [hcome] at hc
    have hconstruct : i ≠ .construct := by
      rintro rfl
      exact hc (.inl (by rw [show s.thread = _ from hi]; rfl))
    rw [isQuit_step hi hquit hreset hconstruct]
    exact h.isQuit hq hc

theorem quitInv_run {ownerId threadId : τ} {is : List (ThreadStep τ φ)}
    (h : Legal step Admissible (make ownerId threadId) is) :
    (is.foldl step (make ownerId threadId)).QuitInv (.quit ∈ is)
      (QuitEarly ownerId threadId is) := by
  refine legal_induction (P := fun is => (is.foldl step (make ownerId threadId)).QuitInv
    (.quit ∈ is) (QuitEarly ownerId threadId is)) ?_ ?_ h
  · refine ⟨fun h => absurd h List.not_mem_nil, fun h => absurd h not_since_nil,
      fun h => absurd h List.not_mem_nil, fun h => absurd h List.not_mem_nil⟩
  · intro is i _ hi ih
    rw [List.foldl_append, List.foldl_cons, List.foldl_nil, quitEarly_snoc, List.mem_append,
      List.mem_singleton]
    by_cases hquit : i = .quit
    · subst hquit
      obtain ⟨hinv, hearly⟩ := ih.quit hi
      simpa [hearly] using hinv
    · by_cases hreset : i = .loop .resetQuit
      · subst hreset
        simpa using ih.resetQuit hi
      · simpa [hquit, Ne.symm hquit] using ih.other hi hquit hreset

/-- The condition of the `while` is false each time it is evaluated after `Quit()` exactly when each
time `Quit()` has been executed after the `is_quit_ = false` of `Loop()`. -/
theorem quit_kept_iff (ownerId threadId : τ) (is : List (ThreadStep τ φ))
    (h : Legal step Admissible (make ownerId threadId) is) :
    (∀ pre post, is = pre ++ .loop .testQuit :: post → .quit ∈ pre →
      (pre.foldl step (make ownerId threadId)).loop.isQuit = true) ↔
    ∀ pre post, is = pre ++ .loop .testQuit :: post →
      ∀ a b, pre = a ++ .quit :: b → ¬ (a.foldl step (make ownerId threadId)).ResetToCome := by
  refine forall_congr' fun pre => forall_congr' fun post => forall_congr' fun he => ?_
  subst he
  obtain ⟨hpre, hi, -⟩ := legal_append.mp h
  have hinv := quitInv_run hpre
  have hpassed : ¬ (pre.foldl step (make ownerId threadId)).ResetToCome := by
    rintro (hbefore | hplace)
    · rw [show (pre.foldl step (make ownerId threadId)).thread = _ from hi.2] at hbefore
      cases hbefore
    · rw [hi.1.1] at hplace
      cases hplace
  constructor
  · intro hkept a b hab hcome
    have hmem : ThreadStep.quit ∈ pre := by rw [hab]; simp
    exact (hinv.isQuit hmem hpassed).mp (hkept hmem)
      (quitEarly_iff.mpr ⟨a, b, hab, hcome⟩)
  · intro hlate hmem
    refine (hinv.isQuit hmem hpassed).mpr fun he => ?_
    obtain ⟨a, b, hab, hcome⟩ := quitEarly_iff.mp he
    exact hlate a b hab hcome

/-- The owner sees `loop_` and destroys the object before the thread comes to `Loop()`. -/
def quitFirst : List (ThreadStep Nat Nat) :=
  [.startLoop, .construct, .publish, .loopSeen, .destroy, .quit, .quitRest, .loop .loop,
    .loop .resetQuit, .loop .testQuit]

theorem quitFirst_lost :
    Legal step Admissible (make 1 0) quitFirst ∧
      ¬ ∀ pre post, quitFirst = pre ++ .loop .testQuit :: post → .quit ∈ pre →
        (pre.foldl step (make 1 0)).loop.isQuit = true := by
  refine ⟨by decide +kernel, fun h => ?_⟩
  have hquit := h (quitFirst.take 9) [] rfl (by decide)
  exact absurd hquit (by decide +kernel)

/-- The owner destroys the object while the loop waits in `Poll`. -/
def quitWhilePolling : List (ThreadStep Nat Nat) :=
  [.startLoop, .construct, .publish, .loop .loop, .loopSeen, .loop .resetQuit, .destroy,
    .loop .testQuit, .quit, .quitRest, .loop (.poll true), .loop .handleRead, .loop .handled,
    .loop .swap, .loop .done, .loop .testQuit, .unpublish, .join]

instance (s : EventLoopThread τ φ) : Decidable s.ResetToCome :=
  inferInstanceAs (Decidable (s.thread.beforeLoop = true ∨ s.loop.place = .entered))

theorem quitWhilePolling_kept :
    Legal step Admissible (make 1 0) quitWhilePolling ∧
      ∀ pre post, quitWhilePolling = pre ++ .loop .testQuit :: post → .quit ∈ pre →
        (pre.foldl step (make 1 0)).loop.isQuit = true := by
  have h : Legal step Admissible (make 1 0) quitWhilePolling := by decide +kernel
  have hlate : Legal step (fun s i => i = .quit → ¬ ResetToCome s) (make 1 0)
      quitWhilePolling := by decide +kernel
  refine ⟨h, (quit_kept_iff 1 0 quitWhilePolling h).mpr ?_⟩
  rintro pre post he a b rfl
  exact legal_iff.mp hlate a .quit (b ++ .loop .testQuit :: post) (by rw [he]; simp) rfl

end EventLoopThread

end MyTinyHttpd
