import MyTinyHttpd.Net.ConnectorSockets
import Mathlib.Algebra.Group.Nat.Defs

/-!
# The runs of a connector

The user calls `Start` once, `Stop` at any time, and `Restart` when a connection that it got has
been closed.

* `Paced`: the delay of a retry is twice that of the retry before, up to `kMaxRetryDelayMs`.
* `Stopping.run`: once the `StopInLoop` of a `Stop` has run, something is being connected only when
  an attempt has begun since. Its place in the queue is all that has to be known of the functors.
* `sockets_iff`: no socket is lost or closed twice, and a `Stop` stops the attempts, exactly when no
  step overlaps an attempt and none begins after a `Stop` that comes before the `Start`.
-/

namespace MyTinyHttpd

open Verif

namespace Connector

variable {s : Connector}

/-! ## The delays -/

/-- The delay of the retry after `k` others. -/
def delayMs (k : Nat) : Nat := min (500 * 2 ^ k) 30000

/-- The delays since the last `Start` or `Restart`. -/
def DelaysOk (s : Connector) : Prop := ∀ k d, s.scheduled[k]? = some d → d = delayMs k

/-- The next delay is that of the backoff, and before `Start` nothing has happened. -/
structure Paced (s : Connector) : Prop where
  delay : s.retryDelayMs = delayMs s.scheduled.length
  delays : s.DelaysOk
  fresh : s.started = false →
    s.isConnect = false ∧ s.retryDelayMs = kInitRetryDelayMs ∧ s.handed = [] ∧ s.returned = 0

theorem make_paced : ({} : Connector).Paced where
  delay := rfl
  delays k d h := by simp at h
  fresh _ := ⟨rfl, rfl, rfl, rfl⟩

theorem delayMs_succ (k : Nat) : min (delayMs k * 2) kMaxRetryDelayMs = delayMs (k + 1) := by
  simp only [delayMs, kMaxRetryDelayMs, Nat.pow_succ]
  omega

theorem Paced.started_of_isConnect (h : s.Paced) (hconnect : s.isConnect = true) :
    s.started = true := by
  cases hstarted : s.started with
  | false => rw [(h.fresh hstarted).1] at hconnect; cases hconnect
  | true => rfl

theorem Paced.retry (h : s.Paced) (fd : Nat) : (s.retry fd).Paced := by
  unfold Connector.retry
  dsimp only
  split
  · next hconnect =>
    refine ⟨?_, fun k d hk => ?_, fun hfresh => ?_⟩
    · simp only [close, List.length_append, List.length_singleton]
      rw [h.delay, delayMs_succ]
    · rw [List.getElem?_append] at hk
      split at hk
      · exact h.delays k d hk
      · next hle =>
        obtain ⟨hlast, rfl⟩ := List.getElem?_eq_some_iff.mp hk
        have hk : k = s.scheduled.length := by
          simp only [close, List.length_singleton] at hle hlast
          omega
        simp [close, h.delay, hk]
    · cases (h.started_of_isConnect hconnect).symm.trans hfresh
  · exact ⟨h.delay, h.delays, h.fresh⟩

theorem Paced.startInLoop (h : s.Paced) (errno : Int) : (s.startInLoop errno).Paced := by
  unfold Connector.startInLoop connect
  have hsocket : Paced { s with sockets := s.sockets + 1 } := ⟨h.delay, h.delays, h.fresh⟩
  split
  · dsimp only
    split
    · exact ⟨h.delay, h.delays, h.fresh⟩
    · exact hsocket.retry s.sockets
    · exact ⟨h.delay, h.delays, h.fresh⟩
  · exact h

theorem Paced.endClosed : EndClosed Paced fun s _ => s.Paced where
  released {s} state k h _ hk := by
    unfold removeAndResetChannel
    split
    · exact ⟨h.delay, h.delays, h.fresh⟩
    · exact hk _ _ ⟨h.delay, h.delays, h.fresh⟩
  retry h := h.retry _
  newConnection h hconnect := by
    refine ⟨h.delay, h.delays, fun hfresh => ?_⟩
    cases (h.started_of_isConnect hconnect).symm.trans hfresh
  close h := ⟨h.delay, h.delays, h.fresh⟩

theorem Paced.runFunctor (h : s.Paced) : s.runFunctor.Paced := by
  unfold Connector.runFunctor
  split
  · exact h
  · refine Paced.endClosed.stopInLoop ?_
    exact ⟨h.delay, h.delays, h.fresh⟩
  · exact ⟨h.delay, h.delays, h.fresh⟩

/-- One `Start`, and `Restart` when the user has closed a connection. -/
def Allowed (s : Connector) : ConnectorStep → Prop
  | .start _ => s.started = false
  | .restart _ => 0 < s.returned
  | i => s.LoopCan i

instance (s : Connector) (i : ConnectorStep) : Decidable (s.Allowed i) :=
  match i with
  | .start _ => inferInstanceAs (Decidable (s.started = false))
  | .restart _ => inferInstanceAs (Decidable (0 < s.returned))
  | .stop => inferInstanceAs (Decidable (s.LoopCan .stop))
  | .functor => inferInstanceAs (Decidable (s.LoopCan .functor))
  | .timer errno => inferInstanceAs (Decidable (s.LoopCan (.timer errno)))
  | .event pollerr pollout soError selfConnect =>
    inferInstanceAs (Decidable (s.LoopCan (.event pollerr pollout soError selfConnect)))
  | .userClose => inferInstanceAs (Decidable (s.LoopCan .userClose))

theorem Paced.step (h : s.Paced) {i : ConnectorStep} (hallowed : s.Allowed i) :
    (Connector.step s i).Paced := by
  cases i with
  | start errno =>
    obtain ⟨-, hdelay, -⟩ := h.fresh hallowed
    rw [Connector.step, start]
    refine startInLoop ?_ errno
    exact ⟨hdelay, fun k d hk => (by simp at hk), fun hfresh => (by cases hfresh)⟩
  | stop => exact ⟨h.delay, h.delays, fun hfresh => ⟨rfl, (h.fresh hfresh).2⟩⟩
  | restart errno =>
    rw [Connector.step, restart]
    refine startInLoop ?_ errno
    refine ⟨rfl, fun k d hk => (by simp at hk), fun hfresh => ?_⟩
    obtain ⟨-, -, -, hzero⟩ := h.fresh hfresh
    exact absurd hallowed (by simp [Allowed, hzero])
  | functor => exact h.runFunctor
  | timer errno =>
    refine startInLoop ?_ errno
    exact ⟨h.delay, h.delays, h.fresh⟩
  | event pollerr pollout soError selfConnect =>
    exact Paced.endClosed.handleEvent h pollerr pollout soError selfConnect
  | userClose =>
    refine ⟨h.delay, h.delays, fun hfresh => ?_⟩
    obtain ⟨-, -, hhanded, -⟩ := h.fresh hfresh
    exact absurd hallowed (by simp [Allowed, LoopCan, hhanded])

/-! ## After `Stop` -/

/-- The step begins an attempt that does not end at once. -/
def Begins (s : Connector) : ConnectorStep → Prop
  | .start errno | .restart errno => connectClass errno = .connecting
  | .timer errno => s.isConnect = true ∧ connectClass errno = .connecting
  | .stop | .functor | .event _ _ _ _ | .userClose => False

theorem attempt_connect {errno : Int} (h : connectClass errno = .connecting) (s : Connector) :
    (s.connect errno).attempt = some s.sockets := by
  simp [connect, h, connecting, attempt]

theorem attempt_of_begins {i : ConnectorStep} (h : s.Begins i) : (step s i).attempt ≠ none := by
  cases i with
  | start errno => simp [step, start, startInLoop, attempt_connect h]
  | restart errno => simp [step, restart, startInLoop, attempt_connect h]
  | timer errno => simp [step, startInLoop, h.1, attempt_connect h.2]
  | stop | functor | event | userClose => exact h.elim

theorem retry_state (s : Connector) (fd : Nat) : (s.retry fd).state = .kDisconnected := by
  unfold retry
  dsimp only
  split
  · rfl
  · rfl

theorem stopInLoop_idle (s : Connector) : s.stopInLoop.state ≠ .kConnecting := by
  unfold stopInLoop
  split
  · unfold removeAndResetChannel
    split
    · simp
    · simp [retry_state]
  · next hidle => exact hidle

theorem connect_idle {errno : Int} (h : connectClass errno ≠ .connecting)
    (hidle : s.state ≠ .kConnecting) : (s.connect errno).state ≠ .kConnecting := by
  unfold connect
  dsimp only
  split
  · next hclass => exact absurd hclass h
  · simp [retry_state]
  · exact hidle

theorem handleEvent_of_idle (hidle : s.state ≠ .kConnecting) (pollerr pollout : Bool)
    (soError : Int) (selfConnect : Bool) :
    s.handleEvent pollerr pollout soError selfConnect = s := by
  simp [handleEvent, handleError, handleWrite, hidle]

/-- Only a step that begins an attempt ends the rest. -/
theorem idle_step {i : ConnectorStep} (hidle : s.state ≠ .kConnecting) (h : ¬ s.Begins i) :
    (step s i).state ≠ .kConnecting := by
  cases i with
  | start errno => exact connect_idle h hidle
  | restart errno => exact connect_idle h (by simp)
  | timer errno =>
    rw [step, startInLoop]
    split
    · next hconnect => exact connect_idle (fun hclass => h ⟨hconnect, hclass⟩) hidle
    · exact hidle
  | functor =>
    rw [step, runFunctor]
    split
    · exact hidle
    · exact stopInLoop_idle _
    · exact hidle
  | event pollerr pollout soError selfConnect => rwa [step, handleEvent_of_idle hidle]
  | stop | userClose => exact hidle

theorem functors_retry (s : Connector) (fd : Nat) : (s.retry fd).functors = s.functors := by
  unfold retry
  dsimp only
  split <;> rfl

theorem functors_startInLoop (s : Connector) (errno : Int) :
    (s.startInLoop errno).functors = s.functors := by
  unfold startInLoop connect
  split
  · dsimp only
    split
    · rfl
    · exact functors_retry _ _
    · rfl
  · rfl

/-- The end of an attempt queues a functor behind the others. -/
theorem functors_endClosed (s : Connector) :
    EndClosed (fun s' => s.functors <+: s'.functors) fun s' _ => s.functors <+: s'.functors where
  released {s'} state k h _ hk := by
    unfold removeAndResetChannel
    split
    · exact h
    · exact hk _ _ (h.trans (List.prefix_append _ _))
  retry h := by rwa [functors_retry]
  newConnection h _ := h
  close h := h

theorem functors_step {i : ConnectorStep} (hi : i ≠ .functor) :
    s.functors <+: (step s i).functors := by
  cases i with
  | start errno | restart errno | timer errno =>
    exact (functors_startInLoop _ errno).symm ▸ List.prefix_rfl
  | stop => exact List.prefix_append _ _
  | functor => exact absurd rfl hi
  | event pollerr pollout soError selfConnect =>
    exact (functors_endClosed s).handleEvent List.prefix_rfl pollerr pollout soError selfConnect
  | userClose => exact List.prefix_rfl

theorem functors_runFunctor (s : Connector) : s.functors.tail <+: s.runFunctor.functors := by
  unfold runFunctor
  split
  · next hnil =>
    rw [hnil]
    exact List.prefix_rfl
  · next functors hfunctors =>
    rw [hfunctors, List.tail_cons]
    exact (functors_endClosed { s with functors }).stopInLoop List.prefix_rfl
  · next functors hfunctors =>
    rw [hfunctors, List.tail_cons]
    exact List.prefix_rfl

/-- The `StopInLoop` of a `Stop` waits behind `q` other functors. -/
def Stopping (s : Connector) (q : Nat) : Prop := s.functors[q]? = some .stopInLoop

theorem stop_stopping (s : Connector) : s.stop.Stopping s.functors.length := by
  simp [Stopping, stop]

theorem Stopping.mono {q : Nat} {functors : List ConnectorFunctor} (h : s.Stopping q)
    (hp : s.functors <+: functors) : functors[q]? = some .stopInLoop := by
  obtain ⟨added, rfl⟩ := hp
  obtain ⟨hlt, -⟩ := List.getElem?_eq_some_iff.mp h
  rw [List.getElem?_append_left hlt]
  exact h

theorem Stopping.runFunctor_zero (h : s.Stopping 0) : s.runFunctor.state ≠ .kConnecting := by
  unfold Connector.runFunctor
  split
  · next hnil => simp [Stopping, hnil] at h
  · exact stopInLoop_idle _
  · next hfunctors => simp [Stopping, hfunctors] at h

theorem Stopping.runFunctor_succ {q : Nat} (h : s.Stopping (q + 1)) :
    s.runFunctor.Stopping q := by
  have htail : s.functors.tail[q]? = some .stopInLoop := by
    rw [List.getElem?_tail]
    exact h
  exact Stopping.mono (s := { s with functors := s.functors.tail }) htail
    (functors_runFunctor s)

/-- Once the functors up to `StopInLoop` have run, something is being connected only when an attempt
has begun since. -/
theorem Stopping.run {q : Nat} {is : List ConnectorStep} (h : s.Stopping q)
    (hq : q < is.count .functor)
    (hbegins : ∀ pre i post, is = pre ++ i :: post → q < pre.count .functor →
      ¬ (pre.foldl step s).Begins i) : (is.foldl step s).state ≠ .kConnecting := by
  induction is generalizing s q with
  | nil => cases hq
  | cons i is ih =>
    rw [List.foldl_cons]
    have hlater : ∀ {q' : Nat}, (∀ pre : List ConnectorStep, q' < pre.count .functor →
        q < (i :: pre).count .functor) → ∀ pre j post, is = pre ++ j :: post →
        q' < pre.count .functor → ¬ (pre.foldl step (step s i)).Begins j :=
      fun hcount pre j post he hlt => hbegins (i :: pre) j post (by rw [he]; rfl) (hcount pre hlt)
    by_cases hfunctor : i = .functor
    · subst hfunctor
      rw [List.count_cons_self] at hq
      cases q with
      | zero =>
        have hlegal : Legal step (fun s i => ¬ s.Begins i) s.runFunctor is :=
          legal_iff.mpr fun pre j post he =>
            hbegins (.functor :: pre) j post (by rw [he]; rfl) (by simp)
        exact legal_invariant (I := fun s => s.state ≠ .kConnecting)
          (fun _ _ hs hi => idle_step hs hi) h.runFunctor_zero hlegal
      | succ q =>
        refine ih h.runFunctor_succ (by omega) (hlater fun pre hlt => ?_)
        rw [List.count_cons_self]
        omega
    · rw [List.count_cons_of_ne hfunctor] at hq
      refine ih (h.mono (functors_step hfunctor)) hq (hlater fun pre hlt => ?_)
      rwa [List.count_cons_of_ne hfunctor]

theorem isConnect_endClosed :
    EndClosed (fun s => s.isConnect = false) fun s _ => s.isConnect = false where
  released state k h _ hk := by
    unfold removeAndResetChannel
    split
    · exact h
    · exact hk _ _ h
  retry h := by
    unfold Connector.retry
    dsimp only
    split <;> exact h
  newConnection h _ := h
  close h := h

/-- The step is no `Start` and no `Restart`. -/
def Quiet (i : ConnectorStep) : Prop := (∀ errno, i ≠ .start errno) ∧ ∀ errno, i ≠ .restart errno

theorem isConnect_step {i : ConnectorStep} (h : s.isConnect = false) (hquiet : Quiet i) :
    (step s i).isConnect = false := by
  cases i with
  | start errno => exact absurd rfl (hquiet.1 errno)
  | restart errno => exact absurd rfl (hquiet.2 errno)
  | stop => rfl
  | functor =>
    rw [step, runFunctor]
    split
    · exact h
    · exact isConnect_endClosed.stopInLoop h
    · exact h
  | timer errno =>
    rw [step, startInLoop, if_neg (by simp [h])]
    exact h
  | event pollerr pollout soError selfConnect =>
    exact isConnect_endClosed.handleEvent h pollerr pollout soError selfConnect
  | userClose => exact h

/-- Without a `Start` or a `Restart`, no attempt begins after a `Stop`. -/
theorem not_begins_of_quiet {mid : List ConnectorStep} {i : ConnectorStep}
    (hquiet : ∀ j ∈ mid ++ [i], Quiet j) (s : Connector) :
    ¬ (mid.foldl step s.stop).Begins i := by
  have hconnect : (mid.foldl step s.stop).isConnect = false :=
    legal_invariant (I := fun s => s.isConnect = false)
      (fun _ _ hs hi => isConnect_step hs hi) rfl
      (legal_of_forall (fun j hj => hquiet j (List.mem_append_left _ hj)) s.stop)
  obtain ⟨hstart, hrestart⟩ := hquiet i (List.mem_append_right _ List.mem_cons_self)
  intro hbegins
  cases i with
  | start errno => exact hstart errno rfl
  | restart errno => exact hrestart errno rfl
  | timer errno => cases hconnect.symm.trans hbegins.1
  | stop | functor | event | userClose => exact hbegins

/-! ## Runs -/

/-- A run that begins with its only `Start`. -/
theorem stop_notMem_of_cons_start {errno : Int} {is : List ConnectorStep}
    (his : ∀ errno, .start errno ∉ is) {pre : List ConnectorStep} {errno' : Int}
    {post : List ConnectorStep} (he : .start errno :: is = pre ++ .start errno' :: post) :
    .stop ∉ pre := by
  cases pre with
  | nil => simp
  | cons i pre =>
    obtain ⟨-, htail⟩ := List.cons_eq_cons.mp he
    exact absurd (by simp [htail]) (his errno')

/-- Then no `Start` comes after a `Stop`. -/
theorem start_notMem_of_first {is : List ConnectorStep}
    (hfirst : ∀ pre errno post, is = pre ++ .start errno :: post → .stop ∉ pre)
    {pre mid post : List ConnectorStep} {i : ConnectorStep}
    (he : is = pre ++ .stop :: (mid ++ i :: post)) (errno : Int) :
    .start errno ∉ mid ++ [i] := by
  intro hmem
  obtain ⟨mid₁, mid₂, hmid⟩ := List.append_of_mem hmem
  refine hfirst (pre ++ .stop :: mid₁) errno (mid₂ ++ post) ?_ (by simp)
  rw [he, List.append_cons mid, hmid]
  simp

/-- **What a `Stop` stops.** When the `StopInLoop` of a `Stop` with no later `Restart` has run,
nothing is being connected, exactly when no attempt begins from then on, which only a `Start` after
the `Stop` can lead to. -/
theorem stops_iff (is : List ConnectorStep) :
    (∀ pre mid post, is = pre ++ .stop :: (mid ++ post) → (∀ errno, .restart errno ∉ mid) →
        (pre.foldl step {}).functors.length < mid.count .functor →
        ((pre ++ .stop :: mid).foldl step {}).attempt = none) ↔
      ∀ pre mid i post, is = pre ++ .stop :: (mid ++ i :: post) →
        (∃ errno, .start errno ∈ mid ++ [i]) → (∀ errno, .restart errno ∉ mid ++ [i]) →
        (pre.foldl step {}).functors.length < mid.count .functor →
        ¬ ((pre ++ .stop :: mid).foldl step {}).Begins i := by
  constructor
  · intro hnone pre mid i post he _ hmid hcount hbegins
    refine attempt_of_begins hbegins ?_
    have hlast := hnone pre (mid ++ [i]) post (by simp [he]) hmid (by
      rw [List.count_append]
      omega)
    simpa using hlast
  · intro hfree pre mid post he hmid hcount
    rw [List.foldl_append, List.foldl_cons]
    refine attempt_of_idle ((stop_stopping _).run hcount ?_)
    rintro mid₁ i mid₂ rfl hlt hbegins
    have hrestart : ∀ errno, .restart errno ∉ mid₁ ++ [i] := fun errno hmem =>
      hmid errno (by rw [List.append_cons]; exact List.mem_append_left _ hmem)
    have hsplit : is = pre ++ .stop :: (mid₁ ++ i :: (mid₂ ++ post)) := by simp [he]
    by_cases hstart : ∃ errno, .start errno ∈ mid₁ ++ [i]
    · refine hfree pre mid₁ i (mid₂ ++ post) hsplit hstart hrestart hlt ?_
      rwa [List.foldl_append, List.foldl_cons]
    · refine not_begins_of_quiet (fun j hj => ⟨?_, ?_⟩) _ hbegins
      · rintro errno rfl
        exact hstart ⟨errno, hj⟩
      · rintro errno rfl
        exact hrestart errno hj

/-- In a run with one `Start`: each socket has its place at any time, the delays are those of the
backoff, and when the `StopInLoop` of a `Stop` with no later `Restart` has run, nothing is being
connected, exactly when no step overlaps an attempt, and when after a `Stop` that comes before the
`Start` no attempt begins once its `StopInLoop` has run. -/
theorem sockets_iff {is : List ConnectorStep} (h : Legal step Allowed {} is) :
    ((∀ pre post, is = pre ++ post →
        (pre.foldl step {}).Accounted ∧ (pre.foldl step {}).DelaysOk) ∧
      ∀ pre mid post, is = pre ++ .stop :: (mid ++ post) → (∀ errno, .restart errno ∉ mid) →
        (pre.foldl step {}).functors.length < mid.count .functor →
        ((pre ++ .stop :: mid).foldl step {}).attempt = none) ↔
      (∀ pre i post, is = pre ++ i :: post → ¬ (pre.foldl step {}).Overlaps i) ∧
      ∀ pre mid i post, is = pre ++ .stop :: (mid ++ i :: post) →
        (∃ errno, .start errno ∈ mid ++ [i]) → (∀ errno, .restart errno ∉ mid ++ [i]) →
        (pre.foldl step {}).functors.length < mid.count .functor →
        ¬ ((pre ++ .stop :: mid).foldl step {}).Begins i := by
  have hsafe := safe_iff (I := fun s => s.Inv ∧ s.Paced) (G := fun s => s.Accounted ∧ s.DelaysOk)
    (fun s hs => ⟨hs.1.accounted, hs.2.delays⟩)
    (fun s i hs hi (hfree : ¬ s.Overlaps i) => ⟨hs.1.step hfree, hs.2.step hi⟩)
    (fun s i hs _ hbad hG => hs.1.not_accounted_step hbad hG.1) ⟨make_inv, make_paced⟩ h
  rw [hsafe, stops_iff]

/-- `Start` and an error, a retry that succeeds, `Restart`, `Stop`. -/
def reconnecting : List ConnectorStep :=
  [.start 115, .event true true 111 false, .functor, .timer 115, .event false true 0 false,
    .functor, .userClose, .restart 111, .timer 115, .stop, .functor, .functor]

theorem reconnecting_sockets :
    (∀ pre post, reconnecting = pre ++ post →
        (pre.foldl step {}).Accounted ∧ (pre.foldl step {}).DelaysOk) ∧
      ∀ pre mid post, reconnecting = pre ++ .stop :: (mid ++ post) →
        (∀ errno, .restart errno ∉ mid) →
        (pre.foldl step {}).functors.length < mid.count .functor →
        ((pre ++ .stop :: mid).foldl step {}).attempt = none := by
  have hlegal : Legal step Allowed {} reconnecting := by decide +kernel
  have hfree : Legal step (fun s i => ¬ s.Overlaps i) {} reconnecting := by decide +kernel
  have hfirst : ∀ pre errno post, reconnecting = pre ++ .start errno :: post → .stop ∉ pre :=
    fun _ _ _ he => stop_notMem_of_cons_start (by simp) he
  refine (sockets_iff hlegal).mpr ⟨legal_iff.mp hfree, fun pre mid i post he hstart => ?_⟩
  obtain ⟨errno, hmem⟩ := hstart
  exact absurd hmem (start_notMem_of_first hfirst he errno)

/-- The connection is closed and `Restart` called before the functors of the iteration run. -/
def restartingEarly : List ConnectorStep :=
  [.start 115, .event false true 0 false, .userClose, .restart 115, .functor]

/-- `ResetChannel` destroys the channel of the second socket; and a `Start` after the `StopInLoop`
of a `Stop` connects all the same. -/
theorem restartingEarly_loses :
    Legal step Allowed {} restartingEarly ∧
      (∀ pre errno post, restartingEarly = pre ++ .start errno :: post → .stop ∉ pre) ∧
      ¬ (restartingEarly.foldl step {}).Accounted ∧
      Legal step Allowed {} [.stop, .functor, .start 115] ∧
      ([.stop, .functor, .start 115].foldl step {}).attempt = some 0 := by
  refine ⟨by decide +kernel, fun pre errno post he => ?_, by decide +kernel, by decide +kernel,
    by decide +kernel⟩
  exact stop_notMem_of_cons_start (by simp) he

end Connector

end MyTinyHttpd
