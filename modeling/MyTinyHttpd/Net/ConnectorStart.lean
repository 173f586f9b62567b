import MyTinyHttpd.Net.ConnectorSockets

/-!
# The attempts of a connector that is started and stopped

`Start` calls `StartInLoop` at once, in whatever state the connector is, and neither `Stop` nor
`Start` cancels a retry timer. So a second `Start` can begin a second attempt while the first is
under way, has succeeded, or is to be retried. The channel of an attempt that has ended is in
`channel_` until `ResetChannel` has run, and a timer that fires before that finds it there.

* `Ready`: `Start` comes when nothing of an earlier attempt is left, and no timer fires while a
  `ResetChannel` is queued.
* `Sole`: then there is at most one timer, and none beside an attempt.
* `one_attempt`: in a run whose steps are all `Ready`, the assertions of `StartInLoop` and
  `Connecting` hold, and at most one socket is being connected.
-/

namespace MyTinyHttpd

open Verif

namespace Connector

variable {s : Connector}

/-- The user calls `Start` and `Stop`, and never `Restart`. -/
def Manual (s : Connector) : ConnectorStep → Prop
  | .restart _ => False
  | i => s.LoopCan i

/-- What `StartInLoop` and `Connecting` assume: `StartInLoop` tests `is_connect_` after its
assertion. -/
def Asserts (s : Connector) : ConnectorStep → Prop
  | .start _ => s.state = .kDisconnected ∧ s.channel = none
  | .timer _ => s.state = .kDisconnected ∧ (s.isConnect = true → s.channel = none)
  | _ => True

/-- The socket has been made, and the connector has not closed it or handed it over. -/
def Open (s : Connector) (fd : Nat) : Prop := fd < s.sockets ∧ fd ∉ s.closed ∧ fd ∉ s.handed

/-- The step comes when what earlier steps have left with the loop is gone. -/
def Ready (s : Connector) : ConnectorStep → Prop
  | .start _ => s.state = .kDisconnected ∧ s.timers = 0 ∧ .resetChannel ∉ s.functors
  | .timer _ => s.isConnect = true → .resetChannel ∉ s.functors
  | _ => True

instance (s : Connector) (i : ConnectorStep) : Decidable (s.Manual i) :=
  match i with
  | .restart _ => isFalse id
  | .start errno => inferInstanceAs (Decidable (s.LoopCan (.start errno)))
  | .stop => inferInstanceAs (Decidable (s.LoopCan .stop))
  | .functor => inferInstanceAs (Decidable (s.LoopCan .functor))
  | .timer errno => inferInstanceAs (Decidable (s.LoopCan (.timer errno)))
  | .event pollerr pollout soError selfConnect =>
    inferInstanceAs (Decidable (s.LoopCan (.event pollerr pollout soError selfConnect)))
  | .userClose => inferInstanceAs (Decidable (s.LoopCan .userClose))

instance (s : Connector) (i : ConnectorStep) : Decidable (s.Asserts i) :=
  match i with
  | .start _ => inferInstanceAs (Decidable (s.state = .kDisconnected ∧ s.channel = none))
  | .timer _ =>
    inferInstanceAs
      (Decidable (s.state = .kDisconnected ∧ (s.isConnect = true → s.channel = none)))
  | .stop | .restart _ | .functor | .event _ _ _ _ | .userClose => isTrue trivial

instance (s : Connector) (i : ConnectorStep) : Decidable (s.Ready i) :=
  match i with
  | .start _ =>
    inferInstanceAs
      (Decidable (s.state = .kDisconnected ∧ s.timers = 0 ∧ .resetChannel ∉ s.functors))
  | .timer _ => inferInstanceAs (Decidable (s.isConnect = true → .resetChannel ∉ s.functors))
  | .stop | .restart _ | .functor | .event _ _ _ _ | .userClose => isTrue trivial

/-! ## The invariant -/

/-- At most one timer, between two attempts; and a channel that is left over is to be reset before
the next attempt. -/
structure Sole (s : Connector) : Prop where
  waiting : 0 < s.timers → s.state = .kDisconnected
  timers_le : s.timers ≤ 1
  leftover : ∀ c ∈ s.channel, c.registered = false → .resetChannel ∈ s.functors
  clean : s.state = .kConnecting → .resetChannel ∉ s.functors

theorem make_sole : ({} : Connector).Sole where
  waiting h := by cases h
  timers_le := Nat.zero_le 1
  leftover c hc := by cases hc
  clean h := by cases h

theorem Sole.timers_eq (h : s.Sole) (hbusy : s.state = .kConnecting) : s.timers = 0 := by
  refine Nat.eq_zero_of_not_pos fun hpos => ?_
  cases hbusy.symm.trans (h.waiting hpos)

theorem Sole.channel_eq_none (h : s.Sole) (hinv : s.Inv) (hidle : s.state ≠ .kConnecting)
    (hreset : .resetChannel ∉ s.functors) : s.channel = none := by
  cases hchannel : s.channel with
  | none => rfl
  | some c => exact absurd (h.leftover c hchannel (hinv.idle hidle c hchannel)) hreset

/-- `Retry` when no timer is left. -/
theorem Sole.retry (htimers : s.timers = 0)
    (hleft : ∀ c ∈ s.channel, c.registered = false → .resetChannel ∈ s.functors) (fd : Nat) :
    (s.retry fd).Sole := by
  unfold Connector.retry
  dsimp only
  split
  · exact ⟨fun _ => rfl, by simp [close, htimers], hleft, fun hbusy => by cases hbusy⟩
  · exact ⟨fun _ => rfl, by simp [close, htimers], hleft, fun hbusy => by cases hbusy⟩

theorem Sole.startInLoop (h : s.Sole) (htimers : s.timers = 0)
    (hreset : s.isConnect = true → .resetChannel ∉ s.functors) (errno : Int) :
    (s.startInLoop errno).Sole := by
  unfold Connector.startInLoop
  split
  · next hconnect =>
    unfold connect
    dsimp only
    split
    · refine ⟨fun hpos => ?_, h.timers_le, ?_, fun _ => hreset hconnect⟩
      · exact absurd hpos (by simp [connecting, htimers])
      · simp [connecting]
    · refine Sole.retry ?_ ?_ s.sockets
      · exact htimers
      · exact h.leftover
    · exact ⟨h.waiting, h.timers_le, h.leftover, h.clean⟩
  · exact h

/-- An attempt has succeeded: there is no timer, and `ResetChannel` is queued. -/
theorem Sole.connected (htimers : s.timers = 0) (hqueued : .resetChannel ∈ s.functors)
    (hstate : s.state = .kConnected) : s.Sole where
  waiting hpos := absurd hpos (by simp [htimers])
  timers_le := by simp [htimers]
  leftover _ _ _ := hqueued
  clean hbusy := by cases hbusy.symm.trans hstate

theorem Sole.endClosed : EndClosed (fun s => s.Inv ∧ s.Sole)
    fun s fd => s.Holding fd ∧ s.timers = 0 ∧ .resetChannel ∈ s.functors where
  released {s} state k h hbusy hk := by
    obtain ⟨hinv, hsole⟩ := h
    obtain ⟨fd, hchannel⟩ := hinv.busy hbusy
    rw [removeAndResetChannel, hchannel]
    exact hk _ fd ⟨hinv.holding hbusy hchannel state _, hsole.timers_eq hbusy, by simp⟩
  retry h := ⟨Inv.endClosed.retry h.1, Sole.retry h.2.1 (fun _ _ _ => h.2.2) _⟩
  newConnection h hconnect :=
    ⟨Inv.endClosed.newConnection h.1 hconnect, Sole.connected h.2.1 h.2.2 rfl⟩
  close h := ⟨Inv.endClosed.close h.1, Sole.connected h.2.1 h.2.2 rfl⟩

theorem Sole.runFunctor (h : s.Sole) (hinv : s.Inv) : s.runFunctor.Sole := by
  unfold Connector.runFunctor
  split
  · exact h
  · next functors hfunctors =>
    refine (Sole.endClosed.stopInLoop ⟨?_, ?_⟩).2
    · exact ⟨hinv.running, hinv.busy, hinv.idle, hinv.accounted⟩
    · refine ⟨h.waiting, h.timers_le, fun c hc hfree => ?_, fun hbusy => ?_⟩
      · simpa [hfunctors] using h.leftover c hc hfree
      · simpa [hfunctors] using h.clean hbusy
  · next functors hfunctors =>
    refine ⟨h.waiting, h.timers_le, by simp [resetChannel], fun hbusy => ?_⟩
    exact absurd (h.clean hbusy) (by simp [hfunctors])

theorem Sole.step (h : s.Sole) (hinv : s.Inv) {i : ConnectorStep} (hcan : s.Manual i)
    (hready : s.Ready i) : (Connector.step s i).Sole := by
  cases i with
  | start errno =>
    obtain ⟨-, htimers, hreset⟩ := hready
    rw [Connector.step, start]
    refine Sole.startInLoop ?_ ?_ (fun _ => ?_) errno
    · exact ⟨h.waiting, h.timers_le, h.leftover, h.clean⟩
    · exact htimers
    · exact hreset
  | stop =>
    refine ⟨h.waiting, h.timers_le, fun c hc hfree => ?_, fun hbusy => ?_⟩
    · exact List.mem_append_left _ (h.leftover c hc hfree)
    · simpa [Connector.step, stop] using h.clean hbusy
  | restart errno => exact hcan.elim
  | functor => exact h.runFunctor hinv
  | timer errno =>
    have htimers : s.timers - 1 = 0 := Nat.sub_eq_zero_of_le h.timers_le
    rw [Connector.step]
    refine Sole.startInLoop ?_ ?_ ?_ errno
    · exact ⟨fun hpos => absurd hpos (by simp [htimers]), by simp [htimers], h.leftover, h.clean⟩
    · exact htimers
    · exact hready
  | event pollerr pollout soError selfConnect =>
    exact (Sole.endClosed.handleEvent ⟨hinv, h⟩ pollerr pollout soError selfConnect).2
  | userClose => exact ⟨h.waiting, h.timers_le, h.leftover, h.clean⟩

/-! ## Runs -/

theorem Sole.not_overlaps (h : s.Sole) {i : ConnectorStep} (hcan : s.Manual i)
    (hready : s.Ready i) : ¬ s.Overlaps i := by
  cases i with
  | start errno =>
    rintro ⟨hbusy, -⟩
    cases hbusy.symm.trans hready.1
  | stop => exact id
  | restart errno => exact hcan.elim
  | functor =>
    rintro ⟨hbusy, hhead⟩
    exact h.clean hbusy (List.mem_of_head? hhead)
  | timer errno =>
    rintro ⟨hbusy, -⟩
    cases hbusy.symm.trans (h.waiting hcan)
  | event pollerr pollout soError selfConnect => exact id
  | userClose => exact id

theorem Sole.asserts (h : s.Sole) (hinv : s.Inv) {i : ConnectorStep} (hcan : s.Manual i)
    (hready : s.Ready i) : s.Asserts i := by
  cases i with
  | start errno =>
    obtain ⟨hstate, -, hreset⟩ := hready
    exact ⟨hstate, h.channel_eq_none hinv (by simp [hstate]) hreset⟩
  | timer errno =>
    have hstate := h.waiting hcan
    exact ⟨hstate, fun hconnect => h.channel_eq_none hinv (by simp [hstate]) (hready hconnect)⟩
  | stop | restart | functor | event | userClose => trivial

theorem Accounted.attempt_of_open (h : s.Accounted) {fd : Nat} (hopen : s.Open fd) :
    s.attempt = some fd := by
  obtain ⟨hlt, hclosed, hhanded⟩ := hopen
  have hmem := h.mem_iff.mpr (List.mem_range.mpr hlt)
  simpa [hclosed, hhanded] using hmem

theorem one_attempt {is : List ConnectorStep} (h : Legal step Manual {} is)
    (hready : ∀ pre i post, is = pre ++ i :: post → (pre.foldl step {}).Ready i) :
    (∀ pre i post, is = pre ++ i :: post → (pre.foldl step {}).Asserts i) ∧
      ∀ pre post, is = pre ++ post → ∀ fd fd', (pre.foldl step {}).Open fd →
        (pre.foldl step {}).Open fd' → fd = fd' := by
  have hboth := legal_and h (legal_iff.mpr hready)
  have hinv : ∀ pre post, is = pre ++ post →
      (pre.foldl step {}).Inv ∧ (pre.foldl step {}).Sole := by
    rintro pre post rfl
    refine legal_invariant (I := fun s => s.Inv ∧ s.Sole) (fun s i hs hi => ?_)
      ⟨make_inv, make_sole⟩ (legal_append.mp hboth).1
    exact ⟨hs.1.step (hs.2.not_overlaps hi.1 hi.2), hs.2.step hs.1 hi.1 hi.2⟩
  refine ⟨fun pre i post he => ?_, fun pre post he fd fd' hfd hfd' => ?_⟩
  · obtain ⟨hi, hsole⟩ := hinv pre (i :: post) he
    exact hsole.asserts hi (legal_iff.mp h pre i post he) (hready pre i post he)
  · have haccounted := (hinv pre post he).1.accounted
    have heq := (haccounted.attempt_of_open hfd).symm.trans (haccounted.attempt_of_open hfd')
    exact Option.some.inj heq

/-- An attempt that fails and is retried, `Stop`, and a second `Start` when all that is over. -/
def startingAgain : List ConnectorStep :=
  [.start 115, .event true false 0 false, .functor, .timer 115, .stop, .functor, .functor,
    .start 115, .event false true 0 false]

theorem startingAgain_one :
    (∀ pre i post, startingAgain = pre ++ i :: post → (pre.foldl step {}).Asserts i) ∧
      ∀ pre post, startingAgain = pre ++ post → ∀ fd fd', (pre.foldl step {}).Open fd →
        (pre.foldl step {}).Open fd' → fd = fd' := by
  have hlegal : Legal step Manual {} startingAgain := by decide +kernel
  have hready : Legal step Ready {} startingAgain := by decide +kernel
  exact one_attempt hlegal (legal_iff.mp hready)

/-- `Start` while the first socket is being connected; while a retry is scheduled, whose timer then
fires; and a timer that fires before `ResetChannel` has run. -/
def overlapping : List (List ConnectorStep) :=
  [[.start 115, .start 115], [.start 111, .start 115, .timer 115],
    [.start 115, .event true false 0 false, .timer 115]]

theorem overlapping_asserts :
    (∀ is ∈ overlapping, Legal step Manual {} is ∧ ¬ Legal step Asserts {} is) ∧
      ([.start 115, .start 115].foldl step {}).Open 0 ∧
      ([.start 115, .start 115].foldl step {}).Open 1 := by
  refine ⟨by decide +kernel, ?_, ?_⟩
  · exact ⟨by decide +kernel, by decide +kernel, by decide +kernel⟩
  · exact ⟨by decide +kernel, by decide +kernel, by decide +kernel⟩

end Connector

end MyTinyHttpd
