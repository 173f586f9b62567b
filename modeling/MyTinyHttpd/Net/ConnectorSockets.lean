import MyTinyHttpd.Net.Connector
import Mathlib.Data.List.Range

/-!
# The sockets of a connector

Each socket that `Connect` makes is being connected, or the connector has closed it, or the user has
got it. When an attempt ends, its channel stays in `channel_` until the queued `ResetChannel` has
run. If the next attempt begins before that, `ResetChannel` destroys the channel of the new attempt,
and nobody knows the new socket any more. The same happens to the first of two attempts that
overlap.

* `Inv`: what the steps keep. `Inv.startInLoop`: an attempt begins; `Inv.endClosed`: it ends.
* `Overlaps`: the steps that lose a socket. `Inv.step`: the others keep the invariant;
  `Inv.not_accounted_step`: these do not.
-/

namespace MyTinyHttpd

open Verif

namespace Connector

/-- The socket that is being connected. -/
def attempt (s : Connector) : Option Nat :=
  if s.state = .kConnecting then
    s.channel.bind fun c => if c.registered then some c.fd else none
  else none

/-- Each socket is being connected, closed once or handed over once, and only one of these. -/
def Accounted (s : Connector) : Prop :=
  (s.attempt.toList ++ s.closed ++ s.handed).Perm (List.range s.sockets)

instance (s : Connector) : Decidable s.Accounted :=
  inferInstanceAs (Decidable (List.Perm _ _))

structure Inv (s : Connector) : Prop where
  running : s.crashed = false
  busy : s.state = .kConnecting → ∃ fd, s.channel = some ⟨fd, true⟩
  idle : s.state ≠ .kConnecting → ∀ c ∈ s.channel, c.registered = false
  accounted : s.Accounted

variable {s : Connector}

theorem make_inv : ({} : Connector).Inv where
  running := rfl
  busy h := by cases h
  idle _ c hc := by cases hc
  accounted := List.Perm.refl _

theorem attempt_of_busy {fd : Nat} (hstate : s.state = .kConnecting)
    (hchannel : s.channel = some ⟨fd, true⟩) : s.attempt = some fd := by
  simp [attempt, hstate, hchannel]

theorem attempt_of_idle (hstate : s.state ≠ .kConnecting) : s.attempt = none := if_neg hstate

/-! ## A socket in the hand of the connector -/

/-- Inside `Connect`, or after `RemoveAndResetChannel`: the connector has a socket that is in none
of its places. -/
structure Holding (s : Connector) (fd : Nat) : Prop where
  running : s.crashed = false
  idle : ∀ c ∈ s.channel, c.registered = false
  accounted : (fd :: (s.closed ++ s.handed)).Perm (List.range s.sockets)

namespace Holding

variable {fd : Nat}

theorem close (h : s.Holding fd) (hstate : s.state ≠ .kConnecting) : (s.close fd).Inv where
  running := h.running
  busy hbusy := absurd hbusy hstate
  idle _ := h.idle
  accounted := by
    have hnone : (s.close fd).attempt = none := attempt_of_idle hstate
    rw [Accounted, hnone, Connector.close]
    simpa using List.perm_middle.trans h.accounted

theorem newConnection (h : s.Holding fd) (hstate : s.state ≠ .kConnecting) :
    (s.newConnection fd).Inv where
  running := h.running
  busy hbusy := absurd hbusy hstate
  idle _ := h.idle
  accounted := by
    have hnone : (s.newConnection fd).attempt = none := attempt_of_idle hstate
    rw [Accounted, hnone, Connector.newConnection]
    have hmove := (List.perm_append_singleton fd (s.closed ++ s.handed)).trans h.accounted
    simpa using hmove

theorem setState (h : s.Holding fd) (state : ConnectorState) : { s with state }.Holding fd :=
  ⟨h.running, h.idle, h.accounted⟩

theorem retry (h : s.Holding fd) : (s.retry fd).Inv := by
  have hclosed := (h.setState .kDisconnected).close (by simp)
  unfold Connector.retry
  dsimp only
  split
  · exact ⟨hclosed.running, hclosed.busy, hclosed.idle, hclosed.accounted⟩
  · exact hclosed

theorem connecting (h : s.Holding fd) : (s.connecting fd).Inv where
  running := h.running
  busy _ := ⟨fd, rfl⟩
  idle hidle := absurd rfl hidle
  accounted := by
    have hsome : (s.connecting fd).attempt = some fd := attempt_of_busy rfl rfl
    rw [Accounted, hsome]
    simpa [Connector.connecting] using h.accounted

end Holding

/-! ## An attempt begins -/

theorem Inv.socket (h : s.Inv) (hstate : s.state ≠ .kConnecting) :
    { s with sockets := s.sockets + 1 }.Holding s.sockets where
  running := h.running
  idle := h.idle hstate
  accounted := by
    have hold := h.accounted
    rw [Accounted, attempt_of_idle hstate] at hold
    rw [List.range_succ]
    exact (List.Perm.cons _ hold).trans (List.perm_append_singleton _ _).symm

/-- `connect` fails, and the socket is closed at once: an attempt that is under way goes on. -/
theorem Inv.closeSocket (h : s.Inv) :
    (close { s with sockets := s.sockets + 1 } s.sockets).Inv where
  running := h.running
  busy := h.busy
  idle := h.idle
  accounted := by
    have hold := List.Perm.append_right [s.sockets] h.accounted
    rw [← List.range_succ] at hold
    refine List.Perm.trans ?_ hold
    simp only [Connector.close, attempt, List.append_assoc]
    exact ((List.perm_append_comm).append_left _).append_left _

/-- An attempt begins when there is none, or it ends at once. -/
theorem Inv.startInLoop (h : s.Inv) {errno : Int}
    (hfree : s.state = .kConnecting → s.isConnect = true → connectClass errno = .close) :
    (s.startInLoop errno).Inv := by
  unfold Connector.startInLoop
  split
  · next hconnect =>
    unfold connect
    dsimp only
    by_cases hstate : s.state = .kConnecting
    · rw [hfree hstate hconnect]
      exact h.closeSocket
    · have hsocket := h.socket hstate
      split
      · exact hsocket.connecting
      · exact hsocket.retry
      · exact h.closeSocket
  · exact h

theorem Accounted.length_eq (h : s.Accounted) :
    s.attempt.toList.length + s.closed.length + s.handed.length = s.sockets := by
  have hlength := List.Perm.length_eq h
  simpa [Nat.add_assoc] using hlength

theorem Inv.length_lt (h : s.Inv) (hstate : s.state = .kConnecting) :
    s.closed.length + s.handed.length < s.sockets := by
  obtain ⟨fd, hchannel⟩ := h.busy hstate
  have hlength := h.accounted.length_eq
  rw [attempt_of_busy hstate hchannel] at hlength
  simp only [Option.toList_some, List.length_singleton] at hlength
  omega

theorem length_attempt_le (s : Connector) : s.attempt.toList.length ≤ 1 := by
  cases s.attempt <;> simp

/-- An attempt begins while another socket is open, which is lost. -/
theorem not_accounted_startInLoop (hopen : s.closed.length + s.handed.length < s.sockets)
    (hconnect : s.isConnect = true) {errno : Int}
    (hnew : s.state = .kConnecting → connectClass errno ≠ .close) :
    ¬ (s.startInLoop errno).Accounted := by
  intro h
  have hlength := h.length_eq
  rw [Connector.startInLoop, if_pos hconnect, connect] at hlength
  split at hlength
  · have hle := length_attempt_le (connecting { s with sockets := s.sockets + 1 } s.sockets)
    simp only [connecting] at hlength hle
    omega
  · have hnone : (retry { s with sockets := s.sockets + 1 } s.sockets).attempt = none := by
      simp [attempt, retry, close, hconnect]
    rw [hnone] at hlength
    simp only [retry, close, hconnect, if_true, Option.toList_none, List.length_nil,
      List.length_append, List.length_singleton] at hlength
    omega
  · next hclass =>
    have hidle : s.state ≠ .kConnecting := fun hbusy => hnew hbusy hclass
    have hnone : (close { s with sockets := s.sockets + 1 } s.sockets).attempt = none :=
      attempt_of_idle hidle
    rw [hnone] at hlength
    simp only [close, Option.toList_none, List.length_nil, List.length_append,
      List.length_singleton] at hlength
    omega

/-! ## An attempt ends -/

/-- The channel of an attempt is taken out of the loop, and the socket is in the connector's
hand. -/
theorem Inv.holding (h : s.Inv) (hbusy : s.state = .kConnecting) {fd : Nat}
    (hchannel : s.channel = some ⟨fd, true⟩) (state : ConnectorState)
    (functors : List ConnectorFunctor) :
    Holding { s with state, channel := some ⟨fd, false⟩, functors } fd where
  running := h.running
  idle := by simp
  accounted := by
    have hold := h.accounted
    rw [Accounted, attempt_of_busy hbusy hchannel] at hold
    exact hold

theorem Inv.endClosed : EndClosed Inv Holding where
  released {s} state k h hbusy hk := by
    obtain ⟨fd, hchannel⟩ := h.busy hbusy
    rw [removeAndResetChannel, hchannel]
    exact hk _ fd (h.holding hbusy hchannel state _)
  retry := Holding.retry
  newConnection h _ := (h.setState .kConnected).newConnection (by simp)
  close h := (h.setState .kConnected).close (by simp)

/-! ## The steps -/

/-- While a socket is being connected, the step begins another attempt that does not end at once, or
`ResetChannel` runs. -/
def Overlaps (s : Connector) : ConnectorStep → Prop
  | .start errno => s.state = .kConnecting ∧ connectClass errno ≠ .close
  | .restart _ => s.state = .kConnecting
  | .timer errno => s.state = .kConnecting ∧ s.isConnect = true ∧ connectClass errno ≠ .close
  | .functor => s.state = .kConnecting ∧ s.functors.head? = some .resetChannel
  | .stop | .event _ _ _ _ | .userClose => False

instance (s : Connector) (i : ConnectorStep) : Decidable (s.Overlaps i) :=
  match i with
  | .start errno =>
    inferInstanceAs (Decidable (s.state = .kConnecting ∧ connectClass errno ≠ .close))
  | .restart _ => inferInstanceAs (Decidable (s.state = .kConnecting))
  | .timer errno =>
    inferInstanceAs
      (Decidable (s.state = .kConnecting ∧ s.isConnect = true ∧ connectClass errno ≠ .close))
  | .functor =>
    inferInstanceAs
      (Decidable (s.state = .kConnecting ∧ s.functors.head? = some .resetChannel))
  | .stop | .event _ _ _ _ | .userClose => isFalse id

theorem Inv.runFunctor (h : s.Inv) (hfree : ¬ s.Overlaps .functor) : s.runFunctor.Inv := by
  unfold Connector.runFunctor
  split
  · exact h
  · next functors _ =>
    have hnext : Inv { s with functors } := ⟨h.running, h.busy, h.idle, h.accounted⟩
    exact Inv.endClosed.stopInLoop hnext
  · next functors hfunctors =>
    have hidle : s.state ≠ .kConnecting := fun hbusy => hfree ⟨hbusy, by simp [hfunctors]⟩
    have hold := h.accounted
    rw [Accounted, attempt_of_idle hidle] at hold
    refine ⟨h.running, fun hbusy => absurd hbusy hidle, by simp [resetChannel], ?_⟩
    have hnone : (resetChannel { s with functors }).attempt = none := attempt_of_idle hidle
    rw [Accounted, hnone]
    exact hold

theorem Inv.step (h : s.Inv) {i : ConnectorStep} (hfree : ¬ s.Overlaps i) :
    (Connector.step s i).Inv := by
  cases i with
  | start errno =>
    have hstart : Inv { s with isConnect := true, started := true, scheduled := [] } :=
      ⟨h.running, h.busy, h.idle, h.accounted⟩
    refine hstart.startInLoop fun hbusy _ => ?_
    exact not_not.mp fun hclass => hfree ⟨hbusy, hclass⟩
  | stop => exact ⟨h.running, h.busy, h.idle, h.accounted⟩
  | restart errno =>
    have hidle : s.state ≠ .kConnecting := hfree
    rw [Connector.step, restart]
    refine Inv.startInLoop ?_ fun hbusy => by cases hbusy
    refine ⟨h.running, fun hbusy => (by cases hbusy), fun _ => h.idle hidle, ?_⟩
    have hold := h.accounted
    rw [Accounted, attempt_of_idle hidle] at hold
    exact hold
  | functor => exact h.runFunctor hfree
  | timer errno =>
    have hfired : Inv { s with timers := s.timers - 1 } :=
      ⟨h.running, h.busy, h.idle, h.accounted⟩
    refine hfired.startInLoop fun hbusy hconnect => ?_
    exact not_not.mp fun hclass => hfree ⟨hbusy, hconnect, hclass⟩
  | event pollerr pollout soError selfConnect =>
    exact Inv.endClosed.handleEvent h pollerr pollout soError selfConnect
  | userClose => exact ⟨h.running, h.busy, h.idle, h.accounted⟩

theorem Inv.not_accounted_step (h : s.Inv) {i : ConnectorStep} (hlost : s.Overlaps i) :
    ¬ (Connector.step s i).Accounted := by
  cases i with
  | start errno =>
    rw [Connector.step, start]
    refine not_accounted_startInLoop ?_ rfl fun _ => hlost.2
    exact h.length_lt hlost.1
  | stop => exact hlost.elim
  | restart errno =>
    rw [Connector.step, restart]
    refine not_accounted_startInLoop ?_ rfl fun hbusy => by cases hbusy
    exact h.length_lt hlost
  | functor =>
    obtain ⟨hbusy, hhead⟩ := hlost
    obtain ⟨functors, hfunctors⟩ := List.head?_eq_some_iff.mp hhead
    intro hreset
    have hlength := hreset.length_eq
    have hlt := h.length_lt hbusy
    simp only [Connector.step, Connector.runFunctor, hfunctors, resetChannel, attempt,
      Option.bind_none, ite_self, Option.toList_none, List.length_nil] at hlength
    omega
  | timer errno =>
    rw [Connector.step]
    refine not_accounted_startInLoop ?_ ?_ fun _ => hlost.2.2
    · exact h.length_lt hlost.1
    · exact hlost.2.1
  | event pollerr pollout soError selfConnect => exact hlost.elim
  | userClose => exact hlost.elim

end Connector

end MyTinyHttpd
