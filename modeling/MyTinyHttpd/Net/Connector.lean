import MyTinyHttpd.Lib.Machine

/-!
# `net/connector.cc`

A connector in its loop's thread: the calls of its user, the functors and the timers that it has
left with the loop, and the events of its channel. Each of them is a step. Assertions are compiled
out.

* A socket is named by the number of sockets that were made before it. `closed` are the sockets that
  the connector has closed, `handed` those that it has given to `new_connection_callback_`.
* What the user does inside the callback comes in the steps after the event: nothing follows the
  callback in `HandleWrite`.
* All timers call `StartInLoop`, and none is cancelled, so it is enough to count them. They fire in
  any order with the functors, which run in the order in which they were queued.
* A channel that is destroyed while it is registered gets no more events here. `crashed`: a null
  `channel_` was used.

`EndClosed`: `StopInLoop`, `HandleError` and `HandleWrite` end an attempt in the same way, so what
they keep is shown once.
-/

namespace MyTinyHttpd

inductive ConnectorState where
  | kDisconnected
  | kConnecting
  | kConnected
  deriving DecidableEq

structure ConnectorChannel where
  fd : Nat
  registered : Bool
  deriving DecidableEq

inductive ConnectorFunctor where
  | stopInLoop
  | resetChannel
  deriving DecidableEq

def kInitRetryDelayMs : Nat := 500

def kMaxRetryDelayMs : Nat := 30 * 1000

structure Connector where
  isConnect : Bool := false
  state : ConnectorState := .kDisconnected
  channel : Option ConnectorChannel := none
  retryDelayMs : Nat := kInitRetryDelayMs
  /-- The functors of the connector that the loop has not run. -/
  functors : List ConnectorFunctor := []
  /-- How many retry timers have not fired. -/
  timers : Nat := 0
  sockets : Nat := 0
  closed : List Nat := []
  handed : List Nat := []
  crashed : Bool := false
  /-- The delays of the retries since the last `Start` or `Restart`. -/
  scheduled : List Nat := []
  started : Bool := false
  /-- How many of the sockets that were handed over the user has closed. -/
  returned : Nat := 0
  deriving DecidableEq

/-- What `connect` can say, by the branches of the `switch`. -/
inductive ConnectClass where
  | connecting
  | retry
  | close
  deriving DecidableEq

/-- `case 0`, `EINPROGRESS`, `EINTR`, `EISCONN`; then `EAGAIN`, `EADDRINUSE`, `EADDRNOTAVAIL`,
`ECONNREFUSED`, `ENETUNREACH`; all others close the socket. -/
def connectClass (errno : Int) : ConnectClass :=
  if errno ∈ [0, 115, 4, 106] then .connecting
  else if errno ∈ [11, 98, 99, 111, 101] then .retry
  else .close

/-- The steps. `errno` is what `connect` leaves, if the step comes to it; `soError` and
`selfConnect` are what `HandleWrite` finds out about the socket. -/
inductive ConnectorStep where
  | start (errno : Int)
  | stop
  | restart (errno : Int)
  /-- The loop runs the functor that was queued first. -/
  | functor
  | timer (errno : Int)
  /-- `poll` reports the channel: `POLLERR` or `POLLNVAL`, and `POLLOUT`. -/
  | event (pollerr pollout : Bool) (soError : Int) (selfConnect : Bool)
  /-- The user closes a connection that was handed over. -/
  | userClose
  deriving DecidableEq

namespace Connector

def close (s : Connector) (sockfd : Nat) : Connector := { s with closed := s.closed ++ [sockfd] }

def retry (s : Connector) (sockfd : Nat) : Connector :=
  let s := { s.close sockfd with state := .kDisconnected }
  if s.isConnect then
    { s with
      timers := s.timers + 1
      scheduled := s.scheduled ++ [s.retryDelayMs]
      retryDelayMs := min (s.retryDelayMs * 2) kMaxRetryDelayMs }
  else s

/-- `Connecting(sockfd)`: `reset` destroys the channel that there was. -/
def connecting (s : Connector) (sockfd : Nat) : Connector :=
  { s with state := .kConnecting, channel := some ⟨sockfd, true⟩ }

def connect (s : Connector) (errno : Int) : Connector :=
  let sockfd := s.sockets
  let s := { s with sockets := s.sockets + 1 }
  match connectClass errno with
  | .connecting => s.connecting sockfd
  | .retry => s.retry sockfd
  | .close => s.close sockfd

def startInLoop (s : Connector) (errno : Int) : Connector :=
  if s.isConnect then s.connect errno else s

def start (s : Connector) (errno : Int) : Connector :=
  startInLoop { s with isConnect := true, started := true, scheduled := [] } errno

def restart (s : Connector) (errno : Int) : Connector :=
  startInLoop { s with
    state := .kDisconnected
    retryDelayMs := kInitRetryDelayMs
    isConnect := true
    scheduled := [] } errno

def stop (s : Connector) : Connector :=
  { s with isConnect := false, functors := s.functors ++ [.stopInLoop] }

/-- `RemoveAndResetChannel()`, and what the caller does with the socket. -/
def removeAndResetChannel (s : Connector) (k : Connector → Nat → Connector) : Connector :=
  match s.channel with
  | none => { s with crashed := true }
  | some c =>
    k { s with
        channel := some { c with registered := false }
        functors := s.functors ++ [.resetChannel] } c.fd

def stopInLoop (s : Connector) : Connector :=
  if s.state = .kConnecting then
    removeAndResetChannel { s with state := .kDisconnected } retry
  else s

def resetChannel (s : Connector) : Connector := { s with channel := none }

/-- `new_connection_callback_(sockfd)`. -/
def newConnection (s : Connector) (sockfd : Nat) : Connector :=
  { s with handed := s.handed ++ [sockfd] }

def handleWrite (s : Connector) (soError : Int) (selfConnect : Bool) : Connector :=
  if s.state = .kConnecting then
    s.removeAndResetChannel fun s sockfd =>
      if soError ≠ 0 then s.retry sockfd
      else if selfConnect then s.retry sockfd
      else
        let s := { s with state := .kConnected }
        if s.isConnect then s.newConnection sockfd else s.close sockfd
  else s

def handleError (s : Connector) : Connector :=
  if s.state = .kConnecting then s.removeAndResetChannel retry else s

/-- `Channel::HandleEvent` calls the error callback before the write callback. -/
def handleEvent (s : Connector) (pollerr pollout : Bool) (soError : Int) (selfConnect : Bool) :
    Connector :=
  let s := if pollerr then s.handleError else s
  if pollout then s.handleWrite soError selfConnect else s

def runFunctor (s : Connector) : Connector :=
  match s.functors with
  | [] => s
  | .stopInLoop :: functors => stopInLoop { s with functors }
  | .resetChannel :: functors => resetChannel { s with functors }

def step (s : Connector) : ConnectorStep → Connector
  | .start errno => s.start errno
  | .stop => s.stop
  | .restart errno => s.restart errno
  | .functor => s.runFunctor
  | .timer errno => startInLoop { s with timers := s.timers - 1 } errno
  | .event pollerr pollout soError selfConnect => s.handleEvent pollerr pollout soError selfConnect
  | .userClose => { s with returned := s.returned + 1 }

/-- What the loop can do: it runs functors and timers that it has, and reports a channel that is
registered. -/
def LoopCan (s : Connector) : ConnectorStep → Prop
  | .functor => s.functors ≠ []
  | .timer _ => 0 < s.timers
  | .event _ _ _ _ => ∃ c ∈ s.channel, c.registered = true
  | .userClose => s.returned < s.handed.length
  | .start _ | .stop | .restart _ => True

instance (s : Connector) (i : ConnectorStep) : Decidable (s.LoopCan i) :=
  match i with
  | .functor => inferInstanceAs (Decidable (s.functors ≠ []))
  | .timer _ => inferInstanceAs (Decidable (0 < s.timers))
  | .event _ _ _ _ => inferInstanceAs (Decidable (∃ c ∈ s.channel, c.registered = true))
  | .userClose => inferInstanceAs (Decidable (s.returned < s.handed.length))
  | .start _ | .stop | .restart _ => isTrue trivial

/-! ## The end of an attempt -/

/-- `P` survives the end of an attempt: `Q` holds when `RemoveAndResetChannel` has returned the
socket, and what is then done with the socket gives `P` again. -/
structure EndClosed (P : Connector → Prop) (Q : Connector → Nat → Prop) : Prop where
  released : ∀ {s : Connector} (state : ConnectorState) {k : Connector → Nat → Connector}, P s →
    s.state = .kConnecting → (∀ s fd, Q s fd → P (k s fd)) →
    P (removeAndResetChannel { s with state } k)
  retry : ∀ {s : Connector} {fd : Nat}, Q s fd → P (s.retry fd)
  newConnection : ∀ {s : Connector} {fd : Nat}, Q s fd → s.isConnect = true →
    P (newConnection { s with state := .kConnected } fd)
  close : ∀ {s : Connector} {fd : Nat}, Q s fd → P (close { s with state := .kConnected } fd)

namespace EndClosed

variable {P : Connector → Prop} {Q : Connector → Nat → Prop} {s : Connector}

theorem stopInLoop (h : EndClosed P Q) (hs : P s) : P s.stopInLoop := by
  unfold Connector.stopInLoop
  split
  · next hbusy => exact h.released .kDisconnected hs hbusy fun _ _ => h.retry
  · exact hs

theorem handleError (h : EndClosed P Q) (hs : P s) : P s.handleError := by
  unfold Connector.handleError
  split
  · next hbusy => exact h.released s.state hs hbusy fun _ _ => h.retry
  · exact hs

theorem handleWrite (h : EndClosed P Q) (hs : P s) (soError : Int) (selfConnect : Bool) :
    P (s.handleWrite soError selfConnect) := by
  unfold Connector.handleWrite
  split
  · next hbusy =>
    refine h.released s.state hs hbusy fun s fd hq => ?_
    dsimp only
    split
    · exact h.retry hq
    · split
      · exact h.retry hq
      · split
        · next hconnect => exact h.newConnection hq hconnect
        · exact h.close hq
  · exact hs

theorem handleEvent (h : EndClosed P Q) (hs : P s) (pollerr pollout : Bool) (soError : Int)
    (selfConnect : Bool) : P (s.handleEvent pollerr pollout soError selfConnect) := by
  unfold Connector.handleEvent
  have herror : P (if pollerr then s.handleError else s) := by
    split
    · exact h.handleError hs
    · exact hs
  dsimp only
  split
  · exact h.handleWrite herror soError selfConnect
  · exact herror

end EndClosed

end Connector

end MyTinyHttpd
