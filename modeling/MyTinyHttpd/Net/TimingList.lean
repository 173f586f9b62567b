import Mathlib.Logic.Function.Basic
import MyTinyHttpd.Net.TcpConnection
import MyTinyHttpd.Utils.Timestamp

/-!
# `net/timing_list.cc`

The list, the connections in it, and the clock of their event loop. A connection is known by its
number; `position` is its place in the list. An assertion that fails, and a null `Node*`, set
`failed`.

A `Node` here also has the iteration of the loop and the function that stamped it. They, and
`clock`, only serve the statements.
-/

namespace MyTinyHttpd

structure Node where
  lastReceiveTime : Timestamp
  /-- The iteration of the event loop in which it was stamped. -/
  iteration : Nat
  /-- By `OnMessage`, not by `OnConnection`. -/
  byMessage : Bool

/-- What the list reads of a `TcpConnection`. -/
structure ListConn where
  state : ConnState := .kConnecting
  /-- The object has been deleted. -/
  isGone : Bool := false
  timingContext : Option Node := none

namespace ListConn

def isConnected (conn : ListConn) : Bool := conn.state == .kConnected

def setState (conn : ListConn) (state : ConnState) : ListConn := { conn with state }

def shutdown (conn : ListConn) : ListConn :=
  if conn.state = .kConnected then conn.setState .kDisconnecting else conn

def forceCloseWithDelay (conn : ListConn) : ListConn :=
  if conn.state = .kConnected ∨ conn.state = .kDisconnecting then conn.setState .kDisconnecting
  else conn

end ListConn

structure TimingList where
  connectionList : List Nat := []
  conns : Nat → ListConn := fun _ => {}
  /-- The latest time that has been read. -/
  clock : Timestamp
  /-- `poll_return_time_` of the event loop. -/
  pollReturnTime : Timestamp
  /-- `iteration_` of the event loop. -/
  iteration : Nat := 0
  failed : Bool := false

namespace TimingList

variable (idleSeconds : Int)

def setConn (l : TimingList) (c : Nat) (conn : ListConn) : TimingList :=
  { l with conns := Function.update l.conns c conn }

/-- `age > idle_seconds_`. -/
def TooOld (now : Timestamp) (node : Node) : Prop :=
  idleSeconds * Timestamp.kMicroSecondsPerSecond < now - node.lastReceiveTime

instance (now : Timestamp) (node : Node) : Decidable (TooOld idleSeconds now node) :=
  inferInstanceAs (Decidable (_ < _))

/-- The loop of `OnTimer`, for the connections from an iterator on. -/
def scan (now : Timestamp) (l : TimingList) : List Nat → TimingList
  | [] => l
  | c :: rest =>
    let conn := l.conns c
    if conn.isGone then scan now { l with connectionList := l.connectionList.erase c } rest
    else
      match conn.timingContext with
      | none => { l with failed := true }
      | some node =>
        if TooOld idleSeconds now node then
          if conn.isConnected then scan now (l.setConn c conn.shutdown.forceCloseWithDelay) rest
          else scan now l rest
        else if now - node.lastReceiveTime < 0 then
          let node := { node with lastReceiveTime := now }
          scan now (l.setConn c { conn with timingContext := some node }) rest
        else l

def onTimer (l : TimingList) (now : Timestamp) : TimingList :=
  scan idleSeconds now { l with clock := now } l.connectionList

def onConnection (l : TimingList) (c : Nat) (now : Timestamp) : TimingList :=
  let conn := l.conns c
  if conn.isConnected then
    let node : Node := { lastReceiveTime := now, iteration := l.iteration, byMessage := false }
    { l with connectionList := l.connectionList ++ [c] }.setConn c
      { conn with timingContext := some node }
  else
    match conn.timingContext with
    | none => { l with failed := true }
    | some _ => { l with connectionList := l.connectionList.erase c }

def onMessage (l : TimingList) (c : Nat) (receiveTime : Timestamp) : TimingList :=
  let conn := l.conns c
  match conn.timingContext with
  | none => { l with failed := true }
  | some _ =>
    let node : Node :=
      { lastReceiveTime := receiveTime, iteration := l.iteration, byMessage := true }
    { l with connectionList := l.connectionList.erase c ++ [c] }.setConn c
      { conn with timingContext := some node }

inductive ListStep where
  /-- `Poll` returns, and an iteration of the loop begins. -/
  | poll (now : Timestamp)
  /-- `ConnectEstablished`. -/
  | up (c : Nat) (now : Timestamp)
  /-- The connection is closed. -/
  | down (c : Nat)
  | message (c : Nat)
  | timer (now : Timestamp)
  /-- `Shutdown`, by others than the list. -/
  | shutdown (c : Nat)
  /-- The `TcpConnection` is deleted. -/
  | gone (c : Nat)

def step (l : TimingList) : ListStep → TimingList
  | .poll now => { l with clock := now, pollReturnTime := now, iteration := l.iteration + 1 }
  | .up c now =>
    ({ l with clock := now }.setConn c ((l.conns c).setState .kConnected)).onConnection c now
  | .down c => (l.setConn c ((l.conns c).setState .kDisconnected)).onConnection c l.clock
  | .message c => l.onMessage c l.pollReturnTime
  | .timer now => l.onTimer idleSeconds now
  | .shutdown c => l.setConn c (l.conns c).shutdown
  | .gone c => l.setConn c { l.conns c with isGone := true }

/-- The clock does not go back. A connection comes up once, and its messages are between its up and
its down. -/
def Admissible (l : TimingList) : ListStep → Prop
  | .poll now | .timer now => l.clock ≤ now
  | .up c now => l.clock ≤ now ∧ (l.conns c).timingContext.isNone = true ∧
      (l.conns c).isGone = false
  | .down c | .message c => c ∈ l.connectionList ∧ (l.conns c).isGone = false
  | .shutdown _ | .gone _ => True

instance (l : TimingList) (s : ListStep) : Decidable (l.Admissible s) :=
  match s with
  | .poll now | .timer now => inferInstanceAs (Decidable (l.clock ≤ now))
  | .up c now => inferInstanceAs (Decidable (l.clock ≤ now ∧
      (l.conns c).timingContext.isNone = true ∧ (l.conns c).isGone = false))
  | .down c | .message c =>
    inferInstanceAs (Decidable (c ∈ l.connectionList ∧ (l.conns c).isGone = false))
  | .shutdown _ | .gone _ => isTrue trivial

/-- A loop that has not polled yet. -/
def make (start : Timestamp) : TimingList := { clock := start, pollReturnTime := start }

end TimingList

end MyTinyHttpd
