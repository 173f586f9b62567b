import Mathlib.Data.List.AList
import MyTinyHttpd.Net.LoopLemmas

/-!
# `net/tcp_server.cc`: the server and its loops

The base loop is loop 0, the loops of the thread pool are 1, 2, …, `loops`. Each loop has its
`pending_functors_`, a FIFO queue. A step is one functor or one event in the thread of one loop:
what it sends to another loop goes out at its end, so the steps of different loops can be taken
one after the other.

A `TcpConnection` object is an entry of `served`; a `TcpConnectionPtr` is its number. `connections`
is `connections_`. The connection callback is in the history of the connection; what the user does
in it are steps of their own.

The destructor and the acceptor are left out.
-/

namespace MyTinyHttpd

/-- What the history of a connection is made of. -/
inductive LifeEvent where
  /-- `connections_[conn_name] = conn`, and whether the name was in the map. -/
  | inserted (overwrites : Bool)
  /-- `ConnectEstablished`, entered in a state. -/
  | connectEstablished (state : ConnState)
  | connectionCallback (up : Bool)
  /-- `HandleClose`, entered in a state. -/
  | handleClose (state : ConnState)
  /-- `connections_.erase(name)` has removed `n` entries. -/
  | erased (n : Nat)
  /-- `ConnectDestroyed` comes to `channel_->Remove()`. -/
  | connectDestroyed (state : ConnState) (events : BitVec 32)
  deriving DecidableEq

/-- The functors in the queues of the loops. -/
inductive ServerTask where
  | connectEstablished (conn : Nat)
  | removeConnectionInLoop (conn : Nat)
  | connectDestroyed (conn : Nat)
  /-- A callback that a connection has queued. -/
  | callback (conn : Nat) (f : Functor)
  deriving DecidableEq

/-- The connection that a functor holds. -/
def ServerTask.conn : ServerTask → Nat
  | .connectEstablished i | .removeConnectionInLoop i | .connectDestroyed i | .callback i _ => i

/-- A connection object: its name, its loop, and what has happened to it. -/
structure Served (γ : Type) where
  name : List UInt8
  loop : Nat
  conn : TcpConnection γ
  history : List LifeEvent := []

structure TcpServer (γ : Type) where
  ipPort : List UInt8
  name : List UInt8
  writeCompleteCallback : Bool
  /-- `thread_pool_->loops_.size()`. -/
  loops : Nat
  /-- `thread_pool_->next_`. -/
  next : Nat := 0
  nextConnId : Int := 1
  connections : AList (fun _ : List UInt8 => Nat) := ∅
  served : List (Served γ) := []
  pending : Nat → List ServerTask := fun _ => []

namespace TcpServer

variable {γ : Type} (alloc : Allocator)

/-! ## Loops -/

/-- `thread_pool_->GetNextLoop()`. -/
def getNextLoop (s : TcpServer γ) : Nat × TcpServer γ :=
  if s.loops = 0 then (0, s)
  else (s.next + 1, { s with next := if s.loops ≤ s.next + 1 then 0 else s.next + 1 })

/-- `loop->QueueInLoop(task)` for each task. -/
def queueInLoop (s : TcpServer γ) (loop : Nat) (tasks : List ServerTask) : TcpServer γ :=
  { s with pending := Function.update s.pending loop (s.pending loop ++ tasks) }

/-- What has become of a connection, and new entries in its history. -/
def record (s : TcpServer γ) (i : Nat) (conn : TcpConnection γ → TcpConnection γ)
    (events : Served γ → List LifeEvent) : TcpServer γ :=
  { s with served := s.served.modify i fun c =>
      { c with conn := conn c.conn, history := c.history ++ events c } }

/-! ## The functors -/

def connectEstablished (s : TcpServer γ) (i : Nat) : TcpServer γ :=
  s.record i (·.connectEstablished) fun c =>
    [.connectEstablished c.conn.state, .connectionCallback true]

/-- `ConnectDestroyed()` of a connection, up to `channel_->Remove()`. -/
def destroy (c : TcpConnection γ) : TcpConnection γ :=
  if c.state = .kConnected then
    { c with state := .kDisconnected, channel := c.channel.disableAll }
  else c

def connectDestroyed (s : TcpServer γ) (i : Nat) : TcpServer γ :=
  s.record i destroy fun c =>
    (if c.conn.state = .kConnected then [.connectionCallback false] else []) ++
      [.connectDestroyed (destroy c.conn).state (destroy c.conn).channel.events]

def removeConnectionInLoop (s : TcpServer γ) (i : Nat) : TcpServer γ :=
  match s.served[i]? with
  | none => s
  | some c =>
    let n := if c.name ∈ s.connections then 1 else 0
    let s := { s with connections := s.connections.erase c.name }
    let s := s.record i id fun _ => [.erased n]
    s.queueInLoop c.loop [.connectDestroyed i]

/-- One functor. What the user does in a callback is a step of its own. -/
def perform (s : TcpServer γ) : ServerTask → TcpServer γ
  | .connectEstablished i => s.connectEstablished i
  | .removeConnectionInLoop i => s.removeConnectionInLoop i
  | .connectDestroyed i => s.connectDestroyed i
  | .callback _ _ => s

/-- `loop->RunInLoop(task)` in the thread of the loop `current`. -/
def runInLoop (s : TcpServer γ) (current loop : Nat) (task : ServerTask) : TcpServer γ :=
  if current = loop then s.perform task else s.queueInLoop loop [task]

/-! ## The events -/

/-- The name of the next connection. -/
def connName (s : TcpServer γ) : List UInt8 :=
  s.name ++ snprintf 64 (ascii "-" ++ cStr s.ipPort ++ ascii "#" ++ decimalInt s.nextConnId)

/-- `NewConnection`, in the thread of the base loop. -/
def newConnection (s : TcpServer γ) (answers : Nat → WriteResult) (context : γ) : TcpServer γ :=
  let (ioLoop, s) := s.getNextLoop
  let connName := s.connName
  let s := { s with nextConnId := Int.bmod (s.nextConnId + 1) (2 ^ 32) }
  let i := s.served.length
  let conn := { TcpConnection.make alloc answers context with
    writeCompleteCallback := s.writeCompleteCallback }
  let c : Served γ :=
    { name := connName, loop := ioLoop, conn, history := [.inserted (connName ∈ s.connections)] }
  let s := { s with connections := s.connections.insert connName i, served := s.served ++ [c] }
  s.runInLoop 0 ioLoop (.connectEstablished i)

/-- `HandleClose` of a connection, in the thread of its loop. The close callback is
`RemoveConnection`. -/
def handleClose (s : TcpServer γ) (i : Nat) : TcpServer γ :=
  match s.served[i]? with
  | none => s
  | some c =>
    let s := s.record i (·.handleClose) fun c =>
      [.handleClose c.conn.state, .connectionCallback false]
    s.runInLoop c.loop 0 (.removeConnectionInLoop i)

/-- What else happens to a connection. -/
inductive Traffic where
  | sendInLoop (data : List UInt8)
  | handleWrite
  | shutdown

def Traffic.apply (c : TcpConnection γ) : Traffic → TcpConnection γ
  | .sendInLoop data => c.sendInLoop alloc data
  | .handleWrite => c.handleWrite
  | .shutdown => c.shutdown

/-- A step of the send path. The callbacks that the connection has queued go to its loop. -/
def traffic (s : TcpServer γ) (i : Nat) (t : Traffic) : TcpServer γ :=
  match s.served[i]? with
  | none => s
  | some c =>
    let conn := t.apply alloc c.conn
    let s := s.record i (fun _ => { conn with pending := [] }) fun _ => []
    s.queueInLoop c.loop (conn.pending.map (.callback i))

/-- The first functor of a loop's queue. -/
def runFunctor (s : TcpServer γ) (loop : Nat) : TcpServer γ :=
  match s.pending loop with
  | [] => s
  | task :: tasks => { s with pending := Function.update s.pending loop tasks }.perform task

inductive ServerStep (γ : Type) where
  | newConnection (answers : Nat → WriteResult) (context : γ)
  | handleClose (conn : Nat)
  | traffic (conn : Nat) (t : Traffic)
  | runFunctor (loop : Nat)

def step (s : TcpServer γ) : ServerStep γ → TcpServer γ
  | .newConnection answers context => s.newConnection alloc answers context
  | .handleClose i => s.handleClose i
  | .traffic i t => s.traffic alloc i t
  | .runFunctor loop => s.runFunctor loop

/-- The server after `Start()`, with `loops` loops in the thread pool. -/
def make (ipPort name : List UInt8) (writeCompleteCallback : Bool) (loops : Nat) : TcpServer γ :=
  { ipPort, name, writeCompleteCallback, loops }

end TcpServer

end MyTinyHttpd
