import MyTinyHttpd.Net.EPollPoller
import MyTinyHttpd.Net.SendPath

/-!
# A connection, its loop and its poller

`Net/TcpConnection.lean` has the member functions that run in the loop's thread. Here is the rest:
the calls that any thread can make, which run at once in the loop's thread and go through the
functor queue from another one, the events that the poller reports, and the way down to
`ConnectDestroyed`. A call of the user and a step of the loop are one step each.

The user's callbacks are lists of calls: `onMessage` is what the message callback does, `onDown`
what the connection callback does when the connection goes down.

`SendInLoop`, `HandleWrite` and `ShutdownInLoop` call `Channel::Update` exactly when they change
the mask (`adopt`); `HandleClose`, `StartReadInLoop` and `StopReadInLoop` also when they do not.
-/

namespace MyTinyHttpd

/-- The calls of the user. -/
inductive Call where
  | send (message : List UInt8)
  | shutdown
  | forceClose
  | startRead
  | stopRead
  deriving DecidableEq

/-- The functors of the connection in `pending_functors_`. -/
inductive Task where
  | sendInLoop (message : List UInt8)
  | shutdownInLoop
  | forceCloseInLoop
  | startReadInLoop
  | stopReadInLoop
  | callback (f : Functor)
  deriving DecidableEq

/-- What the statements speak of. -/
inductive LoopEvent where
  | called (call : Call)
  /-- `HandleClose` is entered in a state. -/
  | handleClose (state : ConnState)
  /-- The connection callback of a connection that goes down. -/
  | connectionDown
  | closeCallback
  | startReadInLoop
  | stopReadInLoop
  deriving DecidableEq

structure LoopConnection (γ : Type) where
  conn : TcpConnection γ
  isReading : Bool := true
  poller : Registration := {}
  queue : List Task := []
  log : List LoopEvent := []

namespace LoopConnection

variable {γ : Type} (alloc : Allocator)

def note (c : LoopConnection γ) (e : LoopEvent) : LoopConnection γ := { c with log := c.log ++ [e] }

/-- `loop_->QueueInLoop(task)`. -/
def queueInLoop (c : LoopConnection γ) (task : Task) : LoopConnection γ :=
  { c with queue := c.queue ++ [task] }

/-- `loop_->RunInLoop(task)`, where `run` is what the task does. -/
def runInLoop (inLoop : Bool) (c : LoopConnection γ) (task : Task)
    (run : LoopConnection γ → LoopConnection γ) : LoopConnection γ :=
  if inLoop then run c else c.queueInLoop task

/-- `Channel::Update()`. -/
def update (c : LoopConnection γ) : LoopConnection γ :=
  { c with poller := c.poller.updateChannel c.conn.channel }

def setState (c : LoopConnection γ) (state : ConnState) : LoopConnection γ :=
  { c with conn := { c.conn with state } }

/-- A new mask for the channel, and `Update()`. -/
def setChannel (c : LoopConnection γ) (channel : Channel) : LoopConnection γ :=
  { c with conn := { c.conn with channel } }.update

/-- The connection after a member function. The callbacks that it has queued go to the loop. -/
def adopt (c : LoopConnection γ) (conn : TcpConnection γ) : LoopConnection γ :=
  let c' := { c with
    conn := { conn with pending := [] }, queue := c.queue ++ conn.pending.map .callback }
  if conn.channel.events = c.conn.channel.events then c' else c'.update

/-! ## In the loop's thread -/

def sendInLoop (c : LoopConnection γ) (message : List UInt8) : LoopConnection γ :=
  c.adopt (c.conn.sendInLoop alloc message)

def shutdownInLoop (c : LoopConnection γ) : LoopConnection γ := c.adopt c.conn.shutdownInLoop

def handleWrite (c : LoopConnection γ) : LoopConnection γ := c.adopt c.conn.handleWrite

def startReadInLoop (c : LoopConnection γ) : LoopConnection γ :=
  let c := c.note .startReadInLoop
  if c.isReading = false ∨ c.conn.channel.isReading = false then
    { c.setChannel c.conn.channel.enableReading with isReading := true }
  else c

def stopReadInLoop (c : LoopConnection γ) : LoopConnection γ :=
  let c := c.note .stopReadInLoop
  if c.isReading = true ∨ c.conn.channel.isReading = true then
    { c.setChannel c.conn.channel.disableReading with isReading := false }
  else c

/-- `Send`, `Shutdown`, `ForceClose`, `StartRead`, `StopRead`, called in the loop's thread or in
another one. -/
def call (inLoop : Bool) (c : LoopConnection γ) (k : Call) : LoopConnection γ :=
  let c := c.note (.called k)
  match k with
  | .send message =>
    if c.conn.state = .kConnected then
      c.runInLoop inLoop (.sendInLoop message) (·.sendInLoop alloc message)
    else c
  | .shutdown =>
    if c.conn.state = .kConnected then
      (c.setState .kDisconnecting).runInLoop inLoop .shutdownInLoop shutdownInLoop
    else c
  | .forceClose =>
    if c.conn.state = .kConnected ∨ c.conn.state = .kDisconnecting then
      (c.setState .kDisconnecting).queueInLoop .forceCloseInLoop
    else c
  | .startRead => c.runInLoop inLoop .startReadInLoop startReadInLoop
  | .stopRead => c.runInLoop inLoop .stopReadInLoop stopReadInLoop

/-- The connection callback of a connection that has gone down. -/
def connectionDown (c : LoopConnection γ) (onDown : List Call) : LoopConnection γ :=
  onDown.foldl (call alloc true) (c.note .connectionDown)

/-- `HandleClose()` up to its callbacks. -/
def close (c : LoopConnection γ) : LoopConnection γ :=
  { c.note (.handleClose c.conn.state) with conn := c.conn.handleClose }.update

def handleClose (c : LoopConnection γ) (onDown : List Call) : LoopConnection γ :=
  (c.close.connectionDown alloc onDown).note .closeCallback

def forceCloseInLoop (c : LoopConnection γ) (onDown : List Call) : LoopConnection γ :=
  if c.conn.state = .kConnected ∨ c.conn.state = .kDisconnecting then c.handleClose alloc onDown
  else c

def handleRead (c : LoopConnection γ) (readv : ReadvResult) (onMessage onDown : List Call) :
    LoopConnection γ :=
  let r := c.conn.inputBuffer.readFromFd alloc readv
  let c := { c with conn := { c.conn with inputBuffer := r.1 } }
  let n := r.2.1
  if 0 < n then onMessage.foldl (call alloc true) c
  else if n = 0 then c.handleClose alloc onDown
  else c

/-- `Channel::HandleEventWithGuard`. The error callback only logs. -/
def handleEvent (c : LoopConnection γ) (revents : BitVec 32) (readv : ReadvResult)
    (onMessage onDown : List Call) : LoopConnection γ :=
  let c :=
    if hasEvent revents POLLHUP && !hasEvent revents POLLIN then c.handleClose alloc onDown else c
  let c :=
    if hasEvent revents (POLLIN ||| POLLPRI ||| POLLRDHUP) then
      c.handleRead alloc readv onMessage onDown
    else c
  if hasEvent revents POLLOUT then c.handleWrite else c

/-! ## The loop -/

/-- One functor of the queue. What the user does in a callback is a step of its own. -/
def perform (c : LoopConnection γ) (onDown : List Call) : Task → LoopConnection γ
  | .sendInLoop message => c.sendInLoop alloc message
  | .shutdownInLoop => c.shutdownInLoop
  | .forceCloseInLoop => c.forceCloseInLoop alloc onDown
  | .startReadInLoop => c.startReadInLoop
  | .stopReadInLoop => c.stopReadInLoop
  | .callback _ => c

def runFunctor (c : LoopConnection γ) (onDown : List Call) : LoopConnection γ :=
  match c.queue with
  | [] => c
  | task :: queue => { c with queue }.perform alloc onDown task

inductive LoopStep where
  | call (inLoop : Bool) (k : Call)
  | handleEvent (revents : BitVec 32) (readv : ReadvResult) (onMessage onDown : List Call)
  | runFunctor (onDown : List Call)

def step (c : LoopConnection γ) : LoopStep → LoopConnection γ
  | .call inLoop k => c.call alloc inLoop k
  | .handleEvent revents readv onMessage onDown =>
    c.handleEvent alloc revents readv onMessage onDown
  | .runFunctor onDown => c.runFunctor alloc onDown

/-- The events of a step are events that the kernel may report. -/
def Possible (c : LoopConnection γ) : LoopStep → Prop
  | .handleEvent revents _ _ _ => c.poller.Reported revents
  | _ => True

instance (c : LoopConnection γ) (s : LoopStep) : Decidable (c.Possible s) :=
  match s with
  | .handleEvent revents _ _ _ => inferInstanceAs (Decidable (c.poller.Reported revents))
  | .call _ _ => isTrue trivial
  | .runFunctor _ => isTrue trivial

/-- A connection after `ConnectEstablished()`, with any callbacks. -/
def established (answers : Nat → WriteResult) (context : γ)
    (writeCompleteCallback highWaterMarkCallback : Bool) (highWaterMark : Nat) :
    LoopConnection γ :=
  let conn := TcpConnection.established alloc answers context writeCompleteCallback
    highWaterMarkCallback highWaterMark
  update { conn }

/-! ## The end -/

/-- `ConnectDestroyed()` up to `channel_->Remove()`. -/
def beforeRemove (c : LoopConnection γ) (onDown : List Call) : LoopConnection γ :=
  if c.conn.state = .kConnected then
    let c := (c.setState .kDisconnected).setChannel c.conn.channel.disableAll
    c.connectionDown alloc onDown
  else c

def connectDestroyed (c : LoopConnection γ) (onDown : List Call) : LoopConnection γ :=
  let c := c.beforeRemove alloc onDown
  { c with poller := c.poller.removeChannel }

end LoopConnection

end MyTinyHttpd
