import MyTinyHttpd.Net.Buffer
import MyTinyHttpd.Net.Channel

/-!
# `net/tcp_connnection.h` and `net/tcp_connnection.cc`

A connection in its loop's thread: there `RunInLoop` calls the functor at once and `QueueInLoop`
appends it to `pending`. The kernel is the `Socket`: it answers the `n`-th write of the connection
with `answers n`, keeps the bytes that it has accepted and, for the statements, whether a write
has failed with `EPIPE` or `ECONNRESET` (`broken`).

Names, addresses, the log and the timing context are left out. `context` is what the user of the
connection stores in it.
-/

namespace MyTinyHttpd

/-! ## The kernel's side -/

/-- The answer to a write: the kernel takes at most `n` bytes of what is offered, or fails. -/
inductive WriteResult where
  | accepted (n : Nat)
  | failed (errno : Int)
  deriving DecidableEq

def EWOULDBLOCK : Int := 11

def EPIPE : Int := 32

def ECONNRESET : Int := 104

structure Socket where
  answers : Nat → WriteResult
  writes : Nat := 0
  sent : List UInt8 := []
  writeShut : Bool := false
  broken : Bool := false

namespace Socket

/-- `socket::Write`: the socket after it, and the number of bytes written or the `errno`. -/
def write (s : Socket) (data : List UInt8) : Socket × Except Int Nat :=
  match s.answers s.writes with
  | .accepted n =>
    ({ s with writes := s.writes + 1, sent := s.sent ++ data.take n }, .ok (min n data.length))
  | .failed errno =>
    ({ s with writes := s.writes + 1, broken := s.broken || errno = EPIPE || errno = ECONNRESET },
      .error errno)

/-- `ShutdownWrite`. -/
def shutdownWrite (s : Socket) : Socket := { s with writeShut := true }

end Socket

/-! ## The connection -/

/-- Functors that the connection queues in its loop. -/
inductive Functor where
  | writeCompleteCallback
  | highWaterMarkCallback (len : Nat)
  deriving DecidableEq

inductive ConnState where
  | kDisconnected
  | kConnecting
  | kConnected
  | kDisconnecting
  deriving DecidableEq

structure TcpConnection (γ : Type) where
  state : ConnState := .kConnecting
  channel : Channel := {}
  socket : Socket
  /-- Whether the user has set a callback. -/
  writeCompleteCallback : Bool := false
  highWaterMarkCallback : Bool := false
  highWaterMark : Nat := 64 * 1024 * 1024
  inputBuffer : Buffer
  outputBuffer : Buffer
  pending : List Functor := []
  context : γ

namespace TcpConnection

variable {γ : Type} (alloc : Allocator)

/-- `loop_->QueueInLoop(f)`. -/
def queueInLoop (c : TcpConnection γ) (f : Functor) : TcpConnection γ :=
  { c with pending := c.pending ++ [f] }

/-- The high-water mark part of `SendInLoop`: `remaining` bytes come to the output buffer. -/
def noteHighWater (c : TcpConnection γ) (remaining : Nat) : TcpConnection γ :=
  let oldLen := c.outputBuffer.readableBytes
  if c.highWaterMark ≤ oldLen + remaining ∧ oldLen < c.highWaterMark ∧
      c.highWaterMarkCallback = true then
    c.queueInLoop (.highWaterMarkCallback (oldLen + remaining))
  else c

/-- The second half of `SendInLoop`: what the kernel has not taken goes to the output buffer. -/
def bufferRest (c : TcpConnection γ) (rest : List UInt8) : TcpConnection γ :=
  if 0 < rest.length then
    let c := c.noteHighWater rest.length
    let c := { c with outputBuffer := c.outputBuffer.append alloc rest }
    if c.channel.isWriting then c else { c with channel := c.channel.enableWriting }
  else c

/-- `SendInLoop(data, len)`. -/
def sendInLoop (c : TcpConnection γ) (data : List UInt8) : TcpConnection γ :=
  if c.state = .kDisconnected then c
  else if c.channel.isWriting = false ∧ c.outputBuffer.readableBytes = 0 then
    let w := c.socket.write data
    let c := { c with socket := w.1 }
    match w.2 with
    | .ok nwrote =>
      let c :=
        if data.length - nwrote = 0 ∧ c.writeCompleteCallback = true then
          c.queueInLoop .writeCompleteCallback
        else c
      c.bufferRest alloc (data.drop nwrote)
    | .error errno =>
      -- A fault drops the data; any other error leaves it to the output buffer.
      if errno ≠ EWOULDBLOCK ∧ (errno = EPIPE ∨ errno = ECONNRESET) then c
      else c.bufferRest alloc data
  else c.bufferRest alloc data

/-- `Send(message)`. -/
def send (c : TcpConnection γ) (message : List UInt8) : TcpConnection γ :=
  if c.state = .kConnected then c.sendInLoop alloc message else c

/-- `Send(Buffer*)`: the connection and the emptied buffer. -/
def sendBuffer (c : TcpConnection γ) (message : Buffer) : TcpConnection γ × Buffer :=
  if c.state = .kConnected then
    let r := message.retrieveAllAsString
    (c.sendInLoop alloc r.1, r.2)
  else (c, message)

def shutdownInLoop (c : TcpConnection γ) : TcpConnection γ :=
  if c.channel.isWriting then c else { c with socket := c.socket.shutdownWrite }

def shutdown (c : TcpConnection γ) : TcpConnection γ :=
  if c.state = .kConnected then { c with state := .kDisconnecting }.shutdownInLoop else c

/-- The part of `HandleWrite` for an output buffer that has become empty. -/
def outputDrained (c : TcpConnection γ) : TcpConnection γ :=
  let c := { c with channel := c.channel.disableWriting }
  let c := if c.writeCompleteCallback then c.queueInLoop .writeCompleteCallback else c
  if c.state = .kDisconnecting then c.shutdownInLoop else c

def handleWrite (c : TcpConnection γ) : TcpConnection γ :=
  if c.channel.isWriting then
    let b := c.outputBuffer
    let w := c.socket.write (b.range b.peek (b.peek + b.readableBytes))
    let c := { c with socket := w.1 }
    match w.2 with
    | .ok n =>
      if 0 < n then
        let c := { c with outputBuffer := c.outputBuffer.retrieve n }
        if c.outputBuffer.readableBytes = 0 then c.outputDrained else c
      else c
    | .error _ => c
  else c

/-- `HandleClose()`, without the callbacks. -/
def handleClose (c : TcpConnection γ) : TcpConnection γ :=
  { c with state := .kDisconnected, channel := c.channel.disableAll }

/-- The constructor. -/
def make (answers : Nat → WriteResult) (context : γ) : TcpConnection γ where
  socket := { answers }
  inputBuffer := Buffer.make alloc kInitialSize
  outputBuffer := Buffer.make alloc kInitialSize
  context := context

/-- `ConnectEstablished()`, without the callback. -/
def connectEstablished (c : TcpConnection γ) : TcpConnection γ :=
  { c with state := .kConnected, channel := c.channel.enableReading }

/-! ## What the functions of the send path touch -/

variable (c : TcpConnection γ)

/-- Queueing the high-water callback changes nothing but the queue. -/
theorem noteHighWater_eq (remaining : Nat) :
    ∃ pending, c.noteHighWater remaining = { c with pending } := by
  simp only [noteHighWater]
  split
  · exact ⟨_, rfl⟩
  · exact ⟨c.pending, rfl⟩

/-- `bufferRest` touches the output buffer, the queued functors and the write event. -/
theorem bufferRest_eq (rest : List UInt8) :
    ∃ pending outputBuffer channel, (channel = c.channel ∨ channel = c.channel.enableWriting) ∧
      c.bufferRest alloc rest = { c with pending, outputBuffer, channel } := by
  unfold bufferRest
  split
  · obtain ⟨pending, h⟩ := noteHighWater_eq c rest.length
    simp only [h]
    split
    · exact ⟨_, _, _, .inl rfl, rfl⟩
    · exact ⟨_, _, _, .inr rfl, rfl⟩
  · exact ⟨_, _, _, .inl rfl, rfl⟩

/-- `SendInLoop` may write to the socket besides, once and all of the data. -/
theorem sendInLoop_eq (data : List UInt8) :
    ∃ socket pending outputBuffer channel,
      (socket = c.socket ∨ socket = (c.socket.write data).1) ∧
      (channel = c.channel ∨ channel = c.channel.enableWriting) ∧
      c.sendInLoop alloc data = { c with socket, pending, outputBuffer, channel } := by
  unfold sendInLoop
  split
  · exact ⟨_, _, _, _, .inl rfl, .inl rfl, rfl⟩
  split
  · simp only
    split
    · rename_i nwrote _
      split
      · obtain ⟨_, _, _, hchannel, h⟩ := bufferRest_eq alloc
          ({ c with socket := (c.socket.write data).1 }.queueInLoop .writeCompleteCallback)
          (data.drop nwrote)
        exact ⟨_, _, _, _, .inr rfl, hchannel, h⟩
      · obtain ⟨_, _, _, hchannel, h⟩ := bufferRest_eq alloc
          { c with socket := (c.socket.write data).1 } (data.drop nwrote)
        exact ⟨_, _, _, _, .inr rfl, hchannel, h⟩
    · split
      · exact ⟨_, _, _, _, .inr rfl, .inl rfl, rfl⟩
      · obtain ⟨_, _, _, hchannel, h⟩ := bufferRest_eq alloc
          { c with socket := (c.socket.write data).1 } data
        exact ⟨_, _, _, _, .inr rfl, hchannel, h⟩
  · obtain ⟨_, _, _, hchannel, h⟩ := bufferRest_eq alloc c data
    exact ⟨_, _, _, _, .inl rfl, hchannel, h⟩

theorem shutdownInLoop_eq : ∃ socket, c.shutdownInLoop = { c with socket } := by
  unfold shutdownInLoop
  split <;> exact ⟨_, rfl⟩

/-- An empty output buffer disables the write event, and may shut the write side down. -/
theorem outputDrained_eq :
    ∃ socket pending,
      c.outputDrained = { c with socket, pending, channel := c.channel.disableWriting } ∧
      socket.broken = c.socket.broken := by
  simp only [outputDrained, shutdownInLoop]
  split <;> split
  · split <;> exact ⟨_, _, rfl, rfl⟩
  · exact ⟨_, _, rfl, rfl⟩
  · split <;> exact ⟨_, _, rfl, rfl⟩
  · exact ⟨_, _, rfl, rfl⟩

/-- `HandleWrite` does nothing, or it writes once, and goes on with `outputDrained` or not. -/
theorem handleWrite_cases :
    c.handleWrite = c ∨
      ∃ data outputBuffer,
        c.handleWrite = { c with socket := (c.socket.write data).1, outputBuffer } ∨
          c.handleWrite =
            { c with socket := (c.socket.write data).1, outputBuffer }.outputDrained := by
  unfold handleWrite
  split
  · refine .inr ⟨c.outputBuffer.range c.outputBuffer.peek
      (c.outputBuffer.peek + c.outputBuffer.readableBytes), ?_⟩
    simp only
    split
    · split
      · split
        · exact ⟨_, .inr rfl⟩
        · exact ⟨_, .inl rfl⟩
      · exact ⟨_, .inl rfl⟩
    · exact ⟨_, .inl rfl⟩
  · exact .inl rfl

end TcpConnection

end MyTinyHttpd
