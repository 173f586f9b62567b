import MyTinyHttpd.Net.LoopConnection

/-!
# What the steps of a connection in its loop leave unchanged

One lemma for each function and each part of the state that it may change: `state_`, the log and
the mask of the channel. The member functions of the send path change the mask only of an open
connection.

`Kept` is the induction rule: a property that the parts of the steps keep holds along every run.
-/

namespace MyTinyHttpd

namespace TcpConnection

variable {γ : Type} (alloc : Allocator) (c : TcpConnection γ)

theorem sendInLoop_state (data : List UInt8) : (c.sendInLoop alloc data).state = c.state := by
  obtain ⟨_, _, _, _, _, _, h⟩ := sendInLoop_eq alloc c data
  rw [h]

theorem shutdownInLoop_state : c.shutdownInLoop.state = c.state := by
  obtain ⟨_, h⟩ := shutdownInLoop_eq c
  rw [h]

theorem outputDrained_state : c.outputDrained.state = c.state := by
  obtain ⟨_, _, h, -⟩ := outputDrained_eq c
  rw [h]

theorem handleWrite_state : c.handleWrite.state = c.state := by
  rcases handleWrite_cases c with h | ⟨_, _, h | h⟩ <;> rw [h]
  exact outputDrained_state _

/-! The send path changes the mask only by the write event. -/

theorem sendInLoop_channel (data : List UInt8) :
    (c.sendInLoop alloc data).channel = c.channel ∨
      (c.sendInLoop alloc data).channel = c.channel.enableWriting := by
  obtain ⟨_, _, _, _, _, hchannel, h⟩ := sendInLoop_eq alloc c data
  rw [h]
  exact hchannel

theorem shutdownInLoop_channel : c.shutdownInLoop.channel = c.channel := by
  obtain ⟨_, h⟩ := shutdownInLoop_eq c
  rw [h]

theorem outputDrained_channel : c.outputDrained.channel = c.channel.disableWriting := by
  obtain ⟨_, _, h, -⟩ := outputDrained_eq c
  rw [h]

theorem handleWrite_channel :
    c.handleWrite.channel = c.channel ∨ c.handleWrite.channel = c.channel.disableWriting := by
  rcases handleWrite_cases c with h | ⟨_, _, h | h⟩ <;> rw [h]
  · exact .inl rfl
  · exact .inl rfl
  · exact .inr (outputDrained_channel _)

variable {c}

theorem sendInLoop_closed (h : c.state = .kDisconnected) (data : List UInt8) :
    c.sendInLoop alloc data = c := by
  rw [sendInLoop, if_pos h]

theorem handleWrite_idle (h : c.channel.isWriting = false) : c.handleWrite = c := by
  rw [handleWrite, if_neg (by simp [h])]

end TcpConnection

namespace LoopConnection

variable {γ : Type} (alloc : Allocator) (c : LoopConnection γ)

/-! ## `adopt` -/

theorem adopt_eq (conn : TcpConnection γ) :
    ∃ poller, c.adopt conn = { c with
      conn := { conn with pending := [] }, queue := c.queue ++ conn.pending.map .callback,
      poller := poller } := by
  unfold adopt
  simp only
  split
  · exact ⟨c.poller, rfl⟩
  · exact ⟨_, rfl⟩

variable (conn : TcpConnection γ)

@[simp] theorem adopt_state : (c.adopt conn).conn.state = conn.state := by
  obtain ⟨poller, h⟩ := adopt_eq c conn
  rw [h]

@[simp] theorem adopt_channel : (c.adopt conn).conn.channel = conn.channel := by
  obtain ⟨poller, h⟩ := adopt_eq c conn
  rw [h]

@[simp] theorem adopt_socket : (c.adopt conn).conn.socket = conn.socket := by
  obtain ⟨poller, h⟩ := adopt_eq c conn
  rw [h]

@[simp] theorem adopt_outputBuffer : (c.adopt conn).conn.outputBuffer = conn.outputBuffer := by
  obtain ⟨poller, h⟩ := adopt_eq c conn
  rw [h]

@[simp] theorem adopt_log : (c.adopt conn).log = c.log := by
  obtain ⟨poller, h⟩ := adopt_eq c conn
  rw [h]

@[simp] theorem adopt_queue : (c.adopt conn).queue = c.queue ++ conn.pending.map .callback := by
  obtain ⟨poller, h⟩ := adopt_eq c conn
  rw [h]

/-- The channel is registered anew exactly when its mask has changed. -/
theorem adopt_poller : (c.adopt conn).poller =
    if conn.channel.events = c.conn.channel.events then c.poller
    else c.poller.updateChannel conn.channel := by
  unfold adopt
  simp only
  split <;> rfl

/-! ## The state -/

@[simp] theorem sendInLoop_state (message : List UInt8) :
    (c.sendInLoop alloc message).conn.state = c.conn.state := by
  rw [sendInLoop, adopt_state, TcpConnection.sendInLoop_state]

@[simp] theorem shutdownInLoop_state : c.shutdownInLoop.conn.state = c.conn.state := by
  rw [shutdownInLoop, adopt_state, TcpConnection.shutdownInLoop_state]

@[simp] theorem handleWrite_state : c.handleWrite.conn.state = c.conn.state := by
  rw [handleWrite, adopt_state, TcpConnection.handleWrite_state]

/-- `StartReadInLoop` or `StopReadInLoop`. -/
def switchRead (on : Bool) : LoopConnection γ :=
  bif on then c.startReadInLoop else c.stopReadInLoop

/-- The channel has the wanted events already, or gets them. -/
theorem switchRead_cases (on : Bool) :
    let c' := c.note (bif on then .startReadInLoop else .stopReadInLoop)
    (c.switchRead on = c' ∧ c.conn.channel.isReading = on) ∨
      c.switchRead on = { c'.setChannel (bif on then c.conn.channel.enableReading
        else c.conn.channel.disableReading) with isReading := on } := by
  cases on with
  | true =>
    simp only [switchRead, cond_true, startReadInLoop]
    split
    · exact .inr rfl
    · rename_i hon
      simp only [note, not_or, Bool.not_eq_false] at hon
      exact .inl ⟨rfl, hon.2⟩
  | false =>
    simp only [switchRead, cond_false, stopReadInLoop]
    split
    · exact .inr rfl
    · rename_i hoff
      simp only [note, not_or, Bool.not_eq_true] at hoff
      exact .inl ⟨rfl, hoff.2⟩

@[simp] theorem switchRead_state (on : Bool) : (c.switchRead on).conn.state = c.conn.state := by
  rcases switchRead_cases c on with ⟨heq, -⟩ | heq <;> rw [heq] <;> rfl

@[simp] theorem startReadInLoop_state : c.startReadInLoop.conn.state = c.conn.state :=
  switchRead_state c true

@[simp] theorem stopReadInLoop_state : c.stopReadInLoop.conn.state = c.conn.state :=
  switchRead_state c false

/-- The state after a call. -/
def nextState (s : ConnState) (k : Call) : ConnState :=
  match k with
  | .shutdown => if s = .kConnected then .kDisconnecting else s
  | .forceClose => if s = .kConnected ∨ s = .kDisconnecting then .kDisconnecting else s
  | _ => s

@[simp] theorem call_state (inLoop : Bool) (k : Call) :
    (c.call alloc inLoop k).conn.state = nextState c.conn.state k := by
  have hnote : (c.note (.called k)).conn = c.conn := rfl
  cases k with
  | send message =>
    simp only [call, hnote, nextState, runInLoop]
    split
    · cases inLoop
      · rfl
      · exact sendInLoop_state alloc _ message
    · rfl
  | shutdown =>
    simp only [call, hnote, nextState, runInLoop]
    split
    · cases inLoop
      · rfl
      · exact shutdownInLoop_state _
    · rfl
  | forceClose =>
    simp only [call, hnote, nextState]
    split <;> rfl
  | startRead =>
    cases inLoop
    · rfl
    · exact startReadInLoop_state _
  | stopRead =>
    cases inLoop
    · rfl
    · exact stopReadInLoop_state _

@[simp] theorem calls_state (inLoop : Bool) (ks : List Call) :
    (ks.foldl (call alloc inLoop) c).conn.state = ks.foldl nextState c.conn.state := by
  induction ks generalizing c with
  | nil => rfl
  | cons k ks ih => rw [List.foldl_cons, ih, call_state, List.foldl_cons]

/-- The states of a connection that has been established and not closed. -/
def IsOpen (s : ConnState) : Prop := s = .kConnected ∨ s = .kDisconnecting

instance (s : ConnState) : Decidable (IsOpen s) :=
  inferInstanceAs (Decidable (s = .kConnected ∨ s = .kDisconnecting))

theorem nextState_isOpen {s : ConnState} (h : IsOpen s) (k : Call) : IsOpen (nextState s k) := by
  rcases h with rfl | rfl <;> cases k <;> simp [nextState, IsOpen]

theorem calls_isOpen {s : ConnState} (h : IsOpen s) (ks : List Call) :
    IsOpen (ks.foldl nextState s) := by
  induction ks generalizing s with
  | nil => exact h
  | cons k ks ih => exact ih (nextState_isOpen h k)

/-- A closed connection stays closed. -/
@[simp] theorem calls_closed (ks : List Call) :
    ks.foldl nextState .kDisconnected = .kDisconnected := by
  induction ks with
  | nil => rfl
  | cons k ks ih =>
    have h : nextState .kDisconnected k = .kDisconnected := by cases k <;> rfl
    rw [List.foldl_cons, h, ih]

@[simp] theorem connectionDown_state (onDown : List Call) :
    (c.connectionDown alloc onDown).conn.state = onDown.foldl nextState c.conn.state := by
  rw [connectionDown, calls_state]
  rfl

@[simp] theorem handleClose_state (onDown : List Call) :
    (c.handleClose alloc onDown).conn.state = .kDisconnected := by
  exact (connectionDown_state alloc c.close onDown).trans (calls_closed onDown)

/-! ## The log -/

@[simp] theorem sendInLoop_log (message : List UInt8) :
    (c.sendInLoop alloc message).log = c.log := adopt_log c _

@[simp] theorem shutdownInLoop_log : c.shutdownInLoop.log = c.log := adopt_log c _

@[simp] theorem handleWrite_log : c.handleWrite.log = c.log := adopt_log c _

@[simp] theorem switchRead_log (on : Bool) : (c.switchRead on).log =
    c.log ++ [bif on then .startReadInLoop else .stopReadInLoop] := by
  rcases switchRead_cases c on with ⟨heq, -⟩ | heq <;> rw [heq] <;> rfl

@[simp] theorem startReadInLoop_log :
    c.startReadInLoop.log = c.log ++ [.startReadInLoop] := switchRead_log c true

@[simp] theorem stopReadInLoop_log : c.stopReadInLoop.log = c.log ++ [.stopReadInLoop] :=
  switchRead_log c false

/-- What a call adds to the log. -/
def callLog (inLoop : Bool) (k : Call) : List LoopEvent :=
  .called k :: match inLoop, k with
    | true, .startRead => [.startReadInLoop]
    | true, .stopRead => [.stopReadInLoop]
    | _, _ => []

@[simp] theorem call_log (inLoop : Bool) (k : Call) :
    (c.call alloc inLoop k).log = c.log ++ callLog inLoop k := by
  have hnote : (c.note (.called k)).log = c.log ++ [.called k] := rfl
  cases k with
  | send message =>
    simp only [call, runInLoop]
    split
    · cases inLoop
      · rfl
      · exact (sendInLoop_log alloc _ message).trans hnote
    · cases inLoop <;> rfl
  | shutdown =>
    simp only [call, runInLoop]
    split
    · cases inLoop
      · rfl
      · exact (shutdownInLoop_log _).trans hnote
    · cases inLoop <;> rfl
  | forceClose =>
    simp only [call]
    split <;> cases inLoop <;> rfl
  | startRead =>
    cases inLoop
    · rfl
    · show (startReadInLoop (c.note _)).log = _
      rw [startReadInLoop_log, hnote, List.append_assoc]
      rfl
  | stopRead =>
    cases inLoop
    · rfl
    · show (stopReadInLoop (c.note _)).log = _
      rw [stopReadInLoop_log, hnote, List.append_assoc]
      rfl

@[simp] theorem calls_log (inLoop : Bool) (ks : List Call) :
    (ks.foldl (call alloc inLoop) c).log = c.log ++ ks.flatMap (callLog inLoop) := by
  induction ks generalizing c with
  | nil => simp
  | cons k ks ih => rw [List.foldl_cons, ih, call_log, List.append_assoc, List.flatMap_cons]

@[simp] theorem connectionDown_log (onDown : List Call) :
    (c.connectionDown alloc onDown).log =
      c.log ++ .connectionDown :: onDown.flatMap (callLog true) := by
  rw [connectionDown, calls_log]
  simp [note]

theorem handleClose_log (onDown : List Call) :
    (c.handleClose alloc onDown).log =
      c.log ++ .handleClose c.conn.state :: .connectionDown ::
        (onDown.flatMap (callLog true) ++ [.closeCallback]) := by
  have h := connectionDown_log alloc c.close onDown
  have hclose : c.close.log = c.log ++ [.handleClose c.conn.state] := rfl
  rw [handleClose, note, h, hclose]
  simp

/-! ## What all steps keep -/

/-- A property that the parts of the steps keep. -/
structure Kept (P : LoopConnection γ → Prop) : Prop where
  queue : ∀ {c} queue, P c → P { c with queue }
  called : ∀ {c} k, P c → P (c.note (.called k))
  disconnecting : ∀ {c}, IsOpen c.conn.state → P c → P (c.setState .kDisconnecting)
  sendInLoop : ∀ {c} message, P c → P (c.sendInLoop alloc message)
  shutdownInLoop : ∀ {c}, P c → P c.shutdownInLoop
  handleWrite : ∀ {c}, P c → P c.handleWrite
  startReadInLoop : ∀ {c}, P c → P c.startReadInLoop
  stopReadInLoop : ∀ {c}, P c → P c.stopReadInLoop
  input : ∀ {c} inputBuffer, P c → P { c with conn := { c.conn with inputBuffer } }
  close : ∀ {c}, P c → P (c.close.note .connectionDown)
  closeCallback : ∀ {c}, P c → P (c.note .closeCallback)

namespace Kept

variable {alloc} {c} {P : LoopConnection γ → Prop} (kept : Kept alloc P)
include kept

theorem runInLoop (inLoop : Bool) (task : Task) {run : LoopConnection γ → LoopConnection γ}
    (hrun : P c → P (run c)) (h : P c) : P (c.runInLoop inLoop task run) := by
  unfold LoopConnection.runInLoop
  split
  · exact hrun h
  · exact kept.queue _ h

theorem call (inLoop : Bool) (k : Call) (h : P c) : P (c.call alloc inLoop k) := by
  have hcalled := kept.called k h
  cases k with
  | send message =>
    simp only [LoopConnection.call]
    split
    · exact kept.runInLoop inLoop _ (kept.sendInLoop message) hcalled
    · exact hcalled
  | shutdown =>
    simp only [LoopConnection.call]
    split
    · rename_i hs
      exact kept.runInLoop inLoop _ kept.shutdownInLoop (kept.disconnecting (.inl hs) hcalled)
    · exact hcalled
  | forceClose =>
    simp only [LoopConnection.call]
    split
    · rename_i hs
      exact kept.queue _ (kept.disconnecting hs hcalled)
    · exact hcalled
  | startRead => exact kept.runInLoop inLoop _ kept.startReadInLoop hcalled
  | stopRead => exact kept.runInLoop inLoop _ kept.stopReadInLoop hcalled

theorem calls (inLoop : Bool) (ks : List Call) (h : P c) :
    P (ks.foldl (LoopConnection.call alloc inLoop) c) :=
  Verif.foldl_invariant (fun _ k => kept.call inLoop k) h ks

theorem handleClose (onDown : List Call) (h : P c) : P (c.handleClose alloc onDown) :=
  kept.closeCallback (kept.calls true onDown (kept.close h))

theorem handleRead (readv : ReadvResult) (onMessage onDown : List Call) (h : P c) :
    P (c.handleRead alloc readv onMessage onDown) := by
  simp only [LoopConnection.handleRead]
  have hinput := kept.input (c.conn.inputBuffer.readFromFd alloc readv).1 h
  split
  · exact kept.calls true onMessage hinput
  · split
    · exact kept.handleClose onDown hinput
    · exact hinput

theorem handleEvent (revents : BitVec 32) (readv : ReadvResult) (onMessage onDown : List Call)
    (h : P c) : P (c.handleEvent alloc revents readv onMessage onDown) := by
  have hif : ∀ (b : Bool) {x y : LoopConnection γ}, P x → P y → P (if b = true then x else y) := by
    intro b x y hx hy
    split
    · exact hx
    · exact hy
  have h₁ := hif (hasEvent revents POLLHUP && !hasEvent revents POLLIN)
    (kept.handleClose onDown h) h
  have h₂ := hif (hasEvent revents (POLLIN ||| POLLPRI ||| POLLRDHUP))
    (kept.handleRead readv onMessage onDown h₁) h₁
  exact hif (hasEvent revents POLLOUT) (kept.handleWrite h₂) h₂

theorem perform (onDown : List Call) (task : Task) (h : P c) : P (c.perform alloc onDown task) := by
  cases task with
  | sendInLoop message => exact kept.sendInLoop message h
  | shutdownInLoop => exact kept.shutdownInLoop h
  | forceCloseInLoop =>
    simp only [LoopConnection.perform, LoopConnection.forceCloseInLoop]
    split
    · exact kept.handleClose onDown h
    · exact h
  | startReadInLoop => exact kept.startReadInLoop h
  | stopReadInLoop => exact kept.stopReadInLoop h
  | callback f => exact h

theorem runFunctor (onDown : List Call) (h : P c) : P (c.runFunctor alloc onDown) := by
  unfold LoopConnection.runFunctor
  split
  · exact h
  · exact kept.perform onDown _ (kept.queue _ h)

/-- **What the parts keep, every step keeps.** -/
theorem step (s : LoopStep) (h : P c) : P (c.step alloc s) := by
  cases s with
  | call inLoop k => exact kept.call inLoop k h
  | handleEvent revents readv onMessage onDown =>
    exact kept.handleEvent revents readv onMessage onDown h
  | runFunctor onDown => exact kept.runFunctor onDown h

theorem run (steps : List LoopStep) (h : P c) : P (steps.foldl (LoopConnection.step alloc) c) :=
  Verif.foldl_invariant (fun _ s => kept.step s) h steps

end Kept

end LoopConnection

end MyTinyHttpd
