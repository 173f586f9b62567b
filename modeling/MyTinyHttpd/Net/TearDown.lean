import MyTinyHttpd.Net.LoopLemmas

/-!
# What `ConnectDestroyed` finds

`ConnectDestroyed` disables the channel of a connection in `kConnected` only, and then removes it,
which asserts that the channel watches nothing. `HandleClose` has disabled the channel of a closed
connection, but `StartReadInLoop` does not look at the state and enables it again.

* `closedMask_kept`: the mask of a closed connection is the read event or nothing, by the last
  `StartReadInLoop` or `StopReadInLoop` since it went down.
* `connectDestroyed_idle_iff`: when `ConnectDestroyed` comes to `Remove` with an idle channel and
  leaves `kDisconnected`.
-/

namespace MyTinyHttpd

open Verif

namespace LoopConnection

variable {γ : Type} (alloc : Allocator) {c : LoopConnection γ}

/-- Since the connection went down, `StartReadInLoop` has run, and not `StopReadInLoop` after it. -/
def resumed (log : List LoopEvent) : Bool :=
  log.foldl (fun on e =>
    match e with
    | .startReadInLoop => true
    | .stopReadInLoop | .connectionDown => false
    | _ => on) false

/-- The connection has been established, and its mask when it is closed. -/
structure ClosedMask (c : LoopConnection γ) : Prop where
  established : c.conn.state ≠ .kConnecting
  events_eq : c.conn.state = .kDisconnected →
    c.conn.channel.events = if resumed c.log then Channel.kReadEvent else Channel.kNoneEvent

/-- A step that changes neither the state nor the mask of a closed connection. -/
theorem ClosedMask.same {c' : LoopConnection γ} (h : c.ClosedMask)
    (hs : c'.conn.state = c.conn.state) (hl : resumed c'.log = resumed c.log)
    (hch : c.conn.state = .kDisconnected → c'.conn.channel = c.conn.channel) : c'.ClosedMask := by
  refine ⟨hs ▸ h.established, fun hclosed => ?_⟩
  rw [hs] at hclosed
  rw [hl, hch hclosed, h.events_eq hclosed]

theorem ClosedMask.not_writing (h : c.ClosedMask) (hclosed : c.conn.state = .kDisconnected) :
    c.conn.channel.isWriting = false := by
  have he := h.events_eq hclosed
  unfold Channel.isWriting
  rw [he]
  cases resumed c.log <;> decide

theorem resumed_concat (log : List LoopEvent) (e : LoopEvent) : resumed (log ++ [e]) =
    match e with
    | .startReadInLoop => true
    | .stopReadInLoop | .connectionDown => false
    | _ => resumed log := by
  rw [resumed, List.foldl_concat]
  cases e <;> rfl

/-- The events of a closed channel are those that the last switch asked for. -/
theorem switchRead_closedMask (h : c.ClosedMask) (on : Bool) : (c.switchRead on).ClosedMask := by
  refine ⟨by rw [switchRead_state]; exact h.established, fun hclosed => ?_⟩
  rw [switchRead_state] at hclosed
  have he := h.events_eq hclosed
  have hresumed : resumed (c.switchRead on).log = on := by
    rw [switchRead_log, resumed_concat]
    cases on <;> rfl
  rw [hresumed]
  rcases switchRead_cases c on with ⟨heq, hreading⟩ | heq
  · -- The channel has the events that are asked for, and nothing else.
    rw [heq]
    show c.conn.channel.events = _
    rw [Channel.isReading, he] at hreading
    rw [he, ← hreading]
    cases resumed c.log <;> decide
  · rw [heq]
    show (bif on then c.conn.channel.enableReading
      else c.conn.channel.disableReading).events = _
    cases on with
    | true =>
      show c.conn.channel.events ||| Channel.kReadEvent = _
      rw [he]
      cases resumed c.log <;> decide
    | false =>
      show c.conn.channel.events &&& ~~~Channel.kReadEvent = _
      rw [he]
      cases resumed c.log <;> decide

theorem closedMask_kept : Kept alloc (ClosedMask (γ := γ)) where
  queue _ h := ⟨h.established, h.events_eq⟩
  called k h := h.same rfl (resumed_concat _ (.called k)) fun _ => rfl
  disconnecting _ h := ⟨by simp [setState], by simp [setState]⟩
  sendInLoop message h := by
    refine h.same (sendInLoop_state alloc _ message) (by rw [sendInLoop_log]) fun hclosed => ?_
    rw [sendInLoop, adopt_channel, TcpConnection.sendInLoop_closed alloc hclosed]
  shutdownInLoop h := by
    refine h.same (shutdownInLoop_state _) (by rw [shutdownInLoop_log]) fun _ => ?_
    rw [shutdownInLoop, adopt_channel, TcpConnection.shutdownInLoop_channel]
  handleWrite h := by
    refine h.same (handleWrite_state _) (by rw [handleWrite_log]) fun hclosed => ?_
    rw [handleWrite, adopt_channel, TcpConnection.handleWrite_idle (h.not_writing hclosed)]
  startReadInLoop h := switchRead_closedMask h true
  stopReadInLoop h := switchRead_closedMask h false
  input _ h := ⟨h.established, h.events_eq⟩
  close h := by
    refine ⟨by simp [close, note, update, TcpConnection.handleClose], fun _ => ?_⟩
    rw [note, resumed_concat]
    rfl
  closeCallback h := h.same rfl (resumed_concat _ .closeCallback) fun _ => rfl

theorem established_closedMask (answers : Nat → WriteResult) (context : γ) (wc hwm : Bool)
    (mark : Nat) : (established alloc answers context wc hwm mark).ClosedMask := by
  have hs : (established alloc answers context wc hwm mark).conn.state = .kConnected := rfl
  exact ⟨by simp [hs], by simp [hs]⟩

theorem beforeRemove_closedMask (h : c.ClosedMask) (onDown : List Call) :
    (c.beforeRemove alloc onDown).ClosedMask := by
  unfold beforeRemove
  split
  · refine (closedMask_kept alloc).calls true onDown ⟨?_, fun _ => ?_⟩
    · simp [note, setChannel, update, setState]
    · rw [note, resumed_concat]
      rfl
  · exact h

theorem beforeRemove_state (onDown : List Call) :
    (c.beforeRemove alloc onDown).conn.state =
      if c.conn.state = .kConnected then .kDisconnected else c.conn.state := by
  unfold beforeRemove
  split
  · exact (connectionDown_state alloc _ onDown).trans (calls_closed onDown)
  · rfl

/-- `ConnectDestroyed` comes to `Remove` with a channel that watches nothing, and leaves
`kDisconnected`. -/
def DestroyedIdle (c : LoopConnection γ) (onDown : List Call) : Prop :=
  (c.beforeRemove alloc onDown).conn.channel.isNoneEvent = true ∧
    (c.connectDestroyed alloc onDown).conn.state = .kDisconnected

/-- **What `ConnectDestroyed` finds.** After every run of an established connection, with any
events, read results, calls and callbacks: `ConnectDestroyed` comes to `Remove` with an idle
channel and leaves `kDisconnected` exactly when the connection is not in `kDisconnecting` before,
and reading has not been resumed since the connection went down. -/
theorem connectDestroyed_idle_iff (answers : Nat → WriteResult) (context : γ) (wc hwm : Bool)
    (mark : Nat) (steps : List LoopStep) (onDown : List Call) :
    let c := steps.foldl (step alloc) (established alloc answers context wc hwm mark)
    c.DestroyedIdle alloc onDown ↔
      c.conn.state ≠ .kDisconnecting ∧ resumed (c.beforeRemove alloc onDown).log = false := by
  intro c
  have h : c.ClosedMask :=
    (closedMask_kept alloc).run steps (established_closedMask alloc answers context wc hwm mark)
  have hd := beforeRemove_closedMask alloc h onDown
  have hstate : (c.connectDestroyed alloc onDown).conn.state = .kDisconnected ↔
      c.conn.state ≠ .kDisconnecting := by
    show (c.beforeRemove alloc onDown).conn.state = _ ↔ _
    rw [beforeRemove_state]
    have hne := h.established
    cases hs : c.conn.state <;> simp [hs] at hne ⊢
  unfold DestroyedIdle
  rw [hstate, and_comm]
  refine and_congr_right fun hne => ?_
  have he := hd.events_eq (hstate.mpr hne)
  rw [Channel.isNoneEvent, he]
  cases resumed (c.beforeRemove alloc onDown).log <;> decide

/-- The server goes away while a connection is being shut down: its channel is still reading, and
the state stays `kDisconnecting`. Reading that is resumed after the end of the stream has the same
effect on the channel. -/
theorem shutdown_not_destroyedIdle :
    let c := established Buffer.zeroAlloc (fun _ => .accepted 0) () true true 4
    ¬ ([LoopStep.call true .shutdown].foldl (step Buffer.zeroAlloc) c).DestroyedIdle
        Buffer.zeroAlloc [] ∧
      ¬ ([LoopStep.handleEvent POLLIN (.filled []) [] [], .call true .startRead].foldl
        (step Buffer.zeroAlloc) c).DestroyedIdle Buffer.zeroAlloc [] := by
  intro c
  exact ⟨fun h => absurd h.1 (by decide +kernel), fun h => absurd h.1 (by decide +kernel)⟩

end LoopConnection

end MyTinyHttpd
