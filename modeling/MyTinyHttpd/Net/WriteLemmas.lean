import MyTinyHttpd.Net.LoopLemmas

/-!
# What the two write paths do to the socket

`SendInLoop` and `HandleWrite` leave the write side open, unless `HandleWrite` empties the output
buffer in `kDisconnecting` (`handleWrite_drains`). Without that it keeps the write event
(`handleWrite_not_drains`).
-/

namespace MyTinyHttpd

theorem Socket.write_writeShut (s : Socket) (data : List UInt8) :
    (s.write data).1.writeShut = s.writeShut := by
  unfold Socket.write
  split <;> rfl

theorem Socket.write_broken {s : Socket} {data : List UInt8}
    (h : (s.write data).1.broken = false) : s.broken = false := by
  unfold Socket.write at h
  split at h
  · exact h
  · simp only [Bool.or_eq_false_iff] at h
    exact h.1.1

namespace TcpConnection

variable {γ : Type} (alloc : Allocator) (c : TcpConnection γ)

theorem sendInLoop_socket (data : List UInt8) :
    (c.sendInLoop alloc data).socket = c.socket ∨
      (c.sendInLoop alloc data).socket = (c.socket.write data).1 := by
  obtain ⟨_, _, _, _, hsocket, _, h⟩ := sendInLoop_eq alloc c data
  rw [h]
  exact hsocket

theorem sendInLoop_writeShut (data : List UInt8) :
    (c.sendInLoop alloc data).socket.writeShut = c.socket.writeShut := by
  rcases sendInLoop_socket alloc c data with h | h <;> rw [h]
  exact Socket.write_writeShut c.socket data

variable {c}

theorem sendInLoop_broken {data : List UInt8}
    (h : (c.sendInLoop alloc data).socket.broken = false) : c.socket.broken = false := by
  rcases sendInLoop_socket alloc c data with he | he <;> rw [he] at h
  · exact h
  · exact Socket.write_broken h

theorem sendInLoop_isWriting (h : c.channel.isWriting = true) (data : List UInt8) :
    (c.sendInLoop alloc data).channel.isWriting = true := by
  rcases sendInLoop_channel alloc c data with he | he <;> rw [he]
  · exact h
  · exact Channel.isWriting_enableWriting c.channel

/-- A send without bytes leaves the output buffer alone. -/
theorem sendInLoop_nil_outputBuffer :
    (c.sendInLoop alloc []).outputBuffer = c.outputBuffer := by
  have hrest : ∀ c' : TcpConnection γ, c'.bufferRest alloc [] = c' := fun c' => if_neg (by simp)
  unfold sendInLoop
  split
  · rfl
  split
  · simp only [List.drop_nil, hrest]
    split
    · split <;> rfl
    · split <;> rfl
  · rw [hrest]

/-- The kernel takes all of the output buffer at its next write. -/
def Drains (c : TcpConnection γ) : Prop :=
  match c.socket.answers c.socket.writes with
  | .accepted n => c.outputBuffer.readable.length ≤ n
  | .failed _ => False

instance (c : TcpConnection γ) : Decidable c.Drains :=
  match h : c.socket.answers c.socket.writes with
  | .accepted n => decidable_of_iff (c.outputBuffer.readable.length ≤ n) (by simp [Drains, h])
  | .failed _ => isFalse (by simp [Drains, h])

/-- What the write event does to an open connection, by the answer of the kernel. -/
theorem handleWrite_write {d : List UInt8} (h : c.SendInv d) (hw : c.channel.isWriting = true) :
    c.handleWrite =
      let c' := { c with socket := (c.socket.write c.outputBuffer.readable).1 }
      match (c.socket.write c.outputBuffer.readable).2 with
      | .ok n =>
        if 0 < n then
          let c' := { c' with outputBuffer := c.outputBuffer.retrieve n }
          if c'.outputBuffer.readable = [] then c'.outputDrained else c'
        else c'
      | .error _ => c' := by
  have hrange : c.outputBuffer.range c.outputBuffer.peek
      (c.outputBuffer.peek + c.outputBuffer.readableBytes) = c.outputBuffer.readable := by
    rw [Buffer.range_peek (Nat.le_refl _), ← h.output_inv.length_readable, List.take_length]
  rw [handleWrite, if_pos hw]
  simp only [hrange]
  cases (c.socket.write c.outputBuffer.readable).2 with
  | ok n => simp only [(Buffer.retrieve_inv h.output_inv n).readable_eq_nil]
  | error errno => rfl

theorem outputDrained_broken : c.outputDrained.socket.broken = c.socket.broken := by
  obtain ⟨_, _, h, hbroken⟩ := outputDrained_eq c
  rw [h]
  exact hbroken

theorem outputDrained_outputBuffer : c.outputDrained.outputBuffer = c.outputBuffer := by
  obtain ⟨_, _, h, -⟩ := outputDrained_eq c
  rw [h]

theorem outputDrained_writeShut : c.outputDrained.socket.writeShut =
    (c.socket.writeShut || decide (c.state = .kDisconnecting)) := by
  have hidle : c.channel.disableWriting.isWriting = false := by simp
  by_cases hs : c.state = .kDisconnecting
  · simp only [outputDrained, shutdownInLoop]
    split <;> simp [hs, queueInLoop, Socket.shutdownWrite]
  · simp only [outputDrained]
    split <;> simp [hs, queueInLoop]

theorem handleWrite_broken (h : c.handleWrite.socket.broken = false) :
    c.socket.broken = false := by
  rcases handleWrite_cases c with he | ⟨_, _, he | he⟩ <;> rw [he] at h
  · exact h
  · exact Socket.write_broken h
  · rw [outputDrained_broken] at h
    exact Socket.write_broken h

theorem handleWrite_writeShut (hs : c.state ≠ .kDisconnecting) :
    c.handleWrite.socket.writeShut = c.socket.writeShut := by
  rcases handleWrite_cases c with he | ⟨data, _, he | he⟩ <;> rw [he]
  · exact Socket.write_writeShut c.socket data
  · rw [outputDrained_writeShut]
    simp [hs, Socket.write_writeShut]

/-- The write that empties the output buffer. -/
theorem handleWrite_drains {d : List UInt8} (h : c.SendInv d) (ho : c.Open)
    (hw : c.channel.isWriting = true) (hd : c.Drains) :
    c.handleWrite.socket.broken = false ∧ c.handleWrite.outputBuffer.readable = [] ∧
      c.handleWrite.channel.isWriting = false ∧
      c.handleWrite.socket.writeShut =
        (c.socket.writeShut || decide (c.state = .kDisconnecting)) := by
  have hne : c.outputBuffer.readable ≠ [] := (h.writing_iff ho).mp hw
  have hpos : 0 < c.outputBuffer.readable.length := List.length_pos_iff.mpr hne
  unfold Drains at hd
  split at hd
  · rename_i n hn
    have hwrite : c.socket.write c.outputBuffer.readable =
        ({ c.socket with
            writes := c.socket.writes + 1, sent := c.socket.sent ++ c.outputBuffer.readable },
          .ok c.outputBuffer.readable.length) := by
      simp [Socket.write, hn, hd, List.take_of_length_le hd]
    have hempty : (c.outputBuffer.retrieve c.outputBuffer.readable.length).readable = [] := by
      rw [Buffer.retrieve_readable h.output_inv, List.drop_length]
    rw [handleWrite_write h hw]
    simp only [hwrite, hpos, hempty, ↓reduceIte]
    refine ⟨?_, ?_, ?_, ?_⟩
    · rw [outputDrained_broken]
      exact ho.2
    · rw [outputDrained_outputBuffer]
      exact hempty
    · rw [outputDrained_channel]
      exact Channel.isWriting_disableWriting _
    · rw [outputDrained_writeShut]
  · exact hd.elim

/-- Any other write. -/
theorem handleWrite_not_drains {d : List UInt8} (h : c.SendInv d) (hd : ¬ c.Drains) :
    c.handleWrite.channel = c.channel ∧
      c.handleWrite.socket.writeShut = c.socket.writeShut := by
  by_cases hw : c.channel.isWriting = true
  · have hshut := Socket.write_writeShut c.socket c.outputBuffer.readable
    rw [handleWrite_write h hw]
    generalize hwrite : c.socket.write c.outputBuffer.readable = w at hshut
    obtain ⟨s', res⟩ := w
    cases res with
    | ok n =>
      have hleft : (c.outputBuffer.retrieve n).readable ≠ [] := by
        rw [Buffer.retrieve_readable h.output_inv]
        intro he
        apply hd
        have hn := List.drop_eq_nil_iff.mp he
        cases hanswer : c.socket.answers c.socket.writes with
        | accepted m =>
          have hmin : min m c.outputBuffer.readable.length = n := by
            simp only [Socket.write, hanswer] at hwrite
            cases hwrite
            rfl
          simp only [Drains, hanswer]
          omega
        | failed errno => simp [Socket.write, hanswer] at hwrite
      simp only [hleft, ↓reduceIte]
      split <;> exact ⟨rfl, hshut⟩
    | error errno => exact ⟨rfl, hshut⟩
  · rw [handleWrite_idle (by simpa using hw)]
    exact ⟨rfl, rfl⟩

end TcpConnection

end MyTinyHttpd
