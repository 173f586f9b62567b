import MyTinyHttpd.Net.WriteLemmas

/-!
# What a connection owes to its peer

`Told c output closed`: the user has sent `output` and then, with `closed`, called `Shutdown()`.
What the kernel has taken and what waits in the output buffer is `output`, as long as no write
fails, and the write side is shut down exactly when `closed` and nothing waits.

* `Told.say`: a `Send` with or without a `Shutdown()` after it. After a `Shutdown()` both do
  nothing.
* `Told.handleWrite`: writing out what waits changes nothing of this.
* `Told.drains`: when the kernel takes enough, everything has been sent.
-/

namespace MyTinyHttpd

namespace WriteResult

/-- How many bytes the kernel takes of enough. -/
def taken : WriteResult → Nat
  | .accepted n => n
  | .failed _ => 0

/-- The write fails for good. -/
def breaks : WriteResult → Bool
  | .accepted _ => false
  | .failed errno => errno = EPIPE || errno = ECONNRESET

end WriteResult

/-- What a write does to the socket, whatever the data. -/
theorem Socket.write_answers (s : Socket) (data : List UInt8) :
    let s' := (s.write data).1
    s'.answers = s.answers ∧ s'.writes = s.writes + 1 ∧
      s'.broken = (s.broken || (s.answers s.writes).breaks) := by
  unfold Socket.write
  cases s.answers s.writes with
  | accepted n => exact ⟨rfl, rfl, (Bool.or_false _).symm⟩
  | failed errno => exact ⟨rfl, rfl, Bool.or_assoc ..⟩

theorem drop_min_length (data : List UInt8) (n : Nat) :
    data.drop (min n data.length) = data.drop n := by
  rcases Nat.le_total n data.length with hle | hle
  · rw [Nat.min_eq_left hle]
  · rw [Nat.min_eq_right hle, List.drop_length, List.drop_eq_nil_of_le hle]

namespace TcpConnection

variable {γ : Type} {c : TcpConnection γ} {output : List UInt8} {closed : Bool}

/-- The peer is to get `output`, and then the end of the stream if `closed`. -/
structure Told (c : TcpConnection γ) (output : List UInt8) (closed : Bool) : Prop where
  state : c.state = if closed then .kDisconnecting else .kConnected
  send : c.SendInv output
  shut : c.socket.writeShut = (closed && !c.channel.isWriting)

theorem Told.ne_disconnected (h : Told c output closed) : c.state ≠ .kDisconnected := by
  rw [h.state]
  split <;> simp

theorem Told.frame (h : Told c output closed) {context : γ} {inputBuffer : Buffer} :
    Told { c with context, inputBuffer } output closed :=
  ⟨h.state, ⟨h.send.output_inv, h.send.sent_eq, h.send.writing_iff⟩, h.shut⟩

/-! ## Sending -/

variable (alloc : Allocator)

theorem Told.sendInLoop (h : Told c output false) (data : List UInt8) :
    Told (c.sendInLoop alloc data) (output ++ data) false :=
  ⟨(sendInLoop_state alloc c data).trans h.state, sendInLoop_sendInv alloc h.send data,
    (sendInLoop_writeShut alloc c data).trans h.shut⟩

theorem Told.shutdown (h : Told c output false) : Told c.shutdown output true := by
  have hconnected : c.state = .kConnected := h.state
  have hsend := shutdown_sendInv h.send
  simp only [TcpConnection.shutdown, hconnected, if_true, shutdownInLoop] at hsend ⊢
  split at hsend <;> rename_i hwriting
  · rw [if_pos hwriting]
    exact ⟨rfl, hsend, by simpa [hwriting] using h.shut⟩
  · rw [if_neg hwriting]
    exact ⟨rfl, hsend, by simpa [Socket.shutdownWrite] using hwriting⟩

/-- What is said last: nothing after the end. -/
def say (output : List UInt8) (closed : Bool) (text : List UInt8) (close : Bool) :
    List UInt8 × Bool :=
  if closed then (output, true) else (output ++ text, close)

/-- `Send`, and `Shutdown()` when there is nothing more to come. -/
theorem Told.say (h : Told c output closed) (text : List UInt8) (close : Bool) :
    Told (if close then (c.send alloc text).shutdown else c.send alloc text)
      (TcpConnection.say output closed text close).1
      (TcpConnection.say output closed text close).2 := by
  cases closed with
  | true =>
    have hstate : c.state = .kDisconnecting := h.state
    simpa [TcpConnection.say, TcpConnection.send, TcpConnection.shutdown, hstate] using h
  | false =>
    have hstate : c.state = .kConnected := h.state
    have hsend := h.sendInLoop alloc text
    simp only [TcpConnection.say, Bool.false_eq_true, if_false, TcpConnection.send, hstate, if_true]
    cases close with
    | true => exact hsend.shutdown
    | false => exact hsend

/-! ## Writing out -/

theorem outputDrained_answers (c : TcpConnection γ) :
    c.outputDrained.socket.answers = c.socket.answers ∧
      c.outputDrained.socket.writes = c.socket.writes := by
  simp only [outputDrained, shutdownInLoop]
  split <;> split <;> simp [queueInLoop, Socket.shutdownWrite]

/-- `HandleWrite` when something waits: a write, what it leaves in the buffer, and the end of
writing. -/
theorem handleWrite_after (h : c.SendInv output) (hwriting : c.channel.isWriting = true) :
    ∃ outputBuffer : Buffer,
      outputBuffer.readable =
        c.outputBuffer.readable.drop (c.socket.answers c.socket.writes).taken ∧
      let c' := { c with socket := (c.socket.write c.outputBuffer.readable).1, outputBuffer }
      c.handleWrite = c' ∨ c.handleWrite = c'.outputDrained := by
  rw [handleWrite_write h hwriting]
  cases hanswer : c.socket.answers c.socket.writes with
  | failed errno =>
    have hwrite : (c.socket.write c.outputBuffer.readable).2 = .error errno := by
      simp [Socket.write, hanswer]
    rw [hwrite]
    exact ⟨c.outputBuffer, rfl, .inl rfl⟩
  | accepted n =>
    have hwrite : (c.socket.write c.outputBuffer.readable).2 =
        .ok (min n c.outputBuffer.readable.length) := by
      simp [Socket.write, hanswer]
    have hdrop := drop_min_length c.outputBuffer.readable n
    rw [hwrite]
    by_cases hpos : 0 < min n c.outputBuffer.readable.length
    · refine ⟨c.outputBuffer.retrieve (min n c.outputBuffer.readable.length), ?_, ?_⟩
      · rw [Buffer.retrieve_readable h.output_inv, hdrop]
        rfl
      · simp only [if_pos hpos]
        split
        · exact .inr rfl
        · exact .inl rfl
    · refine ⟨c.outputBuffer, ?_, .inl (if_neg hpos)⟩
      rw [Nat.eq_zero_of_not_pos hpos, List.drop_zero] at hdrop
      exact hdrop

/-- What `HandleWrite` does when something waits. -/
theorem handleWrite_writing (h : c.SendInv output) (hwriting : c.channel.isWriting = true) :
    let answer := c.socket.answers c.socket.writes
    let c' := c.handleWrite
    c'.socket.answers = c.socket.answers ∧ c'.socket.writes = c.socket.writes + 1 ∧
      c'.socket.broken = (c.socket.broken || answer.breaks) ∧
      c'.outputBuffer.readable = c.outputBuffer.readable.drop answer.taken ∧
      c'.socket.writeShut = (c.socket.writeShut ||
        (decide (c.state = .kDisconnecting) && !c'.channel.isWriting)) := by
  obtain ⟨outputBuffer, hreadable, hafter⟩ := handleWrite_after h hwriting
  obtain ⟨hanswers, hwrites, hbroken⟩ := c.socket.write_answers c.outputBuffer.readable
  have hshut := c.socket.write_writeShut c.outputBuffer.readable
  rcases hafter with he | he <;> rw [he]
  · refine ⟨hanswers, hwrites, hbroken, hreadable, ?_⟩
    simpa [hwriting] using hshut
  · obtain ⟨hanswers', hwrites'⟩ := outputDrained_answers
      { c with socket := (c.socket.write c.outputBuffer.readable).1, outputBuffer }
    refine ⟨hanswers'.trans hanswers, hwrites'.trans hwrites,
      outputDrained_broken.trans hbroken, ?_, ?_⟩
    · rw [outputDrained_outputBuffer]
      exact hreadable
    · rw [outputDrained_writeShut, outputDrained_channel, Channel.isWriting_disableWriting]
      simp [hshut]

theorem Told.handleWrite (h : Told c output closed) : Told c.handleWrite output closed := by
  refine ⟨(handleWrite_state c).trans h.state, handleWrite_sendInv h.send, ?_⟩
  cases hwriting : c.channel.isWriting with
  | false =>
    rw [handleWrite_idle hwriting]
    exact h.shut
  | true =>
    obtain ⟨-, -, -, -, hshut⟩ := handleWrite_writing h.send hwriting
    have hbefore : c.socket.writeShut = false := by simpa [hwriting] using h.shut
    rw [hshut, hbefore, h.state]
    cases closed <;> simp

/-! ## Until all is sent -/

/-- `k` times writable. -/
def handleWrites (c : TcpConnection γ) : Nat → TcpConnection γ
  | 0 => c
  | k + 1 => c.handleWrite.handleWrites k

/-- How many bytes the kernel takes of enough in the next `k` writes. -/
def takes (answers : Nat → WriteResult) (first : Nat) : Nat → Nat
  | 0 => 0
  | k + 1 => (answers first).taken + takes answers (first + 1) k

theorem handleWrites_of_not_writing (h : c.channel.isWriting = false) (k : Nat) :
    c.handleWrites k = c := by
  induction k with
  | zero => rfl
  | succ k ih => rw [handleWrites, handleWrite_idle h, ih]

/-- Nothing waits, so all has been sent, and the end too. -/
theorem Told.sent (h : Told c output closed) (hopen : c.socket.broken = false)
    (hempty : c.outputBuffer.readable = []) :
    c.socket.sent = output ∧ c.socket.writeShut = closed ∧ c.channel.isWriting = false := by
  have ho : c.Open := ⟨h.ne_disconnected, hopen⟩
  have hwriting : c.channel.isWriting = false := by
    rw [Bool.eq_false_iff, ne_eq, h.send.writing_iff ho, not_not]
    exact hempty
  refine ⟨?_, by simpa [hwriting] using h.shut, hwriting⟩
  rw [← h.send.sent_eq ho, hempty, List.append_nil]

/-- No write has failed for good. Of the next `k` ones none does, and they take as many bytes as
wait. -/
structure DrainsWithin (c : TcpConnection γ) (k : Nat) : Prop where
  unbroken : c.socket.broken = false
  fine : ∀ i < k, (c.socket.answers (c.socket.writes + i)).breaks = false
  enough : c.outputBuffer.readable.length ≤ takes c.socket.answers c.socket.writes k

/-- **What waits is sent**, and the write side is shut down if it was to be. -/
theorem Told.drains (h : Told c output closed) {k : Nat} (hdrains : c.DrainsWithin k) :
    let c' := c.handleWrites k
    c'.socket.sent = output ∧ c'.socket.writeShut = closed ∧ c'.outputBuffer.readable = [] := by
  obtain ⟨hopen, hfine, htakes⟩ := hdrains
  induction k generalizing c with
  | zero =>
    have hempty : c.outputBuffer.readable = [] :=
      List.length_eq_zero_iff.mp (Nat.le_zero.mp htakes)
    obtain ⟨hsent, hshut, -⟩ := h.sent hopen hempty
    exact ⟨hsent, hshut, hempty⟩
  | succ k ih =>
    cases hwriting : c.channel.isWriting with
    | false =>
      have hempty : c.outputBuffer.readable = [] := by
        have := h.send.writing_iff ⟨h.ne_disconnected, hopen⟩
        simpa [hwriting] using this
      obtain ⟨hsent, hshut, -⟩ := h.sent hopen hempty
      rw [handleWrites_of_not_writing hwriting]
      exact ⟨hsent, hshut, hempty⟩
    | true =>
      obtain ⟨hanswers, hwrites, hbroken, hreadable, -⟩ :=
        handleWrite_writing h.send hwriting
      have hfirst := hfine 0 (Nat.succ_pos k)
      rw [Nat.add_zero] at hfirst
      refine ih h.handleWrite (by rw [hbroken, hopen, hfirst]; rfl) (fun i hi => ?_) ?_
      · rw [hanswers, hwrites, Nat.add_assoc, Nat.add_comm 1 i]
        exact hfine (i + 1) (Nat.succ_lt_succ hi)
      · rw [takes] at htakes
        rw [hanswers, hwrites, hreadable, List.length_drop]
        omega

end TcpConnection

end MyTinyHttpd
