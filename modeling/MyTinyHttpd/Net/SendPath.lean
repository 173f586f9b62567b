import MyTinyHttpd.Lib.Machine
import MyTinyHttpd.Net.ByteQueue
import MyTinyHttpd.Net.TcpConnection

/-!
# Sent bytes reach the kernel once, in order, without gaps

There are two write paths: `SendInLoop` writes directly when nothing waits, and `HandleWrite`
writes what waits in the output buffer. `SendInv c d` is the invariant of both: as long as the
connection is open and no write has failed for good, the bytes that the kernel has accepted,
followed by the output buffer, are the data `d` of the sends, and the channel waits for
writability exactly when there is something to write.

* `step_sendInv`: every step keeps it, with `d` longer by the data of the step.
* `sent_in_order`: so it holds in every state of every run, whatever the kernel answers.
-/

namespace MyTinyHttpd

open Verif

namespace TcpConnection

variable {γ : Type} (alloc : Allocator)

/-- What a run is made of. -/
inductive Step where
  | sendInLoop (data : List UInt8)
  | handleWrite
  | shutdown
  | handleClose

/-- The data that the step passes to `SendInLoop`. -/
def Step.data : Step → List UInt8
  | .sendInLoop data => data
  | _ => []

def step (c : TcpConnection γ) : Step → TcpConnection γ
  | .sendInLoop data => c.sendInLoop alloc data
  | .handleWrite => c.handleWrite
  | .shutdown => c.shutdown
  | .handleClose => c.handleClose

/-- The connection is not closed, and no write has returned `EPIPE` or `ECONNRESET`. -/
def Open (c : TcpConnection γ) : Prop := c.state ≠ .kDisconnected ∧ c.socket.broken = false

/-- The invariant of the send path, when `d` has been sent. -/
structure SendInv (c : TcpConnection γ) (d : List UInt8) : Prop where
  output_inv : c.outputBuffer.Inv
  sent_eq : c.Open → c.socket.sent ++ c.outputBuffer.readable = d
  writing_iff : c.Open → (c.channel.isWriting = true ↔ c.outputBuffer.readable ≠ [])

/-! ## The kernel's answers -/

theorem write_ok {s s' : Socket} {data : List UInt8} {n : Nat} (h : s.write data = (s', .ok n)) :
    s'.sent = s.sent ++ data.take n ∧ s'.broken = s.broken := by
  unfold Socket.write at h
  split at h
  · cases h
    refine ⟨?_, rfl⟩
    rw [List.take_eq_take_min]
  · cases h

theorem write_error {s s' : Socket} {data : List UInt8} {errno : Int}
    (h : s.write data = (s', .error errno)) :
    s'.sent = s.sent ∧ s'.broken = (s.broken || errno = EPIPE || errno = ECONNRESET) := by
  unfold Socket.write at h
  split at h
  · cases h
  · cases h; exact ⟨rfl, rfl⟩

/-! ## The steps -/

variable {c : TcpConnection γ} {d : List UInt8}

/-- What `bufferRest` does to what the invariant speaks of. -/
theorem bufferRest_spec (h : c.outputBuffer.Inv) (rest : List UInt8) :
    (c.bufferRest alloc rest).state = c.state ∧ (c.bufferRest alloc rest).socket = c.socket ∧
      (c.bufferRest alloc rest).outputBuffer.Holds (c.outputBuffer.readable ++ rest) ∧
      ((c.bufferRest alloc rest).channel.isWriting = true ↔
        c.channel.isWriting = true ∨ rest ≠ []) := by
  have happend : (c.outputBuffer.append alloc rest).Holds (c.outputBuffer.readable ++ rest) :=
    Buffer.Holds.append ⟨h, rfl⟩ alloc rest
  unfold bufferRest
  by_cases hrest : 0 < rest.length
  · have hne : rest ≠ [] := List.length_pos_iff.mp hrest
    obtain ⟨pending, hnote⟩ := noteHighWater_eq c rest.length
    simp only [hrest, ↓reduceIte, hnote]
    split
    · rename_i hw
      exact ⟨rfl, rfl, happend, by simp [hw]⟩
    · exact ⟨rfl, rfl, happend, by simp [hne]⟩
  · have hnil : rest = [] := by simpa using hrest
    subst hnil
    simpa using ⟨h, rfl⟩

theorem bufferRest_sendInv {rest : List UInt8} (h : c.outputBuffer.Inv)
    (hsent : c.Open → c.socket.sent ++ (c.outputBuffer.readable ++ rest) = d)
    (hwriting : c.Open → (c.channel.isWriting = true ↔ c.outputBuffer.readable ≠ [])) :
    (c.bufferRest alloc rest).SendInv d := by
  obtain ⟨hs, hk, hb, hw⟩ := bufferRest_spec alloc h rest
  have hopen : (c.bufferRest alloc rest).Open → c.Open := by
    unfold Open; rw [hs, hk]; exact id
  refine ⟨hb.inv, fun ho => ?_, fun ho => ?_⟩
  · rw [hk, hb.readable_eq, hsent (hopen ho)]
  · rw [hw, hb.readable_eq, hwriting (hopen ho)]
    simp only [ne_eq, List.append_eq_nil_iff]
    tauto

theorem sendInLoop_sendInv (h : c.SendInv d) (data : List UInt8) :
    (c.sendInLoop alloc data).SendInv (d ++ data) := by
  unfold sendInLoop
  by_cases hs : c.state = .kDisconnected
  · simp only [hs, ↓reduceIte]
    exact ⟨h.output_inv, fun ho => absurd hs ho.1, fun ho => absurd hs ho.1⟩
  simp only [hs, ↓reduceIte]
  by_cases hdirect : c.channel.isWriting = false ∧ c.outputBuffer.readableBytes = 0
  · simp only [hdirect, and_self, ↓reduceIte]
    have hempty : c.outputBuffer.readable = [] := h.output_inv.readable_eq_nil.mpr hdirect.2
    generalize hw : c.socket.write data = w
    obtain ⟨s', res⟩ := w
    cases res with
    | ok n =>
      obtain ⟨hsent, hbroken⟩ := write_ok hw
      -- Whether the write-complete callback is queued or not.
      have hrest : ∀ pending, SendInv (bufferRest alloc
          { c with socket := s', pending := pending } (data.drop n)) (d ++ data) := by
        intro pending
        refine bufferRest_sendInv alloc h.output_inv (fun ho => ?_) fun ho => ?_
        · have ho' : c.Open := ⟨ho.1, hbroken ▸ ho.2⟩
          simp only [hsent, hempty, List.nil_append, List.append_assoc, List.take_append_drop]
          rw [← h.sent_eq ho', hempty, List.append_nil]
        · have ho' : c.Open := ⟨ho.1, hbroken ▸ ho.2⟩
          exact h.writing_iff ho'
      simp only
      split
      · exact hrest _
      · exact hrest c.pending
    | error errno =>
      obtain ⟨hsent, hbroken⟩ := write_error hw
      have hopen : s'.broken = false → c.socket.broken = false := by
        rw [hbroken]; simp_all
      simp only
      split
      · rename_i hfault
        have hbad : s'.broken = true := by
          rw [hbroken]
          rcases hfault.2 with h | h <;> simp [h]
        refine ⟨h.output_inv, fun ho => ?_, fun ho => ?_⟩ <;> exact absurd ho.2 (by simp [hbad])
      · refine bufferRest_sendInv alloc h.output_inv (fun ho => ?_) fun ho => ?_
        · simp only [hsent, ← List.append_assoc, h.sent_eq ⟨ho.1, hopen ho.2⟩]
        · exact h.writing_iff ⟨ho.1, hopen ho.2⟩
  · simp only [hdirect, ↓reduceIte]
    exact bufferRest_sendInv alloc h.output_inv
      (fun ho => by rw [← List.append_assoc, h.sent_eq ho]) h.writing_iff

/-- `ShutdownInLoop` changes nothing that the invariant speaks of. -/
theorem shutdownInLoop_sendInv (h : c.SendInv d) : c.shutdownInLoop.SendInv d := by
  unfold shutdownInLoop
  split
  · exact h
  · exact ⟨h.output_inv, h.sent_eq, h.writing_iff⟩

theorem shutdown_sendInv (h : c.SendInv d) : c.shutdown.SendInv d := by
  unfold shutdown
  split
  · rename_i hs
    have hne : c.state ≠ .kDisconnected := by simp [hs]
    apply shutdownInLoop_sendInv
    exact ⟨h.output_inv, fun ho => h.sent_eq ⟨hne, ho.2⟩, fun ho => h.writing_iff ⟨hne, ho.2⟩⟩
  · exact h

theorem handleClose_sendInv (h : c.SendInv d) : c.handleClose.SendInv d :=
  ⟨h.output_inv, fun ho => absurd rfl ho.1, fun ho => absurd rfl ho.1⟩

/-- An empty output buffer, whether the channel still waits for writability or not. -/
theorem outputDrained_sendInv (h : c.outputBuffer.Inv) (hempty : c.outputBuffer.readable = [])
    (hsent : c.Open → c.socket.sent = d) : c.outputDrained.SendInv d := by
  have hdrained : ∀ pending, SendInv
      { c with channel := c.channel.disableWriting, pending := pending } d := by
    intro pending
    refine ⟨h, fun ho => ?_, fun _ => ?_⟩
    · simp only [hempty, List.append_nil]
      exact hsent ho
    · simp [hempty]
  simp only [outputDrained]
  split
  · split
    · exact shutdownInLoop_sendInv (hdrained _)
    · exact hdrained _
  · split
    · exact shutdownInLoop_sendInv (hdrained _)
    · exact hdrained _

/-- The buffered write: the kernel takes a part of the buffer's front. -/
theorem handleWrite_sendInv (h : c.SendInv d) : c.handleWrite.SendInv d := by
  unfold handleWrite
  by_cases hw : c.channel.isWriting = true
  · have hrange : c.outputBuffer.range c.outputBuffer.peek
        (c.outputBuffer.peek + c.outputBuffer.readableBytes) = c.outputBuffer.readable := by
      rw [Buffer.range_peek (Nat.le_refl _), ← h.output_inv.length_readable, List.take_length]
    simp only [hw, ↓reduceIte, hrange]
    generalize hwrite : c.socket.write c.outputBuffer.readable = w
    obtain ⟨s', res⟩ := w
    cases res with
    | ok n =>
      obtain ⟨hsent, hbroken⟩ := write_ok hwrite
      have hinv := Buffer.retrieve_inv h.output_inv n
      have hread := Buffer.retrieve_readable h.output_inv n
      -- What the kernel has taken leaves the buffer.
      have hsum : c.Open → s'.sent ++ (c.outputBuffer.retrieve n).readable = d := by
        intro ho
        rw [hsent, hread, List.append_assoc, List.take_append_drop, h.sent_eq ho]
      simp only
      split
      · split
        · rename_i hzero
          have hempty := hinv.readable_eq_nil.mpr hzero
          refine outputDrained_sendInv hinv hempty fun ho => ?_
          have := hsum ⟨ho.1, hbroken ▸ ho.2⟩
          rwa [hempty, List.append_nil] at this
        · rename_i hleft
          refine ⟨hinv, fun ho => hsum ⟨ho.1, hbroken ▸ ho.2⟩, fun _ => ?_⟩
          simp only [hw, true_iff]
          exact fun he => hleft (hinv.readable_eq_nil.mp he)
      · rename_i hn
        have hn : n = 0 := by omega
        subst hn
        rw [List.take_zero, List.append_nil] at hsent
        refine ⟨h.output_inv, fun ho => ?_, fun ho => h.writing_iff ⟨ho.1, hbroken ▸ ho.2⟩⟩
        simp only [hsent]
        exact h.sent_eq ⟨ho.1, hbroken ▸ ho.2⟩
    | error errno =>
      obtain ⟨hsent, hbroken⟩ := write_error hwrite
      have hopen : s'.broken = false → c.socket.broken = false := by
        rw [hbroken]; simp_all
      simp only
      refine ⟨h.output_inv, fun ho => ?_, fun ho => h.writing_iff ⟨ho.1, hopen ho.2⟩⟩
      simp only [hsent]
      exact h.sent_eq ⟨ho.1, hopen ho.2⟩
  · simp only [hw, Bool.false_eq_true, ↓reduceIte]
    exact h

theorem step_sendInv (h : c.SendInv d) (s : Step) : (c.step alloc s).SendInv (d ++ s.data) := by
  cases s with
  | sendInLoop data => exact sendInLoop_sendInv alloc h data
  | handleWrite => simpa only [step, Step.data, List.append_nil] using handleWrite_sendInv h
  | shutdown => simpa only [step, Step.data, List.append_nil] using shutdown_sendInv h
  | handleClose => simpa only [step, Step.data, List.append_nil] using handleClose_sendInv h

/-! ## Runs -/

theorem run_sendInv (steps : List Step) (h : c.SendInv d) :
    (steps.foldl (step alloc) c).SendInv (d ++ steps.flatMap Step.data) := by
  induction steps generalizing c d with
  | nil => simpa using h
  | cons s steps ih =>
    rw [List.flatMap_cons, ← List.append_assoc]
    exact ih (step_sendInv alloc h s)

/-- A connection that has been established, with any callbacks. -/
def established (alloc : Allocator) (answers : Nat → WriteResult) (context : γ)
    (writeCompleteCallback highWaterMarkCallback : Bool) (highWaterMark : Nat) : TcpConnection γ :=
  { (make alloc answers context).connectEstablished with
    writeCompleteCallback, highWaterMarkCallback, highWaterMark }

theorem established_sendInv (answers : Nat → WriteResult) (context : γ) (wc hwm : Bool)
    (mark : Nat) : (established alloc answers context wc hwm mark).SendInv [] := by
  have hb := Buffer.make_holds alloc kInitialSize
  have hw : (established alloc answers context wc hwm mark).channel.isWriting = false := by
    show Channel.isWriting (Channel.enableReading {}) = false
    decide
  refine ⟨hb.inv, fun _ => ?_, fun _ => ?_⟩
  · exact hb.readable_eq
  · simp only [hw, Bool.false_eq_true, ne_eq, false_iff, not_not]
    exact hb.readable_eq

/-- **Sent bytes reach the kernel once, in order, without gaps.** In every run of an established
connection, whatever the kernel answers: as long as the connection is open and no write has
returned `EPIPE` or `ECONNRESET`, the bytes accepted by the kernel and then the output buffer are
the data of all sends, and the channel is writing exactly when the output buffer is not empty. -/
theorem sent_in_order (alloc : Allocator) (answers : Nat → WriteResult) (context : γ)
    (wc hwm : Bool) (mark : Nat) (steps : List Step)
    (hopen : (steps.foldl (step alloc) (established alloc answers context wc hwm mark)).Open) :
    let c := steps.foldl (step alloc) (established alloc answers context wc hwm mark)
    c.socket.sent ++ c.outputBuffer.readable = steps.flatMap Step.data ∧
      (c.channel.isWriting = true ↔ c.outputBuffer.readable ≠ []) := by
  have h := run_sendInv alloc steps (established_sendInv alloc answers context wc hwm mark)
  exact ⟨h.sent_eq hopen, h.writing_iff hopen⟩

/-- A kernel that takes two bytes at a time, and nothing at its second write. -/
def slowAnswers : Nat → WriteResult
  | 1 => .failed EWOULDBLOCK
  | _ => .accepted 2

theorem slowAnswers_in_order :
    let steps : List Step :=
      [.sendInLoop [1, 2, 3], .handleWrite, .sendInLoop [4, 5], .shutdown, .handleWrite]
    let c := steps.foldl (step Buffer.zeroAlloc)
      (established Buffer.zeroAlloc slowAnswers () true true 4)
    c.Open ∧ c.socket.sent ++ c.outputBuffer.readable = [1, 2, 3, 4, 5] ∧
      (c.channel.isWriting = true ↔ c.outputBuffer.readable ≠ []) := by
  intro steps c
  have hopen : c.Open := by
    constructor <;> decide
  exact ⟨hopen, sent_in_order Buffer.zeroAlloc slowAnswers () true true 4 steps hopen⟩

end TcpConnection

end MyTinyHttpd
