import MyTinyHttpd.Net.WriteLemmas

/-!
# The flow-control callbacks

`SendInLoop` queues the high-water callback, `SendInLoop` and `HandleWrite` the write-complete
callback.

* `crossing`: the length of the output buffer goes from below the mark to the mark or above.
* `Step.Completes`: the kernel takes the last of the data: a send is written in full past an empty
  output buffer, or the write event empties the buffer.
* `Flow.step_effect`: what the two functions queue, and when they leave the output buffer empty.
* `flow_callbacks`: in every run, a step queues a callback exactly when one of these happens.
-/

namespace MyTinyHttpd

open Verif

namespace TcpConnection

variable {γ : Type}

/-- The high-water callback, when the length of the output buffer crosses the mark. -/
def crossing (mark before after : Nat) : List Functor :=
  if before < mark ∧ mark ≤ after then [.highWaterMarkCallback after] else []

theorem crossing_of_le {mark before after : Nat} (h : after ≤ before) :
    crossing mark before after = [] := if_neg (by omega)

/-- The kernel takes all of the data at its next write. -/
def WrittenInFull (c : TcpConnection γ) (data : List UInt8) : Prop :=
  match c.socket.answers c.socket.writes with
  | .accepted n => data.length ≤ n
  | .failed _ => False

instance (c : TcpConnection γ) (data : List UInt8) : Decidable (c.WrittenInFull data) :=
  match h : c.socket.answers c.socket.writes with
  | .accepted n => decidable_of_iff (data.length ≤ n) (by simp [WrittenInFull, h])
  | .failed _ => isFalse (by simp [WrittenInFull, h])

/-- After the step, all data that has been sent is accepted by the kernel: a send past an empty
output buffer is written in full, or the write event empties the buffer. -/
def Step.Completes (c : TcpConnection γ) : Step → Prop
  | .sendInLoop data => c.outputBuffer.readable = [] ∧ c.WrittenInFull data
  | .handleWrite => c.outputBuffer.readable ≠ [] ∧ c.handleWrite.outputBuffer.readable = []
  | _ => False

instance (c : TcpConnection γ) (s : Step) : Decidable (s.Completes c) :=
  match s with
  | .sendInLoop _ | .handleWrite => inferInstanceAs (Decidable (_ ∧ _))
  | .shutdown | .handleClose => isFalse id

def Step.isWrite : Step → Bool
  | .sendInLoop _ | .handleWrite => true
  | _ => false

theorem Step.isWrite_cases {s : Step} (h : s.isWrite = true) :
    (∃ data, s = .sendInLoop data) ∨ s = .handleWrite := by
  cases s with
  | sendInLoop data => exact .inl ⟨data, rfl⟩
  | handleWrite => exact .inr rfl
  | shutdown => cases h
  | handleClose => cases h

/-! ## `SendInLoop` -/

section

variable (alloc : Allocator) {c : TcpConnection γ} {d data : List UInt8} {s' : Socket}

theorem writtenInFull_iff {n : Nat} (hw : c.socket.write data = (s', .ok n)) :
    c.WrittenInFull data ↔ data.length - n = 0 := by
  unfold Socket.write at hw
  split at hw
  · rename_i m hanswer
    cases hw
    simp only [WrittenInFull, hanswer]
    omega
  · cases hw

theorem not_writtenInFull {errno : Int} (hw : c.socket.write data = (s', .error errno)) :
    ¬ c.WrittenInFull data := by
  unfold Socket.write at hw
  split at hw
  · cases hw
  · rename_i hanswer
    simp only [WrittenInFull, hanswer, not_false_eq_true]

/-- What is left of the data is appended to the output buffer, and the high-water callback queued
if that crosses the mark. -/
def Buffers (c c' : TcpConnection γ) (data : List UInt8) : Prop :=
  ∃ rest, (rest = [] → data = []) ∧
    c'.outputBuffer.readable = c.outputBuffer.readable ++ rest ∧
    c'.pending = c.pending ++ crossing c.highWaterMark c.outputBuffer.readable.length
      (c.outputBuffer.readable ++ rest).length

theorem noteHighWater_pending (hhigh : c.highWaterMarkCallback = true) (remaining : Nat) :
    (c.noteHighWater remaining).pending = c.pending ++ crossing c.highWaterMark
      c.outputBuffer.readableBytes (c.outputBuffer.readableBytes + remaining) := by
  simp only [noteHighWater, crossing, hhigh, and_true, queueInLoop]
  by_cases hmark : c.highWaterMark ≤ c.outputBuffer.readableBytes + remaining ∧
      c.outputBuffer.readableBytes < c.highWaterMark
  · rw [if_pos hmark, if_pos hmark.symm]
  · rw [if_neg hmark, if_neg fun hm => hmark hm.symm, List.append_nil]

theorem bufferRest_buffers (h : c.outputBuffer.Inv) (hhigh : c.highWaterMarkCallback = true)
    {rest : List UInt8} (hrest : rest = [] → data = []) :
    c.Buffers (c.bufferRest alloc rest) data := by
  refine ⟨rest, hrest, (bufferRest_spec alloc h rest).2.2.1.readable_eq, ?_⟩
  rw [List.length_append, h.length_readable]
  unfold bufferRest
  split
  · simp only
    split <;> exact noteHighWater_pending hhigh rest.length
  · rename_i hempty
    rw [crossing_of_le (by omega), List.append_nil]

/-- A write past an empty output buffer. -/
theorem sendInLoop_direct (h : c.outputBuffer.Inv) (hs : c.state ≠ .kDisconnected)
    (hwrite : c.writeCompleteCallback = true) (hhigh : c.highWaterMarkCallback = true)
    (hidle : c.channel.isWriting = false) (hempty : c.outputBuffer.readableBytes = 0)
    (hok : (c.sendInLoop alloc data).socket.broken = false) :
    if c.WrittenInFull data then
      c.sendInLoop alloc data =
        { c with
          socket := (c.socket.write data).1, pending := c.pending ++ [.writeCompleteCallback] }
    else c.Buffers (c.sendInLoop alloc data) data := by
  unfold sendInLoop at hok ⊢
  simp only [hs, hidle, hempty, and_self, ↓reduceIte] at hok ⊢
  generalize hw : c.socket.write data = w at hok
  obtain ⟨s', res⟩ := w
  cases res with
  | ok n =>
    by_cases hfull : data.length - n = 0
    · have hnil : data.drop n = [] := List.drop_eq_nil_iff.mpr (by omega)
      simp only [(writtenInFull_iff hw).mpr hfull, hfull, hnil, ↓reduceIte]
      rw [if_pos ⟨trivial, hwrite⟩]
      exact if_neg (by simp)
    · simp only [mt (writtenInFull_iff hw).mp hfull, hfull, false_and, ↓reduceIte]
      refine bufferRest_buffers alloc (c := { c with socket := s' }) h hhigh fun hnil => ?_
      have := List.drop_eq_nil_iff.mp hnil
      exact absurd (by omega) hfull
  | error errno =>
    simp only at hok ⊢
    rw [if_neg (not_writtenInFull hw)]
    split at hok
    · rename_i hfault
      have hbroken : s'.broken = true := by
        rw [(write_error hw).2]
        rcases hfault.2 with he | he <;> simp [he]
      exact absurd (hbroken.symm.trans hok) (by simp)
    · rename_i hfault
      rw [if_neg hfault]
      exact bufferRest_buffers alloc (c := { c with socket := s' }) h hhigh id

end

/-! ## The steps -/

/-- A connection with both callbacks set, when `d` has been sent. -/
structure Flow (c : TcpConnection γ) (mark : Nat) (d : List UInt8) : Prop where
  sendInv : c.SendInv d
  state_eq : c.state = .kConnected
  writeComplete : c.writeCompleteCallback = true
  highWater : c.highWaterMarkCallback = true
  mark_eq : c.highWaterMark = mark

section

variable (alloc : Allocator) {c : TcpConnection γ} {mark : Nat} {d data : List UInt8}

theorem Flow.isOpen (h : c.Flow mark d) (hok : c.socket.broken = false) : c.Open :=
  ⟨by simp [h.state_eq], hok⟩

theorem handleWrite_config : c.handleWrite.writeCompleteCallback = c.writeCompleteCallback ∧
    c.handleWrite.highWaterMarkCallback = c.highWaterMarkCallback ∧
    c.handleWrite.highWaterMark = c.highWaterMark := by
  rcases handleWrite_cases c with h | ⟨_, _, h | h⟩
  · rw [h]
    exact ⟨rfl, rfl, rfl⟩
  · rw [h]
    exact ⟨rfl, rfl, rfl⟩
  · obtain ⟨_, _, hdrained, -⟩ := outputDrained_eq _
    rw [h, hdrained]
    exact ⟨rfl, rfl, rfl⟩

theorem Flow.step (h : c.Flow mark d) {s : Step} (hs : s.isWrite = true) :
    (TcpConnection.step alloc c s).Flow mark (d ++ s.data) := by
  obtain ⟨data, rfl⟩ | rfl := Step.isWrite_cases hs
  · obtain ⟨_, _, _, _, _, _, heq⟩ := sendInLoop_eq alloc c data
    have hinv : (c.sendInLoop alloc data).SendInv (d ++ data) :=
      sendInLoop_sendInv alloc h.sendInv data
    simp only [TcpConnection.step, Step.data, heq] at hinv ⊢
    exact ⟨hinv, h.state_eq, h.writeComplete, h.highWater, h.mark_eq⟩
  · obtain ⟨hcomplete, hhigh, hmark⟩ := handleWrite_config (c := c)
    refine ⟨?_, ?_, ?_, ?_, ?_⟩
    · show c.handleWrite.SendInv (d ++ [])
      rw [List.append_nil]
      exact handleWrite_sendInv h.sendInv
    · exact (handleWrite_state c).trans h.state_eq
    · exact hcomplete.trans h.writeComplete
    · exact hhigh.trans h.highWater
    · exact hmark.trans h.mark_eq

/-- The step queues the write-complete callback and leaves the output buffer empty. -/
def Empties (c c' : TcpConnection γ) : Prop :=
  c'.pending = c.pending ++ [.writeCompleteCallback] ∧ c'.outputBuffer.readable = []

/-- The step queues the high-water callback if the output buffer crosses the mark, and the buffer
is empty only if it was before and nothing has been sent. -/
def Keeps (c c' : TcpConnection γ) (mark : Nat) (data : List UInt8) : Prop :=
  c'.pending = c.pending ++ crossing mark c.outputBuffer.readable.length
      c'.outputBuffer.readable.length ∧
    (c'.outputBuffer.readable = [] → c.outputBuffer.readable = [] ∧ data = [])

theorem Buffers.keeps {c' : TcpConnection γ} (h : c.Buffers c' data) :
    c.Keeps c' c.highWaterMark data := by
  obtain ⟨rest, hrest, hreadable, hpending⟩ := h
  refine ⟨by rw [hreadable, hpending], fun hnil => ?_⟩
  rw [hreadable, List.append_eq_nil_iff] at hnil
  exact ⟨hnil.1, hrest hnil.2⟩

theorem Flow.sendInLoop_effect (h : c.Flow mark d)
    (hok : (c.sendInLoop alloc data).socket.broken = false) :
    if (Step.sendInLoop data).Completes c then c.Empties (c.sendInLoop alloc data)
    else c.Keeps (c.sendInLoop alloc data) mark data := by
  have hopen := h.isOpen (sendInLoop_broken alloc hok)
  by_cases hempty : c.outputBuffer.readable = []
  · have hidle : c.channel.isWriting = false := by
      rw [Bool.eq_false_iff]
      exact fun hw => (h.sendInv.writing_iff hopen).mp hw hempty
    have hdirect := sendInLoop_direct alloc h.sendInv.output_inv hopen.1 h.writeComplete
      h.highWater hidle (h.sendInv.output_inv.readable_eq_nil.mp hempty) hok
    by_cases hfull : c.WrittenInFull data
    · rw [if_pos hfull] at hdirect
      rw [if_pos ⟨hempty, hfull⟩, hdirect]
      exact ⟨rfl, hempty⟩
    · rw [if_neg hfull] at hdirect
      rw [if_neg fun hc => hfull hc.2]
      exact h.mark_eq ▸ hdirect.keeps
  · rw [if_neg fun hc => hempty hc.1, sendInLoop, if_neg hopen.1, if_neg fun hdirect =>
      hempty (h.sendInv.output_inv.readable_eq_nil.mpr hdirect.2)]
    exact h.mark_eq ▸ (bufferRest_buffers alloc h.sendInv.output_inv h.highWater id).keeps

theorem outputDrained_pending (h : c.writeCompleteCallback = true) :
    c.outputDrained.pending = c.pending ++ [.writeCompleteCallback] := by
  simp only [outputDrained, h, ↓reduceIte, queueInLoop, shutdownInLoop]
  split
  · split <;> rfl
  · rfl

theorem Flow.handleWrite_effect (h : c.Flow mark d) (hok : c.handleWrite.socket.broken = false) :
    if Step.handleWrite.Completes c then c.Empties c.handleWrite
    else c.Keeps c.handleWrite mark [] := by
  have hopen := h.isOpen (handleWrite_broken hok)
  by_cases hw : c.channel.isWriting = true
  · have hne : c.outputBuffer.readable ≠ [] := (h.sendInv.writing_iff hopen).mp hw
    -- the buffer is emptied by the write that calls `outputDrained`, and by no other
    have hshrinks : ∀ b : Buffer, b.readable.length ≤ c.outputBuffer.readable.length →
        b.readable ≠ [] → ∀ s', c.Keeps { c with socket := s', outputBuffer := b } mark [] := by
      intro b hle hb s'
      refine ⟨?_, fun hnil => absurd hnil hb⟩
      rw [crossing_of_le hle, List.append_nil]
    simp only [Step.Completes, hne, ne_eq, not_false_eq_true, true_and]
    rw [handleWrite_write h.sendInv hw]
    generalize c.socket.write c.outputBuffer.readable = w
    obtain ⟨s', res⟩ := w
    cases res with
    | ok n =>
      simp only
      by_cases hn : 0 < n
      · simp only [hn, ↓reduceIte]
        by_cases hdrained : (c.outputBuffer.retrieve n).readable = []
        · rw [if_pos hdrained, outputDrained_outputBuffer, if_pos hdrained]
          refine ⟨outputDrained_pending h.writeComplete, ?_⟩
          rw [outputDrained_outputBuffer]
          exact hdrained
        · simp only [hdrained, ↓reduceIte]
          refine hshrinks _ ?_ hdrained s'
          rw [Buffer.retrieve_readable h.sendInv.output_inv, List.length_drop]
          exact Nat.sub_le _ _
      · simp only [hn, ↓reduceIte, hne]
        exact hshrinks c.outputBuffer (Nat.le_refl _) hne s'
    | error errno =>
      simp only [hne, ↓reduceIte]
      exact hshrinks c.outputBuffer (Nat.le_refl _) hne s'
  · have hempty : c.outputBuffer.readable = [] := by
      by_contra hne
      exact hw ((h.sendInv.writing_iff hopen).mpr hne)
    rw [if_neg fun hc => hc.1 hempty, handleWrite_idle (by simpa using hw)]
    refine ⟨?_, fun _ => ⟨hempty, rfl⟩⟩
    rw [crossing_of_le (Nat.le_refl _), List.append_nil]

/-- What a step queues, and when it leaves the output buffer empty. -/
theorem Flow.step_effect (h : c.Flow mark d) {s : Step} (hs : s.isWrite = true)
    (hok : (TcpConnection.step alloc c s).socket.broken = false) :
    if s.Completes c then c.Empties (TcpConnection.step alloc c s)
    else c.Keeps (TcpConnection.step alloc c s) mark s.data := by
  obtain ⟨data, rfl⟩ | rfl := Step.isWrite_cases hs
  · exact h.sendInLoop_effect alloc hok
  · exact h.handleWrite_effect hok

theorem step_broken {s : Step} (hs : s.isWrite = true)
    (hok : (TcpConnection.step alloc c s).socket.broken = false) : c.socket.broken = false := by
  obtain ⟨data, rfl⟩ | rfl := Step.isWrite_cases hs
  · exact sendInLoop_broken alloc hok
  · exact handleWrite_broken hok

/-! ## Runs -/

theorem Flow.run (h : c.Flow mark d) (steps : List Step) (hs : ∀ s ∈ steps, s.isWrite = true) :
    (steps.foldl (TcpConnection.step alloc) c).Flow mark (d ++ steps.flatMap Step.data) := by
  induction steps generalizing c d with
  | nil => simpa only [List.foldl_nil, List.flatMap_nil, List.append_nil] using h
  | cons s steps ih =>
    obtain ⟨hwrite, hsteps⟩ := List.forall_mem_cons.mp hs
    have hnext := ih (h.step alloc hwrite) hsteps
    simpa only [List.foldl_cons, List.flatMap_cons, List.append_assoc] using hnext

theorem run_broken (steps : List Step) (hs : ∀ s ∈ steps, s.isWrite = true)
    (hok : (steps.foldl (TcpConnection.step alloc) c).socket.broken = false) :
    c.socket.broken = false := by
  induction steps generalizing c with
  | nil => exact hok
  | cons s steps ih =>
    obtain ⟨hwrite, hsteps⟩ := List.forall_mem_cons.mp hs
    exact step_broken alloc hwrite (ih hsteps hok)

end

theorem established_flow (alloc : Allocator) (answers : Nat → WriteResult) (context : γ)
    (mark : Nat) : (established alloc answers context true true mark).Flow mark [] :=
  ⟨established_sendInv alloc answers context true true mark, rfl, rfl, rfl, rfl⟩

/-- **Flow-control callbacks fire once per crossing.** In every run of `SendInLoop` and
`HandleWrite` on an established connection with both callbacks set, whatever the kernel accepts and
without a fatal write error: each step queues the write-complete callback once if it completes the
data and the high-water callback once, with the new length, if the output buffer crosses the mark,
and nothing else. A step that completes the data leaves all data sent so far with the kernel, and a
step after which the kernel has all data, and before which it had not, completes it. -/
theorem flow_callbacks (alloc : Allocator) (answers : Nat → WriteResult) (context : γ)
    (mark : Nat) (before after : List Step) (s : Step)
    (hwrite : ∀ s' ∈ before ++ s :: after, s'.isWrite = true)
    (hok : ((before ++ s :: after).foldl (step alloc)
      (established alloc answers context true true mark)).socket.broken = false) :
    let c := before.foldl (step alloc) (established alloc answers context true true mark)
    let c' := step alloc c s
    let data := (before ++ [s]).flatMap Step.data
    c'.pending = c.pending ++ (if s.Completes c then [.writeCompleteCallback] else []) ++
        crossing mark c.outputBuffer.readable.length c'.outputBuffer.readable.length ∧
      (s.Completes c → c'.socket.sent = data) ∧
      (c.socket.sent ≠ data → c'.socket.sent = data → s.Completes c) := by
  intro c c' data
  have hbefore : ∀ s' ∈ before, s'.isWrite = true := fun s' hs' => hwrite s' (by simp [hs'])
  have hs : s.isWrite = true := hwrite s (by simp)
  have hafter : ∀ s' ∈ after, s'.isWrite = true := fun s' hs' => hwrite s' (by simp [hs'])
  rw [List.foldl_append, List.foldl_cons] at hok
  have hok' : c'.socket.broken = false := run_broken alloc after hafter hok
  have hc : c.Flow mark (before.flatMap Step.data) := by
    simpa only [List.nil_append] using
      (established_flow alloc answers context mark).run alloc before hbefore
  have hdata : data = before.flatMap Step.data ++ s.data := by
    simp only [data, List.flatMap_append, List.flatMap_cons, List.flatMap_nil, List.append_nil]
  have hc' : c'.Flow mark data := hdata ▸ hc.step alloc hs
  have hsent : c.socket.sent ++ c.outputBuffer.readable = before.flatMap Step.data :=
    hc.sendInv.sent_eq (hc.isOpen (step_broken alloc hs hok'))
  have hsent' : c'.socket.sent ++ c'.outputBuffer.readable = data :=
    hc'.sendInv.sent_eq (hc'.isOpen hok')
  have heffect := hc.step_effect alloc hs hok'
  by_cases hcompletes : s.Completes c
  · rw [if_pos hcompletes] at heffect
    refine ⟨?_, fun _ => ?_, fun _ _ => hcompletes⟩
    · have hle : c'.outputBuffer.readable.length ≤ c.outputBuffer.readable.length := by
        rw [heffect.2]
        exact Nat.zero_le _
      rw [if_pos hcompletes, crossing_of_le hle, List.append_nil]
      exact heffect.1
    · rw [← hsent', heffect.2, List.append_nil]
  · rw [if_neg hcompletes] at heffect
    refine ⟨?_, fun h => absurd h hcompletes, fun hnot hall => ?_⟩
    · rw [if_neg hcompletes, List.append_nil]
      exact heffect.1
    · have hnil : c'.outputBuffer.readable = [] := by
        rw [hall] at hsent'
        exact List.append_right_eq_self.mp hsent'
      obtain ⟨hempty, hnodata⟩ := heffect.2 hnil
      refine absurd ?_ hnot
      rw [hdata, hnodata, List.append_nil, ← hsent, hempty, List.append_nil]

/-- The second send crosses the mark of four bytes, the third write event completes the data. -/
theorem slowAnswers_callbacks :
    let before : List Step :=
      [.sendInLoop [1, 2, 3], .handleWrite, .sendInLoop [4, 5, 6], .handleWrite]
    let c := before.foldl (step Buffer.zeroAlloc)
      (established Buffer.zeroAlloc slowAnswers () true true 4)
    c.pending = [.highWaterMarkCallback 4] ∧ Step.handleWrite.Completes c ∧
      c.handleWrite.socket.sent = [1, 2, 3, 4, 5, 6] := by
  intro before c
  have hcompletes : Step.handleWrite.Completes c := by decide
  have h := flow_callbacks Buffer.zeroAlloc slowAnswers () 4 before [] .handleWrite
    (by decide) (by decide)
  exact ⟨by decide, hcompletes, h.2.1 hcompletes⟩

end TcpConnection

end MyTinyHttpd
