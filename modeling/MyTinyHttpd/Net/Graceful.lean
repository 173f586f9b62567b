import MyTinyHttpd.Net.CloseOnce
import MyTinyHttpd.Net.WriteLemmas

/-!
# Graceful shutdown

One thread calls `Send` any number of times and then `Shutdown`. There are two places that shut
the write side: `ShutdownInLoop`, which waits in the queue behind the sends, and `HandleWrite`,
when it has emptied the output buffer in `kDisconnecting`. The second does not look at the queue.

* `ShutInv`: the invariant that ties the state, the write event, the output buffer, the queue and
  the bytes of the earlier sends.
* `graceful_iff`: the write side is shut only after all earlier bytes, and is shut once they have
  gone, exactly when `HandleWrite` never empties the buffer in `kDisconnecting` while bytes wait in
  the queue (`Overtakes`). In the loop's thread that cannot happen (`not_overtakes_inLoop`).
-/

namespace MyTinyHttpd

open Verif

namespace LoopConnection

variable {γ : Type} (alloc : Allocator) {c c' : LoopConnection γ}

/-! ## The queue and the log -/

/-- The bytes that wait in the queue. -/
def queuedBytes (queue : List Task) : List UInt8 :=
  queue.flatMap fun
    | .sendInLoop message => message
    | _ => []

/-- The functors that the sends, `Shutdown` and `ForceClose` queue. -/
def isSendTask : Task → Bool
  | .sendInLoop _ | .shutdownInLoop | .forceCloseInLoop => true
  | _ => false

/-- No bytes wait behind `ShutdownInLoop`. -/
def SendsFirst : List Task → Prop
  | [] => True
  | .shutdownInLoop :: queue => queuedBytes queue = []
  | _ :: queue => SendsFirst queue

/-- The bytes of the `Send` calls before the first `Shutdown`. -/
def earlierSends : List LoopEvent → List UInt8
  | [] => []
  | .called .shutdown :: _ => []
  | .called (.send message) :: log => message ++ earlierSends log
  | _ :: log => earlierSends log

@[simp] theorem queuedBytes_append (q₁ q₂ : List Task) :
    queuedBytes (q₁ ++ q₂) = queuedBytes q₁ ++ queuedBytes q₂ := List.flatMap_append

@[simp] theorem queuedBytes_sendInLoop (message : List UInt8) (queue : List Task) :
    queuedBytes (.sendInLoop message :: queue) = message ++ queuedBytes queue := rfl

theorem queuedBytes_cons {t : Task} (ht : isSendTask t = false) (queue : List Task) :
    queuedBytes (t :: queue) = queuedBytes queue := by
  cases t <;> first | rfl | simp [isSendTask] at ht

theorem queuedBytes_eq_nil {ts : List Task} (hts : ∀ t ∈ ts, isSendTask t = false) :
    queuedBytes ts = [] := by
  induction ts with
  | nil => rfl
  | cons t ts ih =>
    rw [queuedBytes_cons (hts t List.mem_cons_self)]
    exact ih fun t' ht' => hts t' (List.mem_cons_of_mem t ht')

theorem sendsFirst_cons {t : Task} (ht : isSendTask t = false) (queue : List Task) :
    SendsFirst (t :: queue) ↔ SendsFirst queue := by
  cases t <;> first | rfl | simp [isSendTask] at ht

theorem sendsFirst_of_queuedBytes {queue : List Task} (h : queuedBytes queue = []) :
    SendsFirst queue := by
  induction queue with
  | nil => trivial
  | cons t queue ih =>
    cases t with
    | sendInLoop message => exact ih (List.append_eq_nil_iff.mp h).2
    | shutdownInLoop => exact h
    | _ => exact ih h

theorem SendsFirst.append {q₁ q₂ : List Task} (h : SendsFirst q₁) (hq : queuedBytes q₂ = []) :
    SendsFirst (q₁ ++ q₂) := by
  induction q₁ with
  | nil => exact sendsFirst_of_queuedBytes hq
  | cons t q₁ ih =>
    cases t with
    | shutdownInLoop =>
      have h : queuedBytes q₁ = [] := h
      show queuedBytes (q₁ ++ q₂) = []
      rw [queuedBytes_append, h, hq]
      rfl
    | _ => exact ih h

theorem sendsFirst_of_not_mem {queue : List Task} (h : Task.shutdownInLoop ∉ queue) :
    SendsFirst queue := by
  induction queue with
  | nil => trivial
  | cons t queue ih =>
    rw [List.mem_cons, not_or] at h
    cases t with
    | shutdownInLoop => exact absurd rfl h.1
    | _ => exact ih h.2

/-- The log after the first `Shutdown` does not matter. -/
theorem earlierSends_append (l l' : List LoopEvent) :
    earlierSends (l ++ l') =
      if .called .shutdown ∈ l then earlierSends l else earlierSends l ++ earlierSends l' := by
  induction l with
  | nil => rfl
  | cons e l ih =>
    cases e with
    | called k =>
      cases k with
      | shutdown => simp [earlierSends]
      | send message =>
        simp only [List.cons_append, earlierSends, ih, List.mem_cons, LoopEvent.called.injEq,
          reduceCtorEq, false_or]
        split
        · rfl
        · rw [List.append_assoc]
      | _ => simpa [earlierSends] using ih
    | _ => simpa [earlierSends] using ih

theorem earlierSends_of_called {l : List LoopEvent} (h : .called .shutdown ∈ l)
    (l' : List LoopEvent) : earlierSends (l ++ l') = earlierSends l := by
  rw [earlierSends_append, if_pos h]

/-! ## The invariant -/

/-- The invariant of a connection that has the functors `tasks` before it. -/
structure ShutInv (tasks : List Task) (c : LoopConnection γ) : Prop where
  /-- What the kernel and the output buffer have, and then the queue, are the earlier sends. -/
  data : ∃ d, c.conn.SendInv d ∧ d ++ queuedBytes tasks = earlierSends c.log
  state : (c.conn.state = .kConnected ∧ .called .shutdown ∉ c.log ∧ .shutdownInLoop ∉ tasks ∧
      c.conn.socket.writeShut = false) ∨
    (c.conn.state = .kDisconnecting ∧ .called .shutdown ∈ c.log)
  /-- Something will shut the write side, or has done it. -/
  waits : c.conn.state = .kDisconnecting → c.conn.socket.broken = false →
    .shutdownInLoop ∈ tasks ∨ c.conn.channel.isWriting = true ∨ c.conn.socket.writeShut = true
  shut : c.conn.socket.broken = false → c.conn.socket.writeShut = true →
    c.conn.outputBuffer.readable = [] ∧ queuedBytes tasks = []
  sendsFirst : SendsFirst tasks
  noForce : .forceCloseInLoop ∉ tasks

/-- What the invariant reads of the connection. -/
theorem ShutInv.of_eq {tasks : List Task} (h : ShutInv tasks c)
    (hstate : c'.conn.state = c.conn.state) (hsocket : c'.conn.socket = c.conn.socket)
    (houtput : c'.conn.outputBuffer = c.conn.outputBuffer)
    (hwriting : c'.conn.channel.isWriting = c.conn.channel.isWriting)
    (hsends : earlierSends c'.log = earlierSends c.log)
    (hcalled : .called .shutdown ∈ c'.log ↔ .called .shutdown ∈ c.log) : ShutInv tasks c' := by
  obtain ⟨d, hd, hbytes⟩ := h.data
  have hopen : c'.conn.Open ↔ c.conn.Open := by
    simp only [TcpConnection.Open, hstate, hsocket]
  refine ⟨⟨d, ⟨?_, ?_, ?_⟩, ?_⟩, ?_, ?_, ?_, h.sendsFirst, h.noForce⟩
  · rw [houtput]
    exact hd.output_inv
  · rw [hopen, hsocket, houtput]
    exact hd.sent_eq
  · rw [hopen, hwriting, houtput]
    exact hd.writing_iff
  · rw [hsends]
    exact hbytes
  · rw [hstate, hsocket, hcalled]
    exact h.state
  · rw [hstate, hsocket, hwriting]
    exact h.waits
  · rw [hsocket, houtput]
    exact h.shut

/-- Functors that send nothing join the queue. -/
theorem ShutInv.append {tasks ts : List Task} (h : ShutInv tasks c)
    (hts : ∀ t ∈ ts, isSendTask t = false) : ShutInv (tasks ++ ts) c := by
  have hbytes := queuedBytes_eq_nil hts
  have hshut : Task.shutdownInLoop ∉ ts := fun hm => absurd (hts _ hm) (by simp [isSendTask])
  have hforce : Task.forceCloseInLoop ∉ ts := fun hm => absurd (hts _ hm) (by simp [isSendTask])
  refine ⟨?_, ?_, ?_, ?_, h.sendsFirst.append hbytes, ?_⟩
  · simpa [hbytes] using h.data
  · simpa [hshut] using h.state
  · simpa [hshut] using h.waits
  · simpa [hbytes] using h.shut
  · simpa [hforce] using h.noForce

/-- A functor that sends nothing leaves the queue. -/
theorem ShutInv.tail {t : Task} {tasks : List Task} (h : ShutInv (t :: tasks) c)
    (ht : isSendTask t = false) : ShutInv tasks c := by
  have hbytes := queuedBytes_cons ht tasks
  have hshut : Task.shutdownInLoop ≠ t := fun he => absurd ht (by simp [← he, isSendTask])
  have hforce : Task.forceCloseInLoop ≠ t := fun he => absurd ht (by simp [← he, isSendTask])
  refine ⟨?_, ?_, ?_, ?_, (sendsFirst_cons ht tasks).mp h.sendsFirst, ?_⟩
  · simpa [hbytes] using h.data
  · simpa [hshut] using h.state
  · simpa [hshut] using h.waits
  · simpa [hbytes] using h.shut
  · simpa [hforce] using h.noForce

theorem ShutInv.isOpen {tasks : List Task} (h : ShutInv tasks c)
    (hbroken : c.conn.socket.broken = false) : c.conn.Open := by
  refine ⟨?_, hbroken⟩
  rcases h.state with hs | hs <;> simp [hs.1]

/-- After a member function of the send path, whose callbacks join the queue. -/
theorem ShutInv.adopt {conn : TcpConnection γ} (h : ShutInv c.queue { c with conn := conn }) :
    ShutInv (c.adopt conn).queue (c.adopt conn) := by
  rw [adopt_queue]
  refine ShutInv.append (ShutInv.of_eq h ?_ ?_ ?_ ?_ ?_ ?_) ?_
  · exact adopt_state c conn
  · exact adopt_socket c conn
  · exact adopt_outputBuffer c conn
  · rw [adopt_channel]
  · rw [adopt_log]
  · rw [adopt_log]
  · simp [isSendTask]

/-! ## The functors -/

theorem sendInLoop_shutInv {message : List UInt8}
    (h : ShutInv (.sendInLoop message :: c.queue) c) :
    ShutInv (c.sendInLoop alloc message).queue (c.sendInLoop alloc message) := by
  obtain ⟨d, hd, hbytes⟩ := h.data
  have hshut := TcpConnection.sendInLoop_writeShut alloc c.conn message
  have hstate := TcpConnection.sendInLoop_state alloc c.conn message
  have hbroken : (c.conn.sendInLoop alloc message).socket.broken = false →
      c.conn.socket.broken = false := TcpConnection.sendInLoop_broken alloc
  refine ShutInv.adopt ⟨?_, ?_, fun hs hb => ?_, fun hb hw => ?_, h.sendsFirst, ?_⟩
  · refine ⟨d ++ message, TcpConnection.sendInLoop_sendInv alloc hd message, ?_⟩
    rw [List.append_assoc]
    exact hbytes
  · simpa [hstate, hshut] using h.state
  · rcases h.waits (hstate ▸ hs) (hbroken hb) with hm | hw | hw
    · exact .inl (by simpa using hm)
    · exact .inr (.inl (TcpConnection.sendInLoop_isWriting alloc hw message))
    · exact .inr (.inr (hshut.trans hw))
  · obtain ⟨hempty, hnone⟩ := h.shut (hbroken hb) (hshut.symm.trans hw)
    obtain ⟨rfl, hrest⟩ := List.append_eq_nil_iff.mp hnone
    refine ⟨?_, hrest⟩
    show (c.conn.sendInLoop alloc []).outputBuffer.readable = []
    rw [TcpConnection.sendInLoop_nil_outputBuffer, hempty]
  · exact fun hm => h.noForce (List.mem_cons_of_mem _ hm)

theorem shutdownInLoop_shutInv (h : ShutInv (.shutdownInLoop :: c.queue) c) :
    ShutInv c.shutdownInLoop.queue c.shutdownInLoop := by
  obtain ⟨d, hd, hbytes⟩ := h.data
  have hs : c.conn.state = .kDisconnecting ∧ .called .shutdown ∈ c.log := by
    rcases h.state with hs | hs
    · exact absurd List.mem_cons_self hs.2.2.1
    · exact hs
  have hqueue : queuedBytes c.queue = [] := h.sendsFirst
  have hforce : Task.forceCloseInLoop ∉ c.queue := fun hm => h.noForce (List.mem_cons_of_mem _ hm)
  apply ShutInv.adopt
  unfold TcpConnection.shutdownInLoop
  split
  · rename_i hw
    exact ⟨⟨d, hd, hbytes⟩, .inr hs, fun _ _ => .inr (.inl hw), h.shut,
      sendsFirst_of_queuedBytes hqueue, hforce⟩
  · rename_i hw
    refine ⟨⟨d, ⟨hd.output_inv, hd.sent_eq, hd.writing_iff⟩, hbytes⟩, .inr hs,
      fun _ _ => .inr (.inr rfl), fun hb _ => ⟨?_, hqueue⟩, sendsFirst_of_queuedBytes hqueue,
      hforce⟩
    -- Without the write event the output buffer is empty.
    by_contra hne
    exact hw ((hd.writing_iff (h.isOpen hb)).mpr hne)

theorem switchRead_queue (on : Bool) : (c.switchRead on).queue = c.queue := by
  rcases switchRead_cases c on with ⟨heq, -⟩ | heq <;> rw [heq] <;> rfl

/-- A log entry that is neither a send nor a shutdown. -/
theorem ShutInv.note {tasks : List Task} (h : ShutInv tasks c) {e : LoopEvent}
    (hsend : earlierSends [e] = []) (hshut : e ≠ .called .shutdown) :
    ShutInv tasks (c.note e) := by
  refine h.of_eq rfl rfl rfl rfl ?_ ?_
  · show earlierSends (c.log ++ [e]) = _
    rw [earlierSends_append, hsend, List.append_nil, ite_self]
  · simp [LoopConnection.note, hshut.symm]

/-- Reading has nothing to do with what is sent. -/
theorem switchRead_shutInv {tasks : List Task} (h : ShutInv tasks c) (on : Bool) :
    ShutInv tasks (c.switchRead on) := by
  have hnote : ShutInv tasks (c.note (bif on then .startReadInLoop else .stopReadInLoop)) := by
    cases on <;> exact h.note rfl (by simp)
  have hwriting : (bif on then c.conn.channel.enableReading
      else c.conn.channel.disableReading).isWriting = c.conn.channel.isWriting := by
    cases on
    · exact Channel.isWriting_disableReading _
    · exact Channel.isWriting_enableReading _
  rcases switchRead_cases c on with ⟨heq, -⟩ | heq
  · rwa [heq]
  · rw [heq]
    exact hnote.of_eq rfl rfl rfl hwriting rfl Iff.rfl

/-! ## The calls -/

/-- `Send` passes its bytes on, to the loop or at once. -/
theorem ShutInv.send {tasks tasks' : List Task} (h : ShutInv tasks c)
    (hs : c.conn.state = .kConnected) {message : List UInt8}
    (hbytes : queuedBytes tasks' = queuedBytes tasks ++ message)
    (hshut : Task.shutdownInLoop ∉ tasks') (hforce : Task.forceCloseInLoop ∉ tasks') :
    ShutInv tasks' (c.note (.called (.send message))) := by
  obtain ⟨-, hcalled, -, hwriteShut⟩ | hd := h.state
  · obtain ⟨d, hd, hdata⟩ := h.data
    refine ⟨⟨d, hd, ?_⟩, .inl ⟨hs, ?_, hshut, hwriteShut⟩, fun hs' => ?_, fun _ hw => ?_,
      sendsFirst_of_not_mem hshut, hforce⟩
    · show d ++ queuedBytes tasks' = earlierSends (c.log ++ [_])
      rw [earlierSends_append, if_neg hcalled, ← hdata, hbytes]
      simp [earlierSends]
    · simpa [LoopConnection.note] using hcalled
    · exact absurd (hs.symm.trans hs') (by simp)
    · exact absurd (hwriteShut.symm.trans hw) (by simp)
  · exact absurd (hs.symm.trans hd.1) (by simp)

/-- `Shutdown` asks for `ShutdownInLoop`, in the queue or at once. -/
theorem ShutInv.shutdown {tasks tasks' : List Task} (h : ShutInv tasks c)
    (hs : c.conn.state = .kConnected) (hbytes : queuedBytes tasks' = queuedBytes tasks)
    (hshut : .shutdownInLoop ∈ tasks') (hfirst : SendsFirst tasks')
    (hforce : Task.forceCloseInLoop ∉ tasks') :
    ShutInv tasks' ((c.note (.called .shutdown)).setState .kDisconnecting) := by
  obtain ⟨-, hcalled, -, hwriteShut⟩ | hd := h.state
  · obtain ⟨d, hd, hdata⟩ := h.data
    have hopen : c.conn.socket.broken = false → c.conn.Open := h.isOpen
    refine ⟨⟨d, ⟨hd.output_inv, fun ho => hd.sent_eq (hopen ho.2),
      fun ho => hd.writing_iff (hopen ho.2)⟩, ?_⟩, .inr ⟨rfl, ?_⟩, fun _ _ => .inl hshut,
      fun _ hw => ?_, hfirst, hforce⟩
    · show d ++ queuedBytes tasks' = earlierSends (c.log ++ [_])
      rw [earlierSends_append, if_neg hcalled, hbytes, hdata]
      simp [earlierSends]
    · simp [LoopConnection.note, setState]
    · exact absurd (hwriteShut.symm.trans hw) (by simp)
  · exact absurd (hs.symm.trans hd.1) (by simp)

/-- After `Shutdown` the log of calls does not matter. -/
theorem ShutInv.note_late {tasks : List Task} (h : ShutInv tasks c)
    (hs : c.conn.state ≠ .kConnected) (e : LoopEvent) : ShutInv tasks (c.note e) := by
  obtain hcalled | hcalled := h.state
  · exact absurd hcalled.1 hs
  · refine h.of_eq rfl rfl rfl rfl (earlierSends_of_called hcalled.2 [e]) ?_
    simp [LoopConnection.note, hcalled.2]

/-- The thread that sends and shuts down is the loop's thread (`b = true`) or another one. Any
thread may start and stop reading. -/
def Allowed (b inLoop : Bool) : Call → Prop
  | .send _ | .shutdown => inLoop = b
  | .forceClose => False
  | .startRead | .stopRead => True

instance (b inLoop : Bool) (k : Call) : Decidable (Allowed b inLoop k) :=
  match k with
  | .send _ | .shutdown => inferInstanceAs (Decidable (inLoop = b))
  | .forceClose => isFalse id
  | .startRead | .stopRead => isTrue trivial

/-- The invariant with the thread. In the loop's thread nothing is sent through the queue. -/
structure GracefulInv (b : Bool) (c : LoopConnection γ) : Prop where
  shutInv : ShutInv c.queue c
  inLoop : b = true → ∀ t ∈ c.queue, isSendTask t = false

theorem GracefulInv.adopt {b : Bool} {conn : TcpConnection γ}
    (hq : b = true → ∀ t ∈ c.queue, isSendTask t = false)
    (h : ShutInv (c.adopt conn).queue (c.adopt conn)) : GracefulInv b (c.adopt conn) := by
  refine ⟨h, fun hb t ht => ?_⟩
  rw [adopt_queue, List.mem_append] at ht
  rcases ht with ht | ht
  · exact hq hb t ht
  · obtain ⟨f, -, rfl⟩ := List.mem_map.mp ht
    rfl

theorem GracefulInv.queueInLoop {b : Bool} {t : Task} (h : GracefulInv b c)
    (ht : isSendTask t = false) : GracefulInv b (c.queueInLoop t) := by
  have hinv : ShutInv (c.queue ++ [t]) c := h.shutInv.append (by simpa using ht)
  refine ⟨hinv.of_eq rfl rfl rfl rfl rfl Iff.rfl, fun hb t' ht' => ?_⟩
  · rcases List.mem_append.mp ht' with hm | hm
    · exact h.inLoop hb t' hm
    · rw [List.mem_singleton.mp hm]
      exact ht

theorem send_gracefulInv {b : Bool} (h : GracefulInv b c) (message : List UInt8) :
    GracefulInv b (c.call alloc b (.send message)) := by
  simp only [call]
  split
  · rename_i hs
    obtain ⟨-, -, hshut, -⟩ | hd := h.shutInv.state
    · cases b with
      | false =>
        have hinv : ShutInv (c.queue ++ [.sendInLoop message])
            (c.note (.called (.send message))) := by
          refine h.shutInv.send hs ?_ ?_ ?_
          · simp [queuedBytes]
          · simpa using hshut
          · simpa using h.shutInv.noForce
        exact ⟨hinv.of_eq rfl rfl rfl rfl rfl Iff.rfl, by simp⟩
      | true =>
        have hbytes := queuedBytes_eq_nil (h.inLoop rfl)
        refine GracefulInv.adopt h.inLoop (sendInLoop_shutInv alloc ?_)
        refine h.shutInv.send hs ?_ ?_ ?_
        · rw [queuedBytes_sendInLoop]
          show message ++ queuedBytes c.queue = _
          rw [hbytes]
          simp
        · simpa [note] using hshut
        · simpa [note] using h.shutInv.noForce
    · exact absurd (hs.symm.trans hd.1) (by simp)
  · rename_i hs
    exact ⟨h.shutInv.note_late hs _, h.inLoop⟩

theorem shutdown_gracefulInv {b : Bool} (h : GracefulInv b c) :
    GracefulInv b (c.call alloc b .shutdown) := by
  simp only [call]
  split
  · rename_i hs
    cases b with
    | false =>
      have hinv : ShutInv (c.queue ++ [.shutdownInLoop])
          ((c.note (.called .shutdown)).setState .kDisconnecting) := by
        refine h.shutInv.shutdown hs ?_ ?_ (h.shutInv.sendsFirst.append rfl) ?_
        · simp [queuedBytes]
        · simp
        · simpa using h.shutInv.noForce
      exact ⟨hinv.of_eq rfl rfl rfl rfl rfl Iff.rfl, by simp⟩
    | true =>
      refine GracefulInv.adopt h.inLoop (shutdownInLoop_shutInv ?_)
      refine h.shutInv.shutdown hs rfl List.mem_cons_self ?_ ?_
      · exact queuedBytes_eq_nil (h.inLoop rfl)
      · simpa [note, setState] using h.shutInv.noForce
  · rename_i hs
    exact ⟨h.shutInv.note_late hs _, h.inLoop⟩

theorem switchRead_gracefulInv {b : Bool} (h : GracefulInv b c) (on : Bool) :
    GracefulInv b (c.switchRead on) := by
  refine ⟨?_, ?_⟩ <;> rw [switchRead_queue]
  · exact switchRead_shutInv h.shutInv on
  · exact h.inLoop

theorem perform_gracefulInv {b : Bool} {t : Task} (h : ShutInv (t :: c.queue) c)
    (hq : b = true → ∀ t ∈ c.queue, isSendTask t = false) (onDown : List Call) :
    GracefulInv b (c.perform alloc onDown t) := by
  cases t with
  | sendInLoop message => exact .adopt hq (sendInLoop_shutInv alloc h)
  | shutdownInLoop => exact .adopt hq (shutdownInLoop_shutInv h)
  | forceCloseInLoop => exact absurd List.mem_cons_self h.noForce
  | startReadInLoop => exact switchRead_gracefulInv ⟨h.tail rfl, hq⟩ true
  | stopReadInLoop => exact switchRead_gracefulInv ⟨h.tail rfl, hq⟩ false
  | callback f => exact ⟨h.tail rfl, hq⟩

theorem call_gracefulInv {b inLoop : Bool} (h : GracefulInv b c) {k : Call}
    (hk : Allowed b inLoop k) : GracefulInv b (c.call alloc inLoop k) := by
  cases k with
  | send message =>
    obtain rfl : inLoop = b := hk
    exact send_gracefulInv alloc h message
  | shutdown =>
    obtain rfl : inLoop = b := hk
    exact shutdown_gracefulInv alloc h
  | forceClose => exact absurd hk id
  | startRead =>
    have hnote : GracefulInv b (c.note (.called .startRead)) :=
      ⟨h.shutInv.note rfl (by simp), h.inLoop⟩
    cases inLoop
    · exact hnote.queueInLoop rfl
    · exact switchRead_gracefulInv hnote true
  | stopRead =>
    have hnote : GracefulInv b (c.note (.called .stopRead)) :=
      ⟨h.shutInv.note rfl (by simp), h.inLoop⟩
    cases inLoop
    · exact hnote.queueInLoop rfl
    · exact switchRead_gracefulInv hnote false

theorem calls_gracefulInv {b : Bool} (h : GracefulInv b c) {ks : List Call}
    (hks : ∀ k ∈ ks, Allowed b true k) : GracefulInv b (ks.foldl (call alloc true) c) := by
  induction ks generalizing c with
  | nil => exact h
  | cons k ks ih =>
    obtain ⟨hk, hks⟩ := List.forall_mem_cons.mp hks
    exact ih (call_gracefulInv alloc h hk) hks

/-! ## The events -/

/-- `HandleWrite` would shut the write side while bytes wait in the queue. -/
def WriteOvertakes (c : LoopConnection γ) : Prop :=
  c.conn.state = .kDisconnecting ∧ c.conn.channel.isWriting = true ∧ c.conn.Drains ∧
    queuedBytes c.queue ≠ [] ∧ c.conn.socket.broken = false

instance (c : LoopConnection γ) : Decidable c.WriteOvertakes :=
  inferInstanceAs (Decidable (_ ∧ _ ∧ _ ∧ _ ∧ _))

theorem not_writeOvertakes_inLoop (h : GracefulInv true c) : ¬ c.WriteOvertakes :=
  fun ho => ho.2.2.2.1 (queuedBytes_eq_nil (h.inLoop rfl))

/-- What waits for the write event has not been shut. -/
theorem ShutInv.not_shut {tasks : List Task} (h : ShutInv tasks c)
    (hb : c.conn.socket.broken = false) (hw : c.conn.channel.isWriting = true) :
    c.conn.socket.writeShut = false := by
  obtain ⟨d, hd, -⟩ := h.data
  by_contra hshut
  rw [Bool.not_eq_false] at hshut
  exact (hd.writing_iff (h.isOpen hb)).mp hw (h.shut hb hshut).1

theorem handleWrite_gracefulInv {b : Bool} (h : GracefulInv b c) (ho : ¬ c.WriteOvertakes) :
    GracefulInv b c.handleWrite := by
  refine GracefulInv.adopt h.inLoop (ShutInv.adopt ?_)
  by_cases hw : c.conn.channel.isWriting = true
  swap
  · rw [TcpConnection.handleWrite_idle (by simpa using hw)]
    exact h.shutInv
  obtain ⟨d, hd, hbytes⟩ := h.shutInv.data
  have hstate := TcpConnection.handleWrite_state c.conn
  have hbroken : c.conn.handleWrite.socket.broken = false → c.conn.socket.broken = false :=
    TcpConnection.handleWrite_broken
  refine ⟨⟨d, TcpConnection.handleWrite_sendInv hd, hbytes⟩, ?_, fun hs hb => ?_,
    fun hb hshut => ?_, h.shutInv.sendsFirst, h.shutInv.noForce⟩
  · rcases h.shutInv.state with ⟨hs, hcalled, hq, hshut⟩ | hs
    · refine .inl ⟨hstate.trans hs, hcalled, hq, ?_⟩
      exact (TcpConnection.handleWrite_writeShut (by simp [hs])).trans hshut
    · exact .inr ⟨hstate.trans hs.1, hs.2⟩
  · by_cases hdrains : c.conn.Drains
    · obtain ⟨-, -, -, hshut⟩ := TcpConnection.handleWrite_drains hd
        (h.shutInv.isOpen (hbroken hb)) hw hdrains
      exact .inr (.inr (hshut.trans (by simp [hstate.symm.trans hs])))
    · refine .inr (.inl ?_)
      show c.conn.handleWrite.channel.isWriting = true
      rw [(TcpConnection.handleWrite_not_drains hd hdrains).1, hw]
  · have hnot := h.shutInv.not_shut (hbroken hb) hw
    by_cases hdrains : c.conn.Drains
    · obtain ⟨-, hempty, -, hshut'⟩ := TcpConnection.handleWrite_drains hd
        (h.shutInv.isOpen (hbroken hb)) hw hdrains
      refine ⟨hempty, ?_⟩
      have hs : c.conn.state = .kDisconnecting := by
        simpa [hnot] using hshut'.symm.trans hshut
      by_contra hq
      exact ho ⟨hs, hw, hdrains, hq, hbroken hb⟩
    · have hkept := (TcpConnection.handleWrite_not_drains hd hdrains).2
      exact absurd (hkept.symm.trans hshut) (by simp [hnot])

/-- Shutdown is graceful so far: the write side is shut only when the kernel has all bytes of the
earlier sends, and it is shut when the kernel has them and `ShutdownInLoop` has run. -/
def Graceful (c : LoopConnection γ) : Prop :=
  c.conn.socket.broken = false →
    (c.conn.socket.writeShut = true →
      c.conn.outputBuffer.readable = [] ∧ c.conn.socket.sent = earlierSends c.log) ∧
    (.called .shutdown ∈ c.log → c.conn.socket.sent = earlierSends c.log →
      .shutdownInLoop ∉ c.queue → c.conn.socket.writeShut = true)

theorem GracefulInv.graceful {b : Bool} (h : GracefulInv b c) : c.Graceful := by
  intro hb
  obtain ⟨d, hd, hbytes⟩ := h.shutInv.data
  have hopen := h.shutInv.isOpen hb
  constructor
  · intro hshut
    obtain ⟨hempty, hq⟩ := h.shutInv.shut hb hshut
    refine ⟨hempty, ?_⟩
    rw [← hbytes, hq, List.append_nil, ← hd.sent_eq hopen, hempty, List.append_nil]
  · intro hcalled hsent hq
    have hs : c.conn.state = .kDisconnecting := by
      rcases h.shutInv.state with hs | hs
      · exact absurd hcalled hs.2.1
      · exact hs.1
    rcases h.shutInv.waits hs hb with hm | hw | hshut
    · exact absurd hm hq
    · -- The output buffer holds bytes of the earlier sends that the kernel does not have.
      rw [← hbytes, ← hd.sent_eq hopen, List.append_assoc, List.self_eq_append_right,
        List.append_eq_nil_iff] at hsent
      exact absurd hsent.1 ((hd.writing_iff hopen).mp hw)
    · exact hshut

theorem writeOvertakes_not_graceful {b : Bool} (h : GracefulInv b c) (ho : c.WriteOvertakes) :
    ¬ c.handleWrite.Graceful := by
  obtain ⟨hs, hw, hdrains, hq, hb⟩ := ho
  obtain ⟨d, hd, hbytes⟩ := h.shutInv.data
  have hopen := h.shutInv.isOpen hb
  obtain ⟨hb', hempty, -, hshut⟩ := TcpConnection.handleWrite_drains hd hopen hw hdrains
  have hopen' : c.conn.handleWrite.Open := by
    refine ⟨?_, hb'⟩
    rw [TcpConnection.handleWrite_state]
    exact hopen.1
  have hsent := (TcpConnection.handleWrite_sendInv hd).sent_eq hopen'
  rw [hempty, List.append_nil] at hsent
  intro hg
  have h' := ((hg (by rw [handleWrite, adopt_socket, hb'])).1
    (by rw [handleWrite, adopt_socket, hshut]; simp [hs])).2
  rw [handleWrite, adopt_socket, adopt_log, hsent, ← hbytes, List.self_eq_append_right] at h'
  exact hq h'

/-- The event before its write branch, on a connection that the event does not close. -/
theorem handleEvent_open (c : LoopConnection γ) {revents : BitVec 32} {readv : ReadvResult}
    (onMessage onDown : List Call) (hhup : hangsUp revents = false)
    (hend : endsRead revents readv = false) :
    ∃ inputBuffer, ∃ ks ⊆ onMessage, c.handleEvent alloc revents readv onMessage onDown =
      let c := { c with conn := { c.conn with inputBuffer } }
      let c := ks.foldl (call alloc true) c
      if hasEvent revents POLLOUT then c.handleWrite else c := by
  unfold hangsUp at hhup
  simp only [handleEvent, hhup, Bool.false_eq_true, ↓reduceIte]
  cases hread : hasEvent revents (POLLIN ||| POLLPRI ||| POLLRDHUP) with
  | false => exact ⟨c.conn.inputBuffer, [], List.nil_subset _, rfl⟩
  | true =>
    simp only [endsRead, hread, Bool.true_and] at hend
    obtain ⟨inputBuffer, h⟩ := handleRead_cases alloc c readv onMessage onDown
    simp only [↓reduceIte, h]
    refine ⟨inputBuffer, ?_⟩
    cases readv with
    | failed errno => exact ⟨[], List.nil_subset _, rfl⟩
    | filled bytes =>
      cases bytes with
      | nil => simp [atEnd] at hend
      | cons x bytes => exact ⟨onMessage, List.Subset.refl _, rfl⟩

/-- Another thread than the loop's one sends: the calls of the message callback only start and
stop reading. -/
theorem calls_writeOvertakes {ks : List Call} (hks : ∀ k ∈ ks, Allowed false true k) :
    (ks.foldl (call alloc true) c).WriteOvertakes ↔ c.WriteOvertakes := by
  induction ks generalizing c with
  | nil => rfl
  | cons k ks ih =>
    obtain ⟨hk, hks⟩ := List.forall_mem_cons.mp hks
    rw [List.foldl_cons, ih hks]
    cases k with
    | startRead =>
      simp only [call, runInLoop, ↓reduceIte, startReadInLoop]
      split
      · simp [WriteOvertakes, TcpConnection.Drains, setChannel, update, note]
      · rfl
    | stopRead =>
      simp only [call, runInLoop, ↓reduceIte, stopReadInLoop]
      split
      · simp [WriteOvertakes, TcpConnection.Drains, setChannel, update, note]
      · rfl
    | _ => exact absurd hk (by simp [Allowed])

/-! ## Runs -/

/-- The steps of a run: one thread sends and shuts down, nothing closes the connection. -/
def OneThread (b : Bool) : LoopStep → Prop
  | .call inLoop k => Allowed b inLoop k
  | .handleEvent revents readv onMessage _ =>
    hangsUp revents = false ∧ endsRead revents readv = false ∧ ∀ k ∈ onMessage, Allowed b true k
  | .runFunctor _ => True

instance (b : Bool) (s : LoopStep) : Decidable (OneThread b s) :=
  match s with
  | .call inLoop k => inferInstanceAs (Decidable (Allowed b inLoop k))
  | .handleEvent revents readv onMessage _ =>
    inferInstanceAs (Decidable (hangsUp revents = false ∧ endsRead revents readv = false ∧
      ∀ k ∈ onMessage, Allowed b true k))
  | .runFunctor _ => isTrue trivial

/-- A write event that shuts the write side before the bytes in the queue. -/
def Overtakes (c : LoopConnection γ) : LoopStep → Prop
  | .handleEvent revents _ _ _ => hasEvent revents POLLOUT = true ∧ c.WriteOvertakes
  | _ => False

instance (c : LoopConnection γ) (s : LoopStep) : Decidable (c.Overtakes s) :=
  match s with
  | .handleEvent revents _ _ _ =>
    inferInstanceAs (Decidable (hasEvent revents POLLOUT = true ∧ c.WriteOvertakes))
  | .call _ _ => isFalse id
  | .runFunctor _ => isFalse id

/-- An event of a run, cut before its write branch. -/
theorem handleEvent_oneThread {b : Bool} (h : GracefulInv b c) {revents : BitVec 32}
    {readv : ReadvResult} {onMessage onDown : List Call}
    (hs : OneThread b (.handleEvent revents readv onMessage onDown)) :
    ∃ c', GracefulInv b c' ∧ (c'.WriteOvertakes ↔ c.WriteOvertakes) ∧
      c.handleEvent alloc revents readv onMessage onDown =
        if hasEvent revents POLLOUT then c'.handleWrite else c' := by
  obtain ⟨hhup, hend, hks⟩ := hs
  obtain ⟨inputBuffer, ks, hsub, he⟩ := handleEvent_open alloc c onMessage onDown hhup hend
  have hks : ∀ k ∈ ks, Allowed b true k := fun k hk => hks k (hsub hk)
  have hinput : GracefulInv b { c with conn := { c.conn with inputBuffer } } :=
    ⟨h.shutInv.of_eq rfl rfl rfl rfl rfl Iff.rfl, h.inLoop⟩
  have hcalls := calls_gracefulInv alloc hinput hks
  refine ⟨_, hcalls, ?_, he⟩
  cases b with
  | false => exact calls_writeOvertakes alloc hks
  | true => exact iff_of_false (not_writeOvertakes_inLoop hcalls) (not_writeOvertakes_inLoop h)

theorem step_gracefulInv {b : Bool} (h : GracefulInv b c) (s : LoopStep) (hs : OneThread b s)
    (ho : ¬ c.Overtakes s) : GracefulInv b (c.step alloc s) := by
  cases s with
  | call inLoop k => exact call_gracefulInv alloc h hs
  | handleEvent revents readv onMessage onDown =>
    obtain ⟨c', hc', hover, he⟩ := handleEvent_oneThread alloc h hs
    simp only [step, he]
    split
    · rename_i hout
      exact handleWrite_gracefulInv hc' fun hw => ho ⟨hout, hover.mp hw⟩
    · exact hc'
  | runFunctor onDown =>
    simp only [step, runFunctor]
    split
    · exact h
    · rename_i t queue hq
      have hinv : ShutInv (t :: queue) { c with queue } :=
        (hq ▸ h.shutInv).of_eq rfl rfl rfl rfl rfl Iff.rfl
      refine perform_gracefulInv alloc hinv (fun hb t' ht' => ?_) onDown
      exact h.inLoop hb t' (hq ▸ List.mem_cons_of_mem t ht')

/-- In the loop's thread no write event overtakes the queue. -/
theorem not_overtakes_inLoop (h : GracefulInv true c) (s : LoopStep) : ¬ c.Overtakes s := by
  intro ho
  cases s with
  | handleEvent revents readv onMessage onDown => exact not_writeOvertakes_inLoop h ho.2
  | call inLoop k => exact ho.elim
  | runFunctor onDown => exact ho.elim

theorem overtakes_not_graceful {b : Bool} (h : GracefulInv b c) (s : LoopStep)
    (hs : OneThread b s) (ho : c.Overtakes s) : ¬ (c.step alloc s).Graceful := by
  cases s with
  | call inLoop k => exact ho.elim
  | handleEvent revents readv onMessage onDown =>
    obtain ⟨c', hc', hover, he⟩ := handleEvent_oneThread alloc h hs
    simp only [step, he, ho.1, ↓reduceIte]
    exact writeOvertakes_not_graceful hc' (hover.mpr ho.2)
  | runFunctor onDown => exact ho.elim

theorem established_gracefulInv (answers : Nat → WriteResult) (context : γ) (wc hwm : Bool)
    (mark : Nat) (b : Bool) : GracefulInv b (established alloc answers context wc hwm mark) := by
  have hd := TcpConnection.established_sendInv alloc answers context wc hwm mark
  refine ⟨⟨⟨[], hd, rfl⟩, .inl ⟨rfl, ?_, ?_, rfl⟩, ?_, ?_, trivial, ?_⟩, ?_⟩ <;>
    simp [established, update, TcpConnection.established, TcpConnection.make,
      TcpConnection.connectEstablished]

/-- **Graceful shutdown.** In every run of an established connection in which one thread, the
loop's one or another one, sends and shuts down, and nothing closes the connection: as long as no
write has failed for good, the write side is shut only when the output buffer is empty and the
kernel has all bytes of the earlier sends, and it is shut when the kernel has them and
`ShutdownInLoop` has run, exactly when no write event overtakes the queue. -/
theorem graceful_iff (answers : Nat → WriteResult) (context : γ) (wc hwm : Bool) (mark : Nat)
    (b : Bool) (steps : List LoopStep) (hsteps : ∀ s ∈ steps, OneThread b s) :
    (∀ pre post, steps = pre ++ post →
        (pre.foldl (step alloc) (established alloc answers context wc hwm mark)).Graceful) ↔
      ∀ pre s post, steps = pre ++ s :: post →
        ¬ (pre.foldl (step alloc) (established alloc answers context wc hwm mark)).Overtakes s := by
  exact safe_iff (I := GracefulInv b) (fun _ h => h.graceful)
    (fun _ s h hs ho => step_gracefulInv alloc h s hs ho)
    (fun _ s h hs ho => overtakes_not_graceful alloc h s hs ho)
    (established_gracefulInv alloc answers context wc hwm mark b) (legal_of_forall hsteps _)

/-- In the loop's thread the condition always holds. -/
theorem graceful_inLoop (answers : Nat → WriteResult) (context : γ) (wc hwm : Bool) (mark : Nat)
    (steps : List LoopStep) (hsteps : ∀ s ∈ steps, OneThread true s) :
    (steps.foldl (step alloc) (established alloc answers context wc hwm mark)).Graceful := by
  have hinv := legal_invariant (I := GracefulInv true)
    (fun _ s h hs => step_gracefulInv alloc h s hs (not_overtakes_inLoop h s))
    (established_gracefulInv alloc answers context wc hwm mark true) (legal_of_forall hsteps _)
  exact hinv.graceful

/-- A kernel that takes two bytes at a time. -/
def twoAtATime : Nat → WriteResult := fun _ => .accepted 2

/-- Another thread sends four bytes and shuts down. The write event comes after the functors. -/
def functorsFirst : List LoopStep :=
  [.call false (.send [1, 2, 3]), .runFunctor [], .call false (.send [4]), .call false .shutdown,
    .runFunctor [], .runFunctor [], .handleEvent POLLOUT (.failed 0) [] []]

theorem functorsFirst_graceful :
    (∀ s ∈ functorsFirst, OneThread false s) ∧
      ∀ pre post, functorsFirst = pre ++ post →
        (pre.foldl (step Buffer.zeroAlloc)
          (established Buffer.zeroAlloc twoAtATime () false false 64)).Graceful := by
  have hsteps : ∀ s ∈ functorsFirst, OneThread false s := by decide
  have hover : Legal (step Buffer.zeroAlloc) (fun c s => ¬ c.Overtakes s)
      (established Buffer.zeroAlloc twoAtATime () false false 64) functorsFirst := by
    decide +kernel
  exact ⟨hsteps, (graceful_iff Buffer.zeroAlloc twoAtATime () false false 64 false functorsFirst
    hsteps).mpr (legal_iff.mp hover)⟩

/-- The same calls. The write event comes while the last byte waits in the queue. -/
def writeFirst : List LoopStep :=
  [.call false (.send [1, 2, 3]), .runFunctor [], .call false (.send [4]), .call false .shutdown,
    .handleEvent POLLOUT (.failed 0) [] []]

theorem writeFirst_not_graceful :
    (∀ s ∈ writeFirst, OneThread false s) ∧
      Legal (step Buffer.zeroAlloc) Possible
        (established Buffer.zeroAlloc twoAtATime () false false 64) writeFirst ∧
      ¬ (writeFirst.foldl (step Buffer.zeroAlloc)
        (established Buffer.zeroAlloc twoAtATime () false false 64)).Graceful := by
  refine ⟨by decide, by decide +kernel, fun h => ?_⟩
  exact absurd ((h (by decide +kernel)).1 (by decide +kernel)).2 (by decide +kernel)

end LoopConnection

end MyTinyHttpd
