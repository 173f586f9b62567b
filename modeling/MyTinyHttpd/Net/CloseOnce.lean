import MyTinyHttpd.Net.ClosedWatch

/-!
# How often a connection is closed

`HandleClose` asserts that the connection is open. It is entered from the hang-up branch and the
read branch of an event and from `ForceCloseInLoop`, which looks at the state first.

* `handleEvent_closings`: what one event adds to the closings of a connection.
* `ClosesTwice`: an event whose two branches both close the connection, a hang-up that comes with
  urgent data.
* `Reopens`: a step that leaves a closed connection in the epoll set, by the calls that are made in
  it and the registration before it.
* `closedOnce_iff`: in a run and in all runs that go off from it with one more step, `HandleClose`
  is only entered in an open state and its callbacks run at most once, exactly when no step of the
  run is one of the two.
-/

namespace MyTinyHttpd

open Verif

namespace LoopConnection

variable {γ : Type} (alloc : Allocator) {c : LoopConnection γ}

/-! ## The closings of a connection -/

def isClosing : LoopEvent → Bool
  | .handleClose _ | .connectionDown | .closeCallback => true
  | _ => false

/-- What `HandleClose` has left in the log. -/
def closings (log : List LoopEvent) : List LoopEvent := log.filter isClosing

/-- `HandleClose`, entered in the state `s`. -/
def closing (s : ConnState) : List LoopEvent := [.handleClose s, .connectionDown, .closeCallback]

@[simp] theorem closings_append (l l' : List LoopEvent) :
    closings (l ++ l') = closings l ++ closings l' := List.filter_append l l'

@[simp] theorem closings_callLog (inLoop : Bool) (k : Call) : closings (callLog inLoop k) = [] := by
  cases inLoop <;> cases k <;> rfl

@[simp] theorem closings_calls (inLoop : Bool) (ks : List Call) :
    closings (ks.flatMap (callLog inLoop)) = [] := by
  induction ks with
  | nil => rfl
  | cons k ks ih => rw [List.flatMap_cons, closings_append, ih, closings_callLog]; rfl

@[simp] theorem handleClose_closings (c : LoopConnection γ) (onDown : List Call) :
    closings (c.handleClose alloc onDown).log = closings c.log ++ closing c.conn.state := by
  have h : ∀ (e e' : LoopEvent) (l : List LoopEvent), e :: e' :: l = [e, e'] ++ l :=
    fun _ _ _ => rfl
  rw [handleClose_log, closings_append, h, closings_append, closings_append, closings_calls]
  rfl

/-- The states in which an event enters `HandleClose`. -/
def eventCloses (s : ConnState) (hangsUp endsRead : Bool) : List ConnState :=
  (if hangsUp then [s] else []) ++
    (if endsRead then [if hangsUp then .kDisconnected else s] else [])

/-- `POLLHUP` without `POLLIN`. -/
def hangsUp (revents : BitVec 32) : Bool := hasEvent revents POLLHUP && !hasEvent revents POLLIN

/-- `readv` returns 0. -/
def atEnd : ReadvResult → Bool
  | .filled [] => true
  | _ => false

/-- `readv` returns a positive number. -/
def hasData : ReadvResult → Bool
  | .filled (_ :: _) => true
  | _ => false

/-- The event reads, and finds the end of the stream. -/
def endsRead (revents : BitVec 32) (readv : ReadvResult) : Bool :=
  hasEvent revents (POLLIN ||| POLLPRI ||| POLLRDHUP) && atEnd readv

/-- `HandleRead` by the result of the read. -/
theorem handleRead_cases (c : LoopConnection γ) (readv : ReadvResult)
    (onMessage onDown : List Call) :
    ∃ inputBuffer, c.handleRead alloc readv onMessage onDown =
      let c := { c with conn := { c.conn with inputBuffer } }
      match readv with
      | .failed _ => c
      | .filled [] => c.handleClose alloc onDown
      | .filled (_ :: _) => onMessage.foldl (call alloc true) c := by
  refine ⟨(c.conn.inputBuffer.readFromFd alloc readv).1, ?_⟩
  cases readv with
  | failed errno => rfl
  | filled bytes =>
    have hn : (c.conn.inputBuffer.readFromFd alloc (.filled bytes)).2.1 = bytes.length := by
      simp only [Buffer.readFromFd]
      split <;> rfl
    simp only [handleRead, hn]
    cases bytes with
    | nil => rfl
    | cons b bytes =>
      rw [if_pos (by simp only [List.length_cons]; omega)]

/-- The closings and the state after `HandleRead`. -/
theorem handleRead_closings (c : LoopConnection γ) (readv : ReadvResult)
    (onMessage onDown : List Call) :
    closings (c.handleRead alloc readv onMessage onDown).log =
        closings c.log ++ (if atEnd readv then closing c.conn.state else []) ∧
      (atEnd readv = true →
        (c.handleRead alloc readv onMessage onDown).conn.state = .kDisconnected) ∧
      (atEnd readv = false →
        ∃ ks : List Call, (c.handleRead alloc readv onMessage onDown).conn.state =
          ks.foldl nextState c.conn.state) := by
  obtain ⟨inputBuffer, h⟩ := handleRead_cases alloc c readv onMessage onDown
  rw [h]
  cases readv with
  | failed errno => exact ⟨by simp [atEnd], by simp [atEnd], fun _ => ⟨[], rfl⟩⟩
  | filled bytes =>
    cases bytes with
    | nil => simp [atEnd]
    | cons b bytes => exact ⟨by simp [atEnd], by simp [atEnd], fun _ => ⟨onMessage, by simp⟩⟩

/-- **The closings and the state after an event.** -/
theorem handleEvent_closings (c : LoopConnection γ) (revents : BitVec 32) (readv : ReadvResult)
    (onMessage onDown : List Call) :
    closings (c.handleEvent alloc revents readv onMessage onDown).log =
        closings c.log ++
          (eventCloses c.conn.state (hangsUp revents) (endsRead revents readv)).flatMap closing ∧
      ((hangsUp revents || endsRead revents readv) = true →
        (c.handleEvent alloc revents readv onMessage onDown).conn.state = .kDisconnected) ∧
      ((hangsUp revents || endsRead revents readv) = false →
        ∃ ks : List Call, (c.handleEvent alloc revents readv onMessage onDown).conn.state =
          ks.foldl nextState c.conn.state) := by
  -- The write branch closes nothing.
  have hwrite : ∀ (b : Bool) (c' : LoopConnection γ),
      closings (if b = true then c'.handleWrite else c').log = closings c'.log ∧
        (if b = true then c'.handleWrite else c').conn.state = c'.conn.state := by
    intro b c'
    cases b
    · exact ⟨rfl, rfl⟩
    · exact ⟨by simp, by simp⟩
  simp only [handleEvent, hwrite]
  unfold endsRead eventCloses
  have hclosed : (c.handleClose alloc onDown).conn.state = .kDisconnected :=
    handleClose_state alloc c onDown
  cases hhup : hangsUp revents <;> unfold hangsUp at hhup <;> rw [hhup] <;>
    cases hasEvent revents (POLLIN ||| POLLPRI ||| POLLRDHUP)
  · exact ⟨by simp, by simp, fun _ => ⟨[], rfl⟩⟩
  · obtain ⟨hlog, hend, hmore⟩ := handleRead_closings alloc c readv onMessage onDown
    simp only [Bool.false_eq_true, ↓reduceIte, Bool.false_or, Bool.true_and]
    refine ⟨?_, hend, hmore⟩
    rw [hlog]
    cases atEnd readv <;> simp
  · simp
  · obtain ⟨hlog, hend, hmore⟩ :=
      handleRead_closings alloc (c.handleClose alloc onDown) readv onMessage onDown
    simp only [↓reduceIte, Bool.true_or, Bool.true_and, forall_const, Bool.true_eq_false,
      IsEmpty.forall_iff, and_true]
    constructor
    · rw [hlog, hclosed, handleClose_closings]
      cases atEnd readv <;> simp
    · cases hatEnd : atEnd readv with
      | true => exact hend hatEnd
      | false =>
        obtain ⟨ks, hks⟩ := hmore hatEnd
        rw [hks, hclosed, calls_closed]

/-! ## Closed once -/

/-- `HandleClose` has only been entered in an open state, and its callbacks have run at most
once. -/
def ClosedOnce (c : LoopConnection γ) : Prop :=
  (∀ s, .handleClose s ∈ c.log → IsOpen s) ∧ c.log.count .connectionDown ≤ 1 ∧
    c.log.count .closeCallback ≤ 1

/-- The connection is open and has not been closed, or it has been closed once. -/
def CloseInv (c : LoopConnection γ) : Prop :=
  (IsOpen c.conn.state ∧ closings c.log = []) ∨
    (c.conn.state = .kDisconnected ∧ ∃ s, IsOpen s ∧ closings c.log = closing s)

theorem mem_closings {l : List LoopEvent} {e : LoopEvent} (he : isClosing e = true) :
    e ∈ l ↔ e ∈ closings l := by
  simp [closings, he]

theorem count_closings {l : List LoopEvent} {e : LoopEvent} (he : isClosing e = true) :
    l.count e = (closings l).count e := (List.count_filter he).symm

theorem CloseInv.closedOnce (h : c.CloseInv) : c.ClosedOnce := by
  have hmem : ∀ s, .handleClose s ∈ c.log ↔ .handleClose s ∈ LoopConnection.closings c.log :=
    fun _ => mem_closings rfl
  have hdown := count_closings (l := c.log) (e := .connectionDown) rfl
  have hcb := count_closings (l := c.log) (e := .closeCallback) rfl
  unfold ClosedOnce
  rw [hdown, hcb]
  simp only [hmem]
  rcases h with ⟨-, hnil⟩ | ⟨-, s, hs, hone⟩
  · simp [hnil]
  · rw [hone]
    refine ⟨fun s' hs' => ?_, by simp [closing], by simp [closing]⟩
    simp only [closing, List.mem_cons, LoopEvent.handleClose.injEq, reduceCtorEq, or_false,
      List.not_mem_nil] at hs'
    exact hs' ▸ hs

/-- Entering `HandleClose` in `kDisconnected` stays in the log. -/
theorem not_closedOnce_of_closings {l : List LoopEvent}
    (h : closings c.log = l ++ closing .kDisconnected) : ¬ c.ClosedOnce := by
  rintro ⟨hopen, -, -⟩
  have hmem : .handleClose .kDisconnected ∈ c.log := by
    rw [mem_closings rfl, h]
    simp [closing]
  exact absurd (hopen _ hmem) (by decide)

theorem CloseInv.keep {c' : LoopConnection γ} (h : c.CloseInv)
    (hlog : closings c'.log = closings c.log)
    (hstate : ∃ ks : List Call, c'.conn.state = ks.foldl nextState c.conn.state) :
    c'.CloseInv := by
  obtain ⟨ks, hks⟩ := hstate
  unfold CloseInv
  rw [hlog, hks]
  rcases h with ⟨hopen, hnil⟩ | ⟨hclosed, hone⟩
  · exact .inl ⟨calls_isOpen hopen ks, hnil⟩
  · rw [hclosed, calls_closed]
    exact .inr ⟨rfl, hone⟩

theorem CloseInv.closes {c' : LoopConnection γ} (h : c.CloseInv)
    (hne : c.conn.state ≠ .kDisconnected)
    (hlog : closings c'.log = closings c.log ++ closing c.conn.state)
    (hstate : c'.conn.state = .kDisconnected) : c'.CloseInv := by
  rcases h with ⟨hopen, hnil⟩ | ⟨hclosed, -⟩
  · exact .inr ⟨hstate, _, hopen, by rw [hlog, hnil]; rfl⟩
  · exact absurd hclosed hne

theorem perform_closeInv (h : c.CloseInv) (onDown : List Call) (task : Task) :
    (c.perform alloc onDown task).CloseInv := by
  cases task with
  | sendInLoop message => exact h.keep (by simp [perform]) ⟨[], by simp [perform]⟩
  | shutdownInLoop => exact h.keep (by simp [perform]) ⟨[], by simp [perform]⟩
  | startReadInLoop =>
    exact h.keep (by simp [perform, closings, isClosing]) ⟨[], by simp [perform]⟩
  | stopReadInLoop =>
    exact h.keep (by simp [perform, closings, isClosing]) ⟨[], by simp [perform]⟩
  | callback f => exact h
  | forceCloseInLoop =>
    simp only [perform, forceCloseInLoop]
    split
    · rename_i hopen
      have hne : c.conn.state ≠ .kDisconnected := by rcases hopen with hs | hs <;> simp [hs]
      exact h.closes hne (by simp) (by simp)
    · exact h

theorem runFunctor_closeInv (h : c.CloseInv) (onDown : List Call) :
    (c.runFunctor alloc onDown).CloseInv := by
  unfold runFunctor
  split
  · exact h
  · rename_i task queue _
    have hqueue : CloseInv { c with queue } := h
    exact perform_closeInv alloc hqueue onDown task

/-- An event that closes at most once, in an open connection. -/
theorem handleEvent_closeInv (h : c.CloseInv) (hne : c.conn.state ≠ .kDisconnected)
    {revents : BitVec 32} {readv : ReadvResult}
    (honce : ¬ (hangsUp revents = true ∧ endsRead revents readv = true))
    (onMessage onDown : List Call) :
    (c.handleEvent alloc revents readv onMessage onDown).CloseInv := by
  obtain ⟨hlog, hclose, hkeep⟩ := handleEvent_closings alloc c revents readv onMessage onDown
  cases hhup : hangsUp revents <;> cases hend : endsRead revents readv <;>
    rw [hhup, hend] at hlog honce hclose hkeep
  · exact h.keep (hlog.trans (List.append_nil _)) (hkeep rfl)
  · exact h.closes hne hlog (hclose rfl)
  · exact h.closes hne hlog (hclose rfl)
  · exact absurd ⟨rfl, rfl⟩ honce

theorem established_closeInv (answers : Nat → WriteResult) (context : γ) (wc hwm : Bool)
    (mark : Nat) : (established alloc answers context wc hwm mark).CloseInv := .inl ⟨.inl rfl, rfl⟩

/-! ## What closes a connection a second time -/

/-- The hang-up branch and the read branch of the event both enter `HandleClose`. -/
def ClosesTwice : LoopStep → Prop
  | .handleEvent revents readv _ _ => hangsUp revents = true ∧ endsRead revents readv = true
  | .call _ _ | .runFunctor _ => False

/-- The calls that the callbacks make after an event has closed the connection. A hang-up with
urgent data goes on with the read, and so with the message callback. -/
def callsAfterClose (revents : BitVec 32) (readv : ReadvResult) (onMessage onDown : List Call) :
    List Call :=
  if hangsUp revents && hasEvent revents (POLLIN ||| POLLPRI ||| POLLRDHUP) && hasData readv then
    onDown ++ onMessage
  else onDown

/-- A functor leaves a closed connection in the epoll set: it closes the connection while the
channel has no events, or it is `StartReadInLoop` or `StopReadInLoop` after the close. -/
def ReopensIn (c : LoopConnection γ) (onDown : List Call) : Task → Prop
  | .startReadInLoop => c.conn.state = .kDisconnected
  | .stopReadInLoop => c.conn.state = .kDisconnected ∧ c.isReading = true
  | .forceCloseInLoop =>
    c.conn.state ≠ .kDisconnected ∧ reopened c.isReading c.conn.channel.isNoneEvent onDown = true
  | .sendInLoop _ | .shutdownInLoop | .callback _ => False

/-- The step leaves a closed connection in the epoll set. -/
def Reopens (c : LoopConnection γ) : LoopStep → Prop
  | .call inLoop k =>
    c.conn.state = .kDisconnected ∧ inLoop = true ∧ reopened c.isReading false [k] = true
  | .runFunctor onDown => ∃ task ∈ c.queue.head?, c.ReopensIn onDown task
  | .handleEvent revents readv onMessage onDown =>
    (hangsUp revents = true ∨ endsRead revents readv = true) ∧
      reopened c.isReading false (callsAfterClose revents readv onMessage onDown) = true

instance (s : LoopStep) : Decidable (ClosesTwice s) :=
  match s with
  | .handleEvent revents readv _ _ =>
    inferInstanceAs (Decidable (hangsUp revents = true ∧ endsRead revents readv = true))
  | .call _ _ => isFalse id
  | .runFunctor _ => isFalse id

instance (c : LoopConnection γ) (onDown : List Call) : DecidablePred (c.ReopensIn onDown)
  | .startReadInLoop => inferInstanceAs (Decidable (c.conn.state = .kDisconnected))
  | .stopReadInLoop =>
    inferInstanceAs (Decidable (c.conn.state = .kDisconnected ∧ c.isReading = true))
  | .forceCloseInLoop => inferInstanceAs (Decidable (c.conn.state ≠ .kDisconnected ∧
      reopened c.isReading c.conn.channel.isNoneEvent onDown = true))
  | .sendInLoop _ => isFalse id
  | .shutdownInLoop => isFalse id
  | .callback _ => isFalse id

instance (c : LoopConnection γ) (s : LoopStep) : Decidable (c.Reopens s) :=
  match s with
  | .call inLoop k => inferInstanceAs (Decidable (
    c.conn.state = .kDisconnected ∧ inLoop = true ∧ reopened c.isReading false [k] = true))
  | .runFunctor onDown =>
    inferInstanceAs (Decidable (∃ task ∈ c.queue.head?, c.ReopensIn onDown task))
  | .handleEvent revents readv onMessage onDown => inferInstanceAs (Decidable (
    (hangsUp revents = true ∨ endsRead revents readv = true) ∧
      reopened c.isReading false (callsAfterClose revents readv onMessage onDown) = true))

/-- The connection is closed, and its channel is in the epoll set exactly when `reopens`. -/
def Left (c : LoopConnection γ) (reopens : Prop) : Prop :=
  ∃ w, c.ClosedAs w ∧ (reopens ↔ w.added = true) ∧ (w.reads = true → w.added = true)

theorem ClosedAs.left {reading noEvents : Bool} {calls : List Call}
    (h : c.ClosedAs (calls.foldl Watch.call ⟨reading, false, noEvents⟩))
    (hmask : (reading && noEvents) = false) : c.Left (reopened reading noEvents calls = true) := by
  have hadded := foldl_call_added hmask calls
  refine ⟨_, h, by rw [hadded], fun hreads => ?_⟩
  rw [hadded]
  by_contra hnot
  rw [foldl_call_reads hmask (by simpa using hnot)] at hreads
  cases hreads

theorem Left.congr {reopens reopens' : Prop} (h : c.Left reopens) (hiff : reopens ↔ reopens') :
    c.Left reopens' :=
  propext hiff ▸ h

/-- Nothing is left of a closed connection but `is_reading_`. -/
theorem Left.closedAs (h : c.Left False) : c.ClosedAs ⟨c.isReading, false, false⟩ := by
  obtain ⟨⟨reading, reads, added⟩, hclosed, hadded, hreads⟩ := h
  obtain rfl : added = false := by simpa using hadded
  obtain rfl : reads = false := by simpa using hreads
  exact hclosed.isReading ▸ hclosed

/-- Closed at most once so far, and a closed connection is out of the epoll set. -/
structure Quiet (c : LoopConnection γ) : Prop where
  closeInv : c.CloseInv
  watched : c.conn.state ≠ .kDisconnected → c.Watched
  left : c.conn.state = .kDisconnected → c.Left False

/-- The kernel reports no events for a connection that is closed. -/
theorem Quiet.open_of_reported (h : c.Quiet) {revents : BitVec 32}
    (hr : c.poller.Reported revents) : c.conn.state ≠ .kDisconnected := by
  intro hs
  have hpoller := (h.left hs).closedAs.poller
  simp [Registration.Reported, hpoller] at hr

theorem Watched.isNoneEvent_of_reported (h : c.Watched) {revents : BitVec 32}
    (hr : c.poller.Reported revents) : c.conn.channel.isNoneEvent = false := by
  cases hnone : c.conn.channel.isNoneEvent
  · rfl
  · simp [Registration.Reported, h.poller, Registration.watching, hnone] at hr

/-- A mask without events has no read events. -/
theorem Watched.isReading_and_isNoneEvent (h : c.Watched) :
    (c.isReading && c.conn.channel.isNoneEvent) = false := by
  cases hnone : c.conn.channel.isNoneEvent
  · simp
  · rw [h.isReading, Channel.isReading_of_isNoneEvent hnone]
    rfl

/-! ### What a step leaves of a closed connection -/

theorem call_left (h : c.Left False) (inLoop : Bool) (k : Call) :
    (c.call alloc inLoop k).Left (c.Reopens (.call inLoop k)) := by
  have hclosed := h.closedAs
  cases inLoop with
  | true =>
    have hcall : (c.call alloc true k).ClosedAs
        ([k].foldl Watch.call ⟨c.isReading, false, false⟩) := hclosed.call alloc k
    exact (hcall.left (Bool.and_false _)).congr (by simp [Reopens, hclosed.state])
  | false =>
    refine ⟨_, hclosed.callOutside alloc k, ?_, id⟩
    simp [Reopens]

theorem perform_left (h : c.Left False) (onDown : List Call) (task : Task) :
    (c.perform alloc onDown task).Left (c.ReopensIn onDown task) := by
  have hclosed := h.closedAs
  have hs := hclosed.state
  cases task with
  | sendInLoop message =>
    have hsend := TcpConnection.sendInLoop_closed alloc hs message
    have hsame : (c.perform alloc onDown (.sendInLoop message)).ClosedAs
        ⟨c.isReading, false, false⟩ := hclosed.adopt (by rw [hsend]) (by rw [hsend])
    exact ⟨_, hsame, by simp [ReopensIn], id⟩
  | shutdownInLoop =>
    have hsame : (c.perform alloc onDown .shutdownInLoop).ClosedAs
        ⟨c.isReading, false, false⟩ :=
      hclosed.adopt (TcpConnection.shutdownInLoop_state _)
        (TcpConnection.shutdownInLoop_channel _)
    exact ⟨_, hsame, by simp [ReopensIn], id⟩
  | startReadInLoop =>
    have hcall : c.startReadInLoop.ClosedAs
        ([.startRead].foldl Watch.call ⟨c.isReading, false, false⟩) := hclosed.startReadInLoop
    exact (hcall.left (Bool.and_false _)).congr (by simp [ReopensIn, hs, reopened, Call.isRead])
  | stopReadInLoop =>
    have hcall : c.stopReadInLoop.ClosedAs
        ([.stopRead].foldl Watch.call ⟨c.isReading, false, false⟩) := hclosed.stopReadInLoop
    exact (hcall.left (Bool.and_false _)).congr (by simp [ReopensIn, hs, reopened, Call.isRead])
  | callback f => exact h.congr (by simp [ReopensIn])
  | forceCloseInLoop =>
    have hsame : c.perform alloc onDown .forceCloseInLoop = c := by
      simp [perform, forceCloseInLoop, hs]
    rw [hsame]
    exact h.congr (by simp [ReopensIn, hs])

/-- What a step does to the registration: the connection is still open, or it is closed, and in the
epoll set exactly when `reopens`. -/
def Ends (c : LoopConnection γ) (reopens : Prop) : Prop :=
  c.conn.state ≠ .kDisconnected ∧ ¬ reopens ∨ c.Left reopens

theorem IsOpen.ne {s : ConnState} (h : IsOpen s) : s ≠ .kDisconnected := by
  rcases h with rfl | rfl <;> decide

theorem CloseInv.isOpen (h : c.CloseInv) (hne : c.conn.state ≠ .kDisconnected) :
    IsOpen c.conn.state :=
  h.elim And.left fun hclosed => absurd hclosed.1 hne

/-- Of the functors that find the connection open only `ForceCloseInLoop` closes it. -/
theorem perform_ends (hopen : IsOpen c.conn.state) (hw : c.Watched) (onDown : List Call)
    (task : Task) : (c.perform alloc onDown task).Ends (c.ReopensIn onDown task) := by
  have hs := hopen.ne
  cases task with
  | sendInLoop message => exact .inl ⟨by simpa [perform] using hs, id⟩
  | shutdownInLoop => exact .inl ⟨by simpa [perform] using hs, id⟩
  | startReadInLoop => exact .inl ⟨by simpa [perform] using hs, hs⟩
  | stopReadInLoop => exact .inl ⟨by simpa [perform] using hs, fun h => hs h.1⟩
  | callback f => exact .inl ⟨hs, id⟩
  | forceCloseInLoop =>
    have hclose : c.perform alloc onDown .forceCloseInLoop = c.handleClose alloc onDown :=
      if_pos hopen
    rw [hclose]
    exact .inr (((hw.handleClose alloc onDown).left hw.isReading_and_isNoneEvent).congr
      (by simp [ReopensIn, hs]))

theorem runFunctor_ends (h : c.Quiet) (onDown : List Call) :
    (c.runFunctor alloc onDown).Ends (c.Reopens (.runFunctor onDown)) := by
  cases hqueue : c.queue with
  | nil =>
    have hstays : c.runFunctor alloc onDown = c := by rw [runFunctor, hqueue]
    have hnot : ¬ c.Reopens (.runFunctor onDown) := by simp [Reopens, hqueue]
    rw [hstays]
    by_cases hs : c.conn.state = .kDisconnected
    · exact .inr ((h.left hs).congr (by simp [hnot]))
    · exact .inl ⟨hs, hnot⟩
  | cons task queue =>
    have hruns : c.runFunctor alloc onDown =
        LoopConnection.perform alloc { c with queue } onDown task := by rw [runFunctor, hqueue]
    have hiff : ReopensIn { c with queue } onDown task ↔ c.Reopens (.runFunctor onDown) := by
      simp only [Reopens, hqueue, List.head?_cons, Option.mem_def, Option.some.injEq,
        exists_eq_left']
      cases task <;> exact Iff.rfl
    rw [hruns, ← propext hiff]
    by_cases hs : c.conn.state = .kDisconnected
    · have hleft : Left { c with queue } False :=
        (h.left hs).imp fun w hw => ⟨hw.1.frame rfl rfl rfl rfl, hw.2⟩
      exact .inr (perform_left alloc hleft onDown task)
    · have hw : Watched { c with queue } := ⟨(h.watched hs).poller, (h.watched hs).isReading⟩
      have hopen : IsOpen { c with queue }.conn.state := h.closeInv.isOpen hs
      exact perform_ends alloc hopen hw onDown task

/-- The read branch of an event that has closed the connection already. -/
theorem ClosedAs.handleRead {w : Watch} (h : c.ClosedAs w) {readv : ReadvResult}
    (hmore : atEnd readv = false) (onMessage onDown : List Call) :
    (c.handleRead alloc readv onMessage onDown).ClosedAs
      (if hasData readv then onMessage.foldl Watch.call w else w) := by
  obtain ⟨inputBuffer, hread⟩ := handleRead_cases alloc c readv onMessage onDown
  have hinput : ClosedAs { c with conn := { c.conn with inputBuffer } } w :=
    h.frame rfl rfl rfl rfl
  rw [hread]
  match readv, hmore with
  | .failed _, _ => exact hinput
  | .filled (_ :: _), _ => exact hinput.calls alloc onMessage

/-- The read branch of an event that finds the end of the stream. -/
theorem Watched.handleRead (h : c.Watched) {readv : ReadvResult} (hend : atEnd readv = true)
    (onMessage onDown : List Call) :
    (c.handleRead alloc readv onMessage onDown).ClosedAs
      (onDown.foldl Watch.call ⟨c.isReading, false, c.conn.channel.isNoneEvent⟩) := by
  obtain ⟨inputBuffer, hread⟩ := handleRead_cases alloc c readv onMessage onDown
  have hinput : Watched { c with conn := { c.conn with inputBuffer } } := ⟨h.poller, h.isReading⟩
  rw [hread]
  match readv, hend with
  | .filled [], _ => exact hinput.handleClose alloc onDown

/-- An event that closes the connection once. -/
theorem handleEvent_closedAs (hw : c.Watched) (hmask : c.conn.channel.isNoneEvent = false)
    {revents : BitVec 32} {readv : ReadvResult}
    (honce : (hangsUp revents ^^ endsRead revents readv) = true) (onMessage onDown : List Call) :
    (c.handleEvent alloc revents readv onMessage onDown).ClosedAs
      ((callsAfterClose revents readv onMessage onDown).foldl Watch.call
        ⟨c.isReading, false, false⟩) := by
  have hwrite : ∀ {b : Bool} {c' : LoopConnection γ} {w : Watch}, c'.ClosedAs w →
      (if b = true then c'.handleWrite else c').ClosedAs w := by
    intro b c' w h
    cases b
    · exact h
    · exact h.handleWrite
  unfold handleEvent callsAfterClose
  unfold endsRead at honce
  refine hwrite ?_
  cases hhup : hangsUp revents <;> rw [hhup] at honce <;> unfold hangsUp at hhup <;>
    simp only [hhup, Bool.false_eq_true, if_true, if_false, Bool.true_and, Bool.false_and]
  · obtain ⟨hreads, hend⟩ : hasEvent revents (POLLIN ||| POLLPRI ||| POLLRDHUP) = true ∧
        atEnd readv = true := by simpa using honce
    have hread := hw.handleRead alloc hend onMessage onDown
    rw [hmask] at hread
    simpa only [hreads, if_true] using hread
  · have hclose := hw.handleClose alloc onDown
    rw [hmask] at hclose
    cases hreads : hasEvent revents (POLLIN ||| POLLPRI ||| POLLRDHUP) with
    | false => simpa using hclose
    | true =>
      have hread := hclose.handleRead alloc (by simpa [hreads] using honce) onMessage onDown
      simp only [if_true, Bool.true_and]
      cases hdata : hasData readv with
      | false => simpa [hdata] using hread
      | true => simpa [hdata, List.foldl_append] using hread

theorem handleEvent_ends (h : c.Quiet) {revents : BitVec 32} (hr : c.poller.Reported revents)
    {readv : ReadvResult} (honce : ¬ (hangsUp revents = true ∧ endsRead revents readv = true))
    (onMessage onDown : List Call) :
    (c.handleEvent alloc revents readv onMessage onDown).Ends
      (c.Reopens (.handleEvent revents readv onMessage onDown)) := by
  have hs := h.open_of_reported hr
  have hw := h.watched hs
  obtain ⟨-, -, hkeep⟩ := handleEvent_closings alloc c revents readv onMessage onDown
  cases hcloses : hangsUp revents || endsRead revents readv with
  | false =>
    obtain ⟨ks, hks⟩ := hkeep hcloses
    have hopen := calls_isOpen (h.closeInv.isOpen hs) ks
    refine .inl ⟨by rw [hks]; exact hopen.ne, fun hreopens => ?_⟩
    have hnot := Bool.or_eq_true _ _ ▸ hreopens.1
    rw [hcloses] at hnot
    cases hnot
  | true =>
    have hxor : (hangsUp revents ^^ endsRead revents readv) = true := by
      cases hhup : hangsUp revents <;> cases hend : endsRead revents readv <;> simp_all
    have hclosed := handleEvent_closedAs alloc hw (hw.isNoneEvent_of_reported hr) hxor onMessage
      onDown
    refine .inr ((hclosed.left (Bool.and_false _)).congr ?_)
    rw [Bool.or_eq_true] at hcloses
    simp [Reopens, hcloses]

/-- **What a step that does not close twice does to the registration.** -/
theorem step_ends (h : c.Quiet) {s : LoopStep} (hp : c.Possible s) (honce : ¬ ClosesTwice s) :
    (c.step alloc s).Ends (c.Reopens s) := by
  cases s with
  | call inLoop k =>
    by_cases hs : c.conn.state = .kDisconnected
    · exact .inr (call_left alloc (h.left hs) inLoop k)
    · have hopen := nextState_isOpen (h.closeInv.isOpen hs) k
      refine .inl ⟨?_, fun hreopens => hs hreopens.1⟩
      rw [step, call_state]
      exact hopen.ne
  | runFunctor onDown => exact runFunctor_ends alloc h onDown
  | handleEvent revents readv onMessage onDown =>
    exact handleEvent_ends alloc h hp honce onMessage onDown

theorem step_closeInv (h : c.Quiet) {s : LoopStep} (hp : c.Possible s) (honce : ¬ ClosesTwice s) :
    (c.step alloc s).CloseInv := by
  cases s with
  | call inLoop k => exact h.closeInv.keep (by simp [step]) ⟨[k], by simp [step]⟩
  | runFunctor onDown => exact runFunctor_closeInv alloc h.closeInv onDown
  | handleEvent revents readv onMessage onDown =>
    exact handleEvent_closeInv alloc h.closeInv (h.open_of_reported hp) honce onMessage onDown

/-! ## Runs -/

/-- The connection has been closed at most once, and no step that comes next closes it a second
time, an event that closes twice apart. -/
def StaysClosedOnce (c : LoopConnection γ) : Prop :=
  c.ClosedOnce ∧ ∀ s, c.Possible s → ¬ ClosesTwice s → (c.step alloc s).ClosedOnce

theorem Quiet.staysClosedOnce (h : c.Quiet) : c.StaysClosedOnce alloc :=
  ⟨h.closeInv.closedOnce, fun _ hp honce => (step_closeInv alloc h hp honce).closedOnce⟩

theorem step_quiet (h : c.Quiet) {s : LoopStep} (hp : c.Possible s) (honce : ¬ ClosesTwice s)
    (hstays : ¬ c.Reopens s) : (c.step alloc s).Quiet := by
  refine ⟨step_closeInv alloc h hp honce, (watched_kept alloc).step s h.watched, fun hs => ?_⟩
  rcases step_ends alloc h hp honce with ⟨hopen, -⟩ | hleft
  · exact absurd hs hopen
  · exact hleft.congr (iff_false_intro hstays)

theorem step_closesTwice {s : LoopStep} (htwice : ClosesTwice s) :
    ¬ (c.step alloc s).ClosedOnce := by
  cases s with
  | call inLoop k => exact htwice.elim
  | runFunctor onDown => exact htwice.elim
  | handleEvent revents readv onMessage onDown =>
    obtain ⟨hlog, -, -⟩ := handleEvent_closings alloc c revents readv onMessage onDown
    rw [htwice.1, htwice.2, eventCloses, List.flatMap_append, ← List.append_assoc] at hlog
    exact not_closedOnce_of_closings hlog

/-- A closed connection in the epoll set may get a hang-up. -/
theorem Left.not_staysClosedOnce {reopens : Prop} (h : c.Left reopens) (hreopens : reopens) :
    ¬ c.StaysClosedOnce alloc := by
  obtain ⟨w, hclosed, hadded, -⟩ := h
  intro hstays
  have hinterest : c.poller.interest = some c.conn.channel.events := by
    rw [hclosed.poller, if_pos (hadded.mp hreopens)]
  have honce := hstays.2 (.handleEvent POLLHUP (.failed 0) [] [])
    (Registration.reported_hup hinterest) (by decide)
  obtain ⟨hlog, -, -⟩ := handleEvent_closings alloc c POLLHUP (.failed 0) [] []
  rw [hclosed.state] at hlog
  exact not_closedOnce_of_closings hlog honce

theorem step_not_staysClosedOnce (h : c.Quiet) {s : LoopStep} (hp : c.Possible s)
    (hbad : ClosesTwice s ∨ c.Reopens s) : ¬ (c.step alloc s).StaysClosedOnce alloc := by
  by_cases htwice : ClosesTwice s
  · exact fun hstays => step_closesTwice alloc htwice hstays.1
  · have hreopens := hbad.resolve_left htwice
    rcases step_ends alloc h hp htwice with ⟨-, hnot⟩ | hleft
    · exact absurd hreopens hnot
    · exact hleft.not_staysClosedOnce alloc hreopens

theorem established_quiet (answers : Nat → WriteResult) (context : γ) (wc hwm : Bool)
    (mark : Nat) : (established alloc answers context wc hwm mark).Quiet where
  closeInv := established_closeInv alloc answers context wc hwm mark
  watched _ := established_watched alloc answers context wc hwm mark
  left hs := ConnState.noConfusion hs

/-- **How often a connection is closed.** In every run of an established connection, with any
events that the kernel may report, any read results, calls from any thread and any callbacks, these
are the same:

* at every point of the run `HandleClose` has only been entered in `kConnected` or `kDisconnecting`
  and the down callback and the close callback have run at most once, and both still holds after
  whatever step comes next there, an event that closes twice apart;
* no event of the run closes twice, and no step leaves a closed connection in the epoll set. -/
theorem closedOnce_iff (answers : Nat → WriteResult) (context : γ) (wc hwm : Bool) (mark : Nat)
    (steps : List LoopStep)
    (hp : Legal (step alloc) Possible (established alloc answers context wc hwm mark) steps) :
    (∀ pre post, steps = pre ++ post →
        (pre.foldl (step alloc)
          (established alloc answers context wc hwm mark)).StaysClosedOnce alloc) ↔
      ∀ pre s post, steps = pre ++ s :: post → ¬ (ClosesTwice s ∨
        (pre.foldl (step alloc) (established alloc answers context wc hwm mark)).Reopens s) :=
  safe_iff (I := Quiet) (fun _ h => h.staysClosedOnce alloc)
    (fun _ _ h hp hgood => step_quiet alloc h hp (fun h => hgood (.inl h)) fun h => hgood (.inr h))
    (fun _ _ h hp hbad => step_not_staysClosedOnce alloc h hp hbad)
    (established_quiet alloc answers context wc hwm mark) hp

/-- A kernel that takes nothing. -/
def fullSocket : Nat → WriteResult := fun _ => .failed EWOULDBLOCK

/-- Reading is stopped and goes on, a message is answered, and the stream ends. The callbacks of the
close call `StartRead` and `StopRead`, and `ForceClose` and `Send` come too late. -/
def readThenEnd : List LoopStep :=
  [.call true .stopRead, .call false .startRead, .runFunctor [],
    .handleEvent POLLIN (.filled [1]) [.send [2]] [],
    .handleEvent POLLIN (.filled []) [] [.startRead, .stopRead],
    .call false .forceClose, .call true (.send [3]), .runFunctor []]

theorem readThenEnd_closedOnce :
    let c := established Buffer.zeroAlloc fullSocket () true true 4
    Legal (step Buffer.zeroAlloc) Possible c readThenEnd ∧
      (readThenEnd.foldl (step Buffer.zeroAlloc) c).conn.state = .kDisconnected ∧
      (readThenEnd.foldl (step Buffer.zeroAlloc) c).StaysClosedOnce Buffer.zeroAlloc := by
  intro c
  have hp : Legal (step Buffer.zeroAlloc) Possible c readThenEnd := by decide +kernel
  have hgood : Legal (step Buffer.zeroAlloc) (fun c s => ¬ (ClosesTwice s ∨ c.Reopens s)) c
      readThenEnd := by decide +kernel
  refine ⟨hp, by decide +kernel, ?_⟩
  exact (closedOnce_iff Buffer.zeroAlloc fullSocket () true true 4 readThenEnd hp).mpr
    (legal_iff.mp hgood) readThenEnd [] (List.append_nil _).symm

/-- `StopRead`, then `ForceClose`: when `ForceCloseInLoop` closes the connection, `DisableAll` adds
the channel to the epoll set again, and a hang-up closes the connection a second time. -/
def stoppedThenForced : List LoopStep :=
  [.call true .stopRead, .call true .forceClose, .runFunctor [],
    .handleEvent POLLHUP (.failed 0) [] []]

theorem stoppedThenForced_closes_again :
    Legal (step Buffer.zeroAlloc) Possible (established Buffer.zeroAlloc fullSocket () true true 4)
        stoppedThenForced ∧
      ¬ (stoppedThenForced.foldl (step Buffer.zeroAlloc)
        (established Buffer.zeroAlloc fullSocket () true true 4)).ClosedOnce := by
  refine ⟨by decide +kernel, ?_⟩
  rintro ⟨hopen, -, -⟩
  exact absurd (hopen .kDisconnected (by decide +kernel)) (by decide)

end LoopConnection

end MyTinyHttpd
