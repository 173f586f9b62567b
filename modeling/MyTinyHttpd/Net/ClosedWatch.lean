import MyTinyHttpd.Net.LoopLemmas

/-!
# A closed connection and the epoll set

`DisableAll()` in `HandleClose` takes a channel that has events out of the epoll set. For a channel
without events `UpdateChannel` does the opposite: it was deleted before, and is added again with an
empty mask, for which the kernel still reports hang-ups. After the close `StartRead` and `StopRead`
go on changing the registration, since they do not look at `state_`.

* `Watched`: as long as a connection is open, its channel is in the epoll set exactly when it has
  events.
* `Watch`: all that calls change of a closed connection. `ClosedAs` connects it with the model.
* `reopened`: whether the calls after a close leave the channel in the epoll set, by the last of
  them; `foldl_call` connects it with `Watch`.
-/

namespace MyTinyHttpd

open Verif

/-! ## The masks -/

namespace Channel

variable (ch : Channel)

@[simp] theorem isReading_enableReading : ch.enableReading.isReading = true := by
  have h : (ch.events ||| kReadEvent) &&& kReadEvent = kReadEvent := by grind
  simp only [isReading, enableReading, h]
  decide

@[simp] theorem isReading_disableReading : ch.disableReading.isReading = false := by
  have h : (ch.events &&& ~~~kReadEvent) &&& kReadEvent = 0 := by grind
  simp [isReading, disableReading, h]

@[simp] theorem isReading_enableWriting : ch.enableWriting.isReading = ch.isReading := by
  have hdisjoint : kWriteEvent &&& kReadEvent = 0 := by decide
  have h : (ch.events ||| kWriteEvent) &&& kReadEvent =
      (ch.events &&& kReadEvent) ||| (kWriteEvent &&& kReadEvent) := by grind
  simp [isReading, enableWriting, h, hdisjoint]

@[simp] theorem isReading_disableWriting : ch.disableWriting.isReading = ch.isReading := by
  have hdisjoint : ~~~kWriteEvent &&& kReadEvent = kReadEvent := by decide
  simp only [isReading, disableWriting, BitVec.and_assoc, hdisjoint]

theorem isReading_of_isNoneEvent {ch : Channel} (h : ch.isNoneEvent = true) :
    ch.isReading = false := by
  have hzero : ch.events = 0 := by simpa [isNoneEvent, kNoneEvent] using h
  simp [isReading, hzero]

end Channel

namespace Registration

/-- A channel that has events is in the epoll set, and one without is not. -/
def watching (ch : Channel) : Registration :=
  if ch.isNoneEvent then { status := .kDeleted } else { status := .kAdded, interest := ch.events }

/-- `UpdateChannel` keeps it so when the mask changes. -/
theorem updateChannel_watching {old new : Channel} (h : new.events ≠ old.events) :
    (watching old).updateChannel new = watching new := by
  by_cases hold : old.isNoneEvent = true
  · have hzero : old.events = Channel.kNoneEvent := by simpa [Channel.isNoneEvent] using hold
    have hnew : new.isNoneEvent = false := by simpa [Channel.isNoneEvent, hzero] using h
    simp [watching, updateChannel, hold, hnew]
  · simp only [watching, if_neg hold, updateChannel]

/-- A channel in the epoll set may always get a hang-up. -/
theorem reported_hup {p : Registration} {events : BitVec 32} (h : p.interest = some events) :
    p.Reported POLLHUP := by
  have hmask : POLLHUP &&& ~~~(events ||| POLLERR ||| POLLHUP) = 0 := by grind
  simpa [Reported, h] using hmask

end Registration

namespace LoopConnection

variable {γ : Type} (alloc : Allocator) {c : LoopConnection γ}

/-! ## Open connections -/

/-- The registration is that of the mask, and `is_reading_` is right. -/
structure Watched (c : LoopConnection γ) : Prop where
  poller : c.poller = Registration.watching c.conn.channel
  isReading : c.isReading = c.conn.channel.isReading

theorem Watched.adopt (h : c.Watched) {conn : TcpConnection γ}
    (hreading : conn.channel.isReading = c.conn.channel.isReading) : (c.adopt conn).Watched := by
  obtain ⟨poller, heq⟩ := adopt_eq c conn
  refine ⟨?_, ?_⟩
  · rw [adopt_poller, adopt_channel]
    split
    · rename_i hsame
      rw [h.poller, Registration.watching, Registration.watching, Channel.isNoneEvent,
        Channel.isNoneEvent, hsame]
    · rename_i hchanged
      rw [h.poller, Registration.updateChannel_watching hchanged]
  · rw [adopt_channel, hreading, ← h.isReading, heq]

theorem Watched.switchRead (h : c.Watched) (on : Bool) : (c.switchRead on).Watched := by
  have hmask : ∀ {ch ch' : Channel}, ch.isReading ≠ ch'.isReading → ch.events ≠ ch'.events :=
    fun hne heq => hne (by rw [Channel.isReading, heq]; rfl)
  cases on with
  | true =>
    simp only [LoopConnection.switchRead, cond_true, startReadInLoop]
    split
    · rename_i hoff
      have hnot : c.conn.channel.isReading = false :=
        hoff.elim (fun hoff => h.isReading.symm.trans hoff) id
      refine ⟨?_, (Channel.isReading_enableReading _).symm⟩
      have hchanged : c.conn.channel.enableReading.events ≠ c.conn.channel.events :=
        hmask (by simp [hnot])
      show c.poller.updateChannel _ = _
      rw [h.poller]
      exact Registration.updateChannel_watching hchanged
    · exact ⟨h.poller, h.isReading⟩
  | false =>
    simp only [LoopConnection.switchRead, cond_false, stopReadInLoop]
    split
    · rename_i hon
      have hreads : c.conn.channel.isReading = true :=
        hon.elim (fun hon => h.isReading.symm.trans hon) id
      refine ⟨?_, (Channel.isReading_disableReading _).symm⟩
      have hchanged : c.conn.channel.disableReading.events ≠ c.conn.channel.events :=
        hmask (by simp [hreads])
      show c.poller.updateChannel _ = _
      rw [h.poller]
      exact Registration.updateChannel_watching hchanged
    · exact ⟨h.poller, h.isReading⟩

theorem sendInLoop_watched (h : c.Watched) (message : List UInt8) :
    (c.sendInLoop alloc message).Watched := by
  refine h.adopt ?_
  rcases TcpConnection.sendInLoop_channel alloc c.conn message with heq | heq <;> simp [heq]

theorem handleWrite_watched (h : c.Watched) : c.handleWrite.Watched := by
  refine h.adopt ?_
  rcases TcpConnection.handleWrite_channel c.conn with heq | heq <;> simp [heq]

/-- While a connection is open, its registration is that of its mask. -/
theorem watched_kept :
    Kept alloc fun c : LoopConnection γ => c.conn.state ≠ .kDisconnected → c.Watched where
  queue _ h hs := ⟨(h hs).poller, (h hs).isReading⟩
  called _ h hs := ⟨(h hs).poller, (h hs).isReading⟩
  disconnecting hopen h _ := by
    have hw := h (by rcases hopen with hs | hs <;> simp [hs])
    exact ⟨hw.poller, hw.isReading⟩
  sendInLoop message h hs := sendInLoop_watched alloc (h (by simpa using hs)) message
  shutdownInLoop h hs :=
    (h (by simpa using hs)).adopt (by rw [TcpConnection.shutdownInLoop_channel])
  handleWrite h hs := handleWrite_watched (h (by simpa using hs))
  startReadInLoop h hs := (h (by simpa using hs)).switchRead true
  stopReadInLoop h hs := (h (by simpa using hs)).switchRead false
  input _ h hs := ⟨(h hs).poller, (h hs).isReading⟩
  close _ hs := absurd rfl hs
  closeCallback h hs := ⟨(h hs).poller, (h hs).isReading⟩

theorem established_watched (answers : Nat → WriteResult) (context : γ) (wc hwm : Bool)
    (mark : Nat) : (established alloc answers context wc hwm mark).Watched := by
  have hadded : ({} : Registration).updateChannel (Channel.enableReading {}) =
      Registration.watching (Channel.enableReading {}) := by decide
  exact ⟨hadded, (Channel.isReading_enableReading {}).symm⟩

/-! ## Closed connections -/

/-- `is_reading_`, whether the mask has the read events, and whether the channel is in the epoll
set. -/
structure Watch where
  isReading : Bool
  reads : Bool
  added : Bool
  deriving DecidableEq

/-- A call in the loop's thread. -/
def Watch.call (w : Watch) : Call → Watch
  | .startRead => if w.isReading && w.reads then w else ⟨true, true, true⟩
  | .stopRead => if w.isReading || w.reads then ⟨false, false, !w.added⟩ else w
  | .send _ | .shutdown | .forceClose => w

/-- The connection is closed, and the rest of it that calls change is `w`. -/
structure ClosedAs (c : LoopConnection γ) (w : Watch) : Prop where
  state : c.conn.state = .kDisconnected
  isReading : c.isReading = w.isReading
  events : c.conn.channel.events = if w.reads then Channel.kReadEvent else Channel.kNoneEvent
  poller : c.poller =
    if w.added then { status := .kAdded, interest := c.conn.channel.events }
    else { status := .kDeleted }

variable {w : Watch}

theorem ClosedAs.frame (h : c.ClosedAs w) {c' : LoopConnection γ}
    (hstate : c'.conn.state = c.conn.state) (hreading : c'.isReading = c.isReading)
    (hchannel : c'.conn.channel = c.conn.channel) (hpoller : c'.poller = c.poller) :
    c'.ClosedAs w :=
  ⟨hstate.trans h.state, hreading.trans h.isReading, by rw [hchannel, h.events],
    by rw [hpoller, hchannel, h.poller]⟩

/-- A member function that leaves the channel alone. -/
theorem ClosedAs.adopt (h : c.ClosedAs w) {conn : TcpConnection γ}
    (hstate : conn.state = c.conn.state) (hchannel : conn.channel = c.conn.channel) :
    (c.adopt conn).ClosedAs w := by
  have hpoller : (c.adopt conn).poller = c.poller := by
    rw [adopt_poller, if_pos (by rw [hchannel])]
  obtain ⟨poller, heq⟩ := adopt_eq c conn
  exact h.frame (by rw [adopt_state, hstate]) (by rw [heq]) (by rw [adopt_channel, hchannel])
    hpoller

theorem ClosedAs.isReading_channel (h : c.ClosedAs w) :
    c.conn.channel.isReading = w.reads := by
  rw [Channel.isReading, h.events]
  cases w.reads <;> decide

theorem ClosedAs.isWriting_channel (h : c.ClosedAs w) : c.conn.channel.isWriting = false := by
  rw [Channel.isWriting, h.events]
  cases w.reads <;> decide

theorem ClosedAs.startReadInLoop (h : c.ClosedAs w) :
    c.startReadInLoop.ClosedAs (w.call .startRead) := by
  simp only [LoopConnection.startReadInLoop, note, h.isReading, h.isReading_channel, Watch.call]
  by_cases hon : w.isReading = true ∧ w.reads = true
  · rw [if_neg (by simp [hon]), if_pos (by simp [hon])]
    exact h.frame rfl h.isReading.symm rfl rfl
  · rw [if_pos (by cases hr : w.isReading <;> simp_all), if_neg (by simpa using hon)]
    have hevents : c.conn.channel.enableReading.events = Channel.kReadEvent := by
      rw [Channel.enableReading, h.events]
      cases w.reads <;> decide
    have hsome : c.conn.channel.enableReading.isNoneEvent = false := by
      rw [Channel.isNoneEvent, hevents]
      decide
    refine ⟨h.state, rfl, hevents, ?_⟩
    simp only [setChannel, update, Registration.updateChannel, hsome, if_true]
    split <;> rfl

theorem ClosedAs.stopReadInLoop (h : c.ClosedAs w) :
    c.stopReadInLoop.ClosedAs (w.call .stopRead) := by
  simp only [LoopConnection.stopReadInLoop, note, h.isReading, h.isReading_channel, Watch.call,
    Bool.or_eq_true]
  split
  · have hevents : c.conn.channel.disableReading.events = Channel.kNoneEvent := by
      rw [Channel.disableReading, h.events]
      cases w.reads <;> decide
    have hnone : c.conn.channel.disableReading.isNoneEvent = true := by
      rw [Channel.isNoneEvent, hevents]
      decide
    refine ⟨h.state, rfl, hevents, ?_⟩
    simp only [setChannel, update, h.poller]
    -- A channel that was deleted is added again, with an empty mask.
    cases w.added <;> simp [Registration.updateChannel, hnone]
  · exact h.frame rfl h.isReading.symm rfl rfl

theorem ClosedAs.call (h : c.ClosedAs w) (k : Call) :
    (c.call alloc true k).ClosedAs (w.call k) := by
  have hcalled : (c.note (.called k)).ClosedAs w := h.frame rfl rfl rfl rfl
  have hstate : (c.note (.called k)).conn.state = .kDisconnected := h.state
  cases k with
  | send message => simpa [LoopConnection.call, hstate, Watch.call] using hcalled
  | shutdown => simpa [LoopConnection.call, hstate, Watch.call] using hcalled
  | forceClose => simpa [LoopConnection.call, hstate, Watch.call] using hcalled
  | startRead => exact hcalled.startReadInLoop
  | stopRead => exact hcalled.stopReadInLoop

/-- A call in another thread only queues a functor. -/
theorem ClosedAs.callOutside (h : c.ClosedAs w) (k : Call) :
    (c.call alloc false k).ClosedAs w := by
  have hcalled : (c.note (.called k)).ClosedAs w := h.frame rfl rfl rfl rfl
  have hstate : (c.note (.called k)).conn.state = .kDisconnected := h.state
  cases k with
  | send message => simpa [LoopConnection.call, hstate] using hcalled
  | shutdown => simpa [LoopConnection.call, hstate] using hcalled
  | forceClose => simpa [LoopConnection.call, hstate] using hcalled
  | startRead => exact hcalled.frame rfl rfl rfl rfl
  | stopRead => exact hcalled.frame rfl rfl rfl rfl

theorem ClosedAs.calls (h : c.ClosedAs w) (ks : List Call) :
    (ks.foldl (LoopConnection.call alloc true) c).ClosedAs (ks.foldl Watch.call w) := by
  induction ks generalizing c w with
  | nil => exact h
  | cons k ks ih => exact ih (h.call alloc k)

/-- `HandleClose` in an open connection. -/
theorem Watched.handleClose (h : c.Watched) (onDown : List Call) :
    (c.handleClose alloc onDown).ClosedAs
      (onDown.foldl Watch.call ⟨c.isReading, false, c.conn.channel.isNoneEvent⟩) := by
  have hclose : (c.close.note .connectionDown).ClosedAs
      ⟨c.isReading, false, c.conn.channel.isNoneEvent⟩ := by
    refine ⟨rfl, rfl, rfl, ?_⟩
    show c.poller.updateChannel c.conn.channel.disableAll = _
    rw [h.poller, Registration.watching]
    cases c.conn.channel.isNoneEvent <;> rfl
  exact (hclose.calls alloc onDown).frame rfl rfl rfl rfl

theorem ClosedAs.handleWrite (h : c.ClosedAs w) : c.handleWrite.ClosedAs w := by
  have hidle := TcpConnection.handleWrite_idle h.isWriting_channel
  refine h.adopt ?_ ?_ <;> rw [hidle]

/-! ## The calls after a close -/

/-- The calls that change the registration. -/
def Call.isRead : Call → Bool
  | .startRead | .stopRead => true
  | .send _ | .shutdown | .forceClose => false

/-- The calls after a close leave the channel in the epoll set. `reading` is `is_reading_` and
`noEvents` says that the mask was empty when `HandleClose` was entered. -/
def reopened (reading noEvents : Bool) (calls : List Call) : Bool :=
  match (calls.filter Call.isRead).getLast? with
  | none => noEvents
  | some .startRead => true
  | some _ => !calls.contains .startRead && (reading || noEvents)

/-- A call that is the last one that changes the registration. -/
theorem getLast?_isRead {calls : List Call} {k : Call}
    (h : (calls.filter Call.isRead).getLast? = some k) : k = .startRead ∨ k = .stopRead := by
  have hmem := (List.mem_filter.mp (List.mem_of_getLast? h)).2
  cases k with
  | startRead => exact .inl rfl
  | stopRead => exact .inr rfl
  | send | shutdown | forceClose => cases hmem

/-- The registration after the calls, by the last of them. -/
theorem foldl_call {reading noEvents : Bool} (h : (reading && noEvents) = false)
    (calls : List Call) :
    calls.foldl Watch.call ⟨reading, false, noEvents⟩ =
      match (calls.filter Call.isRead).getLast? with
      | none => ⟨reading, false, noEvents⟩
      | some .startRead => ⟨true, true, true⟩
      | some _ => ⟨false, false, !calls.contains .startRead && (reading || noEvents)⟩ := by
  induction calls using List.reverseRecOn with
  | nil => rfl
  | append_singleton calls k ih =>
    rw [List.foldl_append, ih, List.filter_append]
    cases k with
    | send message => simp [Call.isRead, Watch.call]
    | shutdown => simp [Call.isRead, Watch.call]
    | forceClose => simp [Call.isRead, Watch.call]
    | startRead =>
      simp only [Call.isRead, List.filter_singleton, cond_true, List.getLast?_append,
        List.getLast?_singleton, Option.some_or, List.foldl_cons, List.foldl_nil, Watch.call]
      split <;> simp
    | stopRead =>
      have hcontains : (calls ++ [Call.stopRead]).contains .startRead =
          calls.contains .startRead := by simp
      simp only [Call.isRead, List.filter_singleton, cond_true, List.getLast?_append,
        List.getLast?_singleton, Option.some_or, List.foldl_cons, List.foldl_nil, hcontains]
      cases hlast : (calls.filter Call.isRead).getLast? with
      | none =>
        have hnone : calls.contains .startRead = false := by
          have hnil := List.getLast?_eq_none_iff.mp hlast
          have hnot := List.filter_eq_nil_iff.mp hnil .startRead
          simpa [Call.isRead] using hnot
        cases reading <;> cases noEvents <;> simp_all [Watch.call]
      | some k =>
        rcases getLast?_isRead hlast with rfl | rfl
        · have hmem : .startRead ∈ calls := (List.mem_filter.mp (List.mem_of_getLast? hlast)).1
          simp [Watch.call, hmem]
        · simp [Watch.call]

theorem foldl_call_added {reading noEvents : Bool} (h : (reading && noEvents) = false)
    (calls : List Call) :
    (calls.foldl Watch.call ⟨reading, false, noEvents⟩).added =
      reopened reading noEvents calls := by
  rw [foldl_call h, reopened]
  split <;> rfl

/-- A closed connection whose channel is not in the epoll set has no events. -/
theorem foldl_call_reads {reading noEvents : Bool} (h : (reading && noEvents) = false)
    {calls : List Call} (hadded : reopened reading noEvents calls = false) :
    (calls.foldl Watch.call ⟨reading, false, noEvents⟩).reads = false := by
  rw [foldl_call h]
  rw [reopened] at hadded
  split <;> simp_all

end LoopConnection

end MyTinyHttpd
