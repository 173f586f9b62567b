import MyTinyHttpd.Lib.Machine
import MyTinyHttpd.Http.Chunks
import MyTinyHttpd.Http.Server

/-!
# A connection of the server, over whole runs

A run of a session is a list of events: the socket becomes readable and a chunk comes (`HandleRead`
with `OnMessage` as the message callback), or it becomes writable (`HandleWrite`).

* `step_message`: everything that a chunk can do to a session, in terms of `parseBytes` on the
  unread bytes and the chunk.
* `ready_run`: the input buffer keeps its invariant, and no call is made in `kGotAll`, so none
  fails to end.
-/

namespace MyTinyHttpd

open Verif HttpContext

inductive Event where
  | message (chunk : Chunk)
  | writable

/-- The chunks that the events bring, in order. -/
def chunksOf : List Event → List Chunk
  | [] => []
  | .message k :: es => k :: chunksOf es
  | .writable :: es => chunksOf es

/-! ## What sending leaves alone -/

namespace TcpConnection

variable {γ : Type} {c c' : TcpConnection γ}

/-- The parts of a connection that the write side does not touch. -/
def SameInput (c c' : TcpConnection γ) : Prop :=
  c'.inputBuffer = c.inputBuffer ∧ c'.context = c.context

theorem SameInput.rfl : c.SameInput c := ⟨Eq.refl _, Eq.refl _⟩

theorem SameInput.trans {c'' : TcpConnection γ} (h : c.SameInput c') (h' : c'.SameInput c'') :
    c.SameInput c'' :=
  ⟨h'.1.trans h.1, h'.2.trans h.2⟩

variable (alloc : Allocator)

theorem sendInLoop_sameInput (c : TcpConnection γ) (data : List UInt8) :
    c.SameInput (c.sendInLoop alloc data) := by
  obtain ⟨_, _, _, _, _, _, h⟩ := sendInLoop_eq alloc c data
  rw [h]
  exact .rfl

theorem send_sameInput (c : TcpConnection γ) (message : List UInt8) :
    c.SameInput (c.send alloc message) := by
  unfold send
  split
  · exact sendInLoop_sameInput alloc c message
  · exact .rfl

theorem sendBuffer_sameInput (c : TcpConnection γ) (message : Buffer) :
    c.SameInput (c.sendBuffer alloc message).1 := by
  unfold sendBuffer
  split
  · exact sendInLoop_sameInput alloc c _
  · exact .rfl

theorem shutdownInLoop_sameInput (c : TcpConnection γ) : c.SameInput c.shutdownInLoop := by
  obtain ⟨_, h⟩ := shutdownInLoop_eq c
  rw [h]
  exact .rfl

theorem shutdown_sameInput (c : TcpConnection γ) : c.SameInput c.shutdown := by
  unfold shutdown
  split
  · exact shutdownInLoop_sameInput _
  · exact .rfl

theorem handleWrite_sameInput (c : TcpConnection γ) : c.SameInput c.handleWrite := by
  rcases handleWrite_cases c with h | ⟨_, _, h | h⟩
  · rw [h]
    exact .rfl
  · rw [h]
    exact .rfl
  · obtain ⟨_, _, hdrained, -⟩ := outputDrained_eq _
    rw [h, hdrained]
    exact .rfl

end TcpConnection

/-! ## How a call of `ParseRequest` ends -/

namespace HttpContext

/-- The call ends, and it does not reject a request that is complete. -/
def Parsed.Ended : Parsed → Prop
  | .returned ok c _ _ => c.state = .kGotAll → ok = true
  | .threw _ => True
  | .diverged => False

theorem parseBytes_ended (t : Timestamp) {c : HttpContext} (hc : c.state ≠ .kGotAll)
    (bs : List UInt8) : (parseBytes t c bs).Ended := by
  refine parseBytes_induction t (motive := fun c _ p => c.state ≠ .kGotAll → p.Ended) ?_ ?_ c bs hc
  · intro c bs p hscan hc
    obtain ⟨-, -, rfl⟩ | ⟨hs, line, rest, found, -, ⟨-, rfl⟩ | ⟨r, -, rfl⟩⟩ | ⟨hs, rfl⟩ | ⟨hs, -⟩ :=
      scan_done hscan
    · exact fun _ => rfl
    · trivial
    · exact fun h => absurd h hc
    · rcases scanBody_cases c bs with hbody | hbody | ⟨r, rest, hbody, -⟩ <;> rw [hbody]
      · exact fun h => absurd h hc
      · trivial
      · exact fun _ => rfl
    · exact absurd hs hc
  · intro c bs c' rest found hscan ih _
    have h := ih (scan_more_state hscan)
    cases hp : parseBytes t c' rest with
    | returned ok c'' rest' f => rw [hp] at h; exact h
    | threw f => trivial
    | diverged => rw [hp] at h; exact h

end HttpContext

/-! ## Sessions -/

namespace Session

variable {ω : Type}

/-- The bytes that have come and not been read by the parser. -/
def unread (s : Session ω) : List UInt8 := s.conn.inputBuffer.readable

section

variable (alloc : Allocator) (server : HttpServer ω)

/-- `HandleRead` reads the data into the input buffer. -/
def receive (s : Session ω) (data : List UInt8) : Session ω :=
  let buf := (s.conn.inputBuffer.readFromFd alloc (.filled data)).1
  { s with conn := { s.conn with inputBuffer := buf } }

def step (s : Session ω) : Event → Session ω
  | .message k =>
    if s.status = .running then server.onMessage alloc (s.receive alloc k.data) k.time else s
  | .writable => { s with conn := s.conn.handleWrite }

/-- A connection that has been established, with a new context. -/
def established (answers : Nat → WriteResult) (w : ω) : Session ω where
  conn := (TcpConnection.make alloc answers {}).connectEstablished
  world := w

end

/-- The state between the events. -/
structure Ready (s : Session ω) : Prop where
  input_inv : s.conn.inputBuffer.Inv
  not_gotAll : s.conn.context.state ≠ .kGotAll

/-- What a call of `OnMessage` that returns leaves. -/
structure After (s : Session ω) (c : HttpContext) (rest : List UInt8)
    (handled : List (HttpRequest × ConnState)) (found : List Method) : Prop where
  status_eq : s.status = .running
  context_eq : s.conn.context = c
  input_holds : s.conn.inputBuffer.Holds rest
  handled_eq : s.handled = handled
  found_eq : s.found = found

theorem After.ready {s : Session ω} {c : HttpContext} {rest : List UInt8}
    {handled : List (HttpRequest × ConnState)} {found : List Method}
    (h : After s c rest handled found) (hc : c.state ≠ .kGotAll) : s.Ready :=
  ⟨h.input_holds.inv, by rw [h.context_eq]; exact hc⟩

theorem After.unread_eq {s : Session ω} {c : HttpContext} {rest : List UInt8}
    {handled : List (HttpRequest × ConnState)} {found : List Method}
    (h : After s c rest handled found) : s.unread = rest :=
  h.input_holds.readable_eq

variable (alloc : Allocator) (server : HttpServer ω)

theorem receive_holds {s : Session ω} (h : s.Ready) (data : List UInt8) :
    (s.receive alloc data).conn.inputBuffer.Holds (s.unread ++ data) :=
  ⟨Buffer.readFromFd_inv alloc h.input_inv _, Buffer.readFromFd_readable alloc h.input_inv data⟩

theorem badRequest_sameInput (c : TcpConnection HttpContext) :
    c.SameInput (HttpServer.badRequest alloc c) :=
  (c.send_sameInput alloc _).trans (TcpConnection.shutdown_sameInput _)

/-- A request that has come to the handler. -/
theorem onRequest_after {s : Session ω} {c : HttpContext} {rest : List UInt8}
    {handled : List (HttpRequest × ConnState)} {found : List Method}
    (h : After s c rest handled found) (req : HttpRequest) :
    After (server.onRequest alloc s req) c rest (handled ++ [(req, s.conn.state)]) found := by
  simp only [HttpServer.onRequest]
  generalize server.callback alloc req _ s.world = answer
  have hsend := s.conn.sendBuffer_sameInput alloc answer.1.buffer
  have hconn : s.conn.SameInput (if answer.1.isCloseConnection then
      (s.conn.sendBuffer alloc answer.1.buffer).1.shutdown
      else (s.conn.sendBuffer alloc answer.1.buffer).1) := by
    split
    · exact hsend.trans (TcpConnection.shutdown_sameInput _)
    · exact hsend
  exact ⟨h.status_eq, hconn.2.trans h.context_eq, hconn.1 ▸ h.input_holds,
    by rw [h.handled_eq], h.found_eq⟩

/-- **What `OnMessage` can do.** An exception leaves it; or the parser has no request; or it has
one, which goes to the handler, and the context is reset. -/
theorem onMessage_cases {s : Session ω} {bs : List UInt8} (hrun : s.status = .running)
    (hb : s.conn.inputBuffer.Holds bs) (hc : s.conn.context.state ≠ .kGotAll) (t : Timestamp) :
    (∃ found, parseBytes t s.conn.context bs = .threw found ∧
        server.onMessage alloc s t = { s with status := .threw, found := s.found ++ found }) ∨
      ∃ ok c rest found, parseBytes t s.conn.context bs = .returned ok c rest found ∧
        ((c.state ≠ .kGotAll ∧
            After (server.onMessage alloc s t) c rest s.handled (s.found ++ found)) ∨
          (c.state = .kGotAll ∧ ok = true ∧
            After (server.onMessage alloc s t) c.reset rest
              (s.handled ++ [(c.request, s.conn.state)]) (s.found ++ found))) := by
  have hagree := parseRequest_agrees t s.conn.context hb
  have hended := parseBytes_ended t hc bs
  simp only [HttpServer.onMessage]
  cases hp : parseBytes t s.conn.context bs with
  | threw found =>
    rw [hp] at hagree
    rw [hagree.threw]
    exact .inl ⟨found, rfl, rfl⟩
  | diverged => rw [hp] at hended; exact hended.elim
  | returned ok c rest found =>
    rw [hp] at hagree hended
    obtain ⟨buf, ho, hbuf⟩ := hagree.returned
    rw [ho]
    refine .inr ⟨ok, c, rest, found, rfl, ?_⟩
    by_cases hgot : c.state = .kGotAll
    · have hok : ok = true := hended hgot
      have hafter : After
          { s with
            conn := { s.conn with context := c, inputBuffer := buf }, found := s.found ++ found }
          c rest s.handled (s.found ++ found) := ⟨hrun, rfl, hbuf, rfl, rfl⟩
      have hreq := onRequest_after alloc server hafter c.request
      refine .inr ⟨hgot, hok, ?_⟩
      simp only [isGotAll, hgot, hok, decide_true, Bool.true_eq_false, ↓reduceIte]
      exact ⟨hreq.status_eq, rfl, hreq.input_holds, hreq.handled_eq, hreq.found_eq⟩
    · refine .inl ⟨hgot, ?_⟩
      simp only [isGotAll, hgot, decide_false, Bool.false_eq_true, ↓reduceIte]
      split
      · have hsame := badRequest_sameInput alloc
          { s.conn with context := c, inputBuffer := buf }
        exact ⟨hrun, hsame.2, hsame.1.symm ▸ hbuf, rfl, rfl⟩
      · exact ⟨hrun, rfl, hbuf, rfl, rfl⟩

/-- **What a chunk can do.** -/
theorem step_message {s : Session ω} (h : s.Ready) (hrun : s.status = .running) (k : Chunk) :
    let s' := s.step alloc server (.message k)
    (∃ found, parseBytes k.time s.conn.context (s.unread ++ k.data) = .threw found ∧
        s'.Ready ∧ s'.status = .threw ∧ s'.handled = s.handled ∧ s'.found = s.found ++ found) ∨
      ∃ ok c rest found,
        parseBytes k.time s.conn.context (s.unread ++ k.data) = .returned ok c rest found ∧
        ((c.state ≠ .kGotAll ∧ After s' c rest s.handled (s.found ++ found)) ∨
          (c.state = .kGotAll ∧ ok = true ∧
            After s' c.reset rest (s.handled ++ [(c.request, s.conn.state)])
              (s.found ++ found))) := by
  intro s'
  have hb := receive_holds alloc h k.data
  have hs' : s' = server.onMessage alloc (s.receive alloc k.data) k.time := if_pos hrun
  obtain ⟨found, hp, ho⟩ | hreturned := onMessage_cases alloc server (s := s.receive alloc k.data)
    hrun hb h.not_gotAll k.time
  · refine .inl ⟨found, hp, ?_⟩
    rw [hs', ho]
    exact ⟨⟨hb.inv, h.not_gotAll⟩, rfl, rfl, rfl⟩
  · rw [← hs'] at hreturned
    exact .inr hreturned

/-- The same, when it is known what the parser returns. -/
theorem step_returned {s : Session ω} (h : s.Ready) (hrun : s.status = .running) {k : Chunk}
    {ok : Bool} {c : HttpContext} {rest : List UInt8} {found : List Method}
    (hp : parseBytes k.time s.conn.context (s.unread ++ k.data) = .returned ok c rest found) :
    let s' := s.step alloc server (.message k)
    (c.state ≠ .kGotAll → After s' c rest s.handled (s.found ++ found)) ∧
      (c.state = .kGotAll →
        After s' c.reset rest (s.handled ++ [(c.request, s.conn.state)]) (s.found ++ found)) := by
  obtain ⟨f, hthrew, -⟩ | ⟨ok', c', rest', f, hret, hafter⟩ := step_message alloc server h hrun k
  · rw [hp] at hthrew; cases hthrew
  · rw [hp] at hret
    cases hret
    obtain ⟨hc, ha⟩ | ⟨hc, -, ha⟩ := hafter
    · exact ⟨fun _ => ha, fun hc' => absurd hc' hc⟩
    · exact ⟨fun hc' => absurd hc hc', fun _ => ha⟩

theorem ready_step {s : Session ω} (h : s.Ready) (e : Event) : (s.step alloc server e).Ready := by
  cases e with
  | writable =>
    have hsame := s.conn.handleWrite_sameInput
    exact ⟨hsame.1.symm ▸ h.input_inv, hsame.2.symm ▸ h.not_gotAll⟩
  | message k =>
    by_cases hrun : s.status = .running
    · obtain ⟨found, -, hready, -⟩ | ⟨ok, c, rest, found, -, ⟨hc, hafter⟩ | ⟨-, -, hafter⟩⟩ :=
        step_message alloc server h hrun k
      · exact hready
      · exact hafter.ready hc
      · exact hafter.ready (by simp [reset])
    · rw [step, if_neg hrun]
      exact h

theorem ready_established (answers : Nat → WriteResult) (w : ω) :
    (established alloc answers w).Ready :=
  ⟨(Buffer.make_holds alloc kInitialSize).inv, by simp [established, TcpConnection.make,
    TcpConnection.connectEstablished]⟩

theorem ready_run {s : Session ω} (h : s.Ready) (events : List Event) :
    (events.foldl (step alloc server) s).Ready :=
  foldl_invariant (I := Ready) (fun _ e hs => ready_step alloc server hs e) h events

/-- The write side changes nothing that the parser or the logs see. -/
theorem step_writable (s : Session ω) :
    let s' := s.step alloc server .writable
    s'.status = s.status ∧ s'.conn.context = s.conn.context ∧ s'.unread = s.unread ∧
      s'.handled = s.handled ∧ s'.found = s.found := by
  have hsame := s.conn.handleWrite_sameInput
  exact ⟨rfl, hsame.2, congrArg Buffer.readable hsame.1, rfl, rfl⟩

theorem step_not_running {s : Session ω} (h : s.status ≠ .running) (k : Chunk) :
    s.step alloc server (.message k) = s := if_neg h

/-- The requests that came to the handler in a step. -/
def handledBy (s : Session ω) (e : Event) : List (HttpRequest × ConnState) :=
  (s.step alloc server e).handled.drop s.handled.length

/-- What the calls of `SetMethod` in a step found. -/
def foundBy (s : Session ω) (e : Event) : List Method :=
  (s.step alloc server e).found.drop s.found.length

theorem step_logs {s : Session ω} (h : s.Ready) (e : Event) :
    (s.step alloc server e).handled = s.handled ++ s.handledBy alloc server e ∧
      (s.step alloc server e).found = s.found ++ s.foundBy alloc server e := by
  have hlogs : s.handled <+: (s.step alloc server e).handled ∧
      s.found <+: (s.step alloc server e).found := by
    cases e with
    | writable => exact ⟨List.prefix_rfl, List.prefix_rfl⟩
    | message k =>
      by_cases hrun : s.status = .running
      · obtain ⟨found, -, -, -, hh, hf⟩ | ⟨ok, c, rest, found, -, ⟨-, ha⟩ | ⟨-, -, ha⟩⟩ :=
          step_message alloc server h hrun k
        · exact ⟨hh ▸ List.prefix_rfl, hf ▸ List.prefix_append _ _⟩
        · exact ⟨ha.handled_eq ▸ List.prefix_rfl, ha.found_eq ▸ List.prefix_append _ _⟩
        · exact ⟨ha.handled_eq ▸ List.prefix_append _ _, ha.found_eq ▸ List.prefix_append _ _⟩
      · rw [step_not_running alloc server hrun k]
        exact ⟨List.prefix_rfl, List.prefix_rfl⟩
  exact ⟨(List.prefix_iff_eq_append.mp hlogs.1).symm, (List.prefix_iff_eq_append.mp hlogs.2).symm⟩

end Session

end MyTinyHttpd
