import MyTinyHttpd.Http.Pipeline
import MyTinyHttpd.Net.Outgoing

/-!
# What the peer gets

A session without its kernel: what the parser makes of the chunks does not depend on the answers,
and the answers do not depend on how the kernel takes them.

* `Listener`: the parser over the chunks. `heard` is what it has handed to the callbacks.
* `Reply`: the answers to what has been heard, in order. After the first one that closes the
  connection the handler is still called, but nothing more is said.
* `wire_replies`: every run of a session sends the replies to what the listener has heard. All of
  them arrive, when the kernel takes enough.
* `pipeline_replies`: what a client gets that sends requests without bodies.
-/

namespace MyTinyHttpd

open Verif HttpContext

/-! ## The parser -/

/-- What the parser hands to the callbacks. -/
inductive Heard where
  | rejected
  | request (req : HttpRequest)

/-- The callbacks after a call of `ParseRequest`. -/
def callbacks (ok : Bool) (context : HttpContext) : List Heard :=
  (if ok = false then [.rejected] else []) ++
    if context.isGotAll then [.request context.request] else []

structure Listener where
  context : HttpContext := {}
  unread : List UInt8 := []
  status : Status := .running
  heard : List Heard := []

/-- A chunk. -/
def Listener.step (l : Listener) (k : Chunk) : Listener :=
  if l.status = .running then
    match parseBytes k.time l.context (l.unread ++ k.data) with
    | .threw _ => { l with unread := l.unread ++ k.data, status := .threw }
    | .diverged => { l with unread := l.unread ++ k.data, status := .diverged }
    | .returned ok context rest _ =>
      { l with
        context := if context.isGotAll then context.reset else context
        unread := rest
        heard := l.heard ++ callbacks ok context }
  else l

/-! ## The answers -/

/-- What is said, and the world after it. -/
structure Reply (ω : Type) where
  world : ω
  output : List UInt8 := []
  closed : Bool := false
  deriving DecidableEq

namespace Reply

variable {ω : Type} (alloc : Allocator) (server : HttpServer ω)

/-- After the end nothing is said. -/
def say (r : Reply ω) (text : List UInt8) (close : Bool) : Reply ω :=
  if r.closed then r else { r with output := r.output ++ text, closed := close }

/-- The response to a request. -/
def respond (req : HttpRequest) (w : ω) : HttpResponse × ω :=
  let connection := req.getHeader (ascii "Connection")
  let close := decide (connection = ascii "close" ∨
    (req.version = .kHttp10 ∧ connection ≠ ascii "Keep-Alive"))
  server.callback alloc req (.make alloc close) w

def step (r : Reply ω) : Heard → Reply ω
  | .rejected => r.say (ascii "HTTP/1.1 400 Bad Request\r\n\r\n") true
  | .request req =>
    let answer := respond alloc server req r.world
    { r with world := answer.2 }.say answer.1.buffer.retrieveAllAsString.1
      answer.1.isCloseConnection

end Reply

/-! ## The session refines both -/

namespace Session

variable {ω : Type} {s : Session ω} {l : Listener} {r : Reply ω}
variable (alloc : Allocator) (server : HttpServer ω)

/-- The requests among what has been heard. -/
def requestsOf (heard : List Heard) : List HttpRequest :=
  heard.filterMap fun
    | .rejected => none
    | .request req => some req

structure Wired (s : Session ω) (l : Listener) (r : Reply ω) : Prop where
  ready : s.Ready
  context : s.conn.context = l.context
  unread : s.unread = l.unread
  status : s.status = l.status
  handled : s.handled.map (·.1) = requestsOf l.heard
  world : s.world = r.world
  told : s.conn.Told r.output r.closed

/-- The connection follows what is said. -/
theorem told_say {c : TcpConnection HttpContext} (h : c.Told r.output r.closed) (text : List UInt8)
    (close : Bool) :
    (if close then (c.send alloc text).shutdown else c.send alloc text).Told
      (r.say text close).output (r.say text close).closed := by
  have hsay := h.say alloc text close
  cases hclosed : r.closed <;> simpa [Reply.say, TcpConnection.say, hclosed] using hsay

theorem sendBuffer_eq_send (c : TcpConnection HttpContext) (message : Buffer) :
    (c.sendBuffer alloc message).1 = c.send alloc message.retrieveAllAsString.1 := by
  unfold TcpConnection.sendBuffer TcpConnection.send
  split <;> rfl

/-- `OnRequest` says the response. -/
theorem onRequest_told (hworld : s.world = r.world) (h : s.conn.Told r.output r.closed)
    (req : HttpRequest) :
    let s' := server.onRequest alloc s req
    let r' := r.step alloc server (.request req)
    s'.world = r'.world ∧ s'.conn.Told r'.output r'.closed := by
  intro s' r'
  have hanswer : Reply.respond alloc server req s.world =
      Reply.respond alloc server req r.world := by
    rw [hworld]
  have hs' : s' = { s with
      conn :=
        let answer := Reply.respond alloc server req s.world
        if answer.1.isCloseConnection then (s.conn.sendBuffer alloc answer.1.buffer).1.shutdown
        else (s.conn.sendBuffer alloc answer.1.buffer).1
      world := (Reply.respond alloc server req s.world).2
      handled := s.handled ++ [(req, s.conn.state)] } := rfl
  rw [hs', hanswer]
  simp only [sendBuffer_eq_send]
  have hsay := told_say (r := { r with world := (Reply.respond alloc server req r.world).2 })
    alloc h (Reply.respond alloc server req r.world).1.buffer.retrieveAllAsString.1
    (Reply.respond alloc server req r.world).1.isCloseConnection
  refine ⟨?_, hsay⟩
  simp only [r', Reply.step, Reply.say]
  split <;> rfl

/-- A call of `ParseRequest` that rejects, and one that does not. -/
theorem reject_told {c : TcpConnection HttpContext} (h : c.Told r.output r.closed) (ok : Bool) :
    let r' := (if ok = false then [Heard.rejected] else []).foldl (Reply.step alloc server) r
    r'.world = r.world ∧
      (if ok = false then HttpServer.badRequest alloc c else c).Told r'.output r'.closed := by
  cases ok with
  | true => exact ⟨rfl, h⟩
  | false =>
    refine ⟨?_, told_say alloc h (ascii "HTTP/1.1 400 Bad Request\r\n\r\n") true⟩
    simp only [if_true, List.foldl_cons, List.foldl_nil, Reply.step, Reply.say]
    split <;> rfl

theorem step_message_eq (hrun : s.status = .running) (k : Chunk) :
    s.step alloc server (.message k) =
      server.onMessage alloc (s.receive alloc k.data) k.time := if_pos hrun

theorem Wired.threw (h : Wired s l r) (hrun : s.status = .running) {k : Chunk}
    {found : List Method}
    (hp : parseBytes k.time s.conn.context (s.unread ++ k.data) = .threw found) :
    Wired (s.step alloc server (.message k))
      { l with unread := l.unread ++ k.data, status := .threw } r := by
  have hready := ready_step alloc server h.ready (.message k)
  have hbytes := receive_holds alloc h.ready k.data
  have hagree := parseRequest_agrees k.time s.conn.context hbytes
  rw [hp] at hagree
  have hm : server.onMessage alloc (s.receive alloc k.data) k.time =
      { s.receive alloc k.data with status := .threw, found := s.found ++ found } := by
    simp only [HttpServer.onMessage]
    rw [show (s.receive alloc k.data).conn.context = s.conn.context from rfl, hagree.threw]
    rfl
  rw [step_message_eq alloc server hrun, hm] at hready ⊢
  exact ⟨hready, h.context, h.unread ▸ hbytes.readable_eq, rfl, h.handled, h.world, h.told.frame⟩

/-- `OnMessage` up to its test for a request: what the parser leaves, and the answer to a request
that it rejects. -/
theorem Wired.parsed (h : Wired s l r) (hrun : s.status = .running) {k : Chunk} {ok : Bool}
    {c : HttpContext} {rest : List UInt8} {found : List Method}
    (hp : parseBytes k.time s.conn.context (s.unread ++ k.data) = .returned ok c rest found) :
    let r' := (if ok = false then [Heard.rejected] else []).foldl (Reply.step alloc server) r
    ∃ s₁ : Session ω, s₁.world = r'.world ∧ s₁.conn.Told r'.output r'.closed ∧
      s.step alloc server (.message k) =
        if c.isGotAll then
          let s₂ := server.onRequest alloc s₁ c.request
          { s₂ with conn := { s₂.conn with context := c.reset } }
        else s₁ := by
  have hagree := parseRequest_agrees k.time s.conn.context (receive_holds alloc h.ready k.data)
  rw [hp] at hagree
  obtain ⟨buf, hparse, -⟩ := hagree.returned
  have hframe : { s.conn with context := c, inputBuffer := buf }.Told r.output r.closed :=
    h.told.frame
  obtain ⟨hworld, htold⟩ := reject_told alloc server hframe ok
  refine ⟨{ s with
    conn :=
      if ok = false then
        HttpServer.badRequest alloc { s.conn with context := c, inputBuffer := buf }
      else { s.conn with context := c, inputBuffer := buf }
    found := s.found ++ found }, h.world.trans hworld.symm, htold, ?_⟩
  rw [step_message_eq alloc server hrun]
  simp only [HttpServer.onMessage]
  rw [show (s.receive alloc k.data).conn.context = s.conn.context from rfl, hparse]
  rfl

/-- The call returns: its callbacks are answered. -/
theorem Wired.returned (h : Wired s l r) (hrun : s.status = .running) {k : Chunk} {ok : Bool}
    {c : HttpContext} {rest : List UInt8} {found : List Method}
    (hp : parseBytes k.time s.conn.context (s.unread ++ k.data) = .returned ok c rest found) :
    Wired (s.step alloc server (.message k))
      { l with
        context := if c.isGotAll then c.reset else c
        unread := rest
        heard := l.heard ++ callbacks ok c }
      ((callbacks ok c).foldl (Reply.step alloc server) r) := by
  have hready := ready_step alloc server h.ready (.message k)
  have hafter := step_returned alloc server h.ready hrun hp
  have hstatus : l.status = .running := h.status.symm.trans hrun
  obtain ⟨s₁, hworld, htold, hs'⟩ := h.parsed alloc server hrun hp
  have hheard : requestsOf (l.heard ++ callbacks ok c) =
      s.handled.map (·.1) ++ if c.isGotAll then [c.request] else [] := by
    rw [h.handled, callbacks]
    cases ok <;> cases c.isGotAll <;> simp [requestsOf]
  have hreply : (callbacks ok c).foldl (Reply.step alloc server) r =
      (if c.isGotAll then [Heard.request c.request] else []).foldl (Reply.step alloc server)
        ((if ok = false then [Heard.rejected] else []).foldl (Reply.step alloc server) r) := by
    rw [callbacks, List.foldl_append]
  rw [hreply]
  by_cases hgot : c.isGotAll = true
  · have ha := hafter.2 (by simpa [isGotAll] using hgot)
    obtain ⟨hworld', htold'⟩ := onRequest_told alloc server hworld htold c.request
    rw [if_pos hgot] at hs'
    rw [if_pos hgot, if_pos hgot]
    refine ⟨hready, ha.context_eq, ha.unread_eq, ha.status_eq.trans hstatus.symm, ?_, ?_, ?_⟩
    · rw [hheard, ha.handled_eq, if_pos hgot, List.map_append]
      rfl
    · rw [hs']
      exact hworld'
    · rw [hs']
      exact htold'.frame
  · have ha := hafter.1 (by simpa [isGotAll] using hgot)
    rw [if_neg hgot] at hs'
    rw [if_neg hgot, if_neg hgot]
    refine ⟨hready, ha.context_eq, ha.unread_eq, ha.status_eq.trans hstatus.symm, ?_, ?_, ?_⟩
    · rw [hheard, ha.handled_eq, if_neg hgot, List.append_nil]
    · rw [hs']
      exact hworld
    · rw [hs']
      exact htold

/-- A chunk: what the parser hands to the callbacks is answered. -/
theorem Wired.message (h : Wired s l r) (k : Chunk) :
    ∃ more, (l.step k).heard = l.heard ++ more ∧
      Wired (s.step alloc server (.message k)) (l.step k)
        (more.foldl (Reply.step alloc server) r) := by
  by_cases hrun : s.status = .running
  · rw [Listener.step, if_pos (h.status ▸ hrun), ← h.context, ← h.unread]
    cases hp : parseBytes k.time s.conn.context (s.unread ++ k.data) with
    | diverged =>
      have hended := parseBytes_ended k.time h.ready.not_gotAll (s.unread ++ k.data)
      rw [hp] at hended
      exact hended.elim
    | threw found =>
      refine ⟨[], (List.append_nil _).symm, ?_⟩
      rw [h.context, h.unread]
      exact h.threw alloc server hrun hp
    | returned ok c rest found =>
      exact ⟨callbacks ok c, rfl, h.returned alloc server hrun hp⟩
  · have hl : l.status ≠ .running := h.status ▸ hrun
    rw [step_not_running alloc server hrun, Listener.step, if_neg hl]
    exact ⟨[], (List.append_nil _).symm, h⟩

theorem Wired.writable (h : Wired s l r) : Wired (s.step alloc server .writable) l r := by
  obtain ⟨hstatus, hcontext, hunread, -, -⟩ := step_writable alloc server s
  exact ⟨ready_step alloc server h.ready .writable, hcontext.trans h.context,
    hunread.trans h.unread, hstatus.trans h.status, h.handled, h.world, h.told.handleWrite⟩

/-! ## Runs -/

theorem wired_established (answers : Nat → WriteResult) (w : ω) :
    Wired (established alloc answers w) {} { world := w } := by
  have hsend : (established alloc answers w).conn.SendInv [] :=
    TcpConnection.established_sendInv alloc answers ({} : HttpContext) false false
      (64 * 1024 * 1024)
  exact ⟨ready_established alloc answers w, rfl, (Buffer.make_holds alloc kInitialSize).readable_eq,
    rfl, rfl, rfl, rfl, hsend, rfl⟩

/-- What has been heard of the events. -/
def listen (events : List Event) : Listener := (chunksOf events).foldl Listener.step {}

/-- The replies to what has been heard. -/
def replies (w : ω) (events : List Event) : Reply ω :=
  (listen events).heard.foldl (Reply.step alloc server) { world := w }

theorem chunksOf_append (es es' : List Event) :
    chunksOf (es ++ es') = chunksOf es ++ chunksOf es' := by
  induction es with
  | nil => rfl
  | cons e es ih => cases e <;> simp [chunksOf, ih]

theorem wired_run (answers : Nat → WriteResult) (w : ω) (events : List Event) :
    Wired (events.foldl (step alloc server) (established alloc answers w)) (listen events)
      (replies alloc server w events) := by
  induction events using List.reverseRecOn with
  | nil => exact wired_established alloc answers w
  | append_singleton events e ih =>
    rw [List.foldl_append, List.foldl_cons, List.foldl_nil]
    cases e with
    | writable =>
      have hsame : chunksOf (events ++ [.writable]) = chunksOf events := by
        simp [chunksOf_append, chunksOf]
      rw [replies, listen, hsame]
      exact ih.writable alloc server
    | message k =>
      have hlisten : listen (events ++ [.message k]) = (listen events).step k := by
        simp [listen, chunksOf_append, chunksOf]
      obtain ⟨more, hmore, hwired⟩ := ih.message alloc server k
      rw [replies, hlisten, hmore, List.foldl_append]
      exact hwired

theorem foldl_writable (s : Session ω) (k : Nat) :
    let s' := (List.replicate k Event.writable).foldl (step alloc server) s
    s'.conn = s.conn.handleWrites k ∧ s'.world = s.world := by
  induction k generalizing s with
  | zero => exact ⟨rfl, rfl⟩
  | succ k ih =>
    rw [List.replicate_succ, List.foldl_cons, TcpConnection.handleWrites]
    exact ih (s.step alloc server .writable)

theorem drained_run (answers : Nat → WriteResult) (w : ω) (events : List Event) {k : Nat}
    (hdrains : (events.foldl (step alloc server)
      (established alloc answers w)).conn.DrainsWithin k) :
    let s := (events ++ List.replicate k Event.writable).foldl (step alloc server)
      (established alloc answers w)
    let r := replies alloc server w events
    s.conn.socket.sent = r.output ∧ s.conn.socket.writeShut = r.closed ∧ s.world = r.world := by
  intro s r
  have h := wired_run alloc server answers w events
  obtain ⟨hsent, hshut, -⟩ := h.told.drains hdrains
  obtain ⟨hconn, hworld⟩ := foldl_writable alloc server
    (events.foldl (step alloc server) (established alloc answers w)) k
  simp only [s, List.foldl_append, hconn, hworld]
  exact ⟨hsent, hshut, h.world⟩

/-- **The kernel does not matter.** Whatever it answers, and whenever the socket is writable: the
handler, the world and the end of the connection depend on the chunks only. What the kernel has
taken and what waits are the replies, unless a write has failed for good, and the write side is shut
down exactly when the last reply closes the connection and nothing waits. After writes that take
enough nothing waits. -/
theorem wire_replies (answers : Nat → WriteResult) (w : ω) (events : List Event) :
    let s := events.foldl (step alloc server) (established alloc answers w)
    let r := replies alloc server w events
    s.status = (listen events).status ∧ s.handled.map (·.1) = requestsOf (listen events).heard ∧
      s.world = r.world ∧ (s.conn.state = if r.closed then .kDisconnecting else .kConnected) ∧
      (s.conn.socket.broken = false →
        s.conn.socket.sent ++ s.conn.outputBuffer.readable = r.output) ∧
      s.conn.socket.writeShut = (r.closed && !s.conn.channel.isWriting) ∧
      ∀ k, s.conn.DrainsWithin k →
        let s' := (List.replicate k Event.writable).foldl (step alloc server) s
        s'.conn.socket.sent = r.output ∧ s'.conn.socket.writeShut = r.closed := by
  intro s r
  have h := wired_run alloc server answers w events
  refine ⟨h.status, h.handled, h.world, h.told.state,
    fun hopen => h.told.send.sent_eq ⟨h.told.ne_disconnected, hopen⟩, h.told.shut,
    fun k hdrains => ?_⟩
  obtain ⟨hsent, hshut, -⟩ := drained_run alloc server answers w events hdrains
  rw [List.foldl_append] at hsent hshut
  exact ⟨hsent, hshut⟩

/-! ## A client that sends requests -/

theorem listener_returned {l : Listener} (hrun : l.status = .running) {k : Chunk} {ok : Bool}
    {c : HttpContext} {rest : List UInt8} {found : List Method}
    (hp : parseBytes k.time l.context (l.unread ++ k.data) = .returned ok c rest found) :
    l.step k =
      { l with
        context := if c.isGotAll then c.reset else c
        unread := rest
        heard := l.heard ++ callbacks ok c } := by
  simp only [Listener.step, hrun, if_true, hp]

/-- Of a stream of requests nothing is rejected. -/
theorem listen_heads {l : Listener} {u : List UInt8} (ks : List Chunk) (todo : List RequestHead)
    (hbody : ∀ h ∈ todo, h.request.takesBody = false) (hrun : l.status = .running)
    (hfollows : Follows {} u l.context l.unread) (hrest : u ++ bytesOf ks = headsBytes todo)
    (hheard : Heard.rejected ∉ l.heard) : Heard.rejected ∉ (ks.foldl Listener.step l).heard := by
  induction ks generalizing l u todo with
  | nil => exact hheard
  | cons k ks ih =>
    rw [bytesOf_cons, ← List.append_assoc] at hrest
    rw [List.foldl_cons]
    rcases next_request hrest with ⟨hwaits, -⟩ | ⟨head, todo, rest, rfl, hu, hrest⟩
    · obtain ⟨c', rest, f, hp, hstate, hfollows'⟩ := hfollows.waits k hwaits
      have hgot : c'.isGotAll = false := by simpa [isGotAll] using hstate
      rw [listener_returned hrun hp]
      refine ih todo hbody hrun ?_ hrest (by simpa [callbacks, hgot] using hheard)
      simpa only [hgot, Bool.false_eq_true, if_false] using hfollows'
    · obtain ⟨c', f, hp, hstate, -, hreset⟩ := hfollows.completes k head (hbody head (by simp)) hu
      have hgot : c'.isGotAll = true := by simpa [isGotAll] using hstate
      rw [listener_returned hrun hp]
      refine ih todo (fun h hh => hbody h (by simp [hh])) hrun ?_ hrest
        (by simpa [callbacks, hgot] using hheard)
      simp only [hgot, if_true, hreset]
      exact follows_new rest

theorem heard_eq {heard : List Heard} (h : Heard.rejected ∉ heard) :
    heard = (requestsOf heard).map .request := by
  induction heard with
  | nil => rfl
  | cons x heard ih =>
    rw [List.mem_cons, not_or] at h
    cases x with
    | rejected => exact absurd rfl h.1
    | request req => exact congrArg (Heard.request req :: ·) (ih h.2)

/-- The default handler does not look at the receive time. -/
theorem step_timeless (hdefault : server.httpCallback = none) (r : Reply ω) (req : HttpRequest) :
    r.step alloc server (.request req) = r.step alloc server (.request req.timeless) := by
  simp only [Reply.step, Reply.respond, HttpServer.callback, hdefault]
  rfl

theorem foldl_timeless (hdefault : server.httpCallback = none) (r : Reply ω)
    (reqs : List HttpRequest) :
    (reqs.map Heard.request).foldl (Reply.step alloc server) r =
      ((reqs.map (·.timeless)).map Heard.request).foldl (Reply.step alloc server) r := by
  induction reqs generalizing r with
  | nil => rfl
  | cons req reqs ih =>
    rw [List.map_cons, List.map_cons, List.map_cons, List.foldl_cons, List.foldl_cons, ih,
      step_timeless alloc server hdefault]

/-- What the default handler replies to a stream of requests, those that have been served. -/
theorem replies_heads (hdefault : server.httpCallback = none) (answers : Nat → WriteResult) (w : ω)
    (heads : List RequestHead) (hbody : ∀ h ∈ heads, h.request.takesBody = false)
    (events : List Event) (hbytes : bytesOf (chunksOf events) = headsBytes heads) :
    replies alloc server w events =
      ((heads.take (served (fun ks => completed heads (bytesOf ks).length) [] 0
        (chunksOf events))).map fun h => Heard.request h.request.timeless).foldl
          (Reply.step alloc server) { world := w } := by
  have hrun := run_handled alloc server events [] [] heads (serving_established alloc answers w)
    hbody rfl hbytes rfl
  have hnone : Heard.rejected ∉ (listen events).heard :=
    listen_heads (chunksOf events) heads hbody rfl (follows_new []) hbytes (by simp)
  have hhandled := (wired_run alloc server answers w events).handled
  have htimes : (requestsOf (listen events).heard).map (·.timeless) =
      (heads.take (served (fun ks => completed heads (bytesOf ks).length) [] 0
        (chunksOf events))).map fun h => h.request.timeless := by
    rw [← hhandled, List.map_map]
    exact hrun
  rw [replies, heard_eq hnone, foldl_timeless alloc server hdefault, htimes, List.map_map]
  rfl

/-- **A client gets its answers.** Requests without a body, in any chunks, to the default handler:
of those that the chunks let the server handle, the client gets the responses in the order of the
requests, up to and with the first one that closes the connection, and then the end of the
stream. -/
theorem pipeline_replies (hdefault : server.httpCallback = none) (answers : Nat → WriteResult)
    (w : ω) (heads : List RequestHead) (hbody : ∀ h ∈ heads, h.request.takesBody = false)
    (events : List Event) (hbytes : bytesOf (chunksOf events) = headsBytes heads) (k : Nat)
    (hdrains : (events.foldl (step alloc server)
      (established alloc answers w)).conn.DrainsWithin k) :
    let s := (events ++ List.replicate k Event.writable).foldl (step alloc server)
      (established alloc answers w)
    let r := ((heads.take (served (fun ks => completed heads (bytesOf ks).length) [] 0
      (chunksOf events))).map fun h => Heard.request h.request.timeless).foldl
        (Reply.step alloc server) { world := w }
    s.conn.socket.sent = r.output ∧ s.conn.socket.writeShut = r.closed ∧ s.world = r.world := by
  intro s r
  have hr : replies alloc server w events = r :=
    replies_heads alloc server hdefault answers w heads hbody events hbytes
  rw [← hr]
  exact drained_run alloc server answers w events hdrains

/-- A kernel that takes nothing at first, and then 100 bytes at a time. -/
def hesitant : Nat → WriteResult
  | 0 => .failed EWOULDBLOCK
  | _ => .accepted 100

/-- Another request without header lines. -/
def deleteHead : RequestHead :=
  { getHead with
    line := ascii "DELETE /a HTTP/1.1"
    line_noCrlf := noPair_of_not_mem (by decide)
    line_accepted := ⟨ascii "DELETE", ascii "/a", ascii "HTTP/1.1", by decide, by decide, by decide,
      by decide, by decide⟩ }

/-- The answer to this one, that there is no such file, closes the connection. -/
def headHead : RequestHead :=
  { getHead with
    line := ascii "HEAD /a HTTP/1.1"
    line_noCrlf := noPair_of_not_mem (by decide)
    line_accepted := ⟨ascii "HEAD", ascii "/a", ascii "HTTP/1.1", by decide, by decide, by decide,
      by decide, by decide⟩ }

def closedByHead : List Event :=
  [.message ⟨1, deleteHead.bytes⟩, .writable, .message ⟨2, headHead.bytes⟩,
    .message ⟨3, deleteHead.bytes⟩]

theorem closedByHead_drains : (closedByHead.foldl (step Buffer.zeroAlloc plainServer)
    (established Buffer.zeroAlloc hesitant ())).conn.DrainsWithin 2 :=
  ⟨by decide +kernel, by decide +kernel, by decide +kernel⟩

/-- Three requests come to the handler, and the client gets two answers. -/
theorem closedByHead_replies :
    let s := (closedByHead ++ List.replicate 2 Event.writable).foldl
      (step Buffer.zeroAlloc plainServer) (established Buffer.zeroAlloc hesitant ())
    let heads := [deleteHead, headHead, deleteHead]
    let r := ((heads.take (served (fun ks => completed heads (bytesOf ks).length) [] 0
      (chunksOf closedByHead))).map fun h => Heard.request h.request.timeless).foldl
        (Reply.step Buffer.zeroAlloc plainServer) { world := () }
    r.closed = true ∧
      r = ([deleteHead, headHead].map fun h => Heard.request h.request.timeless).foldl
        (Reply.step Buffer.zeroAlloc plainServer) { world := () } ∧
      s.conn.socket.sent = r.output ∧ s.conn.socket.writeShut = r.closed ∧ s.world = r.world := by
  refine ⟨by decide +kernel, by decide +kernel, ?_⟩
  exact pipeline_replies Buffer.zeroAlloc plainServer rfl hesitant ()
    [deleteHead, headHead, deleteHead] (by decide) closedByHead (by decide) 2 closedByHead_drains

end Session

end MyTinyHttpd
