import MyTinyHttpd.Http.Reset
import MyTinyHttpd.Http.Session

/-!
# Pipelined requests

`OnMessage` handles at most one request in a call, and what is left in the buffer waits for the
next chunk. So a client that sends several requests at once gets all answers only if enough chunks
follow.

* `step_waits`, `step_completes`: what a chunk does to a session, by the requests of the stream.
* `run_handled`: how many of the requests have come to the handler after a run (`served`).
* `pipeline_handled_iff`: all of them have, exactly when at no time more requests are incomplete
  than chunks are to come.
-/

namespace MyTinyHttpd

open Verif HttpContext

/-- The stream of the requests. -/
def headsBytes (heads : List RequestHead) : List UInt8 := heads.flatMap RequestHead.bytes

/-- How many of the requests are complete in the first `n` bytes of the stream. -/
def completed : List RequestHead → Nat → Nat
  | [], _ => 0
  | h :: heads, n => if h.bytes.length ≤ n then completed heads (n - h.bytes.length) + 1 else 0

theorem completed_append (done todo : List RequestHead) (n : Nat) :
    completed (done ++ todo) ((headsBytes done).length + n) = done.length + completed todo n := by
  induction done with
  | nil => simp [headsBytes]
  | cons h done ih =>
    have hlen : (headsBytes (h :: done)).length + n =
        h.bytes.length + ((headsBytes done).length + n) := by
      simp [headsBytes, Nat.add_assoc]
    simp only [List.cons_append, completed, hlen, Nat.le_add_right, ↓reduceIte,
      Nat.add_sub_cancel_left, ih, List.length_cons]
    omega

namespace RequestHead

theorem lineRequest_body (h : RequestHead) : (lineRequest h.line).body = [] := by
  -- A new request has no body, so `reframe` with no body changes neither side.
  have hre := processRequestLine_reframe id (fun _ => []) {} h.line
  have hnew : HttpRequest.reframe id (fun _ => []) {} = {} := rfl
  rw [hnew, h.processRequestLine_line] at hre
  simp only [Option.map_some, LineResult.mk.injEq, Option.some.injEq, Prod.mk.injEq] at hre
  exact congrArg HttpRequest.body hre.2.2

theorem addFields_body (r : HttpRequest) (fields : List (List UInt8)) :
    (addFields r fields).body = r.body := by
  induction fields generalizing r with
  | nil => rfl
  | cons f fields ih => exact ih _

theorem request_body (h : RequestHead) : h.request.body = [] :=
  (addFields_body _ _).trans h.lineRequest_body

end RequestHead

namespace HttpContext

theorem follows_new (u : List UInt8) : Follows {} u {} u := follows_self {} u

/-- The bytes end inside a head: the parser goes on waiting. -/
theorem Follows.waits {u : List UInt8} {c : HttpContext} {bs : List UInt8} (h : Follows {} u c bs)
    (k : Chunk) (hwaits : (parseBytes 0 {} (u ++ k.data)).Waits) :
    ∃ c' rest found, parseBytes k.time c (bs ++ k.data) = .returned true c' rest found ∧
      c'.state ≠ .kGotAll ∧ Follows {} (u ++ k.data) c' rest := by
  cases hwhole : parseBytes 0 {} (u ++ k.data) with
  | threw f => rw [hwhole] at hwaits; exact hwaits.elim
  | diverged => rw [hwhole] at hwaits; exact hwaits.elim
  | returned ok c₀ rest f₀ =>
    rw [hwhole] at hwaits
    obtain ⟨rfl, hc₀⟩ := hwaits
    obtain ⟨c', f, hp, rfl⟩ := h.returned k.time hwhole
    have hc : c'.AwaitsLine := hc₀
    exact ⟨c', rest, f, hp, hc.ne_gotAll, Reached.follows ⟨hc, f₀, hwhole⟩⟩

/-- The bytes hold the whole request: the parser has got it, and the context will be new again. -/
theorem Follows.completes {u : List UInt8} {c : HttpContext} {bs : List UInt8}
    (h : Follows {} u c bs) (k : Chunk) (head : RequestHead)
    (hbody : head.request.takesBody = false) {rest : List UInt8}
    (hu : u ++ k.data = head.bytes ++ rest) :
    ∃ c' found, parseBytes k.time c (bs ++ k.data) = .returned true c' rest found ∧
      c'.state = .kGotAll ∧ c'.request.timeless = head.request.timeless ∧ c'.reset = {} := by
  have hbody' : (head.request.setReceiveTime 0).takesBody = false := hbody
  have hwhole : parseBytes 0 {} (u ++ k.data) =
      .returned true { state := .kGotAll, request := head.request.timeless } rest [.kInvalid] := by
    rw [hu, parseBytes_head, scanBody, hbody']
    rfl
  obtain ⟨c', f, hp, hc'⟩ := h.returned k.time hwhole
  have hrequest : c'.request.timeless = head.request.timeless := congrArg HttpContext.request hc'
  have hnil : c'.request.body = [] := (congrArg HttpRequest.body hrequest).trans head.request_body
  refine ⟨c', f, hp, congrArg HttpContext.state hc', hrequest, ?_⟩
  rw [reset_eq, hnil]
  rfl

end HttpContext

namespace Session

variable {ω : Type} (alloc : Allocator) (server : HttpServer ω)

/-- The session has read all requests before the bytes `u`, and nothing has gone wrong. -/
structure Serving (s : Session ω) (u : List UInt8) : Prop where
  ready : s.Ready
  running : s.status = .running
  follows : Follows {} u s.conn.context s.unread

/-- The requests that came to the handler, receive times aside. -/
def requests (s : Session ω) : List HttpRequest := s.handled.map fun x => x.1.timeless

variable {s : Session ω} {u : List UInt8}

theorem serving_established (answers : Nat → WriteResult) (w : ω) :
    (established alloc answers w).Serving [] := by
  have hunread : (established alloc answers w).unread = [] :=
    (Buffer.make_holds alloc kInitialSize).readable_eq
  refine ⟨ready_established alloc answers w, rfl, ?_⟩
  rw [hunread]
  exact follows_new []

theorem Serving.writable (h : s.Serving u) : (s.step alloc server .writable).Serving u := by
  obtain ⟨hstatus, hcontext, hunread, -⟩ := step_writable alloc server s
  refine ⟨ready_step alloc server h.ready .writable, hstatus.trans h.running, ?_⟩
  rw [hcontext, hunread]
  exact h.follows

/-- The bytes end inside a head: the session goes on waiting. -/
theorem step_waits (h : s.Serving u) (k : Chunk) (hwaits : (parseBytes 0 {} (u ++ k.data)).Waits) :
    (s.step alloc server (.message k)).Serving (u ++ k.data) ∧
      (s.step alloc server (.message k)).handled = s.handled := by
  obtain ⟨c', rest, f, hp, hgot, hfollows⟩ := h.follows.waits k hwaits
  have hafter := (step_returned alloc server h.ready h.running hp).1 hgot
  refine ⟨⟨hafter.ready hgot, hafter.status_eq, ?_⟩, hafter.handled_eq⟩
  rw [hafter.context_eq, hafter.unread_eq]
  exact hfollows

/-- The bytes hold the whole request: it comes to the handler, and the context is new again. -/
theorem step_completes (h : s.Serving u) (k : Chunk) (head : RequestHead)
    (hbody : head.request.takesBody = false) {rest : List UInt8}
    (hu : u ++ k.data = head.bytes ++ rest) :
    (s.step alloc server (.message k)).Serving rest ∧
      (s.step alloc server (.message k)).requests = s.requests ++ [head.request.timeless] := by
  obtain ⟨c', f, hp, hgot, hrequest, hreset⟩ := h.follows.completes k head hbody hu
  have hafter := (step_returned alloc server h.ready h.running hp).2 hgot
  rw [hreset] at hafter
  refine ⟨⟨hafter.ready (by simp), hafter.status_eq, ?_⟩, ?_⟩
  · rw [hafter.context_eq, hafter.unread_eq]
    exact follows_new rest
  · simp [requests, hafter.handled_eq, hrequest]

/-! ## Runs -/

/-- Of the requests to come, either none is complete in the bytes `u`, or the first one is. -/
theorem next_request {todo : List RequestHead} {u more : List UInt8}
    (h : u ++ more = headsBytes todo) :
    ((parseBytes 0 {} u).Waits ∧ completed todo u.length = 0) ∨
      ∃ head todo' rest, todo = head :: todo' ∧ u = head.bytes ++ rest ∧
        rest ++ more = headsBytes todo' := by
  cases todo with
  | nil =>
    have hu : u = [] := (List.append_eq_nil_iff.mp h).1
    subst hu
    exact .inl ⟨waits_of_cutLine_none (.inl rfl) (by decide), rfl⟩
  | cons head todo =>
    have h' : u ++ more = head.bytes ++ headsBytes todo := h
    rcases append_eq_append_cases h' with ⟨hlt, more', hmore, hu⟩ | ⟨rest, hu, hrest⟩
    · have hwaits : (parseBytes 0 {} u).Waits := parseBytes_head_prefix head hmore hu
      refine .inl ⟨hwaits, ?_⟩
      rw [completed, if_neg (by omega)]
    · exact .inr ⟨head, todo, rest, rfl, hu, hrest⟩

/-- The requests that have come to the handler: one for each chunk, as far as there are any. -/
theorem run_handled (events : List Event) (pre : List Chunk) (done todo : List RequestHead)
    (hs : s.Serving u) (hbody : ∀ h ∈ todo, h.request.takesBody = false)
    (hpre : bytesOf pre = headsBytes done ++ u)
    (hrest : u ++ bytesOf (chunksOf events) = headsBytes todo)
    (hdone : s.requests = done.map fun h => h.request.timeless) :
    (events.foldl (step alloc server) s).requests =
      ((done ++ todo).take (served (fun ks => completed (done ++ todo) (bytesOf ks).length) pre
        done.length (chunksOf events))).map fun h => h.request.timeless := by
  induction events generalizing s u pre done todo with
  | nil => simpa [chunksOf, served] using hdone
  | cons e events ih =>
    cases e with
    | writable => exact ih pre done todo (hs.writable alloc server) hbody hpre hrest hdone
    | message k =>
      rw [chunksOf, bytesOf_cons, ← List.append_assoc] at hrest
      have hpre' : bytesOf (pre ++ [k]) = headsBytes done ++ (u ++ k.data) := by
        simp [hpre]
      have harrived : completed (done ++ todo) (bytesOf (pre ++ [k])).length =
          done.length + completed todo (u ++ k.data).length := by
        rw [hpre', List.length_append, completed_append]
      rw [List.foldl_cons, chunksOf, served, harrived]
      rcases next_request hrest with ⟨hwaits, hnone⟩ | ⟨head, todo, rest, rfl, hu, hrest⟩
      · obtain ⟨hs', hsame⟩ := step_waits alloc server hs k hwaits
        have hdone' : (s.step alloc server (.message k)).requests =
            done.map fun h => h.request.timeless := by
          rw [requests, hsame]; exact hdone
        rw [hnone, Nat.add_zero, Nat.min_eq_left (Nat.le_succ _)]
        exact ih (pre ++ [k]) done todo hs' hbody hpre' hrest hdone'
      · obtain ⟨hs', hone⟩ := step_completes alloc server hs k head (hbody head (by simp)) hu
        have hcount : min (done.length + completed (head :: todo) (u ++ k.data).length)
            (done.length + 1) = (done ++ [head]).length := by
          rw [hu]
          simp [completed]
        have hpre'' : bytesOf (pre ++ [k]) = headsBytes (done ++ [head]) ++ rest := by
          rw [hpre', hu]
          simp [headsBytes]
        have hdone' : (s.step alloc server (.message k)).requests =
            (done ++ [head]).map fun h => h.request.timeless := by
          rw [hone, hdone]; simp
        rw [hcount, List.append_cons]
        exact ih (pre ++ [k]) (done ++ [head]) todo hs' (fun h hh => hbody h (by simp [hh])) hpre''
          hrest hdone'

/-- **When pipelined requests are all handled.** A client sends requests without bodies, in any
chunks: each has come to the handler once, in order and as it was sent (receive time aside),
exactly when for every cut of the chunks into two parts, the requests that are not complete in the
first part are no more than the chunks of the second. -/
theorem pipeline_handled_iff (answers : Nat → WriteResult) (w : ω) (heads : List RequestHead)
    (hbody : ∀ h ∈ heads, h.request.takesBody = false) (events : List Event)
    (hbytes : bytesOf (chunksOf events) = headsBytes heads) :
    (events.foldl (step alloc server) (established alloc answers w)).requests =
        heads.map (fun h => h.request.timeless) ↔
      ∀ pre post, chunksOf events = pre ++ post →
        heads.length ≤ completed heads (bytesOf pre).length + post.length := by
  have hrun := run_handled alloc server events [] [] heads (serving_established alloc answers w)
    hbody rfl hbytes rfl
  rw [List.nil_append] at hrun
  have htake (n : Nat) : (heads.take n).map (fun h => h.request.timeless) =
      heads.map (fun h => h.request.timeless) ↔ heads.length ≤ n := by
    constructor
    · intro h
      have := congrArg List.length h
      simp only [List.length_map, List.length_take] at this
      omega
    · intro h
      rw [List.take_of_length_le h]
  have hnone : completed heads 0 = 0 := by
    cases heads with
    | nil => rfl
    | cons h heads =>
      have hpos : 0 < h.bytes.length := h.bytes_pos
      rw [completed, if_neg (by omega)]
  rw [hrun, htake, le_served_iff]
  constructor
  · rintro ⟨hall, hcut⟩ pre post he
    cases pre with
    | nil =>
      rw [List.nil_append] at he
      rw [bytesOf_nil, List.length_nil, hnone, ← he]
      exact hall
    | cons k pre => exact hcut k pre post he
  · intro h
    refine ⟨?_, fun k pre post he => h (k :: pre) post he⟩
    have := h [] _ rfl
    rwa [bytesOf_nil, List.length_nil, hnone] at this

/-- `GET / HTTP/1.1` without header lines. -/
def getHead : RequestHead where
  line := ascii "GET / HTTP/1.1"
  fields := []
  line_noCrlf := noPair_of_not_mem (by decide)
  line_accepted := ⟨ascii "GET", ascii "/", ascii "HTTP/1.1", by decide, by decide, by decide,
    by decide, by decide⟩
  fields_noCrlf := by simp
  fields_colon := by simp

/-- The server with its defaults. -/
def plainServer : HttpServer Unit where
  config := .defaults
  files := noFiles

/-- A connection to it; the kernel takes all that is written. -/
def plainSession : Session Unit := established Buffer.zeroAlloc (fun _ => .accepted 65536) ()

/-- Two requests, each in a chunk of its own. -/
def getAfterGet : List Event :=
  [.message ⟨1, getHead.bytes⟩, .writable, .message ⟨2, getHead.bytes⟩]

theorem getAfterGet_handled :
    bytesOf (chunksOf getAfterGet) = headsBytes [getHead, getHead] ∧
      (getAfterGet.foldl (step Buffer.zeroAlloc plainServer) plainSession).requests =
        [getHead.request.timeless, getHead.request.timeless] := by
  refine ⟨by decide, (pipeline_handled_iff Buffer.zeroAlloc plainServer _ ()
    [getHead, getHead] (by decide) getAfterGet (by decide)).mpr ?_⟩
  intro pre post he
  rcases pre with _ | ⟨k₁, _ | ⟨k₂, pre⟩⟩
  · rw [← List.nil_append post, ← he]; decide
  · cases he; decide
  · simp only [getAfterGet, chunksOf, List.cons_append, List.cons.injEq, List.nil_eq,
      List.append_eq_nil_iff] at he
    obtain ⟨rfl, rfl, rfl, rfl⟩ := he
    decide

/-- The same two requests in one chunk. -/
def twoGets : List Event := [.message ⟨1, getHead.bytes ++ getHead.bytes⟩]

/-- The second request is in the buffer and nobody looks at it. -/
theorem twoGets_half_handled :
    bytesOf (chunksOf twoGets) = headsBytes [getHead, getHead] ∧
      getHead.request.method = .kGet ∧ getHead.request.version = .kHttp11 ∧
      getHead.request.getHeader (ascii "Connection") = [] ∧
      (plainServer.callback Buffer.zeroAlloc getHead.request
        (HttpResponse.make Buffer.zeroAlloc false) ()).1.isCloseConnection = false ∧
      (twoGets.foldl (step Buffer.zeroAlloc plainServer) plainSession).requests =
        [getHead.request.timeless] := by
  refine ⟨by decide, by decide, by decide, by decide, by decide, ?_⟩
  exact run_handled Buffer.zeroAlloc plainServer twoGets [] [] [getHead, getHead]
    (serving_established Buffer.zeroAlloc _ ()) (by decide) rfl (by decide) rfl

end Session

end MyTinyHttpd
