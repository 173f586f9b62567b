import MyTinyHttpd.Http.Head

/-!
# How TCP cuts the stream

The bytes of a connection come in chunks; each is appended to the buffer and `ParseRequest` is
called. `Reached c₀ u c bs` says that the context `c` with the unread bytes `bs` is where the
context `c₀` is after the bytes `u`, however they were cut.

* `feed_eq_parseRequest`: for a request without a body the cut does not matter.
* `parseCalls_body_iff`: the body of a POST or PUT request must come in one chunk with the end of
  the head. A shorter body makes the call return false.
-/

namespace MyTinyHttpd

open Verif

/-- A chunk of the stream, with the time at which it was received. -/
structure Chunk where
  time : Timestamp
  data : List UInt8

/-- The bytes of the chunks, in order. -/
def bytesOf (chunks : List Chunk) : List UInt8 := chunks.flatMap (·.data)

@[simp] theorem bytesOf_nil : bytesOf [] = [] := rfl

@[simp] theorem bytesOf_cons (k : Chunk) (ks : List Chunk) :
    bytesOf (k :: ks) = k.data ++ bytesOf ks := rfl

@[simp] theorem bytesOf_append (ks ks' : List Chunk) :
    bytesOf (ks ++ ks') = bytesOf ks ++ bytesOf ks' := List.flatMap_append

namespace HttpContext

/-! ## Where the parser is in a stream -/

/-- After the bytes `u` the context `c₀` waits as `c` does, with `bs` unread. -/
def Reached (c₀ : HttpContext) (u : List UInt8) (c : HttpContext) (bs : List UInt8) : Prop :=
  c.AwaitsLine ∧ ∃ found, parseBytes 0 c₀ u = .returned true c.timeless bs found

theorem reached_nil {c : HttpContext} (hc : c.AwaitsLine) : Reached c.timeless [] c [] := by
  have hcut : cutLine [] = none := by decide
  exact ⟨hc, [], parseBytes_cut_none (c := c.timeless) hc hcut⟩

theorem reached_new : Reached {} [] {} [] := reached_nil (c := {}) (.inl rfl)

/-- With `bs` unread, the context `c` goes on as `c₀` does on `u`. -/
def Follows (c₀ : HttpContext) (u : List UInt8) (c : HttpContext) (bs : List UInt8) : Prop :=
  ∀ t data, ∃ found, parseBytes 0 c₀ (u ++ data) = (parseBytes t c (bs ++ data)).timeless.log found

theorem follows_self (c : HttpContext) (u : List UInt8) : Follows c.timeless u c u :=
  fun t data => ⟨[], by rw [parseBytes_timeless, Parsed.log_nil]⟩

theorem Reached.follows {c₀ : HttpContext} {u : List UInt8} {c : HttpContext} {bs : List UInt8}
    (h : Reached c₀ u c bs) : Follows c₀ u c bs := by
  intro t data
  obtain ⟨hc, found, hu⟩ := h
  have hc' : c.timeless.AwaitsLine := hc
  refine ⟨found, ?_⟩
  rw [parseBytes_resume (by rw [hu]; exact .inl hc'), hu, parseBytes_timeless]
  simp only [Parsed.resume, hc', and_self, ↓reduceIte]

/-- What the parser returns, when `c₀` on all of the bytes returns `ok, c₁, rest`. -/
theorem Follows.returned {c₀ : HttpContext} {u : List UInt8} {c : HttpContext}
    {bs data : List UInt8} (h : Follows c₀ u c bs) (t : Timestamp) {ok : Bool} {c₁ : HttpContext}
    {rest : List UInt8} {found₁ : List Method}
    (hwhole : parseBytes 0 c₀ (u ++ data) = .returned ok c₁ rest found₁) :
    ∃ c' found, parseBytes t c (bs ++ data) = .returned ok c' rest found ∧ c'.timeless = c₁ := by
  obtain ⟨f, hp⟩ := h t data
  obtain ⟨found, hq, -⟩ := Parsed.log_eq_returned (hp.symm.trans hwhole)
  obtain ⟨c', hc', htime⟩ := Parsed.timeless_eq_returned hq
  exact ⟨c', found, hc', htime⟩

/-- What a call on a chunk returns, when `c₀` on all of the bytes returns `ok, c₁, rest`. -/
theorem Reached.call {c₀ : HttpContext} {u : List UInt8} {c : HttpContext} {buf : Buffer}
    {bs : List UInt8} (h : Reached c₀ u c bs) (hb : buf.Holds bs) (alloc : Allocator) (k : Chunk)
    {ok : Bool} {c₁ : HttpContext} {rest : List UInt8} {found₁ : List Method}
    (hwhole : parseBytes 0 c₀ (u ++ k.data) = .returned ok c₁ rest found₁) :
    ∃ c' buf' found, parseRequest k.time c (buf.append alloc k.data) = .returned ok c' buf' found ∧
      c'.timeless = c₁ ∧ buf'.Holds rest := by
  obtain ⟨c', found, hp, htime⟩ := h.follows.returned k.time hwhole
  have hagree := parseRequest_agrees k.time c (hb.append alloc k.data)
  rw [hp] at hagree
  obtain ⟨buf', hcall, hb'⟩ := hagree.returned
  exact ⟨c', buf', found, hcall, htime, hb'⟩

/-- One call returns what `parseBytes` returns, whatever the receive times. -/
theorem parseRequest_returned {t : Timestamp} {c : HttpContext} {buf : Buffer} {bs : List UInt8}
    (hb : buf.Holds bs) {ok : Bool} {c₀ : HttpContext} {rest : List UInt8} {found : List Method}
    (h : parseBytes 0 c.timeless bs = .returned ok c₀ rest found) :
    ∃ c' buf', parseRequest t c buf = .returned ok c' buf' found ∧ c'.timeless = c₀ ∧
      buf'.Holds rest := by
  obtain ⟨c', hc', htime⟩ := Parsed.timeless_eq_returned ((parseBytes_timeless t c bs).trans h)
  have hagree := parseRequest_agrees t c hb
  rw [hc'] at hagree
  obtain ⟨buf', hcall, hb'⟩ := hagree.returned
  exact ⟨c', buf', hcall, htime, hb'⟩

/-! ## Requests without a body -/

structure Fed where
  ok : Bool
  context : HttpContext
  buf : Buffer
  unfed : List Chunk

/-- Feeds the chunks one by one until a call returns false or the request is there. `none` when a
call throws or does not end. -/
def feed (alloc : Allocator) (c : HttpContext) (buf : Buffer) : List Chunk → Option Fed
  | [] => some { ok := true, context := c, buf, unfed := [] }
  | k :: ks =>
    match parseRequest k.time c (buf.append alloc k.data) with
    | .returned ok c' buf' _ =>
      if ok = false ∨ c'.isGotAll = true then some { ok, context := c', buf := buf', unfed := ks }
      else feed alloc c' buf' ks
    | _ => none

/-- The method that the first line of the stream names, as `ProcessRequestLine` reads it. -/
def requestMethod (bs : List UInt8) : Method :=
  match cutLine bs with
  | some (line, _) => if 32 ∈ line then HttpRequest.methodOf line else .kInvalid
  | none => .kInvalid

/-- `ProcessRequestLine` is defined on the first line: it does not throw. -/
def LineDefined (bs : List UInt8) : Prop :=
  (cutLine bs).all (fun cut => (processRequestLine {} cut.1).returned.isSome) = true

instance (bs : List UInt8) : Decidable (LineDefined bs) := inferInstanceAs (Decidable (_ = true))

theorem bodyFree_of_requestMethod {bs : List UInt8}
    (hm : requestMethod bs ≠ .kPost ∧ requestMethod bs ≠ .kPut) (hline : LineDefined bs) :
    BodyFree {} bs := by
  show ∀ line rest, cutLine bs = some (line, rest) → _
  intro line rest hcut
  rw [LineDefined, hcut, Option.all_some] at hline
  obtain ⟨⟨ok, r⟩, hr⟩ := Option.isSome_iff_exists.mp hline
  refine ⟨ok, r, hr, ?_⟩
  rintro rfl
  have hspace : 32 ∈ line := by
    obtain ⟨m, target, text, rfl, -⟩ := processRequestLine_accepts.mp ⟨r, hr⟩
    simp
  simp only [requestMethod, hcut, hspace, ↓reduceIte] at hm
  rw [← processRequestLine_method hr hspace] at hm
  simp [HttpRequest.takesBody, hm]

/-- The invariant of `feed`: what has been fed, and what is left, come to the outcome of a new
context on all of the stream. -/
theorem feed_spec (alloc : Allocator) (chunks : List Chunk) {u : List UInt8} {c : HttpContext}
    {buf : Buffer} {bs : List UInt8} (h : Reached {} u c bs) (hb : buf.Holds bs)
    (hfree : BodyFree {} (u ++ bytesOf chunks)) :
    ∃ fed found, feed alloc c buf chunks = some fed ∧
      parseBytes 0 {} (u ++ bytesOf chunks) =
        .returned fed.ok fed.context.timeless (fed.buf.readable ++ bytesOf fed.unfed) found := by
  induction chunks generalizing u c buf bs with
  | nil =>
    obtain ⟨-, found, hu⟩ := h
    exact ⟨_, found, rfl, by simpa [hb.readable_eq] using hu⟩
  | cons k ks ih =>
    rw [bytesOf_cons, ← List.append_assoc] at hfree ⊢
    have hpart := hfree.parse 0
    have hwhole := parseBytes_resume hpart.settled (bytesOf ks)
    cases hp : parseBytes 0 {} (u ++ k.data) with
    | threw f => rw [hp] at hpart; exact hpart.elim
    | diverged => rw [hp] at hpart; exact hpart.elim
    | returned ok c₀ rest found₀ =>
      obtain ⟨c', buf', found, hcall, rfl, hb'⟩ := h.call hb alloc k hp
      simp only [feed, hcall]
      rw [hp] at hpart hwhole
      by_cases hstop : ok = false ∨ c'.isGotAll = true
      · rw [if_pos hstop]
        have hgo : ¬ (ok = true ∧ c'.timeless.AwaitsLine) := by
          rintro ⟨rfl, hc⟩
          rcases hstop with h | h
          · cases h
          · have hs : c'.state = .kGotAll := by simpa [isGotAll] using h
            exact hc.ne_gotAll hs
        refine ⟨_, found₀, rfl, ?_⟩
        rw [hwhole, Parsed.resume, if_neg hgo, hb'.readable_eq]
      · rw [if_neg hstop]
        simp only [Bool.not_eq_true, not_or, Bool.not_eq_false] at hstop
        obtain ⟨rfl, hgot⟩ := hstop
        have hc : c'.AwaitsLine := by
          rcases hpart with h | h
          · exact h.1
          · have hs : c'.state = .kGotAll := h.1
            simp [isGotAll, hs] at hgot
        exact ih ⟨hc, found₀, hp⟩ hb' hfree

/-- **The cut does not matter without a body.** Feeding the chunks one by one, until a call
returns false or has the request, comes to the flag, the state and the request (receive time
aside) of one call on all of the bytes; what is unread in the end is the same. -/
theorem feed_eq_parseRequest (alloc : Allocator) (initialSize : Nat) (chunks : List Chunk)
    (t : Timestamp) (buf : Buffer) (hbuf : buf.Holds (bytesOf chunks))
    (hmethod : requestMethod (bytesOf chunks) ≠ .kPost ∧ requestMethod (bytesOf chunks) ≠ .kPut)
    (hline : LineDefined (bytesOf chunks)) :
    ∃ fed c buf' found,
      feed alloc {} (Buffer.make alloc initialSize) chunks = some fed ∧
      parseRequest t {} buf = .returned fed.ok c buf' found ∧
      fed.context.state = c.state ∧ fed.context.request.timeless = c.request.timeless ∧
      fed.buf.readable ++ bytesOf fed.unfed = buf'.readable := by
  obtain ⟨fed, found, hfeed, hwhole⟩ := feed_spec alloc chunks reached_new
    (Buffer.make_holds alloc initialSize) (bodyFree_of_requestMethod hmethod hline)
  rw [List.nil_append] at hwhole
  obtain ⟨c, buf', hcall, hc, hb'⟩ := parseRequest_returned (t := t) (c := {}) hbuf hwhole
  refine ⟨fed, c, buf', found, hfeed, hcall, ?_, ?_, hb'.readable_eq.symm⟩
  · exact (congrArg HttpContext.state hc).symm
  · exact (congrArg HttpContext.request hc).symm

/-- A request in three chunks, one of which ends between CR and LF. -/
def getChunks : List Chunk :=
  [⟨1, ascii "GET /a HTTP/1.1\r"⟩, ⟨2, ascii "\nHost: x\r\n"⟩, ⟨3, ascii "\r\nGET"⟩]

theorem feed_getChunks :
    let buf := (Buffer.make Buffer.zeroAlloc 8).append Buffer.zeroAlloc (bytesOf getChunks)
    buf.Holds (bytesOf getChunks) ∧
      ∃ fed c buf' found, feed Buffer.zeroAlloc {} (Buffer.make Buffer.zeroAlloc 8) getChunks =
          some fed ∧
        parseRequest 4 {} buf = .returned fed.ok c buf' found ∧
        fed.buf.readable ++ bytesOf fed.unfed = buf'.readable := by
  intro buf
  have hbuf : buf.Holds (bytesOf getChunks) :=
    (Buffer.make_holds Buffer.zeroAlloc 8).append Buffer.zeroAlloc (bytesOf getChunks)
  obtain ⟨fed, c, buf', found, h₁, h₂, -, -, h₃⟩ :=
    feed_eq_parseRequest Buffer.zeroAlloc 8 getChunks 4 buf hbuf (by decide) (by decide)
  exact ⟨hbuf, fed, c, buf', found, h₁, h₂, h₃⟩

/-! ## Requests with a body -/

/-- The flag that a call returns. -/
def ParseOutcome.flag : ParseOutcome → Option Bool
  | .returned ok _ _ _ => some ok
  | _ => none

/-- The calls that the chunks lead to. None follows a call that throws or does not end. -/
def parseCalls (alloc : Allocator) (c : HttpContext) (buf : Buffer) :
    List Chunk → List ParseOutcome
  | [] => []
  | k :: ks =>
    let o := parseRequest k.time c (buf.append alloc k.data)
    o :: match o with
      | .returned _ c' buf' _ => parseCalls alloc c' buf' ks
      | _ => []

/-- No call returns false, and the one after the last chunk has the request with this body. -/
def Received (body : List UInt8) (chunks : List Chunk) (calls : List ParseOutcome) : Prop :=
  (∀ o ∈ calls, o.flag ≠ some false) ∧ calls.length = chunks.length ∧
    ∃ c buf found, calls.getLast? = some (.returned true c buf found) ∧ c.state = .kGotAll ∧
      c.request.body = body

theorem received_cons {alloc : Allocator} {c c' : HttpContext} {buf buf' : Buffer} {k k' : Chunk}
    {ks : List Chunk} {found : List Method} {body : List UInt8}
    (h : parseRequest k.time c (buf.append alloc k.data) = .returned true c' buf' found) :
    Received body (k :: k' :: ks) (parseCalls alloc c buf (k :: k' :: ks)) ↔
      Received body (k' :: ks) (parseCalls alloc c' buf' (k' :: ks)) := by
  have hcalls : parseCalls alloc c buf (k :: k' :: ks) =
      .returned true c' buf' found :: parseCalls alloc c' buf' (k' :: ks) := by
    rw [parseCalls, h]
  have hne : parseCalls alloc c' buf' (k' :: ks) ≠ [] := by simp [parseCalls]
  rw [hcalls]
  generalize parseCalls alloc c' buf' (k' :: ks) = calls at hne
  simp [Received, ParseOutcome.flag, List.getLast?_cons_of_ne_nil hne]

/-- A call in `kGotAll` does not end, so the request has not been received. -/
theorem not_received_of_gotAll {alloc : Allocator} {c c' : HttpContext} {buf buf' : Buffer}
    {k k' : Chunk} {ks : List Chunk} {found : List Method} {body : List UInt8}
    (h : parseRequest k.time c (buf.append alloc k.data) = .returned true c' buf' found)
    (hs : c'.state = .kGotAll) :
    ¬ Received body (k :: k' :: ks) (parseCalls alloc c buf (k :: k' :: ks)) := by
  rw [received_cons h]
  have hdiv : parseRequest k'.time c' (buf'.append alloc k'.data) = .diverged := by
    simp only [parseRequest, parseRequest_stuck k'.time hs]
  rintro ⟨-, -, c, b, f, hlast, -⟩
  simp [parseCalls, hdiv] at hlast

section Body

variable (alloc : Allocator) {head : RequestHead} {body : List UInt8}
  (hbody : head.request.takesBody = true)
  (hcl : head.request.getHeader (ascii "Content-Length") = decimal body.length)
  (hlen : body.length < 2 ^ 63)

include hbody hcl hlen

/-- A new context on the head and the first bytes of the body. -/
theorem parseBytes_head_body {b : List UInt8} (hb : b.length ≤ body.length) :
    parseBytes 0 {} (head.bytes ++ b) =
      if b.length = body.length then
        .returned true
          { state := .kGotAll, request := { head.request.setReceiveTime 0 with body := b } } []
          [.kInvalid]
      else
        .returned false { state := .kExpectBody, request := head.request.setReceiveTime 0 } b
          [.kInvalid] := by
  have hbody' : (head.request.setReceiveTime 0).takesBody = true := hbody
  rw [parseBytes_head, scanBody_contentLength hbody' hcl hlen (by omega)]
  split <;> rfl

/-- The step: from a context that waits in the head. -/
theorem received_iff (chunks : List Chunk) (hne : chunks ≠ []) {u : List UInt8} {c : HttpContext}
    {buf : Buffer} {bs : List UInt8} (h : Reached {} u c bs) (hb : buf.Holds bs)
    (hu : u.length < head.bytes.length) (hwhole : u ++ bytesOf chunks = head.bytes ++ body) :
    Received body chunks (parseCalls alloc c buf chunks) ↔
      (u ++ bytesOf chunks.dropLast).length < head.bytes.length := by
  induction chunks generalizing u c buf bs with
  | nil => exact absurd rfl hne
  | cons k ks ih =>
    rw [bytesOf_cons, ← List.append_assoc] at hwhole
    cases ks with
    | nil =>
      have hp := parseBytes_head_body hbody hcl hlen (Nat.le_refl body.length)
      rw [if_pos rfl, ← hwhole, bytesOf_nil, List.append_nil] at hp
      obtain ⟨c', buf', found, hcall, hc', -⟩ := h.call hb alloc k hp
      have hreceived : Received body [k] (parseCalls alloc c buf [k]) := by
        simp only [parseCalls, hcall]
        refine ⟨by simp [ParseOutcome.flag], rfl, c', buf', found, rfl, ?_, ?_⟩
        · exact congrArg HttpContext.state hc'
        · exact congrArg (fun c => c.request.body) hc'
      simp [hreceived, hu]
    | cons k' ks =>
      have hlast : u ++ bytesOf (k :: k' :: ks).dropLast =
          u ++ k.data ++ bytesOf (k' :: ks).dropLast := by simp
      rw [hlast]
      rcases append_eq_append_cases hwhole with ⟨hlt, more, hmore, hhead⟩ | ⟨b, hub, hrest⟩
      -- The chunk ends in the head: the call waits.
      · have hwaits := parseBytes_head_prefix (t := 0) head hmore hhead
        cases hp : parseBytes 0 {} (u ++ k.data) with
        | returned ok c₀ rest found₀ =>
          rw [hp] at hwaits
          obtain ⟨rfl, hc₀⟩ := hwaits
          obtain ⟨c', buf', found, hcall, rfl, hb'⟩ := h.call hb alloc k hp
          rw [received_cons hcall]
          exact ih (by simp) ⟨hc₀, found₀, hp⟩ hb' hlt hwhole
        | threw f => rw [hp] at hwaits; exact hwaits.elim
        | diverged => rw [hp] at hwaits; exact hwaits.elim
      -- It ends in the body: the call rejects the request, or the next one does not end.
      · have hnot : ¬ (u ++ k.data ++ bytesOf (k' :: ks).dropLast).length < head.bytes.length := by
          rw [hub]; simp
        have hle : b.length ≤ body.length := by rw [← hrest]; simp
        have hp := parseBytes_head_body hbody hcl hlen hle
        rw [← hub] at hp
        simp only [hnot, iff_false]
        split at hp
        · obtain ⟨c', buf', found, hcall, hc', -⟩ := h.call hb alloc k hp
          exact not_received_of_gotAll hcall (congrArg HttpContext.state hc')
        · obtain ⟨c', buf', found, hcall, -⟩ := h.call hb alloc k hp
          rintro ⟨hflag, -⟩
          refine hflag (.returned false c' buf' found) ?_ rfl
          simp [parseCalls, hcall]

end Body

/-- **When a body is received.** Of a POST or PUT request with a right `Content-Length`: no call
returns false and the last one has the body, exactly when all chunks but the last end inside the
head (request line, headers and empty line). -/
theorem parseCalls_body_iff (alloc : Allocator) (initialSize : Nat) (head : RequestHead)
    (body : List UInt8) (hbody : head.request.takesBody = true)
    (hcl : head.request.getHeader (ascii "Content-Length") = decimal body.length)
    (hlen : body.length < 2 ^ 63) (chunks : List Chunk)
    (hbytes : bytesOf chunks = head.bytes ++ body) :
    Received body chunks (parseCalls alloc {} (Buffer.make alloc initialSize) chunks) ↔
      (bytesOf chunks.dropLast).length < head.bytes.length := by
  have hpos : 0 < head.bytes.length := head.bytes_pos
  have hne : chunks ≠ [] := by
    rintro rfl
    have := congrArg List.length hbytes
    simp at this; omega
  exact received_iff alloc hbody hcl hlen chunks hne reached_new
    (Buffer.make_holds alloc initialSize) hpos hbytes

/-- `POST / HTTP/1.1` with a body of one byte. -/
def postHead : RequestHead where
  line := ascii "POST / HTTP/1.1"
  fields := [ascii "Content-Length: 1"]
  line_noCrlf := noPair_of_not_mem (by decide)
  line_accepted := ⟨ascii "POST", ascii "/", ascii "HTTP/1.1", by decide, by decide, by decide,
    by decide, by decide⟩
  fields_noCrlf := by
    simp only [List.mem_singleton, forall_eq]
    exact noPair_of_not_mem (by decide)
  fields_colon := by decide

/-- The head cut in two, the body in one chunk with the second half. -/
def headCutChunks : List Chunk :=
  [⟨1, postHead.bytes.take 10⟩, ⟨2, postHead.bytes.drop 10 ++ ascii "x"⟩]

theorem headCutChunks_received :
    bytesOf headCutChunks = postHead.bytes ++ ascii "x" ∧
      Received (ascii "x") headCutChunks
        (parseCalls Buffer.zeroAlloc {} (Buffer.make Buffer.zeroAlloc 8) headCutChunks) := by
  have hbytes : bytesOf headCutChunks = postHead.bytes ++ ascii "x" := by decide
  exact ⟨hbytes, (parseCalls_body_iff Buffer.zeroAlloc 8 postHead (ascii "x") (by decide)
    (by decide) (by decide) headCutChunks hbytes).mpr (by decide)⟩

/-- The head in one chunk and the body in the next. -/
def bodyCutChunks : List Chunk := [⟨1, postHead.bytes⟩, ⟨2, ascii "x"⟩]

/-- The body that comes in a chunk of its own: the call on the head returns false. -/
theorem bodyCutChunks_rejected :
    bytesOf bodyCutChunks = postHead.bytes ++ ascii "x" ∧
      postHead.request.takesBody = true ∧
      postHead.request.getHeader (ascii "Content-Length") = decimal (ascii "x").length ∧
      ∃ o ∈ parseCalls Buffer.zeroAlloc {} (Buffer.make Buffer.zeroAlloc 8) bodyCutChunks,
        o.flag = some false := by
  decide

end HttpContext

end MyTinyHttpd
