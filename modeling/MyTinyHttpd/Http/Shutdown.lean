import MyTinyHttpd.Http.Pipeline

/-!
# Requests after `Shutdown()`

`OnMessage` does not look at the state of the connection, and `Shutdown()` closes the write side
only. So bytes that come after it can still complete a request, which then goes to the handler;
the answer is dropped by `Send`.

* `Completes c bs`: the bytes complete the request that the context is in. `parseBytes_hasRequest`
  says that it is what the parser computes.
* `handled_connected_iff`: the handler is only called in `kConnected`, exactly when no chunk that
  comes later completes a request.
-/

namespace MyTinyHttpd

open Verif HttpRequest

/-- `ProcessRequestLine` keeps the header map. -/
theorem processRequestLine_headers {r r' : HttpRequest} {line : List UInt8} {ok : Bool}
    (h : (processRequestLine r line).returned = some (ok, r')) : r'.headers = r.headers := by
  obtain hn | ⟨m, rest, rfl, hm, hr⟩ | ⟨m, target, text, rfl, hm, ht⟩ := line_shape line
  · rw [processRequestLine_none r hn] at h
    cases h
    rfl
  · rw [processRequestLine_one r hm hr] at h
    cases h
    rfl
  · rw [processRequestLine_two r hm ht] at h
    obtain ⟨r₁, h₁, h₂⟩ := Option.map_eq_some_iff.mp h
    have htarget : r₁.headers = r.headers := by
      simp only [setTarget] at h₁
      split at h₁
      · cases h₁
      · split at h₁ <;> cases h₁ <;> rfl
    rw [← htarget]
    unfold setVersionOf at h₂
    cases hv : versionOf text with
    | none => rw [hv] at h₂; cases h₂; rfl
    | some v => rw [hv] at h₂; cases h₂; rfl

namespace HttpContext

/-! ## Bytes that complete a request -/

/-- Header lines up to a line without a colon, and then the body. -/
inductive HeadComplete : HttpRequest → List UInt8 → Prop where
  | field {r : HttpRequest} {bs line rest : List UInt8} (hcut : cutLine bs = some (line, rest))
      (hcolon : 58 ∈ line) (h : HeadComplete (r.addHeader line (line.idxOf 58)) rest) :
      HeadComplete r bs
  | last {r : HttpRequest} {bs line rest : List UInt8} (hcut : cutLine bs = some (line, rest))
      (hcolon : 58 ∉ line) (h : BodyComplete r rest) : HeadComplete r bs

/-- The bytes complete the request that the context is in. -/
def Completes (c : HttpContext) (bs : List UInt8) : Prop :=
  match c.state with
  | .kExpectRequestLine => ∃ line rest, cutLine bs = some (line, rest) ∧ AcceptedLine line ∧
      HeadComplete { c.request with method := methodOf line } rest
  | .kExpectHeaders => HeadComplete c.request bs
  | .kExpectBody => BodyComplete c.request bs
  | .kGotAll => False

/-- Only the method and the header map matter. -/
theorem HeadComplete.congr {r r' : HttpRequest} {bs : List UInt8} (h : HeadComplete r bs)
    (hm : r'.method = r.method) (hh : r'.headers = r.headers) : HeadComplete r' bs := by
  induction h generalizing r' with
  | field hcut hcolon h ih =>
    refine .field hcut hcolon (ih hm ?_)
    simp only [addHeader, hh]
  | last hcut hcolon h =>
    refine .last hcut hcolon ?_
    simpa only [BodyComplete, takesBody, getHeader, hm, hh] using h

/-- The call has come to `kGotAll`. -/
def Parsed.HasRequest : Parsed → Prop
  | .returned _ c _ _ => c.state = .kGotAll
  | _ => False

theorem Parsed.hasRequest_log {p : Parsed} {found : List Method} :
    (p.log found).HasRequest ↔ p.HasRequest := by
  cases p <;> rfl

theorem scanBody_hasRequest {c : HttpContext} (hs : c.state = .kExpectBody) (bs : List UInt8) :
    (scanBody c bs).HasRequest ↔ BodyComplete c.request bs := by
  by_cases h : BodyComplete c.request bs
  · obtain ⟨r, rest, hbody, -⟩ := scanBody_complete h
    exact iff_of_true (by rw [hbody]; rfl) h
  · refine iff_of_false ?_ h
    rcases scanBody_incomplete h with hbody | ⟨hbody, -⟩ <;> rw [hbody]
    · exact fun hgot => by cases hs.symm.trans hgot
    · exact id

/-- A header line that has been cut off. -/
theorem headComplete_cut {r : HttpRequest} {bs line rest : List UInt8}
    (hcut : cutLine bs = some (line, rest)) :
    HeadComplete r bs ↔ if 58 ∈ line then HeadComplete (r.addHeader line (line.idxOf 58)) rest
      else BodyComplete r rest := by
  constructor
  · intro h
    cases h with
    | field hcut' hcolon h =>
      rw [hcut, Option.some.injEq, Prod.mk.injEq] at hcut'
      obtain ⟨rfl, rfl⟩ := hcut'
      rwa [if_pos hcolon]
    | last hcut' hcolon h =>
      rw [hcut, Option.some.injEq, Prod.mk.injEq] at hcut'
      obtain ⟨rfl, rfl⟩ := hcut'
      rwa [if_neg hcolon]
  · intro h
    split at h
    · exact .field hcut ‹_› h
    · exact .last hcut ‹_› h

variable {t : Timestamp}

theorem parseBytes_body_hasRequest {c : HttpContext} (hs : c.state = .kExpectBody)
    (bs : List UInt8) : (parseBytes t c bs).HasRequest ↔ BodyComplete c.request bs := by
  have hscan : scan t c bs = .done (scanBody c bs) := by simp only [scan, hs]
  rw [parseBytes_done hscan, scanBody_hasRequest hs]

theorem parseBytes_headers_hasRequest {c : HttpContext} (hs : c.state = .kExpectHeaders)
    (bs : List UInt8) : (parseBytes t c bs).HasRequest ↔ HeadComplete c.request bs := by
  induction hn : bs.length using Nat.strong_induction_on generalizing c bs with
  | _ n ih =>
    cases hcut : cutLine bs with
    | none =>
      rw [parseBytes_cut_none (.inr hs) hcut]
      refine ⟨fun h => ?_, fun h => ?_⟩
      · cases hs.symm.trans h
      · cases h with
        | field hcut' => rw [hcut] at hcut'; cases hcut'
        | last hcut' => rw [hcut] at hcut'; cases hcut'
    | some cut =>
      obtain ⟨line, rest⟩ := cut
      have hscan : scan t c bs = .more (c.headerLine line) rest [] := by
        simp only [scan, hs, scanHeaders, hcut]
      have hlt := scan_more_length hscan
      rw [parseBytes_more hscan, Parsed.log_nil, headComplete_cut hcut]
      split
      · rename_i hcolon
        rw [headerLine_colon hcolon]
        exact ih rest.length (hn ▸ hlt)
          (c := { c with request := c.request.addHeader line (line.idxOf 58) }) hs rest rfl
      · rename_i hcolon
        have hline : c.headerLine line = { c with state := .kExpectBody } := by
          rw [headerLine, if_neg (by simp [List.idxOf_eq_length hcolon])]
        rw [hline]
        exact parseBytes_body_hasRequest rfl rest

section RequestLine

variable {c : HttpContext} {bs line rest : List UInt8} (hs : c.state = .kExpectRequestLine)
  (hcut : cutLine bs = some (line, rest))
include hs hcut

/-- A request line that is accepted sets the method, and the rest of the call reads headers. -/
theorem parseBytes_accepted_hasRequest (haccepted : AcceptedLine line) :
    (parseBytes t c bs).HasRequest ↔
      HeadComplete { c.request with method := methodOf line } rest := by
  obtain ⟨r, hr⟩ := (processRequestLine_accepts (r := c.request)).mpr haccepted
  have hspace : 32 ∈ line := by
    obtain ⟨m, target, text, rfl, -⟩ := haccepted
    simp
  have hm : r.method = methodOf line := processRequestLine_method hr hspace
  have hh : r.headers = c.request.headers := processRequestLine_headers hr
  have hscan : scan t c bs = .more { state := .kExpectHeaders, request := r.setReceiveTime t }
      rest (processRequestLine c.request line).found := by
    simp only [scan, hs, scanRequestLine, hcut, hr]
  rw [parseBytes_more hscan, Parsed.hasRequest_log, parseBytes_headers_hasRequest rfl]
  exact ⟨fun h => h.congr hm.symm hh.symm, fun h => h.congr hm hh⟩

theorem parseBytes_rejected (hrejected : ¬ AcceptedLine line) :
    ¬ (parseBytes t c bs).HasRequest := by
  intro h
  cases hscan : scan t c bs with
  | more c' rest' f =>
    obtain ⟨line', hcut', ⟨-, r, hres, -⟩ | ⟨hs', -⟩⟩ := scan_more hscan
    · rw [hcut] at hcut'
      cases hcut'
      exact hrejected (processRequestLine_accepts.mp ⟨r, by rw [hres]⟩)
    · cases hs.symm.trans hs'
  | done p =>
    rw [parseBytes_done hscan] at h
    obtain ⟨-, -, rfl⟩ | ⟨-, -, -, f, -, ⟨-, rfl⟩ | ⟨r, -, rfl⟩⟩ | ⟨hs', -⟩ | ⟨hs', -⟩ :=
      scan_done hscan
    · cases hs.symm.trans h
    · exact h.elim
    · cases hs.symm.trans h
    · cases hs.symm.trans hs'
    · cases hs.symm.trans hs'

end RequestLine

/-- **When a call has a request.** -/
theorem parseBytes_hasRequest {c : HttpContext} {bs : List UInt8} :
    (parseBytes t c bs).HasRequest ↔ c.Completes bs := by
  unfold Completes
  cases hs : c.state with
  | kExpectHeaders => exact parseBytes_headers_hasRequest hs bs
  | kExpectBody => exact parseBytes_body_hasRequest hs bs
  | kGotAll =>
    have hscan : scan t c bs = .done .diverged := by simp only [scan, hs]
    rw [parseBytes_done hscan]
    rfl
  | kExpectRequestLine =>
    cases hcut : cutLine bs with
    | none =>
      rw [parseBytes_cut_none (.inl hs) hcut]
      simp [Parsed.HasRequest, hs]
    | some cut =>
      obtain ⟨line, rest⟩ := cut
      by_cases haccepted : AcceptedLine line
      · rw [parseBytes_accepted_hasRequest hs hcut haccepted]
        constructor
        · intro h
          exact ⟨line, rest, rfl, haccepted, h⟩
        · rintro ⟨line', rest', he, -, h⟩
          cases he
          exact h
      · refine iff_of_false (parseBytes_rejected hs hcut haccepted) ?_
        rintro ⟨line', rest', he, haccepted', -⟩
        cases he
        exact haccepted haccepted'

end HttpContext

namespace Session

open HttpContext

variable {ω : Type} (alloc : Allocator) (server : HttpServer ω)

/-- What comes to the handler in a step: a request, when the chunk completes one. -/
theorem handledBy_spec {s : Session ω} (h : s.Ready) (e : Event) (P : ConnState → Prop) :
    (∀ x ∈ s.handledBy alloc server e, P x.2) ↔
      ∀ k, e = .message k → s.status = .running →
        s.conn.context.Completes (s.unread ++ k.data) → P s.conn.state := by
  cases e with
  | writable => simp [handledBy, step]
  | message k =>
    simp only [Event.message.injEq, forall_eq']
    by_cases hrun : s.status = .running
    · simp only [hrun, forall_const, ← parseBytes_hasRequest (t := k.time)]
      obtain ⟨f, hp, -, -, hsame, -⟩ | ⟨ok, c, rest, f, hp, ⟨hc, ha⟩ | ⟨hc, -, ha⟩⟩ :=
        step_message alloc server h hrun k
      · simp [handledBy, hsame, hp, Parsed.HasRequest]
      · simp [handledBy, ha.handled_eq, hp, Parsed.HasRequest, hc]
      · simp [handledBy, ha.handled_eq, hp, Parsed.HasRequest, hc]
    · simp [handledBy, step_not_running alloc server hrun, hrun]

/-- **When the handler is only called in `kConnected`.** In every run of a connection, whatever the
server and the kernel: exactly when no chunk that comes after the connection has left `kConnected`
completes a request. -/
theorem handled_connected_iff (answers : Nat → WriteResult) (w : ω) (events : List Event) :
    (∀ x ∈ (events.foldl (step alloc server) (established alloc answers w)).handled,
        x.2 = .kConnected) ↔
      ∀ pre k post, events = pre ++ .message k :: post →
        let s := pre.foldl (step alloc server) (established alloc answers w)
        s.status = .running → s.conn.state ≠ .kConnected →
          ¬ s.conn.context.Completes (s.unread ++ k.data) := by
  have hready := ready_established alloc answers w
  rw [forall_log_iff (I := Ready) (fun s e h => ready_step alloc server h e)
    (fun s e h => (step_logs alloc server h e).1) (fun x => x.2 = ConnState.kConnected) hready]
  constructor
  · rintro ⟨-, h⟩ pre k post he s hrun hstate hcompletes
    have hs : s.Ready := ready_run alloc server hready pre
    exact hstate ((handledBy_spec alloc server hs (.message k) (· = .kConnected)).mp
      (h pre (.message k) post he) k rfl hrun hcompletes)
  · intro h
    refine ⟨by simp [established], fun pre e post he => ?_⟩
    have hs := ready_run alloc server hready pre
    rw [handledBy_spec alloc server hs e (· = .kConnected)]
    rintro k rfl hrun hcompletes
    by_contra hstate
    exact h pre k post he hrun hstate hcompletes

/-- A PUT request whose body comes in a chunk of its own. -/
def putCut : List Event :=
  [.message ⟨1, ascii "PUT /a HTTP/1.1\r\nContent-Length: 1\r\n\r\n"⟩, .message ⟨2, ascii "x"⟩]

/-- The first chunk is answered with 400 and `Shutdown()`; the second one completes the request,
which goes to the handler. -/
theorem putCut_handled :
    (putCut.foldl (step Buffer.zeroAlloc plainServer) plainSession).handled.map (·.2) =
      [.kDisconnecting] := by
  decide +kernel

end Session

end MyTinyHttpd
