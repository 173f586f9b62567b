import MyTinyHttpd.Http.Chunks

/-!
# One context for all requests of a connection

`HttpServer::OnMessage` handles the requests of a connection with one `HttpContext`, which it
resets after each. `Reset()` goes through `HttpRequest::swap`, which swaps every field but the
body, so the body of a POST or PUT request stays in the context.

* `reset_eq`: what `Reset()` leaves.
* `handleAll_views`: what the handler sees: a request without a body comes with the body of the
  last POST or PUT request before it.
* `handleAll_fresh_iff`: the handler sees every request as a new context parses it, exactly when
  all of these bodies are empty.
-/

namespace MyTinyHttpd

open Verif

namespace HttpContext

/-- A new context, but for the body in its request. -/
def leftover (body : List UInt8) : HttpContext := { request := { body } }

theorem reset_eq (c : HttpContext) : c.reset = leftover c.request.body := rfl

theorem leftover_timeless (body : List UInt8) : (leftover body).timeless = leftover body := rfl

/-- Feeds the chunks of each request, which must end with it, shows the request to the handler
and resets the context. `none` when a request is rejected or is not complete. -/
def handleAll (alloc : Allocator) (c : HttpContext) (buf : Buffer) :
    List (List Chunk) → Option (List HttpRequest)
  | [] => some []
  | ks :: rest =>
    match feed alloc c buf ks with
    | some fed =>
      if fed.ok ∧ fed.context.isGotAll ∧ fed.unfed.isEmpty ∧ fed.buf.readable.isEmpty then
        (handleAll alloc fed.context.reset fed.buf rest).map (fed.context.request :: ·)
      else none
    | none => none

/-- The request that a new context parses from the bytes, receive time aside. -/
def freshRequest (alloc : Allocator) (bs : List UInt8) : HttpRequest :=
  match parseRequest 0 {} ((Buffer.make alloc kInitialSize).append alloc bs) with
  | .returned _ c _ _ => c.request.timeless
  | _ => {}

theorem freshRequest_eq (alloc : Allocator) {bs rest : List UInt8} {ok : Bool} {c : HttpContext}
    {found : List Method} (h : parseBytes 0 {} bs = .returned ok c rest found) :
    freshRequest alloc bs = c.request := by
  obtain ⟨c', buf', hcall, hc', -⟩ := parseRequest_returned (t := 0) (c := {})
    ((Buffer.make_holds alloc kInitialSize).append alloc bs) h
  rw [freshRequest, hcall]
  exact congrArg HttpContext.request hc'

/-- Feeding to the end comes to the outcome of the start context on all of the bytes. -/
theorem feed_complete {alloc : Allocator} {ks : List Chunk} {c₀ : HttpContext} {u : List UInt8}
    {c : HttpContext} {buf : Buffer} {bs : List UInt8} (h : Reached c₀ u c bs) (hb : buf.Holds bs)
    {fed : Fed} (hfed : feed alloc c buf ks = some fed) (hok : fed.ok = true)
    (hgot : fed.context.isGotAll = true) (hunfed : fed.unfed = []) :
    ∃ found, fed.buf.Holds fed.buf.readable ∧
      parseBytes 0 c₀ (u ++ bytesOf ks) =
        .returned true fed.context.timeless fed.buf.readable found := by
  induction ks generalizing u c buf bs with
  | nil =>
    cases hfed
    obtain ⟨hc, -⟩ := h
    have hs : c.state = .kGotAll := by simpa [isGotAll] using hgot
    exact absurd hs hc.ne_gotAll
  | cons k ks ih =>
    rw [bytesOf_cons, ← List.append_assoc]
    obtain ⟨f, hp⟩ := h.follows k.time k.data
    have hagree := parseRequest_agrees k.time c (hb.append alloc k.data)
    simp only [feed] at hfed
    cases ho : parseRequest k.time c (buf.append alloc k.data) with
    | threw f => rw [ho] at hfed; cases hfed
    | diverged => rw [ho] at hfed; cases hfed
    | returned ok c' buf' found =>
      rw [ho] at hfed hagree
      obtain ⟨rest, hq, hb'⟩ := hagree.of_returned
      rw [hq] at hp
      simp only at hfed
      by_cases hstop : ok = false ∨ c'.isGotAll = true
      · rw [if_pos hstop, Option.some.injEq] at hfed
        subst hfed
        simp only at hok hunfed
        subst hok hunfed
        refine ⟨f ++ found, hb'.readable_eq ▸ hb', ?_⟩
        rw [bytesOf_nil, List.append_nil, hp, hb'.readable_eq]
        rfl
      · rw [if_neg hstop] at hfed
        simp only [Bool.not_eq_true, not_or, Bool.not_eq_false] at hstop
        obtain ⟨rfl, hnot⟩ := hstop
        have hc : c'.AwaitsLine := by
          rcases parseBytes_returned_true hq with h | h
          · exact h
          · simp [isGotAll, h] at hnot
        exact ih ⟨hc, f ++ found, hp⟩ hb' hfed

/-! ## What the handler sees -/

/-- What the handler sees of the request `r` when `body` was left in the context. -/
def staleView (body : List UInt8) (r : HttpRequest) : HttpRequest :=
  if r.takesBody then r else r.withBody body

/-- What the handler sees of the requests: each leaves its body to the next. -/
def staleViews (body : List UInt8) : List HttpRequest → List HttpRequest
  | [] => []
  | r :: rs => staleView body r :: staleViews (staleView body r).body rs

/-- The body of the last of the requests that takes one, or `body`. -/
def lastBody (body : List UInt8) (rs : List HttpRequest) : List UInt8 :=
  rs.foldl (fun b r => if r.takesBody then r.body else b) body

/-- Without a body of its own the request has none. -/
def Bodyless (r : HttpRequest) : Prop := r.takesBody = false → r.body = []

theorem staleViews_eq_iff (rs : List HttpRequest) (hrs : ∀ r ∈ rs, Bodyless r)
    (body : List UInt8) :
    staleViews body rs = rs ↔
      ∀ pre r post, rs = pre ++ r :: post → r.takesBody = false → lastBody body pre = [] := by
  induction rs generalizing body with
  | nil => simp [staleViews]
  | cons r rs ih =>
    have ih := ih fun r' hr' => hrs r' (by simp [hr'])
    have hr : Bodyless r := hrs r (by simp)
    simp only [staleViews, List.cons.injEq, ih]
    -- The first request is its own case; `pre` of the others starts with it.
    have hsplit : (∀ pre r' post, r :: rs = pre ++ r' :: post → r'.takesBody = false →
          lastBody body pre = []) ↔
        (r.takesBody = false → body = []) ∧ ∀ pre r' post, rs = pre ++ r' :: post →
          r'.takesBody = false → lastBody body (r :: pre) = [] := by
      constructor
      · intro h
        refine ⟨fun hb => h [] r rs rfl hb, fun pre r' post he hb => ?_⟩
        exact h (r :: pre) r' post (by rw [he]; rfl) hb
      · rintro ⟨h₁, h₂⟩ pre r' post he hb
        cases pre with
        | nil => cases he; exact h₁ hb
        | cons r₀ pre => cases he; exact h₂ pre r' post rfl hb
    rw [hsplit]
    cases hb : r.takesBody with
    | true => simp [staleView, lastBody, hb]
    | false =>
      have hself : staleView body r = r ↔ body = [] := by
        rw [← hr hb]
        simp only [staleView, hb, Bool.false_eq_true, ↓reduceIte, HttpRequest.withBody]
        exact ⟨fun h => (congrArg HttpRequest.body h), fun h => by rw [h]⟩
      have hbody : (staleView body r).body = body := by
        simp [staleView, hb, HttpRequest.withBody]
      have hlast : ∀ pre, lastBody body (r :: pre) = lastBody body pre := by
        intro pre; simp [lastBody, hb]
      simp only [hself, hbody, hlast, forall_const]

/-- What the handler sees of a request that was fed to its end, next to what a new context parses
from its bytes. -/
theorem feed_view {alloc : Allocator} {body : List UInt8} {buf : Buffer} (hb : buf.Holds [])
    {ks : List Chunk} {fed : Fed} (hfed : feed alloc (leftover body) buf ks = some fed)
    (hok : fed.ok = true) (hgot : fed.context.isGotAll = true) (hunfed : fed.unfed = []) :
    fed.context.request.timeless = staleView body (freshRequest alloc (bytesOf ks)) ∧
      Bodyless (freshRequest alloc (bytesOf ks)) := by
  obtain ⟨found, -, hparse⟩ :=
    feed_complete (reached_nil (c := leftover body) (.inl rfl)) hb hfed hok hgot hunfed
  rw [List.nil_append, leftover_timeless] at hparse
  have hs : fed.context.state = .kGotAll := by simpa [isGotAll] using hgot
  -- The parse from the leftover context is the one of a new context, but for the body; with no
  -- body left over it is the same.
  have hstale : parseBytes 0 (leftover body) (bytesOf ks) =
      (parseBytes 0 {} (bytesOf ks)).reframe id fun _ => body :=
    parseBytes_reframe id (fun _ => body) 0 {} (bytesOf ks)
  have hnil : parseBytes 0 {} (bytesOf ks) =
      (parseBytes 0 {} (bytesOf ks)).reframe id fun _ => [] :=
    parseBytes_reframe id (fun _ => []) 0 {} (bytesOf ks)
  rw [hparse] at hstale
  cases hp : parseBytes 0 {} (bytesOf ks) with
  | threw f => rw [hp] at hstale; cases hstale
  | diverged => rw [hp] at hstale; cases hstale
  | returned ok cf rest f =>
    rw [hp] at hstale hnil
    simp only [Parsed.reframe, Parsed.returned.injEq] at hstale hnil
    obtain ⟨rfl, hview, -, -⟩ := hstale
    obtain ⟨-, hnil, -, -⟩ := hnil
    have hstate : cf.state = .kGotAll := by
      rw [← hs]
      have := congrArg HttpContext.state hview
      split at this <;> exact this.symm
    rw [freshRequest_eq alloc hp]
    cases hb : cf.request.takesBody with
    | true =>
      have hgotBody : cf.GotBody := ⟨hstate, hb⟩
      rw [if_pos hgotBody] at hview
      refine ⟨?_, fun h => absurd h (by simp [hb])⟩
      rw [staleView, if_pos hb]
      exact congrArg HttpContext.request hview
    | false =>
      have hgotBody : ¬ cf.GotBody := fun h => by simp [GotBody, hb] at h
      rw [if_neg hgotBody] at hview hnil
      refine ⟨?_, fun _ => congrArg (fun c => c.request.body) hnil⟩
      rw [staleView, if_neg (by simp [hb])]
      exact congrArg HttpContext.request hview

/-- The run: the handler sees what `staleViews` says. -/
theorem handleAll_views {alloc : Allocator} (requests : List (List Chunk)) {body : List UInt8}
    {buf : Buffer} (hb : buf.Holds []) {views : List HttpRequest}
    (h : handleAll alloc (leftover body) buf requests = some views) :
    views.map HttpRequest.timeless =
        staleViews body (requests.map fun ks => freshRequest alloc (bytesOf ks)) ∧
      ∀ r ∈ requests.map (fun ks => freshRequest alloc (bytesOf ks)), Bodyless r := by
  induction requests generalizing body buf views with
  | nil => cases h; exact ⟨rfl, by simp⟩
  | cons ks rest ih =>
    simp only [handleAll] at h
    cases hfed : feed alloc (leftover body) buf ks with
    | none => rw [hfed] at h; cases h
    | some fed =>
      rw [hfed] at h
      simp only [List.isEmpty_iff] at h
      split at h
      · rename_i hdone
        obtain ⟨hok, hgot, hunfed, hempty⟩ := hdone
        obtain ⟨views', hviews', rfl⟩ := Option.map_eq_some_iff.mp h
        obtain ⟨-, hb', -⟩ := feed_complete (reached_nil (c := leftover body) (.inl rfl)) hb hfed
          hok hgot hunfed
        obtain ⟨hview, hbodyless⟩ := feed_view hb hfed hok hgot hunfed
        rw [hempty] at hb'
        obtain ⟨hrest, hall⟩ := ih hb' hviews'
        refine ⟨?_, by simpa using ⟨hbodyless, by simpa using hall⟩⟩
        have hbody : fed.context.request.body =
            (staleView body (freshRequest alloc (bytesOf ks))).body := by
          rw [← hview]; rfl
        simp only [List.map_cons, staleViews, hview, hrest, hbody]
      · cases h

/-- **When requests on one connection do not influence each other.** The handler sees every
request as a new context parses it (receive time aside), exactly when for each request without a
body the last POST or PUT request before it, if any, had an empty one. `Reset()` gives a new
context exactly when the body is empty. -/
theorem handleAll_fresh_iff (alloc : Allocator) (initialSize : Nat) (requests : List (List Chunk))
    (views : List HttpRequest)
    (h : handleAll alloc {} (Buffer.make alloc initialSize) requests = some views) :
    let fresh := requests.map fun ks => freshRequest alloc (bytesOf ks)
    (views.map HttpRequest.timeless = fresh ↔
      ∀ pre r post, fresh = pre ++ r :: post → r.takesBody = false → lastBody [] pre = []) ∧
    ∀ c : HttpContext, c.reset = {} ↔ c.request.body = [] := by
  intro fresh
  have hnew :
      handleAll alloc (leftover []) (Buffer.make alloc initialSize) requests = some views := h
  obtain ⟨hviews, hall⟩ := handleAll_views requests (Buffer.make_holds alloc initialSize) hnew
  refine ⟨?_, fun c => ?_⟩
  · rw [hviews]
    exact staleViews_eq_iff fresh hall []
  · rw [reset_eq]
    exact ⟨fun h => congrArg (fun c => c.request.body) h, fun h => by rw [h]; rfl⟩

/-- A GET request and then a POST request with a body, each in one chunk. -/
def getThenPost : List (List Chunk) :=
  [[⟨1, ascii "GET / HTTP/1.1\r\n\r\n"⟩],
    [⟨2, ascii "POST / HTTP/1.1\r\nContent-Length: 1\r\n\r\nx"⟩]]

theorem getThenPost_fresh :
    ∃ views, handleAll Buffer.zeroAlloc {} (Buffer.make Buffer.zeroAlloc 8) getThenPost =
        some views ∧
      views.map HttpRequest.timeless =
        getThenPost.map fun ks => freshRequest Buffer.zeroAlloc (bytesOf ks) := by
  obtain ⟨views, h⟩ := Option.isSome_iff_exists.mp (show (handleAll Buffer.zeroAlloc {}
    (Buffer.make Buffer.zeroAlloc 8) getThenPost).isSome = true by decide +kernel)
  refine ⟨views, h, (handleAll_fresh_iff Buffer.zeroAlloc 8 getThenPost views h).1.mpr ?_⟩
  intro pre r post he hbody
  rcases pre with _ | ⟨r₁, _ | ⟨r₂, pre⟩⟩
  · rfl
  · simp only [getThenPost, List.map_cons, List.map_nil, List.cons_append, List.nil_append,
      List.cons.injEq] at he
    obtain ⟨-, rfl, -⟩ := he
    exact absurd hbody (by decide +kernel)
  · have := congrArg List.length he
    simp [getThenPost] at this

/-- The body of the POST request is in the GET request that follows. -/
theorem postThenGet_stale :
    (handleAll Buffer.zeroAlloc {} (Buffer.make Buffer.zeroAlloc 8) getThenPost.reverse).map
        (·.map HttpRequest.body) = some [ascii "x", ascii "x"] ∧
      (getThenPost.reverse.map fun ks => (freshRequest Buffer.zeroAlloc (bytesOf ks)).body) =
        [ascii "x", []] := by
  decide +kernel

end HttpContext

end MyTinyHttpd
