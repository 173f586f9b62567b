import MyTinyHttpd.Http.Head

/-!
# Parsing undoes printing

A `Message` is a request as a client means it: fields that can be written on the wire without
loss, with `Content-Length` for a method that takes a body. `Message.print` writes it.

`parseRequest_print`: from a new context, `ParseRequest` reads exactly that request back and
leaves what follows it.
-/

namespace MyTinyHttpd

open Verif HttpRequest

/-- The methods that `SetMethod` knows. -/
def knownMethods : List Method := [.kGet, .kPost, .kHead, .kPut, .kDelete, .kOptions]

def versionText : Version → List UInt8
  | .kHttp11 => ascii "HTTP/1.1"
  | _ => ascii "HTTP/1.0"

structure Message where
  method : Method
  path : List UInt8
  query : List UInt8
  version : Version
  headers : List (List UInt8 × List UInt8)
  body : List UInt8
  method_known : method ∈ knownMethods
  path_ok : ∀ c ∈ path, c ≠ 32 ∧ c ≠ 63 ∧ c ≠ 13 ∧ c ≠ 10
  query_head : query = [] ∨ query.head? = some 63
  query_ok : ∀ c ∈ query, c ≠ 32 ∧ c ≠ 13 ∧ c ≠ 10
  version_known : version ≠ .kUnknown
  names_nodup : (headers.map Prod.fst).Nodup
  names_ok : ∀ h ∈ headers, ∀ c ∈ h.1, c ≠ 58 ∧ c ≠ 13 ∧ c ≠ 10
  values_ok : ∀ h ∈ headers, ∀ c ∈ h.2, c ≠ 13 ∧ c ≠ 10
  values_trim : ∀ h ∈ headers, h.2.head?.any isSpace = false ∧ h.2.getLast?.any isSpace = false
  /-- `Content-Length` is there, and right, when there may be a body. -/
  contentLength : method = .kPost ∨ method = .kPut →
    (ascii "Content-Length", decimal body.length) ∈ headers ∧ body.length < 2 ^ 63
  bodyless : method ≠ .kPost → method ≠ .kPut → body = []

/-- `NAME: VALUE`. -/
def fieldLine (h : List UInt8 × List UInt8) : List UInt8 := h.1 ++ 58 :: 32 :: h.2

namespace Message

variable (msg : Message)

def target : List UInt8 := 47 :: msg.path ++ msg.query

def requestLine : List UInt8 :=
  ascii (toMethodString msg.method) ++ 32 :: (msg.target ++ 32 :: versionText msg.version)

/-- The bytes of the request on the wire. -/
def print : List UInt8 :=
  msg.requestLine ++ kCrlf ++ (msg.headers.map fieldLine).flatMap (· ++ kCrlf) ++ kCrlf ++ msg.body

/-! ## The request line -/

theorem methodOf_name : methodOf (ascii (toMethodString msg.method)) = msg.method := by
  have h := msg.method_known
  simp only [knownMethods, List.mem_cons, List.not_mem_nil, or_false] at h
  rcases h with h | h | h | h | h | h <;> rw [h] <;> decide

theorem space_notMem_name : 32 ∉ ascii (toMethodString msg.method) := by
  cases msg.method <;> decide

theorem versionOf_text : versionOf (versionText msg.version) = some msg.version := by
  have h := msg.version_known
  cases hv : msg.version with
  | kUnknown => exact absurd hv h
  | kHttp10 => decide
  | kHttp11 => decide

theorem space_notMem_target : 32 ∉ msg.target := by
  simp only [target, List.cons_append, List.mem_cons, List.mem_append, not_or]
  exact ⟨by decide, fun h => (msg.path_ok 32 h).1 rfl, fun h => (msg.query_ok 32 h).1 rfl⟩

theorem setTarget_target (r : HttpRequest) (hq : r.query = []) :
    setTarget r msg.target = some { r with path := msg.path, query := msg.query } := by
  have hp : 63 ∉ (47 : UInt8) :: msg.path := by
    simp only [List.mem_cons, not_or]
    exact ⟨by decide, fun h => (msg.path_ok 63 h).2.1 rfl⟩
  rcases msg.query_head with h | h
  · rw [target, h, List.append_nil, setTarget_plain r hp]
    simp [hq]
  · obtain ⟨q, hq⟩ := List.head?_eq_some_iff.mp h
    rw [target, hq, setTarget_query r hp]
    simp

/-- The request that the request line stores. -/
def start : HttpRequest :=
  { method := msg.method, version := msg.version, path := msg.path, query := msg.query }

theorem processRequestLine_requestLine :
    processRequestLine {} msg.requestLine = ⟨[.kInvalid], some (true, msg.start)⟩ := by
  rw [requestLine, processRequestLine_two _ msg.space_notMem_name msg.space_notMem_target,
    methodOf_name, setTarget_target _ _ rfl, Option.map_some, setVersionOf, versionOf_text]
  rfl

theorem requestLine_accepted : AcceptedLine msg.requestLine :=
  processRequestLine_accepts.mp ⟨_, by rw [msg.processRequestLine_requestLine]⟩

theorem requestLine_noCrlf : NoCrlf msg.requestLine := by
  apply noPair_of_not_mem
  simp only [requestLine, target, List.mem_append, List.mem_cons, not_or]
  refine ⟨?_, by decide, ⟨⟨by decide, ?_⟩, ?_⟩, by decide, ?_⟩
  · cases msg.method <;> decide
  · exact fun h => (msg.path_ok 13 h).2.2.1 rfl
  · exact fun h => (msg.query_ok 13 h).2.1 rfl
  · cases msg.version <;> decide

/-! ## The headers -/

theorem colon_mem_fieldLine (h : List UInt8 × List UInt8) : 58 ∈ fieldLine h := by
  simp [fieldLine]

theorem fieldLine_noCrlf {h : List UInt8 × List UInt8} (hh : h ∈ msg.headers) :
    NoCrlf (fieldLine h) := by
  apply noPair_of_not_mem
  simp only [fieldLine, List.mem_append, List.mem_cons, not_or]
  refine ⟨fun hc => (msg.names_ok h hh 13 hc).2.1 rfl, by decide, by decide, ?_⟩
  exact fun hc => (msg.values_ok h hh 13 hc).1 rfl

theorem headerValue_fieldLine {h : List UInt8 × List UInt8}
    (ht : h.2.head?.any isSpace = false ∧ h.2.getLast?.any isSpace = false) :
    headerValue (fieldLine h) h.1.length = h.2 := by
  have hd : (fieldLine h).drop (h.1.length + 1) = 32 :: h.2 := by simp [fieldLine]
  have hl : (32 :: h.2).dropWhile isSpace = h.2 := by
    rw [List.dropWhile_cons_of_pos (by decide)]
    cases hv : h.2 with
    | nil => rfl
    | cons c v => simpa [hv] using ht.1
  rw [headerValue, hd, hl, List.rdropWhile_eq_self_iff]
  intro hne
  simpa [List.getLast?_eq_some_getLast hne] using ht.2

theorem addHeader_fieldLine {h : List UInt8 × List UInt8} (hh : h ∈ msg.headers)
    (r : HttpRequest) :
    r.addHeader (fieldLine h) ((fieldLine h).idxOf 58) =
      { r with headers := r.headers.insert h.1 h.2 } := by
  have hi : (fieldLine h).idxOf 58 = h.1.length :=
    idxOf_append_cons (fun hc => (msg.names_ok h hh 58 hc).1 rfl) _
  rw [addHeader, hi, headerValue_fieldLine (msg.values_trim h hh)]
  simp [fieldLine]

end Message

/-- The map after the header lines, which have pairwise distinct names. -/
theorem lookup_foldl_insert (hs : List (List UInt8 × List UInt8)) (hn : (hs.map Prod.fst).Nodup)
    (m : HeaderMap) (name value : List UInt8) :
    (hs.foldl (fun m h => m.insert h.1 h.2) m).lookup name = some value ↔
      (name, value) ∈ hs ∨ (name ∉ hs.map Prod.fst ∧ m.lookup name = some value) := by
  induction hs generalizing m with
  | nil => simp
  | cons h hs ih =>
    obtain ⟨n, v⟩ := h
    obtain ⟨hnot, hn⟩ := List.nodup_cons.mp hn
    rw [List.foldl_cons, ih hn]
    by_cases he : name = n
    · subst he
      have hmem : (name, value) ∉ hs := fun h => hnot (List.mem_map.mpr ⟨_, h, rfl⟩)
      simp only [hmem, hnot, Finmap.lookup_insert, List.mem_cons, List.map_cons, not_true,
        not_false_eq_true, true_and, false_and, or_false, false_or, Option.some.injEq,
        Prod.mk.injEq]
      exact eq_comm
    · simp [Finmap.lookup_insert_of_ne _ he, he]

namespace Message

variable (msg : Message)

/-- The request that the head of the message stores. -/
def stored : HttpRequest :=
  { msg.start with headers := msg.headers.foldl (fun m h => m.insert h.1 h.2) ∅ }

theorem addFields_headers (hs : List (List UInt8 × List UInt8)) (hsub : ∀ h ∈ hs, h ∈ msg.headers)
    (r : HttpRequest) :
    RequestHead.addFields r (hs.map fieldLine) =
      { r with headers := hs.foldl (fun m h => m.insert h.1 h.2) r.headers } := by
  induction hs generalizing r with
  | nil => rfl
  | cons h hs ih =>
    show RequestHead.addFields (r.addHeader (fieldLine h) ((fieldLine h).idxOf 58))
      (hs.map fieldLine) = _
    rw [msg.addHeader_fieldLine (hsub h (by simp)), ih fun h' hh' => hsub h' (by simp [hh'])]
    rfl

def head : RequestHead where
  line := msg.requestLine
  fields := msg.headers.map fieldLine
  line_noCrlf := msg.requestLine_noCrlf
  line_accepted := msg.requestLine_accepted
  fields_noCrlf f hf := by
    obtain ⟨h, hh, rfl⟩ := List.mem_map.mp hf
    exact msg.fieldLine_noCrlf hh
  fields_colon f hf := by
    obtain ⟨h, -, rfl⟩ := List.mem_map.mp hf
    exact colon_mem_fieldLine h

theorem print_eq : msg.print = msg.head.bytes ++ msg.body := by
  simp [print, RequestHead.bytes, RequestHead.fieldBytes, head]

theorem head_request : msg.head.request = msg.stored := by
  have hl : RequestHead.lineRequest msg.requestLine = msg.start := by
    rw [RequestHead.lineRequest, msg.processRequestLine_requestLine]
  rw [RequestHead.request, head, hl, msg.addFields_headers msg.headers fun _ h => h]
  rfl

theorem stored_lookup (name value : List UInt8) :
    msg.stored.headers.lookup name = some value ↔ (name, value) ∈ msg.headers := by
  rw [stored, lookup_foldl_insert msg.headers msg.names_nodup]
  simp

theorem stored_takesBody :
    msg.stored.takesBody = true ↔ msg.method = .kPost ∨ msg.method = .kPut := by
  show (decide (msg.method = .kPost) || decide (msg.method = .kPut)) = true ↔ _
  simp

/-- The body state, with the message's own body. -/
theorem scanBody_stored (t : Timestamp) {rest : List UInt8}
    (hrest : msg.method = .kPost ∨ msg.method = .kPut → rest = []) :
    HttpContext.scanBody { state := .kExpectBody, request := msg.stored.setReceiveTime t }
        (msg.body ++ rest) =
      .returned true
        { state := .kGotAll, request := { msg.stored.setReceiveTime t with body := msg.body } }
        rest [] := by
  by_cases hm : msg.method = .kPost ∨ msg.method = .kPut
  · obtain ⟨hcl, hlen⟩ := msg.contentLength hm
    have htakes : (msg.stored.setReceiveTime t).takesBody = true := msg.stored_takesBody.mpr hm
    have hget : (msg.stored.setReceiveTime t).getHeader (ascii "Content-Length") =
        decimal msg.body.length := by
      have hlookup := (msg.stored_lookup _ _).mpr hcl
      show (msg.stored.headers.lookup _).getD [] = _
      rw [hlookup]
      rfl
    rw [hrest hm, List.append_nil, HttpContext.scanBody_contentLength htakes hget hlen hlen,
      if_pos rfl]
  · have htakes : (msg.stored.setReceiveTime t).takesBody = false :=
      Bool.eq_false_iff.mpr fun h => hm (msg.stored_takesBody.mp h)
    have hbody : msg.body = [] := msg.bodyless (fun h => hm (.inl h)) fun h => hm (.inr h)
    simp only [HttpContext.scanBody, htakes, Bool.false_eq_true, ↓reduceIte, hbody]
    rfl

end Message

/-- **Parsing undoes printing.** On a buffer that holds a printed message (and, after a message
without a body, anything else), `ParseRequest` from a new context reads the message back and
leaves what follows it. -/
theorem parseRequest_print (msg : Message) (t : Timestamp) (buf : Buffer) (rest : List UInt8)
    (hrest : msg.method = .kPost ∨ msg.method = .kPut → rest = [])
    (hbuf : buf.Holds (msg.print ++ rest)) :
    ∃ c buf' found, HttpContext.parseRequest t {} buf = .returned true c buf' found ∧
      c.state = .kGotAll ∧ c.request.method = msg.method ∧ c.request.path = msg.path ∧
      c.request.query = msg.query ∧ c.request.version = msg.version ∧
      (∀ name value, c.request.headers.lookup name = some value ↔ (name, value) ∈ msg.headers) ∧
      c.request.body = msg.body ∧ buf'.readable = rest := by
  have hagree := HttpContext.parseRequest_agrees t {} hbuf
  rw [msg.print_eq, List.append_assoc, HttpContext.parseBytes_head, msg.head_request,
    msg.scanBody_stored t hrest] at hagree
  obtain ⟨buf', ho, hb⟩ := hagree.returned
  exact ⟨_, buf', _, ho, rfl, rfl, rfl, rfl, rfl, msg.stored_lookup, rfl, hb.readable_eq⟩

/-- A POST request with a query, an extra header and a body. -/
def postMessage : Message where
  method := .kPost
  path := ascii "form"
  query := ascii "?q=1"
  version := .kHttp11
  headers := [(ascii "Host", ascii "a b"), (ascii "Content-Length", ascii "2")]
  body := ascii "hi"
  method_known := by decide
  path_ok := by simp [ascii]
  query_head := by decide
  query_ok := by simp [ascii]
  version_known := by decide
  names_nodup := by decide
  names_ok := by simp [ascii]
  values_ok := by simp [ascii]
  values_trim := by decide
  contentLength := by decide
  bodyless := by decide

theorem parseRequest_postMessage :
    let buf := (Buffer.make Buffer.zeroAlloc 16).append Buffer.zeroAlloc postMessage.print
    buf.Holds (postMessage.print ++ []) ∧
      ∃ c buf' found, HttpContext.parseRequest 7 {} buf = .returned true c buf' found ∧
        c.request.body = ascii "hi" := by
  intro buf
  have hbuf : buf.Holds (postMessage.print ++ []) := by
    rw [List.append_nil]
    exact (Buffer.make_holds Buffer.zeroAlloc 16).append Buffer.zeroAlloc postMessage.print
  obtain ⟨c, buf', found, h, -, -, -, -, -, -, hbody, -⟩ :=
    parseRequest_print postMessage 7 buf [] (fun _ => rfl) hbuf
  exact ⟨hbuf, c, buf', found, h, hbody⟩

end MyTinyHttpd
