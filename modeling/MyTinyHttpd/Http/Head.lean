import MyTinyHttpd.Http.Stream

/-!
# Well-formed request heads

A `RequestHead` is what a client sends before the body: a request line that `ProcessRequestLine`
accepts, header lines with a colon, and an empty line.

* `parseBytes_head`: the parser reads the head of a new request and comes to the body state with
  the request of the head, whatever follows.
* `parseBytes_head_prefix`: on a proper prefix of the head the parser waits for a line.
-/

namespace MyTinyHttpd

open Verif

/-- A line is found as soon as it is complete: what a prefix of `line CRLF tail` shows. -/
theorem cutLine_prefix {bs more line tail : List UInt8}
    (h : bs ++ more = line ++ kCrlf ++ tail) (hn : NoCrlf line) :
    cutLine bs = none ∨ ∃ bs', cutLine bs = some (line, bs') ∧ bs' ++ more = tail := by
  cases hcut : cutLine bs with
  | none => exact .inl rfl
  | some cut =>
    obtain ⟨l, bs'⟩ := cut
    have h₁ := cutLine_append hcut more
    have h₂ : cutLine (bs ++ more) = some (line, tail) := cutLine_eq_some.mpr ⟨h, hn⟩
    rw [h₁, Option.some.injEq, Prod.mk.injEq] at h₂
    exact .inr ⟨bs', by rw [h₂.1], h₂.2⟩

theorem noCrlf_nil : NoCrlf [] := NoPair.nil

structure RequestHead where
  line : List UInt8
  fields : List (List UInt8)
  line_noCrlf : NoCrlf line
  line_accepted : AcceptedLine line
  fields_noCrlf : ∀ f ∈ fields, NoCrlf f
  fields_colon : ∀ f ∈ fields, 58 ∈ f

namespace RequestHead

/-- The lines after the request line, up to the empty one. -/
def fieldBytes (fields : List (List UInt8)) : List UInt8 := fields.flatMap (· ++ kCrlf) ++ kCrlf

def bytes (h : RequestHead) : List UInt8 := h.line ++ kCrlf ++ fieldBytes h.fields

theorem bytes_pos (h : RequestHead) : 0 < h.bytes.length := by simp [bytes, kCrlf_eq]

/-- The request that the request line stores. -/
def lineRequest (line : List UInt8) : HttpRequest :=
  match (processRequestLine {} line).returned with
  | some (_, r) => r
  | none => {}

def addFields (r : HttpRequest) (fields : List (List UInt8)) : HttpRequest :=
  fields.foldl (fun r f => r.addHeader f (f.idxOf 58)) r

/-- The request that the head stores, without the receive time. -/
def request (h : RequestHead) : HttpRequest := addFields (lineRequest h.line) h.fields

theorem addFields_setReceiveTime (t : Timestamp) (r : HttpRequest) (fields : List (List UInt8)) :
    addFields (r.setReceiveTime t) fields = (addFields r fields).setReceiveTime t := by
  induction fields generalizing r with
  | nil => rfl
  | cons f fields ih => exact ih (r.addHeader f (f.idxOf 58))

theorem processRequestLine_line (h : RequestHead) :
    processRequestLine {} h.line = ⟨[.kInvalid], some (true, lineRequest h.line)⟩ := by
  obtain ⟨r, hr⟩ := processRequestLine_accepts.mpr h.line_accepted
  have hl : lineRequest h.line = r := by rw [lineRequest, hr]
  have hf : (processRequestLine {} h.line).found = [.kInvalid] := by
    obtain ⟨m, target, text, he, hm, ht, -⟩ := h.line_accepted
    rw [he, processRequestLine_two _ hm ht]
  rw [hl, ← hr, ← hf]

end RequestHead

namespace HttpContext

open RequestHead

variable {t : Timestamp}

theorem headerLine_colon {c : HttpContext} {f : List UInt8} (h : 58 ∈ f) :
    c.headerLine f = { c with request := c.request.addHeader f (f.idxOf 58) } := by
  rw [headerLine, if_pos]
  exact (List.idxOf_lt_length_of_mem h).ne

theorem scan_headers {c : HttpContext} (hs : c.state = .kExpectHeaders) {f : List UInt8}
    (hf : NoCrlf f) (tail : List UInt8) :
    scan t c (f ++ kCrlf ++ tail) = .more (c.headerLine f) tail [] := by
  simp only [scan, hs, scanHeaders, cutLine_eq_some.mpr ⟨rfl, hf⟩]

/-- Header lines are stored, one after the other. -/
theorem parseBytes_fieldLines (fields : List (List UInt8)) (hn : ∀ f ∈ fields, NoCrlf f)
    (hc : ∀ f ∈ fields, 58 ∈ f) (r : HttpRequest) (bs : List UInt8) :
    parseBytes t { state := .kExpectHeaders, request := r } (fields.flatMap (· ++ kCrlf) ++ bs) =
      parseBytes t { state := .kExpectHeaders, request := addFields r fields } bs := by
  induction fields generalizing r with
  | nil => rfl
  | cons f fields ih =>
    have hbytes : (f :: fields).flatMap (· ++ kCrlf) ++ bs =
        f ++ kCrlf ++ (fields.flatMap (· ++ kCrlf) ++ bs) := by simp
    have hscan := scan_headers (t := t) (c := { state := .kExpectHeaders, request := r }) rfl
      (hn f (by simp)) (fields.flatMap (· ++ kCrlf) ++ bs)
    rw [headerLine_colon (hc f (by simp))] at hscan
    rw [hbytes, parseBytes_more hscan, Parsed.log_nil,
      ih (fun f' hf' => hn f' (by simp [hf'])) fun f' hf' => hc f' (by simp [hf'])]
    rfl

/-- A line without a colon leads to the body. -/
theorem parseBytes_colonless {line : List UInt8} (hn : NoCrlf line) (hc : 58 ∉ line)
    (r : HttpRequest) (rest : List UInt8) :
    parseBytes t { state := .kExpectHeaders, request := r } (line ++ kCrlf ++ rest) =
      scanBody { state := .kExpectBody, request := r } rest := by
  have hscan := scan_headers (t := t) (c := { state := .kExpectHeaders, request := r }) rfl hn rest
  have hline : headerLine { state := .kExpectHeaders, request := r } line =
      { state := .kExpectBody, request := r } := by
    rw [headerLine, if_neg]
    simpa using List.idxOf_eq_length hc
  have hbody : scan t { state := .kExpectBody, request := r } rest =
      .done (scanBody { state := .kExpectBody, request := r } rest) := rfl
  rw [parseBytes_more hscan, hline, parseBytes_done hbody, Parsed.log_nil]

/-- The header lines, and the empty line after them. -/
theorem parseBytes_fields (fields : List (List UInt8)) (hn : ∀ f ∈ fields, NoCrlf f)
    (hc : ∀ f ∈ fields, 58 ∈ f) (r : HttpRequest) (rest : List UInt8) :
    parseBytes t { state := .kExpectHeaders, request := r } (fieldBytes fields ++ rest) =
      scanBody { state := .kExpectBody, request := addFields r fields } rest := by
  rw [fieldBytes, List.append_assoc, parseBytes_fieldLines fields hn hc]
  exact parseBytes_colonless noCrlf_nil List.not_mem_nil _ rest

/-- **The head of a new request.** -/
theorem parseBytes_head (h : RequestHead) (rest : List UInt8) :
    parseBytes t {} (h.bytes ++ rest) =
      (scanBody { state := .kExpectBody, request := h.request.setReceiveTime t } rest).log
        [.kInvalid] := by
  have hbytes : h.bytes ++ rest = h.line ++ kCrlf ++ (fieldBytes h.fields ++ rest) := by
    simp [bytes]
  have hscan : scan t {} (h.line ++ kCrlf ++ (fieldBytes h.fields ++ rest)) =
      .more { state := .kExpectHeaders, request := (lineRequest h.line).setReceiveTime t }
        (fieldBytes h.fields ++ rest) [.kInvalid] := by
    simp only [scan, scanRequestLine, cutLine_eq_some.mpr ⟨rfl, h.line_noCrlf⟩,
      h.processRequestLine_line]
  rw [hbytes, parseBytes_more hscan, parseBytes_fields h.fields h.fields_noCrlf h.fields_colon]
  rw [addFields_setReceiveTime]
  rfl

/-- The body state with a decimal `Content-Length`: all of the body must be there. -/
theorem scanBody_contentLength {r : HttpRequest} (hr : r.takesBody = true) {n : Nat}
    (hcl : r.getHeader (ascii "Content-Length") = decimal n) (hn : n < 2 ^ 63) {bs : List UInt8}
    (hbs : bs.length < 2 ^ 63) :
    scanBody { state := .kExpectBody, request := r } bs =
      if bs.length = n then
        .returned true { state := .kGotAll, request := { r with body := bs } } [] []
      else .returned false { state := .kExpectBody, request := r } bs [] := by
  have hne : (decimal n).isEmpty = false := by simpa using decimal_ne_nil n
  simp only [scanBody, hr, hcl, hne, strtol_decimal hn, castLong_of_lt hbs, ↓reduceIte]
  by_cases h : bs.length = n
  · subst h
    simp
  · simp [h]

/-- The call waits for a line and has found nothing wrong. -/
def Parsed.Waits : Parsed → Prop
  | .returned ok c _ _ => ok = true ∧ c.AwaitsLine
  | _ => False

theorem Parsed.waits_log {p : Parsed} {found : List Method} : (p.log found).Waits ↔ p.Waits := by
  cases p <;> rfl

theorem waits_of_cutLine_none {c : HttpContext} {bs : List UInt8} (hc : c.AwaitsLine)
    (h : cutLine bs = none) : (parseBytes t c bs).Waits := by
  rw [parseBytes_cut_none hc h]
  exact ⟨rfl, hc⟩

theorem parseBytes_fields_prefix (fields : List (List UInt8)) (hn : ∀ f ∈ fields, NoCrlf f)
    (hc : ∀ f ∈ fields, 58 ∈ f) (r : HttpRequest) {bs more : List UInt8} (hmore : more ≠ [])
    (h : bs ++ more = fieldBytes fields) :
    (parseBytes t { state := .kExpectHeaders, request := r } bs).Waits := by
  induction fields generalizing r bs with
  | nil =>
    have h' : bs ++ more = [] ++ kCrlf ++ [] := by simpa [fieldBytes] using h
    rcases cutLine_prefix h' noCrlf_nil with hcut | ⟨bs', -, hnil⟩
    · exact waits_of_cutLine_none (.inr rfl) hcut
    · exact absurd (List.append_eq_nil_iff.mp hnil).2 hmore
  | cons f fields ih =>
    have h' : bs ++ more = f ++ kCrlf ++ fieldBytes fields := by simpa [fieldBytes] using h
    rcases cutLine_prefix h' (hn f (by simp)) with hcut | ⟨bs', hcut, htail⟩
    · exact waits_of_cutLine_none (.inr rfl) hcut
    · have hscan := scan_headers (t := t) (c := { state := .kExpectHeaders, request := r }) rfl
        (hn f (by simp)) bs'
      rw [headerLine_colon (hc f (by simp)), ← (cutLine_eq_some.mp hcut).1] at hscan
      rw [parseBytes_more hscan, Parsed.log_nil]
      exact ih (fun f' hf' => hn f' (by simp [hf'])) (fun f' hf' => hc f' (by simp [hf'])) _ htail

/-- A proper prefix of the head of a new request. -/
theorem parseBytes_head_prefix (h : RequestHead) {bs more : List UInt8} (hmore : more ≠ [])
    (hbs : bs ++ more = h.bytes) : (parseBytes t {} bs).Waits := by
  rcases cutLine_prefix hbs h.line_noCrlf with hcut | ⟨bs', hcut, htail⟩
  · exact waits_of_cutLine_none (.inl rfl) hcut
  · have hscan : scan t {} bs =
        .more { state := .kExpectHeaders, request := (lineRequest h.line).setReceiveTime t } bs'
          [.kInvalid] := by
      simp only [scan, scanRequestLine, hcut, h.processRequestLine_line]
    rw [parseBytes_more hscan, Parsed.waits_log]
    exact parseBytes_fields_prefix h.fields h.fields_noCrlf h.fields_colon _ hmore htail

end HttpContext

end MyTinyHttpd
