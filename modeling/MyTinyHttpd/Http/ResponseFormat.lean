import MyTinyHttpd.Lib.Lines
import MyTinyHttpd.Http.Response
import MyTinyHttpd.Http.RoundTrip

/-!
# A completed response is one well-formed message

The assertions of `HttpResponse` (compiled out in `Http/Response.lean`) allow only one order of the
`Append` calls: a status line, header lines, and a last call that adds `Content-Length`, the empty
line and the body.

* `AppendCall.Asserts`: the assertions of a call and of the calls in its body.
* `Wrote`: what a response has written, with its state and its flag; `Wrote.header`,
  `Wrote.completes`: what a call adds.
* `legal_shape`: the order of the calls.
* `response_wellFormed`: the bytes of a completed response, and what a client finds in them.
-/

namespace MyTinyHttpd

open Verif

/-- A call on a response. `closeConnection none` is `AppendCloseConnection()`. -/
inductive AppendCall where
  | statusLine (code : Int16) (message : List UInt8)
  | header (key value : List UInt8)
  | contentType (contentType : List UInt8)
  | contentBase (contentBase : List UInt8)
  | closeConnection (on : Option Bool)
  | headersEnd (hasBody : Bool)
  | body (body : List UInt8)

namespace HttpResponse

/-- A header line may follow. -/
def LineAsserts (r : HttpResponse) : Prop :=
  r.state = .kAppendStatusLine ∨ r.state = .kAppendHeader

def HeadersEndAsserts (alloc : Allocator) (r : HttpResponse) (hasBody : Bool) : Prop :=
  (hasBody = false → r.LineAsserts) ∧
    (if hasBody = false then r.appendContentLength alloc 0 else r).state = .kAppendHeader

def BodyAsserts (alloc : Allocator) (r : HttpResponse) (body : List UInt8) : Prop :=
  r.state = .kAppendHeader ∧ r.LineAsserts ∧
    (r.appendContentLength alloc body.length).HeadersEndAsserts alloc true ∧
    ((r.appendContentLength alloc body.length).appendHeadersEnd alloc true).state =
      .kAppendHeadersEnd

instance (r : HttpResponse) : Decidable r.LineAsserts := inferInstanceAs (Decidable (_ ∨ _))

instance (alloc : Allocator) (r : HttpResponse) (hasBody : Bool) :
    Decidable (r.HeadersEndAsserts alloc hasBody) :=
  inferInstanceAs (Decidable ((_ → _) ∧ _))

instance (alloc : Allocator) (r : HttpResponse) (body : List UInt8) :
    Decidable (r.BodyAsserts alloc body) :=
  inferInstanceAs (Decidable (_ ∧ _ ∧ _ ∧ _))

end HttpResponse

namespace AppendCall

def exec (alloc : Allocator) (r : HttpResponse) : AppendCall → HttpResponse
  | statusLine code message => r.appendStatusLine alloc code.toInt message
  | header key value => r.appendHeader alloc key value
  | contentType v => r.appendContentType alloc v
  | contentBase v => r.appendContentBase alloc v
  | closeConnection on => r.appendCloseConnection alloc on
  | headersEnd hasBody => r.appendHeadersEnd alloc hasBody
  | body bytes => r.appendBody alloc bytes

def Asserts (alloc : Allocator) (r : HttpResponse) : AppendCall → Prop
  | statusLine _ _ => r.state = .kAppendNothing
  | header _ _ | contentType _ | contentBase _ | closeConnection _ => r.LineAsserts
  | headersEnd hasBody => r.HeadersEndAsserts alloc hasBody
  | body bytes => r.BodyAsserts alloc bytes

instance (alloc : Allocator) (r : HttpResponse) (c : AppendCall) : Decidable (c.Asserts alloc r) :=
  match c with
  | statusLine _ _ => inferInstanceAs (Decidable (r.state = .kAppendNothing))
  | header _ _ | contentType _ | contentBase _ | closeConnection _ =>
    inferInstanceAs (Decidable r.LineAsserts)
  | headersEnd hasBody => inferInstanceAs (Decidable (r.HeadersEndAsserts alloc hasBody))
  | body bytes => inferInstanceAs (Decidable (r.BodyAsserts alloc bytes))

/-- The texts fit on a line, and the number of bytes of the body into `buf` of
`AppendContentLength`. -/
def Clean : AppendCall → Prop
  | statusLine _ message => 13 ∉ message ∧ 10 ∉ message
  | header key value => 13 ∉ key ∧ 10 ∉ key ∧ 58 ∉ key ∧ 13 ∉ value ∧ 10 ∉ value
  | contentType v | contentBase v => 13 ∉ v ∧ 10 ∉ v
  | closeConnection _ | headersEnd _ => True
  | body bytes => bytes.length < 10 ^ 13

instance (c : AppendCall) : Decidable c.Clean :=
  match c with
  | statusLine _ _ | contentType _ | contentBase _ => inferInstanceAs (Decidable (_ ∧ _))
  | header _ _ => inferInstanceAs (Decidable (_ ∧ _ ∧ _ ∧ _ ∧ _))
  | closeConnection _ | headersEnd _ => isTrue trivial
  | body bytes => inferInstanceAs (Decidable (bytes.length < 10 ^ 13))

/-- `AppendHeadersEnd()` and `AppendBody`. -/
def completes : AppendCall → Bool
  | headersEnd hasBody => !hasBody
  | body _ => true
  | _ => false

/-- The calls that emit one header line. -/
def isHeader : AppendCall → Bool
  | header _ _ | contentType _ | contentBase _ | closeConnection _ => true
  | _ => false

/-- The body that a completing call sends. -/
def bodyBytes : AppendCall → List UInt8
  | body bytes => bytes
  | _ => []

/-! ## What the calls write -/

/-- The flag after the call. -/
def closeAfter (close : Bool) : AppendCall → Bool
  | closeConnection on => on.getD close
  | _ => close

def connectionValue (close : Bool) : List UInt8 :=
  if close then ascii "close" else ascii "Keep-Alive"

/-- The name and the value of the header line. -/
def field (close : Bool) : AppendCall → List UInt8 × List UInt8
  | header key value => (key, value)
  | contentType v => (ascii "Content-Type", v)
  | contentBase v => (ascii "Content-Base", v)
  | closeConnection on => (ascii "Connection", connectionValue (on.getD close))
  | _ => ([], [])

/-- The header lines of the calls, in order. -/
def fields (close : Bool) : List AppendCall → List (List UInt8 × List UInt8)
  | [] => []
  | c :: cs => c.field close :: fields (c.closeAfter close) cs

/-- The value of the `Connection` line, for a call of `AppendCloseConnection`. -/
def closeValue (close : Bool) : AppendCall → Option (List UInt8)
  | closeConnection on => some (connectionValue (on.getD close))
  | _ => none

/-- The value of the last `Connection` line that `AppendCloseConnection` emits. -/
def lastClose (close : Bool) : List AppendCall → Option (List UInt8)
  | [] => none
  | c :: cs => (lastClose (c.closeAfter close) cs).or (c.closeValue close)

end AppendCall

/-- `HTTP/1.1 CODE MESSAGE`. -/
def statusText (code : Int16) (message : List UInt8) : List UInt8 :=
  ascii "HTTP/1.1 " ++ decimalInt code.toInt ++ ascii " " ++ message

def lengthField (body : List UInt8) : List UInt8 × List UInt8 :=
  (ascii "Content-Length", decimal body.length)

/-- The response has written `text`. -/
structure HttpResponse.Wrote (r : HttpResponse) (state : AppendState) (close : Bool)
    (text : List UInt8) : Prop where
  state_eq : r.state = state
  close_eq : r.isCloseConnection = close
  holds : r.buffer.Holds text

/-! ## Nothing is cut by `snprintf` -/

theorem length_decimalInt_le {i : Int} {k : Nat} (hi : i.natAbs < 10 ^ k) (hk : 0 < k) :
    (decimalInt i).length ≤ k + 1 := by
  unfold decimalInt
  split
  · rw [List.length_cons]
    exact Nat.succ_le_succ (length_decimal_le hi hk)
  · have hnat : i.toNat < 10 ^ k := by omega
    exact Nat.le_succ_of_le (length_decimal_le hnat hk)

theorem snprintf_statusLine (code : Int16) :
    snprintf 32 (HttpResponse.getHttpVersion ++ ascii " " ++ decimalInt code.toInt ++ ascii " ") =
      ascii "HTTP/1.1 " ++ decimalInt code.toInt ++ ascii " " := by
  have hversion : HttpResponse.getHttpVersion ++ ascii " " = ascii "HTTP/1.1 " := by decide
  have hcode : (decimalInt code.toInt).length ≤ 6 := by
    have hlo := code.le_toInt
    have hhi := code.toInt_lt
    exact length_decimalInt_le (k := 5) (by omega) (by decide)
  have hascii : (ascii "HTTP/1.1 ").length = 9 ∧ (ascii " ").length = 1 := by decide
  rw [hversion, snprintf_of_lt]
  simp only [List.length_append, hascii]
  omega

theorem snprintf_contentLength {len : Nat} (h : len < 10 ^ 13) :
    snprintf 32 (ascii "Content-Length: " ++ decimalInt (castLong len) ++ kCrlf) =
      fieldLine (ascii "Content-Length", decimal len) ++ kCrlf := by
  have hlen : castLong len = len := castLong_of_lt (by omega)
  have hdecimal : decimalInt (len : Int) = decimal len := by simp [decimalInt]
  have hdigits := length_decimal_le h (by decide)
  have hascii : (ascii "Content-Length: ").length = 16 ∧ kCrlf.length = 2 := by decide
  have hname : ascii "Content-Length: " = ascii "Content-Length" ++ [58, 32] := by decide
  rw [hlen, hdecimal, snprintf_of_lt]
  · rw [hname, fieldLine]
    simp
  · simp only [List.length_append, hascii]
    omega

/-! ## What each call writes -/

namespace HttpResponse.Wrote

variable {r : HttpResponse} {state : AppendState} {close : Bool} {text : List UInt8}

theorem make (alloc : Allocator) (close : Bool) :
    (HttpResponse.make alloc close).Wrote .kAppendNothing close [] :=
  ⟨rfl, rfl, Buffer.make_holds alloc kInitialSize⟩

theorem of_eq (h : r.Wrote state close text) {text' : List UInt8} (he : text = text') :
    r.Wrote state close text' := he ▸ h

theorem append (h : r.Wrote state close text) (alloc : Allocator) (more : List UInt8) :
    (r.append alloc more).Wrote state close (text ++ more) :=
  ⟨h.state_eq, h.close_eq, h.holds.append alloc more⟩

theorem setState (h : r.Wrote state close text) (state' : AppendState) :
    ({ r with state := state' } : HttpResponse).Wrote state' close text :=
  ⟨rfl, h.close_eq, h.holds⟩

theorem appendStatusLine (h : r.Wrote state close text) (alloc : Allocator) (code : Int16)
    (message : List UInt8) :
    (r.appendStatusLine alloc code.toInt message).Wrote .kAppendStatusLine close
      (text ++ (statusText code message ++ kCrlf)) := by
  have hwrote := (((h.setState .kAppendStatusLine).append alloc
    (ascii "HTTP/1.1 " ++ decimalInt code.toInt ++ ascii " ")).append alloc message).append alloc
    kCrlf
  simp only [HttpResponse.appendStatusLine, snprintf_statusLine]
  exact hwrote.of_eq (by simp [statusText])

theorem appendHeader (h : r.Wrote state close text) (alloc : Allocator) (key value : List UInt8) :
    (r.appendHeader alloc key value).Wrote .kAppendHeader close
      (text ++ (fieldLine (key, value) ++ kCrlf)) := by
  have hwrote := ((((h.setState .kAppendHeader).append alloc key).append alloc
    (ascii ": ")).append alloc value).append alloc kCrlf
  have hsep : ascii ": " = [58, 32] := by decide
  exact hwrote.of_eq (by simp [fieldLine, hsep])

theorem appendCloseConnection (h : r.Wrote state close text) (alloc : Allocator)
    (on : Option Bool) :
    (r.appendCloseConnection alloc on).Wrote .kAppendHeader (on.getD close)
      (text ++ (fieldLine (ascii "Connection", AppendCall.connectionValue (on.getD close)) ++
        kCrlf)) := by
  have hset : ({ r with state := .kAppendHeader, isCloseConnection := on.getD close } :
      HttpResponse).Wrote .kAppendHeader (on.getD close) text := ⟨rfl, rfl, h.holds⟩
  simp only [HttpResponse.appendCloseConnection, h.close_eq]
  split
  · next hon =>
    have hline : ascii "Connection: close\r\n" =
        fieldLine (ascii "Connection", AppendCall.connectionValue (on.getD close)) ++ kCrlf := by
      rw [hon]
      decide
    rw [← hline]
    exact hset.append alloc _
  · next hon =>
    have hline : ascii "Connection: Keep-Alive\r\n" =
        fieldLine (ascii "Connection", AppendCall.connectionValue (on.getD close)) ++ kCrlf := by
      rw [Bool.not_eq_true] at hon
      rw [hon]
      decide
    rw [← hline]
    exact hset.append alloc _

theorem appendContentLength (h : r.Wrote state close text) (alloc : Allocator) {n : Nat}
    (hn : n < 10 ^ 13) :
    (r.appendContentLength alloc n).Wrote .kAppendHeader close
      (text ++ (fieldLine (ascii "Content-Length", decimal n) ++ kCrlf)) := by
  rw [HttpResponse.appendContentLength, snprintf_contentLength hn]
  exact (h.setState .kAppendHeader).append alloc _

/-- A completing call: `Content-Length`, the empty line and the body. -/
theorem completes (h : r.Wrote state close text) (alloc : Allocator) {c : AppendCall}
    (hc : c.completes = true) (hclean : c.Clean) :
    ∃ state', (state' = .kAppendHeadersEnd ∨ state' = .kAppendBody) ∧
      (c.exec alloc r).Wrote state' close
        (text ++ (fieldLine (lengthField c.bodyBytes) ++ kCrlf ++ kCrlf ++ c.bodyBytes)) := by
  cases c with
  | headersEnd hasBody =>
    have hno : hasBody = false := by simpa [AppendCall.completes] using hc
    subst hno
    have hlength := h.appendContentLength alloc (n := 0) (by decide)
    have hend := (hlength.setState .kAppendHeadersEnd).append alloc kCrlf
    exact ⟨.kAppendHeadersEnd, .inl rfl, hend.of_eq (by simp [lengthField, AppendCall.bodyBytes])⟩
  | body bytes =>
    have hlength := h.appendContentLength alloc hclean
    have hend := (hlength.setState .kAppendHeadersEnd).append alloc kCrlf
    have hbody := (hend.setState .kAppendBody).append alloc bytes
    exact ⟨.kAppendBody, .inr rfl, hbody.of_eq (by simp [lengthField, AppendCall.bodyBytes])⟩
  | statusLine | header | contentType | contentBase | closeConnection => cases hc

theorem header (h : r.Wrote state close text) (alloc : Allocator) {c : AppendCall}
    (hc : c.isHeader = true) :
    (c.exec alloc r).Wrote .kAppendHeader (c.closeAfter close)
      (text ++ (fieldLine (c.field close) ++ kCrlf)) := by
  cases c with
  | header key value => exact h.appendHeader alloc key value
  | contentType v => exact h.appendHeader alloc _ v
  | contentBase v => exact h.appendHeader alloc _ v
  | closeConnection on => exact h.appendCloseConnection alloc on
  | statusLine | headersEnd | body => cases hc

/-- The lines of any number of header calls. -/
theorem headers (alloc : Allocator) {cs : List AppendCall} (hcs : ∀ c ∈ cs, c.isHeader = true)
    (h : r.Wrote state close text) :
    ∃ state', (cs.foldl (AppendCall.exec alloc) r).Wrote state'
      (cs.foldl AppendCall.closeAfter close)
      (text ++ (AppendCall.fields close cs).flatMap (fieldLine · ++ kCrlf)) := by
  induction cs generalizing r state close text with
  | nil => exact ⟨state, by simpa [AppendCall.fields] using h⟩
  | cons c cs ih =>
    obtain ⟨hc, hcs⟩ := List.forall_mem_cons.mp hcs
    obtain ⟨state', hwrote⟩ := ih hcs (h.header alloc hc)
    exact ⟨state', hwrote.of_eq (by simp [AppendCall.fields])⟩

end HttpResponse.Wrote

/-! ## The order of the calls -/

namespace AppendCall

variable {alloc : Allocator} {r : HttpResponse}

/-- After a completing call nothing passes its assertion. -/
theorem not_asserts (h : r.state = .kAppendHeadersEnd ∨ r.state = .kAppendBody) (c : AppendCall) :
    ¬ c.Asserts alloc r := by
  have hline : ¬ r.LineAsserts := by
    rcases h with h | h <;> simp [HttpResponse.LineAsserts, h]
  have hheader : r.state ≠ .kAppendHeader := by
    rcases h with h | h <;> simp [h]
  cases c with
  | statusLine => rcases h with h | h <;> simp [Asserts, h]
  | header | contentType | contentBase | closeConnection => exact hline
  | headersEnd hasBody =>
    rintro ⟨hfirst, hsecond⟩
    cases hasBody with
    | false => exact hline (hfirst rfl)
    | true => exact hheader hsecond
  | body => exact fun hc => hheader hc.1

theorem asserts_nothing (h : r.state = .kAppendNothing) {c : AppendCall} (hc : c.Asserts alloc r) :
    ∃ code message, c = .statusLine code message := by
  have hline : ¬ r.LineAsserts := by simp [HttpResponse.LineAsserts, h]
  have hheader : r.state ≠ .kAppendHeader := by simp [h]
  cases c with
  | statusLine code message => exact ⟨code, message, rfl⟩
  | header | contentType | contentBase | closeConnection => exact absurd hc hline
  | headersEnd hasBody =>
    cases hasBody with
    | false => exact absurd (hc.1 rfl) hline
    | true => exact absurd hc.2 hheader
  | body => exact absurd hc.1 hheader

/-- Between the status line and the last call there are only header calls: any other call would be
the last one. -/
theorem legal_headers {cs : List AppendCall} {last : AppendCall} (hr : r.LineAsserts)
    (h : Legal (exec alloc) (Asserts alloc) r (cs ++ [last])) : ∀ c ∈ cs, c.isHeader = true := by
  induction cs generalizing r with
  | nil => simp
  | cons c cs ih =>
    obtain ⟨hc, hrest⟩ := h
    have hnext : ∀ r', Legal (exec alloc) (Asserts alloc) r' (cs ++ [last]) →
        ¬ (r'.state = .kAppendHeadersEnd ∨ r'.state = .kAppendBody) := by
      intro r' hlegal hstate
      cases cs with
      | nil => exact not_asserts hstate last hlegal.1
      | cons c' cs => exact not_asserts hstate c' hlegal.1
    have hheader : c.isHeader = true := by
      cases c with
      | header | contentType | contentBase | closeConnection => rfl
      | statusLine =>
        have hstate : r.state = .kAppendNothing := hc
        simp [HttpResponse.LineAsserts, hstate] at hr
      | headersEnd => exact absurd (.inl rfl) (hnext _ hrest)
      | body => exact absurd (.inr rfl) (hnext _ hrest)
    have hstate : (c.exec alloc r).LineAsserts := by
      refine .inr ?_
      cases c with
      | closeConnection on =>
        simp only [exec, HttpResponse.appendCloseConnection]
        split <;> rfl
      | header | contentType | contentBase => rfl
      | statusLine | headersEnd | body => cases hheader
    exact List.forall_mem_cons.mpr ⟨hheader, ih hstate hrest⟩

/-- The order of the calls of a completed response. -/
theorem legal_shape {close : Bool} {calls : List AppendCall} {last : AppendCall}
    (hlast : last.completes = true)
    (h : Legal (exec alloc) (Asserts alloc) (HttpResponse.make alloc close) (calls ++ [last])) :
    ∃ code message mid, calls = .statusLine code message :: mid ∧
      ∀ c ∈ mid, c.isHeader = true := by
  cases calls with
  | nil =>
    obtain ⟨code, message, rfl⟩ := asserts_nothing rfl h.1
    cases hlast
  | cons c mid =>
    obtain ⟨code, message, rfl⟩ := asserts_nothing rfl h.1
    exact ⟨code, message, mid, rfl, legal_headers (.inl rfl) h.2⟩

/-- The flag follows `AppendCloseConnection`. -/
theorem foldl_closeAfter (close : Bool) (cs : List AppendCall) :
    cs.foldl closeAfter close =
      match lastClose close cs with
      | some v => decide (v = ascii "close")
      | none => close := by
  induction cs generalizing close with
  | nil => rfl
  | cons c cs ih =>
    rw [List.foldl_cons, ih, lastClose]
    cases lastClose (c.closeAfter close) cs with
    | some v => rfl
    | none =>
      cases c with
      | closeConnection on =>
        show on.getD close = decide (connectionValue (on.getD close) = ascii "close")
        generalize on.getD close = b
        cases b <;> decide
      | _ => rfl

end AppendCall

/-! ## What a client finds -/

/-- The name and the value of a header line. -/
def splitField (line : List UInt8) : List UInt8 × List UInt8 :=
  (line.takeWhile (· ≠ 58), line.drop (line.idxOf 58 + 2))

/-- The status line, the headers and the body of a message, cut at its first empty line. -/
def splitMessage (bytes : List UInt8) :
    Option (List UInt8 × List (List UInt8 × List UInt8) × List UInt8) :=
  match cutBlank 13 10 bytes with
  | some (status :: lines, body) => some (status, lines.map splitField, body)
  | _ => none

theorem splitField_fieldLine {f : List UInt8 × List UInt8} (h : 58 ∉ f.1) :
    splitField (fieldLine f) = f := by
  have htake : ∀ c ∈ f.1, decide (c ≠ 58) = true := by
    intro c hc
    simp only [ne_eq, decide_not, Bool.not_eq_true', decide_eq_false_iff_not]
    rintro rfl
    exact h hc
  rw [splitField, fieldLine, idxOf_append_cons h, List.takeWhile_append_of_pos htake]
  simp

theorem map_splitField_fieldLine {fs : List (List UInt8 × List UInt8)} (h : ∀ f ∈ fs, 58 ∉ f.1) :
    (fs.map fieldLine).map splitField = fs := by
  conv_rhs => rw [← List.map_id fs]
  rw [List.map_map]
  exact List.map_congr_left fun f hf => splitField_fieldLine (h f hf)

theorem splitMessage_eq {status body : List UInt8} {fs : List (List UInt8 × List UInt8)}
    (hstatus : 13 ∉ status) (hfs : ∀ f ∈ fs, 13 ∉ fieldLine f ∧ 58 ∉ f.1) :
    splitMessage (status ++ kCrlf ++ fs.flatMap (fieldLine · ++ kCrlf) ++ kCrlf ++ body) =
      some (status, fs, body) := by
  have hcrlf : kCrlf = [13, 10] := by decide
  have hlines : ∀ l ∈ fs.map fieldLine, l ≠ [] ∧ 13 ∉ l := by
    intro l hl
    obtain ⟨f, hf, rfl⟩ := List.mem_map.mp hl
    exact ⟨by simp [fieldLine], (hfs f hf).1⟩
  have hcut := cutBlank_lines (b := 10) (by decide) hstatus hlines body
  have hshape : status ++ kCrlf ++ fs.flatMap (fieldLine · ++ kCrlf) ++ kCrlf ++ body =
      (status :: fs.map fieldLine).flatMap (· ++ [13, 10]) ++ 13 :: 10 :: body := by
    simp [hcrlf, List.flatMap_map]
  rw [splitMessage, hshape, hcut]
  simp only [map_splitField_fieldLine fun f hf => (hfs f hf).2]

theorem isDigit_ne_cr {c : UInt8} (h : isDigit c = true) : c ≠ 13 := by
  rintro rfl
  revert h
  decide

theorem cr_notMem_statusText {code : Int16} {message : List UInt8} (h : 13 ∉ message) :
    13 ∉ statusText code message := by
  have hcode : 13 ∉ decimalInt code.toInt := by
    unfold decimalInt
    split
    · simp only [List.mem_cons, not_or]
      exact ⟨by decide, fun hmem => isDigit_ne_cr (isDigit_of_mem_decimal hmem) rfl⟩
    · exact fun hmem => isDigit_ne_cr (isDigit_of_mem_decimal hmem) rfl
  simp only [statusText, List.mem_append, not_or]
  exact ⟨⟨⟨by decide, hcode⟩, by decide⟩, h⟩

theorem cr_notMem_fieldLine {key value : List UInt8} (hkey : 13 ∉ key) (hvalue : 13 ∉ value) :
    13 ∉ fieldLine (key, value) := by
  simp only [fieldLine, List.mem_append, List.mem_cons, not_or]
  exact ⟨hkey, by decide, by decide, hvalue⟩

theorem AppendCall.field_clean {c : AppendCall} (h : c.Clean) (close : Bool) :
    13 ∉ fieldLine (c.field close) ∧ 58 ∉ (c.field close).1 := by
  cases c with
  | header key value => exact ⟨cr_notMem_fieldLine h.1 h.2.2.2.1, h.2.2.1⟩
  | contentType v => exact ⟨cr_notMem_fieldLine (by decide) h.1, by simp only [field]; decide⟩
  | contentBase v => exact ⟨cr_notMem_fieldLine (by decide) h.1, by simp only [field]; decide⟩
  | closeConnection on =>
    simp only [field]
    generalize on.getD close = b
    cases b <;> decide
  | _ => exact ⟨by simp only [field]; decide, by simp [field]⟩

theorem AppendCall.fields_clean {cs : List AppendCall} (h : ∀ c ∈ cs, c.Clean) (close : Bool) :
    ∀ f ∈ fields close cs, 13 ∉ fieldLine f ∧ 58 ∉ f.1 := by
  induction cs generalizing close with
  | nil => simp [fields]
  | cons c cs ih =>
    obtain ⟨hc, hcs⟩ := List.forall_mem_cons.mp h
    exact List.forall_mem_cons.mpr ⟨c.field_clean hc close, ih hcs _⟩

/-- **A completed response is one well-formed message.** For every sequence of calls on a new
response whose assertions hold, with clean texts, that ends with `AppendHeadersEnd()` or
`AppendBody`: the calls are a status line, header calls and the last call. The bytes are the status
line, one line for each header call in order, one `Content-Length` line with the length of the body,
an empty line and the body; a client that cuts them at the first empty line finds these. No further
call passes its assertion, and the flag agrees with the last `Connection` line that
`AppendCloseConnection` has emitted, or is that of the constructor. -/
theorem response_wellFormed (alloc : Allocator) (close : Bool) (calls : List AppendCall)
    (last : AppendCall) (hlast : last.completes = true) (hclean : ∀ c ∈ calls ++ [last], c.Clean)
    (h : Legal (AppendCall.exec alloc) (AppendCall.Asserts alloc) (HttpResponse.make alloc close)
      (calls ++ [last])) :
    let r := (calls ++ [last]).foldl (AppendCall.exec alloc) (HttpResponse.make alloc close)
    ∃ code message mid, calls = .statusLine code message :: mid ∧
      (∀ c ∈ mid, c.isHeader = true) ∧
      let fields := AppendCall.fields close mid ++ [lengthField last.bodyBytes]
      r.buffer.readable = statusText code message ++ kCrlf ++
          fields.flatMap (fieldLine · ++ kCrlf) ++ kCrlf ++ last.bodyBytes ∧
        splitMessage r.buffer.readable =
          some (statusText code message, fields, last.bodyBytes) ∧
        (∀ c : AppendCall, ¬ c.Asserts alloc r) ∧
        r.isCloseConnection =
          match AppendCall.lastClose close mid with
          | some v => decide (v = ascii "close")
          | none => close := by
  intro r
  obtain ⟨code, message, mid, rfl, hmid⟩ := AppendCall.legal_shape hlast h
  obtain ⟨hstatus, hrest⟩ := List.forall_mem_cons.mp hclean
  obtain ⟨hmidClean, hlastClean⟩ := List.forall_mem_append.mp hrest
  have hfirst := (HttpResponse.Wrote.make alloc close).appendStatusLine alloc code message
  obtain ⟨state, hheaders⟩ := HttpResponse.Wrote.headers alloc hmid hfirst
  obtain ⟨state', hstate, hwrote⟩ :=
    hheaders.completes alloc hlast (hlastClean last (List.mem_singleton.mpr rfl))
  have hr : r = last.exec alloc (mid.foldl (AppendCall.exec alloc)
      ((HttpResponse.make alloc close).appendStatusLine alloc code.toInt message)) := by
    simp only [r, List.foldl_append, List.foldl_cons, List.foldl_nil]
    rfl
  rw [← hr] at hwrote
  have hbytes : r.buffer.readable = statusText code message ++ kCrlf ++
      (AppendCall.fields close mid ++ [lengthField last.bodyBytes]).flatMap
        (fieldLine · ++ kCrlf) ++ kCrlf ++ last.bodyBytes := by
    rw [hwrote.holds.readable_eq]
    simp
  refine ⟨code, message, mid, rfl, hmid, hbytes, ?_, ?_, ?_⟩
  · rw [hbytes]
    refine splitMessage_eq (cr_notMem_statusText hstatus.1) fun f hf => ?_
    rcases List.mem_append.mp hf with hf | hf
    · exact AppendCall.fields_clean hmidClean close f hf
    · rw [List.mem_singleton.mp hf]
      refine ⟨cr_notMem_fieldLine (by decide) fun hmem => ?_, by simp only [lengthField]; decide⟩
      exact isDigit_ne_cr (isDigit_of_mem_decimal hmem) rfl
  · exact AppendCall.not_asserts (by rw [hwrote.state_eq]; exact hstate)
  · rw [hwrote.close_eq, AppendCall.foldl_closeAfter]

/-- The calls before the body of a small page. -/
def pageCalls : List AppendCall :=
  [.statusLine 200 (ascii "OK"), .closeConnection none, .contentType (ascii "text/html")]

theorem pageCalls_wellFormed :
    (∀ c ∈ pageCalls ++ [.body (ascii "hi")], c.Clean) ∧
      Legal (AppendCall.exec Buffer.zeroAlloc) (AppendCall.Asserts Buffer.zeroAlloc)
        (HttpResponse.make Buffer.zeroAlloc true) (pageCalls ++ [.body (ascii "hi")]) ∧
      ∃ fields, splitMessage ((pageCalls ++ [AppendCall.body (ascii "hi")]).foldl
          (AppendCall.exec Buffer.zeroAlloc)
          (HttpResponse.make Buffer.zeroAlloc true)).buffer.readable
        = some (ascii "HTTP/1.1 200 OK", fields, ascii "hi") := by
  have hclean : ∀ c ∈ pageCalls ++ [.body (ascii "hi")], c.Clean := by decide
  have hlegal : Legal (AppendCall.exec Buffer.zeroAlloc) (AppendCall.Asserts Buffer.zeroAlloc)
      (HttpResponse.make Buffer.zeroAlloc true) (pageCalls ++ [.body (ascii "hi")]) := by
    decide +kernel
  obtain ⟨code, message, mid, hcalls, -, -, hsplit, -⟩ :=
    response_wellFormed Buffer.zeroAlloc true pageCalls (.body (ascii "hi")) rfl hclean hlegal
  have hstatus : statusText code message = ascii "HTTP/1.1 200 OK" := by
    cases hcalls
    decide
  rw [hstatus] at hsplit
  exact ⟨hclean, hlegal, _, hsplit⟩

/-- A handler that announces the end of the connection with `AppendHeader`. -/
def rawConnection : List AppendCall :=
  [.statusLine 200 (ascii "OK"), .header (ascii "Connection") (ascii "close")]

/-- The last `Connection` line says `close`, and the flag does not. -/
theorem rawConnection_disagrees :
    (∀ c ∈ rawConnection ++ [.headersEnd false], c.Clean) ∧
      Legal (AppendCall.exec Buffer.zeroAlloc) (AppendCall.Asserts Buffer.zeroAlloc)
        (HttpResponse.make Buffer.zeroAlloc false) (rawConnection ++ [.headersEnd false]) ∧
      (AppendCall.fields false rawConnection.tail).getLast? =
        some (ascii "Connection", ascii "close") ∧
      ((rawConnection ++ [AppendCall.headersEnd false]).foldl (AppendCall.exec Buffer.zeroAlloc)
        (HttpResponse.make Buffer.zeroAlloc false)).isCloseConnection = false := by
  decide +kernel

end MyTinyHttpd
