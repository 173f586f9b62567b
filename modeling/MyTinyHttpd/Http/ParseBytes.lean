import MyTinyHttpd.Net.ByteQueue
import MyTinyHttpd.Http.Context

/-!
# `ParseRequest` as a function of the unread bytes

`parseBytes` is the parser on byte sequences: it reads line by line (`scan`) and says what a call
returns and which bytes it leaves unread. It is total; each line that it reads makes the sequence
shorter.

* `parseRequest_agrees`: on a buffer that holds the bytes, `ParseRequest` does the same. So the
  results about `parseBytes` are results about the code.
* `parseRequest_stuck`, `loop_agrees`: in `kGotAll` the loop does not end, whatever the fuel; in
  every other state it ends, and the fuel of `parseRequest` is enough.
-/

namespace MyTinyHttpd

open Verif

/-- The bytes before the first CRLF, and those after it. -/
def cutLine (bs : List UInt8) : Option (List UInt8 × List UInt8) := cutPair 13 10 bs

/-- The bytes hold no CRLF. -/
def NoCrlf (bs : List UInt8) : Prop := NoPair 13 10 bs

theorem kCrlf_eq : kCrlf = [13, 10] := by decide

theorem cutLine_eq_some {bs line rest : List UInt8} :
    cutLine bs = some (line, rest) ↔ bs = line ++ kCrlf ++ rest ∧ NoCrlf line := by
  rw [kCrlf_eq, cutLine, cutPair_eq_some (by decide), NoCrlf]
  simp

theorem cutLine_append {bs line rest : List UInt8} (h : cutLine bs = some (line, rest))
    (more : List UInt8) : cutLine (bs ++ more) = some (line, rest ++ more) :=
  cutPair_append (by decide) h more

namespace Buffer

/-- `FindCrlf` finds the end of the first line: `ProcessRequestLine` and `AddHeader` get the
line, and `RetrieveUntil(crlf + 2)` leaves what follows it. -/
theorem findCrlf_of_cutLine {b : Buffer} {bs line rest : List UInt8} (h : b.Holds bs)
    (hcut : cutLine bs = some (line, rest)) :
    ∃ crlf, b.findCrlf = some crlf ∧ b.range b.peek crlf = line ∧
      (b.retrieveUntil (crlf + 2)).Holds rest := by
  obtain ⟨hi, rfl⟩ := h
  obtain ⟨he, hn⟩ := cutLine_eq_some.mp hcut
  have hlen : b.readableBytes = line.length + 2 + rest.length := by
    rw [← hi.length_readable, he, kCrlf_eq]; simp; omega
  have hs : search kCrlf b.readable = line.length := by
    rw [he, kCrlf_eq, List.append_assoc]
    exact search_pair_append (by decide) hn rest
  refine ⟨b.peek + line.length, ?_, ?_, ?_⟩
  · have hne : ¬ b.peek + line.length = b.offsetofWrite := by
      unfold peek offsetofWrite; unfold readableBytes at hlen; omega
    have hr : b.range b.peek b.offsetofWrite = b.readable := rfl
    simp only [findCrlf, hr, hs, hne, ↓reduceIte]
  · rw [range_peek (by omega), he, List.append_assoc, List.take_left']
    rfl
  · have hu : b.retrieveUntil (b.peek + line.length + 2) = b.retrieve (line.length + 2) := by
      unfold retrieveUntil; congr 1; omega
    rw [hu]
    refine ⟨retrieve_inv hi _, ?_⟩
    rw [retrieve_readable hi, he, kCrlf_eq, List.drop_left']
    simp

theorem findCrlf_of_cutLine_none {b : Buffer} {bs : List UInt8} (h : b.Holds bs)
    (hcut : cutLine bs = none) : b.findCrlf = none := by
  obtain ⟨hi, rfl⟩ := h
  have hs : search kCrlf b.readable = b.readable.length := by
    rw [kCrlf_eq]; exact search_pair_eq_length.mpr (cutPair_eq_none.mp hcut)
  have hend : b.peek + b.readableBytes = b.offsetofWrite := by
    have := hi.reader_le
    unfold peek readableBytes offsetofWrite; omega
  have hr : b.range b.peek b.offsetofWrite = b.readable := rfl
  simp only [findCrlf, hr, hs, hi.length_readable, hend, ↓reduceIte]

end Buffer

namespace HttpContext

/-- What a call of `ParseRequest` does, with the bytes that it leaves unread. -/
inductive Parsed where
  | returned (ok : Bool) (context : HttpContext) (rest : List UInt8) (found : List Method)
  | threw (found : List Method)
  | diverged
  deriving DecidableEq

/-- The outcome when `SetMethod` found `found` before. -/
def Parsed.log (found : List Method) : Parsed → Parsed
  | .returned ok c rest f => .returned ok c rest (found ++ f)
  | .threw f => .threw (found ++ f)
  | .diverged => .diverged

@[simp] theorem Parsed.log_returned (found f : List Method) (ok : Bool) (c : HttpContext)
    (rest : List UInt8) :
    (Parsed.returned ok c rest f).log found = .returned ok c rest (found ++ f) := rfl

@[simp] theorem Parsed.log_nil (p : Parsed) : p.log [] = p := by cases p <;> rfl

@[simp] theorem Parsed.log_log (f g : List Method) (p : Parsed) :
    (p.log g).log f = p.log (f ++ g) := by
  cases p <;> simp [log]

theorem Parsed.log_eq_returned {p : Parsed} {found f : List Method} {ok : Bool} {c : HttpContext}
    {rest : List UInt8} (h : p.log found = .returned ok c rest f) :
    ∃ f', p = .returned ok c rest f' ∧ f = found ++ f' := by
  cases p with
  | returned ok' c' rest' f' => cases h; exact ⟨f', rfl, rfl⟩
  | threw f' => cases h
  | diverged => cases h

/-- One iteration: the loop goes on with the rest of the bytes, or the call ends. -/
inductive Scan where
  | more (context : HttpContext) (rest : List UInt8) (found : List Method)
  | done (p : Parsed)

def scanRequestLine (t : Timestamp) (c : HttpContext) (bs : List UInt8) : Scan :=
  match cutLine bs with
  | none => .done (.returned true c bs [])
  | some (line, rest) =>
    let res := processRequestLine c.request line
    match res.returned with
    | none => .done (.threw res.found)
    | some (true, r) =>
      .more { state := .kExpectHeaders, request := r.setReceiveTime t } rest res.found
    | some (false, r) => .done (.returned false { c with request := r } bs res.found)

/-- The context after a header line: a line without a colon ends the headers. -/
def headerLine (c : HttpContext) (line : List UInt8) : HttpContext :=
  if line.idxOf 58 ≠ line.length then
    { c with request := c.request.addHeader line (line.idxOf 58) }
  else { c with state := .kExpectBody }

def scanHeaders (c : HttpContext) (bs : List UInt8) : Scan :=
  match cutLine bs with
  | none => .done (.returned true c bs [])
  | some (line, rest) => .more (c.headerLine line) rest []

/-- The body of a POST or PUT request is all of the unread bytes, or the request is rejected. -/
def scanBody (c : HttpContext) (bs : List UInt8) : Parsed :=
  if c.request.takesBody then
    let lenSlice := c.request.getHeader (ascii "Content-Length")
    let len := strtol lenSlice
    if lenSlice.isEmpty ∨ castLong bs.length ≠ len then .returned false c bs []
    else if len < 0 then .threw []
    else
      .returned true { state := .kGotAll, request := { c.request with body := bs.take len.toNat } }
        (bs.drop len.toNat) []
  else .returned true { c with state := .kGotAll } bs []

def scan (t : Timestamp) (c : HttpContext) (bs : List UInt8) : Scan :=
  match c.state with
  | .kExpectRequestLine => scanRequestLine t c bs
  | .kExpectHeaders => scanHeaders c bs
  | .kExpectBody => .done (scanBody c bs)
  | .kGotAll => .done .diverged

/-- The loop goes on when it has read a line: the request line, or a header line. -/
theorem scan_more {t : Timestamp} {c c' : HttpContext} {bs rest : List UInt8}
    {found : List Method} (h : scan t c bs = .more c' rest found) :
    ∃ line, cutLine bs = some (line, rest) ∧
      ((c.state = .kExpectRequestLine ∧
          ∃ r, processRequestLine c.request line = ⟨found, some (true, r)⟩ ∧
            c' = { state := .kExpectHeaders, request := r.setReceiveTime t }) ∨
        (c.state = .kExpectHeaders ∧ found = [] ∧ c' = c.headerLine line)) := by
  unfold scan at h
  cases hs : c.state with
  | kExpectRequestLine =>
    simp only [hs, scanRequestLine] at h
    split at h
    · cases h
    · rename_i line rest' hcut
      refine ⟨line, ?_⟩
      generalize hres : processRequestLine c.request line = res at h
      obtain ⟨f, ret⟩ := res
      simp only at h
      split at h
      · cases h
      · cases h
        exact ⟨hcut, .inl ⟨rfl, _, rfl, rfl⟩⟩
      · cases h
  | kExpectHeaders =>
    simp only [hs, scanHeaders] at h
    split at h
    · cases h
    · rename_i line rest' hcut
      cases h
      exact ⟨line, hcut, .inr ⟨rfl, rfl, rfl⟩⟩
  | kExpectBody => simp only [hs] at h; cases h
  | kGotAll => simp only [hs] at h; cases h

theorem scan_more_length {t : Timestamp} {c c' : HttpContext} {bs rest : List UInt8}
    {found : List Method} (h : scan t c bs = .more c' rest found) : rest.length < bs.length := by
  obtain ⟨line, hcut, -⟩ := scan_more h
  have := cutPair_length (by decide) hcut
  omega

/-- The loop goes on in a state other than `kGotAll`. -/
theorem scan_more_state {t : Timestamp} {c c' : HttpContext} {bs rest : List UInt8}
    {found : List Method} (h : scan t c bs = .more c' rest found) : c'.state ≠ .kGotAll := by
  obtain ⟨line, -, ⟨-, r, -, rfl⟩ | ⟨hs, -, rfl⟩⟩ := scan_more h
  · simp
  · unfold headerLine
    split <;> simp [hs]

/-- The parser on byte sequences. -/
def parseBytes (t : Timestamp) (c : HttpContext) (bs : List UInt8) : Parsed :=
  match _h : scan t c bs with
  | .done p => p
  | .more c' rest found => (parseBytes t c' rest).log found
termination_by bs.length
decreasing_by exact scan_more_length _h

theorem parseBytes_done {t : Timestamp} {c : HttpContext} {bs : List UInt8} {p : Parsed}
    (h : scan t c bs = .done p) : parseBytes t c bs = p := by
  rw [parseBytes]; split <;> simp_all

theorem parseBytes_more {t : Timestamp} {c c' : HttpContext} {bs rest : List UInt8}
    {found : List Method} (h : scan t c bs = .more c' rest found) :
    parseBytes t c bs = (parseBytes t c' rest).log found := by
  rw [parseBytes]; split <;> simp_all

/-! ## The buffer level -/

/-- The same outcome; the buffer holds the bytes that are left. -/
def Agrees : ParseOutcome → Parsed → Prop
  | .returned ok c buf found, .returned ok' c' rest found' =>
    ok = ok' ∧ c = c' ∧ found = found' ∧ buf.Holds rest
  | .threw found, .threw found' => found = found'
  | .diverged, .diverged => True
  | _, _ => False

theorem Agrees.returned {o : ParseOutcome} {ok : Bool} {c : HttpContext} {rest : List UInt8}
    {found : List Method} (h : Agrees o (.returned ok c rest found)) :
    ∃ buf, o = .returned ok c buf found ∧ buf.Holds rest := by
  cases o with
  | returned ok' c' buf found' => obtain ⟨rfl, rfl, rfl, hb⟩ := h; exact ⟨buf, rfl, hb⟩
  | threw found' => exact h.elim
  | diverged => exact h.elim

theorem Agrees.of_returned {p : Parsed} {ok : Bool} {c : HttpContext} {buf : Buffer}
    {found : List Method} (h : Agrees (.returned ok c buf found) p) :
    ∃ rest, p = .returned ok c rest found ∧ buf.Holds rest := by
  cases p with
  | returned ok' c' rest found' => obtain ⟨rfl, rfl, rfl, hb⟩ := h; exact ⟨rest, rfl, hb⟩
  | threw found' => exact h.elim
  | diverged => exact h.elim

theorem Agrees.threw {o : ParseOutcome} {found : List Method} (h : Agrees o (.threw found)) :
    o = .threw found := by
  cases o with
  | threw found' => rw [show found' = found from h]
  | returned ok c buf found' => exact h.elim
  | diverged => exact h.elim

/-- The outcome that the last state of the loop stands for. -/
def outcomeOf : Except (List Method) Loop → ParseOutcome
  | .error found => .threw found
  | .ok s => .returned s.ok s.context s.buf s.found

/-- The loop's body does from `s` what the scan does. -/
def BodyAgrees (s : Loop) : Except (List Method) Loop → Scan → Prop
  | .ok s', .more c rest found =>
    s'.hasMore = true ∧ s'.ok = true ∧ s'.context = c ∧ s'.found = s.found ++ found ∧
      s'.buf.Holds rest
  | .ok s', .done p => s'.hasMore = false ∧ Agrees (outcomeOf (.ok s')) (p.log s.found)
  | .error found, .done p => Agrees (.threw found) (p.log s.found)
  | .error _, .more .. => False

section Body

variable {s : Loop} {bs : List UInt8}

theorem requestLineBody_agrees (t : Timestamp) (hb : s.buf.Holds bs) (hok : s.ok = true) :
    BodyAgrees s (requestLineBody t s) (scanRequestLine t s.context bs) := by
  unfold scanRequestLine
  cases hcut : cutLine bs with
  | none =>
    simp only [requestLineBody, Buffer.findCrlf_of_cutLine_none hb hcut]
    simp [BodyAgrees, Agrees, outcomeOf, Parsed.log, hok, hb]
  | some cut =>
    obtain ⟨line, rest⟩ := cut
    obtain ⟨crlf, hf, hl, hr⟩ := Buffer.findCrlf_of_cutLine hb hcut
    simp only [requestLineBody, hf, hl]
    cases hres : (processRequestLine s.context.request line).returned with
    | none => simp [BodyAgrees, Agrees, Parsed.log]
    | some fr =>
      obtain ⟨flag, r⟩ := fr
      cases flag with
      | true => simp [BodyAgrees, hr]
      | false => simp [BodyAgrees, Agrees, outcomeOf, Parsed.log, hb]

theorem headersBody_agrees (hb : s.buf.Holds bs) (hok : s.ok = true) (hm : s.hasMore = true) :
    BodyAgrees s (.ok (headersBody s)) (scanHeaders s.context bs) := by
  unfold scanHeaders
  cases hcut : cutLine bs with
  | none =>
    simp only [headersBody, Buffer.findCrlf_of_cutLine_none hb hcut]
    simp [BodyAgrees, Agrees, outcomeOf, Parsed.log, hok, hb]
  | some cut =>
    obtain ⟨line, rest⟩ := cut
    obtain ⟨crlf, hf, hl, hr⟩ := Buffer.findCrlf_of_cutLine hb hcut
    simp only [headersBody, hf, hl]
    exact ⟨hm, hok, rfl, by simp, hr⟩

/-- `SetBody(Peek(), Peek() + len)`: a negative `len` makes the range inverted. -/
theorem setBody_peek (hb : s.buf.Holds bs) (r : HttpRequest) {len : Int} (hle : len ≤ bs.length) :
    r.setBody s.buf.buffer.storage s.buf.peek (s.buf.peek + len) =
      if len < 0 then none else some { r with body := bs.take len.toNat } := by
  obtain ⟨hi, rfl⟩ := hb
  rw [hi.length_readable] at hle
  unfold HttpRequest.setBody
  split
  · rw [assign, if_neg (by omega)]; rfl
  · obtain ⟨n, rfl⟩ := Int.eq_ofNat_of_zero_le (show 0 ≤ len by omega)
    have hn : n ≤ s.buf.readableBytes := by omega
    rw [← Nat.cast_add, assign_of_le (Nat.le_add_right _ _), ← Buffer.range, Buffer.range_peek hn]
    rfl

theorem bodyBody_agrees (hb : s.buf.Holds bs) (hok : s.ok = true) :
    BodyAgrees s (bodyBody s) (.done (scanBody s.context bs)) := by
  have hlen : s.buf.readableBytes = bs.length := by rw [← hb.readable_eq, hb.inv.length_readable]
  have htakes : (s.context.request.method ≠ .kPost ∧ s.context.request.method ≠ .kPut) ↔
      ¬ s.context.request.takesBody = true := by
    simp [HttpRequest.takesBody]
  simp only [bodyBody, scanBody, htakes, hlen]
  by_cases ht : s.context.request.takesBody = true
  · simp only [ht, not_true_eq_false, ↓reduceIte]
    generalize s.context.request.getHeader (ascii "Content-Length") = lenSlice
    generalize hv : strtol lenSlice = len
    by_cases he : lenSlice.isEmpty = true
    · simp [he, BodyAgrees, Agrees, outcomeOf, Parsed.log, hb]
    by_cases hc : castLong bs.length = len
    · have hle : len ≤ bs.length := hc ▸ castLong_le bs.length
      simp only [he, hc, ne_eq, not_true_eq_false, ↓reduceIte, setBody_peek hb _ hle]
      by_cases hneg : len < 0
      · simp [hneg, BodyAgrees, Agrees, Parsed.log]
      · have hu : s.buf.retrieveUntil (s.buf.peek + len).toNat = s.buf.retrieve len.toNat := by
          rw [Buffer.retrieveUntil, show (s.buf.peek + len).toNat - s.buf.peek = len.toNat by omega]
        have hr : (s.buf.retrieve len.toNat).Holds (bs.drop len.toNat) :=
          ⟨Buffer.retrieve_inv hb.inv _, by rw [Buffer.retrieve_readable hb.inv, hb.readable_eq]⟩
        simp [hneg, BodyAgrees, Agrees, outcomeOf, Parsed.log, hok, hu, hr]
    · simp [he, hc, BodyAgrees, Agrees, outcomeOf, Parsed.log, hb]
  · simp [ht, BodyAgrees, Agrees, outcomeOf, Parsed.log, hok, hb]

theorem loopBody_agrees (t : Timestamp) (hb : s.buf.Holds bs) (hok : s.ok = true)
    (hm : s.hasMore = true) (hs : s.context.state ≠ .kGotAll) :
    BodyAgrees s (loopBody t s) (scan t s.context bs) := by
  unfold loopBody scan
  cases h : s.context.state with
  | kExpectRequestLine => exact requestLineBody_agrees t hb hok
  | kExpectHeaders => exact headersBody_agrees hb hok hm
  | kExpectBody => exact bodyBody_agrees hb hok
  | kGotAll => exact absurd h hs

end Body

/-- `ParseRequest` in `kGotAll` does not end. -/
theorem parseRequest_stuck (t : Timestamp) {c : HttpContext} (hc : c.state = .kGotAll)
    (buf : Buffer) (fuel : Nat) :
    whileLoop (fun s : Loop => s.hasMore) (loopBody t) fuel
      { context := c, buf, ok := true, hasMore := true, found := [] } = none := by
  refine whileLoop_stuck (fun s => s.hasMore = true ∧ s.context.state = .kGotAll) ?_ fuel _
    ⟨rfl, hc⟩
  rintro s ⟨hm, hs⟩
  exact ⟨hm, s, by simp [loopBody, hs], hm, hs⟩

/-- The loop ends in every other state. It needs no more fuel than `parseRequest` gives it, and
does what `parseBytes` says. -/
theorem loop_agrees (t : Timestamp) {c : HttpContext} (hc : c.state ≠ .kGotAll) {buf : Buffer}
    {bs : List UInt8} (hb : buf.Holds bs) :
    ∃ r, Agrees (outcomeOf r) (parseBytes t c bs) ∧ ∀ fuel, buf.readableBytes + 2 ≤ fuel →
      whileLoop (fun s : Loop => s.hasMore) (loopBody t) fuel
        { context := c, buf, ok := true, hasMore := true, found := [] } = some r := by
  -- The invariant: what is left of the call comes to the same outcome.
  let inv (s : Loop) : Prop := s.hasMore = true ∧ s.ok = true ∧ s.context.state ≠ .kGotAll ∧
    ∃ rest, s.buf.Holds rest ∧ (parseBytes t s.context rest).log s.found = parseBytes t c bs
  have hstep : ∀ s, inv s → ∃ rest, s.buf.Holds rest ∧
      (parseBytes t s.context rest).log s.found = parseBytes t c bs ∧
      BodyAgrees s (loopBody t s) (scan t s.context rest) := by
    rintro s ⟨hm, hok, hs, rest, hrest, htarget⟩
    exact ⟨rest, hrest, htarget, loopBody_agrees t hrest hok hm hs⟩
  obtain ⟨r, hr, hpost⟩ : ∃ r, whileLoop (fun s : Loop => s.hasMore) (loopBody t)
      (buf.readableBytes + 2) { context := c, buf, ok := true, hasMore := true, found := [] } =
        some r ∧ Agrees (outcomeOf r) (parseBytes t c bs) := by
    refine whileLoop_total inv (fun s => s.buf.readableBytes)
      (fun r => Agrees (outcomeOf r) (parseBytes t c bs)) (fun s hs => hs.1) ?_ ?_ ?_ _
      ⟨rfl, rfl, hc, bs, hb, by simp⟩
    · intro s e hs hbody
      obtain ⟨rest, -, htarget, hagree⟩ := hstep s hs
      rw [hbody] at hagree
      cases hscan : scan t s.context rest with
      | done p =>
        rw [hscan] at hagree
        rwa [← htarget, parseBytes_done hscan]
      | more c' rest' found => rw [hscan] at hagree; exact hagree.elim
    · intro s s' hs hbody hmore
      obtain ⟨rest, hrest, htarget, hagree⟩ := hstep s hs
      rw [hbody] at hagree
      cases hscan : scan t s.context rest with
      | done p =>
        rw [hscan] at hagree
        rw [hagree.1] at hmore
        cases hmore
      | more c' rest' found =>
        rw [hscan] at hagree
        obtain ⟨hm', hok', rfl, hfound, hrest'⟩ := hagree
        have hlt := scan_more_length hscan
        rw [← hrest.readable_eq, ← hrest'.readable_eq, hrest.inv.length_readable,
          hrest'.inv.length_readable] at hlt
        refine ⟨⟨hm', hok', scan_more_state hscan, rest', hrest', ?_⟩, hlt⟩
        rw [← htarget, parseBytes_more hscan, Parsed.log_log, hfound]
    · intro s s' hs hbody hmore
      obtain ⟨rest, -, htarget, hagree⟩ := hstep s hs
      rw [hbody] at hagree
      cases hscan : scan t s.context rest with
      | done p =>
        rw [hscan] at hagree
        rw [← htarget, parseBytes_done hscan]
        exact hagree.2
      | more c' rest' found =>
        rw [hscan] at hagree
        rw [hagree.1] at hmore
        cases hmore
  exact ⟨r, hpost, fun fuel hfuel => whileLoop_mono hr hfuel⟩

/-- **`ParseRequest` is `parseBytes` of the unread bytes.** -/
theorem parseRequest_agrees (t : Timestamp) (c : HttpContext) {buf : Buffer} {bs : List UInt8}
    (hb : buf.Holds bs) : Agrees (parseRequest t c buf) (parseBytes t c bs) := by
  by_cases hc : c.state = .kGotAll
  · have hscan : scan t c bs = .done .diverged := by simp only [scan, hc]
    rw [parseBytes_done hscan]
    simp only [parseRequest, parseRequest_stuck t hc, Agrees]
  · obtain ⟨r, hagree, hr⟩ := loop_agrees t hc hb
    simp only [parseRequest, hr _ (Nat.le_refl _)]
    cases r <;> exact hagree

end HttpContext

end MyTinyHttpd
