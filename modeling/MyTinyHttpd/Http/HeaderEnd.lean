import MyTinyHttpd.Http.Chunks

/-!
# Where the headers end

`ParseRequest` takes any line without a colon for the end of the headers, not only the empty one. A
call that returns false leaves the context in the body state, and the bytes in the buffer: a chunk
that comes later can still complete the request.

* `EndsHeaders bs fields line rest`: `line` is the first complete line of `bs` without a colon.
* `bodyCalls`: a call and the calls that follow it in the body state.
* `RejectsBody`: no chunk that comes later completes the request; `rejectsBody_iff` connects it with
  `BodyComplete`.
* `EndsAtBlank`: what the calls should have done with the header lines when one returns true.
* `endsAtBlank_iff`: they have done so, whatever comes later, exactly when `line`, if there is one,
  is empty, or the request is rejected for good.
-/

namespace MyTinyHttpd

open Verif RequestHead

/-- Complete header lines. -/
def FieldLines (fields : List (List UInt8)) : Prop := ∀ f ∈ fields, NoCrlf f ∧ 58 ∈ f

/-- The lines with a colon, the first line without one, and what follows it. -/
structure EndsHeaders (bs : List UInt8) (fields : List (List UInt8)) (line rest : List UInt8) :
    Prop where
  bytes_eq : bs = fields.flatMap (· ++ kCrlf) ++ (line ++ kCrlf ++ rest)
  fieldLines : FieldLines fields
  noCrlf : NoCrlf line
  colonless : 58 ∉ line

theorem EndsHeaders.cutLine_nil {bs line rest : List UInt8} (h : EndsHeaders bs [] line rest) :
    cutLine bs = some (line, rest) :=
  cutLine_eq_some.mpr ⟨h.bytes_eq, h.noCrlf⟩

theorem EndsHeaders.cutLine_cons {bs f line rest : List UInt8} {fields : List (List UInt8)}
    (h : EndsHeaders bs (f :: fields) line rest) :
    ∃ bs', cutLine bs = some (f, bs') ∧ EndsHeaders bs' fields line rest := by
  obtain ⟨hf, hfields⟩ := List.forall_mem_cons.mp h.fieldLines
  refine ⟨fields.flatMap (· ++ kCrlf) ++ (line ++ kCrlf ++ rest), cutLine_eq_some.mpr ⟨?_, hf.1⟩,
    rfl, hfields, h.noCrlf, h.colonless⟩
  rw [h.bytes_eq]
  simp

/-- There is only one such line. -/
theorem EndsHeaders.unique {bs line line' rest rest' : List UInt8}
    {fields fields' : List (List UInt8)} (h : EndsHeaders bs fields line rest)
    (h' : EndsHeaders bs fields' line' rest') : fields = fields' ∧ line = line' ∧ rest = rest' := by
  induction fields generalizing bs fields' with
  | nil =>
    have hcut := h.cutLine_nil
    cases fields' with
    | nil =>
      have hcut' := h'.cutLine_nil
      rw [hcut] at hcut'
      cases hcut'
      exact ⟨rfl, rfl, rfl⟩
    | cons f fields' =>
      obtain ⟨bs', hcut', -⟩ := h'.cutLine_cons
      rw [hcut] at hcut'
      cases hcut'
      exact absurd (List.forall_mem_cons.mp h'.fieldLines).1.2 h.colonless
  | cons f fields ih =>
    obtain ⟨bs', hcut, hrest⟩ := h.cutLine_cons
    cases fields' with
    | nil =>
      have hcut' := h'.cutLine_nil
      rw [hcut] at hcut'
      cases hcut'
      exact absurd (List.forall_mem_cons.mp h.fieldLines).1.2 h'.colonless
    | cons f' fields' =>
      obtain ⟨bs'', hcut', hrest'⟩ := h'.cutLine_cons
      rw [hcut] at hcut'
      cases hcut'
      obtain ⟨rfl, hline, hbody⟩ := ih hrest hrest'
      exact ⟨rfl, hline, hbody⟩

theorem EndsHeaders.length_le {bs line rest : List UInt8} {fields : List (List UInt8)}
    (h : EndsHeaders bs fields line rest) : rest.length ≤ bs.length := by
  rw [h.bytes_eq]
  simp only [List.length_append]
  omega

/-- Bytes are header lines that are followed by an incomplete line, or by a line without a colon. -/
theorem exists_fieldLines (bs : List UInt8) :
    ∃ fields, FieldLines fields ∧
      ((∃ tail, bs = fields.flatMap (· ++ kCrlf) ++ tail ∧ cutLine tail = none) ∨
        ∃ line rest, EndsHeaders bs fields line rest) := by
  induction hlen : bs.length using Nat.strong_induction_on generalizing bs with
  | _ n ih =>
    cases hcut : cutLine bs with
    | none => exact ⟨[], by simp [FieldLines], .inl ⟨bs, by simp, hcut⟩⟩
    | some cut =>
      obtain ⟨line, bs'⟩ := cut
      obtain ⟨hbs, hline⟩ := cutLine_eq_some.mp hcut
      by_cases hcolon : 58 ∈ line
      · have hlt : bs'.length < n := by
          have hcrlf : kCrlf.length = 2 := by decide
          rw [← hlen, hbs]
          simp only [List.length_append, hcrlf]
          omega
        obtain ⟨fields, hfields, hrest⟩ := ih bs'.length hlt bs' rfl
        refine ⟨line :: fields, List.forall_mem_cons.mpr ⟨⟨hline, hcolon⟩, hfields⟩, ?_⟩
        rcases hrest with ⟨tail, htail, hnone⟩ | ⟨line', rest, hends⟩
        · exact .inl ⟨tail, by rw [hbs, htail]; simp, hnone⟩
        · refine .inr ⟨line', rest, ?_, List.forall_mem_cons.mpr ⟨⟨hline, hcolon⟩, hfields⟩,
            hends.noCrlf, hends.colonless⟩
          rw [hbs, hends.bytes_eq]
          simp
      · exact ⟨[], by simp [FieldLines], .inr ⟨line, bs', by simp [hbs], by simp [FieldLines],
          hline, hcolon⟩⟩

/-! ## The body state -/

/-- The request takes a body and has no `Content-Length`, or one that is smaller than the number of
bytes that are there. -/
def RejectsBody (r : HttpRequest) (n : Nat) : Prop :=
  r.takesBody = true ∧ (r.getHeader (ascii "Content-Length") = [] ∨
    strtol (r.getHeader (ascii "Content-Length")) < n)

instance (r : HttpRequest) (n : Nat) : Decidable (RejectsBody r n) :=
  inferInstanceAs (Decidable (_ ∧ _))

namespace HttpContext

/-- **A request is rejected for good** exactly when no bytes that follow complete it. -/
theorem rejectsBody_iff {r : HttpRequest} {bs : List UInt8} (hlen : bs.length < 2 ^ 63) :
    RejectsBody r bs.length ↔
      ∀ data : List UInt8, bs.length + data.length < 2 ^ 63 → ¬ BodyComplete r (bs ++ data) := by
  constructor
  · rintro ⟨htakes, hreject⟩ data hdata hcomplete
    obtain ⟨hne, hlength, -⟩ := hcomplete htakes
    rw [castLong_of_lt (by simpa using hdata), List.length_append] at hlength
    rcases hreject with hnone | hless
    · exact hne hnone
    · omega
  · intro hnever
    have htakes : r.takesBody = true := by
      by_contra hnot
      exact hnever [] (by simpa using hlen) fun htakes => absurd htakes hnot
    refine ⟨htakes, ?_⟩
    by_contra hfits
    rw [not_or, Int.not_lt] at hfits
    obtain ⟨hne, hle⟩ := hfits
    have hmax := strtol_le (r.getHeader (ascii "Content-Length"))
    generalize hn : strtol (r.getHeader (ascii "Content-Length")) = n at hle hmax
    have hbound : n < 2 ^ 63 := Int.lt_of_le_of_lt hmax (by decide)
    -- As many bytes as `Content-Length` still asks for.
    let data : List UInt8 := List.replicate (n.toNat - bs.length) 0
    have hdata : (bs ++ data).length = n.toNat := by
      simp only [data, List.length_append, List.length_replicate]
      omega
    refine hnever data (by rw [← List.length_append, hdata]; omega) fun _ => ⟨hne, ?_, by omega⟩
    rw [castLong_of_lt (by omega), hdata]
    omega

/-- A call, and the calls that chunks lead to as long as the context is in the body state. -/
def bodyCalls (alloc : Allocator) (p : ParseOutcome) : List Chunk → ParseOutcome
  | [] => p
  | k :: ks =>
    match p with
    | .returned _ c buf _ =>
      if c.state = .kExpectBody then
        bodyCalls alloc (parseRequest k.time c (buf.append alloc k.data)) ks
      else p
    | .threw _ | .diverged => p

/-- The number of the bytes that a call leaves in the buffer. -/
def ParseOutcome.unread : ParseOutcome → Nat
  | .returned _ _ buf _ => buf.readable.length
  | .threw _ | .diverged => 0

variable {alloc : Allocator}

theorem bodyCalls_settled {p : ParseOutcome}
    (h : ∀ ok c buf found, p = .returned ok c buf found → c.state ≠ .kExpectBody)
    (ks : List Chunk) : bodyCalls alloc p ks = p := by
  cases ks with
  | nil => rfl
  | cons k ks =>
    cases p with
    | returned ok c buf found => simp only [bodyCalls, if_neg (h ok c buf found rfl)]
    | threw found => rfl
    | diverged => rfl

/-- A call in the body state. -/
theorem parseRequest_body {t : Timestamp} {c : HttpContext} (hs : c.state = .kExpectBody)
    {buf : Buffer} {bs : List UInt8} (hbuf : buf.Holds bs) :
    Agrees (parseRequest t c buf) (scanBody c bs) := by
  have hscan : scan t c bs = .done (scanBody c bs) := by simp only [scan, hs]
  rw [← parseBytes_done hscan]
  exact parseRequest_agrees t c hbuf

/-- What a call that comes to the body state does there. -/
theorem body_cases {c : HttpContext} {p : ParseOutcome} {bs : List UInt8} {f : List Method}
    (h : Agrees p ((scanBody c bs).log f)) :
    (BodyComplete c.request bs ∧ ∃ c' buf, p = .returned true c' buf f ∧
        c'.state = .kGotAll ∧ c'.request.headers = c.request.headers ∧ p.unread ≤ bs.length) ∨
      (¬ BodyComplete c.request bs ∧
        ((∃ buf, p = .returned false c buf f ∧ buf.Holds bs) ∨
          p = .threw f ∧ c.request.takesBody = true ∧
            strtol (c.request.getHeader (ascii "Content-Length")) < 0)) := by
  by_cases hcomplete : BodyComplete c.request bs
  · obtain ⟨r, rest, hbody, hheaders, hsuffix⟩ := scanBody_complete hcomplete
    rw [hbody, Parsed.log_returned, List.append_nil] at h
    obtain ⟨buf, rfl, hbuf⟩ := h.returned
    refine .inl ⟨hcomplete, _, buf, rfl, rfl, hheaders, ?_⟩
    rw [ParseOutcome.unread, hbuf.readable_eq]
    exact hsuffix.length_le
  · refine .inr ⟨hcomplete, ?_⟩
    rcases scanBody_incomplete hcomplete with hbody | ⟨hbody, hneg⟩
    · rw [hbody, Parsed.log_returned, List.append_nil] at h
      exact .inl h.returned
    · rw [hbody, Parsed.log, List.append_nil] at h
      exact .inr ⟨h.threw, hneg⟩

theorem unread_le {c : HttpContext} {p : ParseOutcome} {bs : List UInt8} {f : List Method}
    (h : Agrees p ((scanBody c bs).log f)) : p.unread ≤ bs.length := by
  obtain ⟨-, c', buf, -, -, -, hle⟩ | ⟨-, ⟨buf, rfl, hbuf⟩ | ⟨rfl, -⟩⟩ := body_cases h
  · exact hle
  · rw [ParseOutcome.unread, hbuf.readable_eq]
  · exact Nat.zero_le _

variable (alloc) in
/-- One call more, in the body state. -/
theorem bodyCalls_cons (ok : Bool) {c : HttpContext} (hs : c.state = .kExpectBody) {buf : Buffer}
    {bs : List UInt8} (hbuf : buf.Holds bs) (f : List Method) (k : Chunk) (ks : List Chunk) :
    ∃ p, bodyCalls alloc (.returned ok c buf f) (k :: ks) = bodyCalls alloc p ks ∧
      Agrees p ((scanBody c (bs ++ k.data)).log []) := by
  refine ⟨_, by rw [bodyCalls, if_pos hs], ?_⟩
  rw [Parsed.log_nil]
  exact parseRequest_body hs (hbuf.append alloc k.data)

section BodyState

variable {c : HttpContext} (hs : c.state = .kExpectBody)
include hs

/-- When one of the calls returns true, the bytes up to there are a complete body. -/
theorem bodyCalls_returned_true (ks : List Chunk) {p : ParseOutcome} {bs : List UInt8}
    {f : List Method} (h : Agrees p ((scanBody c bs).log f)) {c' : HttpContext} {buf' : Buffer}
    {f' : List Method} (hret : bodyCalls alloc p ks = .returned true c' buf' f') :
    c'.state = .kGotAll ∧ c'.request.headers = c.request.headers ∧
      ∃ data, data.length ≤ (bytesOf ks).length ∧ BodyComplete c.request (bs ++ data) := by
  induction ks generalizing p bs f with
  | nil =>
    obtain ⟨hcomplete, c₁, buf, rfl, hgot, hheaders, -⟩ | ⟨-, ⟨buf, rfl, -⟩ | ⟨rfl, -⟩⟩ :=
      body_cases h
    · cases hret
      exact ⟨hgot, hheaders, [], Nat.le_refl _, by simpa using hcomplete⟩
    · cases hret
    · cases hret
  | cons k ks ih =>
    obtain ⟨hcomplete, c₁, buf, rfl, hgot, hheaders, -⟩ | ⟨-, ⟨buf, rfl, hbuf⟩ | ⟨rfl, -⟩⟩ :=
      body_cases h
    · rw [bodyCalls_settled (by rintro _ _ _ _ ⟨⟩; simp [hgot])] at hret
      cases hret
      exact ⟨hgot, hheaders, [], by simp, by simpa using hcomplete⟩
    · obtain ⟨p', hcons, hp'⟩ := bodyCalls_cons alloc false hs hbuf f k ks
      rw [hcons] at hret
      obtain ⟨hgot, hheaders, data, hlen, hcomplete⟩ := ih hp' hret
      refine ⟨hgot, hheaders, k.data ++ data, ?_, by simpa using hcomplete⟩
      simp only [bytesOf_cons, List.length_append]
      omega
    · cases hret

/-- No call accepts a request that is rejected for good. -/
theorem bodyCalls_rejected {p : ParseOutcome} {bs : List UInt8} {f : List Method}
    (h : Agrees p ((scanBody c bs).log f)) (hreject : RejectsBody c.request bs.length)
    (hbs : bs.length < 2 ^ 63) {ks : List Chunk} (hks : p.unread + (bytesOf ks).length < 2 ^ 63)
    (c' : HttpContext) (buf' : Buffer) (f' : List Method) :
    bodyCalls alloc p ks ≠ .returned true c' buf' f' := by
  intro hret
  obtain ⟨-, -, data, hdata, hcomplete⟩ := bodyCalls_returned_true hs ks h hret
  have hnever := (rejectsBody_iff hbs).mp hreject
  obtain ⟨hnow, -⟩ | ⟨-, ⟨buf, rfl, hbuf⟩ | ⟨rfl, -⟩⟩ := body_cases h
  · exact hnever [] (by simpa using hbs) (by simpa using hnow)
  · rw [ParseOutcome.unread, hbuf.readable_eq] at hks
    exact hnever data (by omega) hcomplete
  · rw [bodyCalls_settled (by rintro _ _ _ _ ⟨⟩)] at hret
    cases hret

variable (alloc) in
/-- A chunk that completes the body is accepted. -/
theorem bodyCalls_completes {p : ParseOutcome} {bs : List UInt8} {f : List Method}
    (h : Agrees p ((scanBody c bs).log f)) {data : List UInt8}
    (hcomplete : BodyComplete c.request (bs ++ data)) :
    ∃ c' buf' f', bodyCalls alloc p [⟨0, data⟩] = .returned true c' buf' f' ∧
      c'.state = .kGotAll := by
  obtain ⟨-, c₁, buf, rfl, hgot, -⟩ | ⟨-, ⟨buf, rfl, hbuf⟩ | ⟨-, htakes, hneg⟩⟩ := body_cases h
  · refine ⟨c₁, buf, _, bodyCalls_settled ?_ _, hgot⟩
    rintro _ _ _ _ ⟨⟩
    simp [hgot]
  · obtain ⟨p', hcons, hp'⟩ :=
      bodyCalls_cons alloc false hs hbuf f ⟨0, data⟩ []
    rw [hcons]
    obtain ⟨-, c₁, buf₁, rfl, hgot, -⟩ | ⟨hnot, -⟩ := body_cases hp'
    · exact ⟨c₁, buf₁, _, rfl, hgot⟩
    · exact absurd hcomplete hnot
  · exact absurd (hcomplete htakes).2.2 (Int.not_le.mpr hneg)

end BodyState

end HttpContext

/-! ## What a call does with the header lines -/

/-- A call that starts in the context `c` on `bytes` comes to the headers `bs` with the request `r`:
it begins there, or with a request line that `ProcessRequestLine` accepts. -/
def AtHeaders (t : Timestamp) (c : HttpContext) (bytes : List UInt8) (r : HttpRequest)
    (bs : List UInt8) : Prop :=
  (c = { state := .kExpectHeaders, request := r } ∧ bytes = bs) ∨
    (c.state = .kExpectRequestLine ∧ ∃ line r', NoCrlf line ∧ bytes = line ++ kCrlf ++ bs ∧
      (processRequestLine c.request line).returned = some (true, r') ∧ r = r'.setReceiveTime t)

theorem AtHeaders.length_le {t : Timestamp} {c : HttpContext} {bytes bs : List UInt8}
    {r : HttpRequest} (h : AtHeaders t c bytes r bs) : bs.length ≤ bytes.length := by
  obtain ⟨-, rfl⟩ | ⟨-, line, r', -, rfl, -⟩ := h
  · exact Nat.le_refl _
  · simp only [List.length_append]
    omega

/-- A call that returns true has stored every complete line as a header and waits for the next one,
or it has come to an empty line and stored every line before it. -/
def EndsAtBlank (p : HttpContext.ParseOutcome) (r : HttpRequest) (bs : List UInt8) : Prop :=
  ∀ c' buf found, p = .returned true c' buf found →
    ∃ fields, FieldLines fields ∧ c'.request.headers = (addFields r fields).headers ∧
      ((c'.state = .kExpectHeaders ∧
          ∃ tail, bs = fields.flatMap (· ++ kCrlf) ++ tail ∧ cutLine tail = none) ∨
        (c'.state = .kGotAll ∧ ∃ body, EndsHeaders bs fields [] body))

namespace HttpContext

variable {t : Timestamp} {r : HttpRequest} {bs : List UInt8}

theorem parseBytes_endsHeaders {fields : List (List UInt8)} {line rest : List UInt8}
    (h : EndsHeaders bs fields line rest) :
    parseBytes t { state := .kExpectHeaders, request := r } bs =
      scanBody { state := .kExpectBody, request := addFields r fields } rest := by
  rw [h.bytes_eq, parseBytes_fieldLines fields (fun f hf => (h.fieldLines f hf).1)
    (fun f hf => (h.fieldLines f hf).2), parseBytes_colonless h.noCrlf h.colonless]

theorem parseBytes_incomplete {fields : List (List UInt8)} {tail : List UInt8}
    (hfields : FieldLines fields) (hbs : bs = fields.flatMap (· ++ kCrlf) ++ tail)
    (htail : cutLine tail = none) :
    parseBytes t { state := .kExpectHeaders, request := r } bs =
      .returned true { state := .kExpectHeaders, request := addFields r fields } tail [] := by
  rw [hbs, parseBytes_fieldLines fields (fun f hf => (hfields f hf).1)
    (fun f hf => (hfields f hf).2)]
  exact parseBytes_cut_none (.inr rfl) htail

/-- The call comes to the headers. -/
theorem parseBytes_atHeaders {c : HttpContext} {bytes : List UInt8} (h : AtHeaders t c bytes r bs) :
    ∃ found, parseBytes t c bytes =
      (parseBytes t { state := .kExpectHeaders, request := r } bs).log found := by
  obtain ⟨rfl, rfl⟩ | ⟨hstate, line, r', hline, rfl, hret, rfl⟩ := h
  · exact ⟨[], (Parsed.log_nil _).symm⟩
  · refine ⟨(processRequestLine c.request line).found, parseBytes_more ?_⟩
    simp only [scan, hstate, scanRequestLine, cutLine_eq_some.mpr ⟨rfl, hline⟩, hret]

/-- A call that comes to a line without a colon goes on in the body state. -/
theorem parseRequest_endsHeaders {c : HttpContext} {buf : Buffer} {bytes : List UInt8}
    (hbuf : buf.Holds bytes) (h : AtHeaders t c bytes r bs) {fields : List (List UInt8)}
    {line rest : List UInt8} (hline : EndsHeaders bs fields line rest) :
    ∃ found, Agrees (parseRequest t c buf)
      ((scanBody { state := .kExpectBody, request := addFields r fields } rest).log found) := by
  obtain ⟨found, hparse⟩ := parseBytes_atHeaders h
  refine ⟨found, ?_⟩
  rw [← parseBytes_endsHeaders (t := t) hline, ← hparse]
  exact parseRequest_agrees t c hbuf

/-- A call that finds complete header lines only waits for the next line. -/
theorem parseRequest_incomplete {c : HttpContext} {buf : Buffer} {bytes : List UInt8}
    (hbuf : buf.Holds bytes) (h : AtHeaders t c bytes r bs) {fields : List (List UInt8)}
    {tail : List UInt8} (hfields : FieldLines fields)
    (hbs : bs = fields.flatMap (· ++ kCrlf) ++ tail) (htail : cutLine tail = none) :
    ∃ buf' found, parseRequest t c buf =
      .returned true { state := .kExpectHeaders, request := addFields r fields } buf' found := by
  obtain ⟨found, hparse⟩ := parseBytes_atHeaders h
  have hagree := parseRequest_agrees t c hbuf
  rw [hparse, parseBytes_incomplete hfields hbs htail, Parsed.log_returned] at hagree
  obtain ⟨buf', hret, -⟩ := hagree.returned
  exact ⟨buf', _, hret⟩

/-- **Where the headers end.** For every call that comes to the headers, whatever follows the
request line, and all chunks that come later while the context is in the body state: when a call
returns true, every line has been stored as a header up to an empty line, or up to an incomplete one
for which the parser waits, if and only if the first complete line without a colon, if there is one,
is empty, or the request takes a body and the headers before that line have no `Content-Length`, or
one that is smaller than the number of the bytes that follow the line. -/
theorem endsAtBlank_iff (alloc : Allocator) {c : HttpContext} {buf : Buffer} {bytes : List UInt8}
    (hbuf : buf.Holds bytes) (hlen : bytes.length < 2 ^ 63) (h : AtHeaders t c bytes r bs) :
    (∀ ks, (parseRequest t c buf).unread + (bytesOf ks).length < 2 ^ 63 →
        EndsAtBlank (bodyCalls alloc (parseRequest t c buf) ks) r bs) ↔
      ∀ fields line rest, EndsHeaders bs fields line rest →
        line = [] ∨ RejectsBody (addFields r fields) rest.length := by
  constructor
  · intro hends fields line rest hline
    by_contra hbad
    rw [not_or] at hbad
    obtain ⟨found, hcall⟩ := parseRequest_endsHeaders hbuf h hline
    have hrest : rest.length < 2 ^ 63 :=
      Nat.lt_of_le_of_lt (hline.length_le.trans h.length_le) hlen
    rw [rejectsBody_iff hrest] at hbad
    push Not at hbad
    obtain ⟨hne, data, hdata, hcomplete⟩ := hbad
    obtain ⟨c', buf', f', hret, hgot⟩ := bodyCalls_completes alloc rfl hcall hcomplete
    have hunread := unread_le hcall
    obtain ⟨fields', -, -, ⟨hwaits, -⟩ | ⟨-, body, hblank⟩⟩ :=
      hends [⟨0, data⟩] (by simp only [bytesOf_cons, bytesOf_nil, List.append_nil]; omega)
        c' buf' f' hret
    · rw [hgot] at hwaits
      cases hwaits
    · exact hne (hline.unique hblank).2.1
  · intro hcond ks hks c' buf' found hret
    obtain ⟨fields, hfields, ⟨tail, hbs, htail⟩ | ⟨line, rest, hline⟩⟩ := exists_fieldLines bs
    · obtain ⟨buf₁, f₁, hwaits⟩ := parseRequest_incomplete hbuf h hfields hbs htail
      rw [hwaits, bodyCalls_settled (by rintro _ _ _ _ ⟨⟩; simp)] at hret
      cases hret
      exact ⟨fields, hfields, rfl, .inl ⟨rfl, tail, hbs, htail⟩⟩
    · obtain ⟨f, hcall⟩ := parseRequest_endsHeaders hbuf h hline
      rcases hcond fields line rest hline with rfl | hreject
      · obtain ⟨hgot, hheaders, -⟩ := bodyCalls_returned_true rfl ks hcall hret
        exact ⟨fields, hfields, hheaders, .inr ⟨hgot, rest, hline⟩⟩
      · have hrest : rest.length < 2 ^ 63 :=
          Nat.lt_of_le_of_lt (hline.length_le.trans h.length_le) hlen
        exact absurd hret (bodyCalls_rejected rfl hcall hreject hrest hks c' buf' found)

def bufferOf (text : String) : Buffer :=
  (Buffer.make Buffer.zeroAlloc 64).append Buffer.zeroAlloc (ascii text)

theorem bufferOf_holds (text : String) : (bufferOf text).Holds (ascii text) :=
  (Buffer.make_holds Buffer.zeroAlloc 64).append Buffer.zeroAlloc (ascii text)

/-- A call on a POST request. -/
def postCall (text : String) : ParseOutcome :=
  parseRequest 0 {} (bufferOf ("POST / HTTP/1.1\r\n" ++ text))

def postRequest : HttpRequest := (lineRequest (ascii "POST / HTTP/1.1")).setReceiveTime 0

theorem atHeaders_post (text : String) :
    AtHeaders 0 {} (ascii ("POST / HTTP/1.1\r\n" ++ text)) postRequest (ascii text) := by
  refine .inr ⟨rfl, ascii "POST / HTTP/1.1", _, noPair_of_not_mem (by decide), ?_, ?_, rfl⟩
  · simp only [ascii, String.toList_append, List.map_append]
    rfl
  · decide +kernel

/-- An empty line, and the first bytes of the body. -/
def cutBody : String := "Content-Length: 5\r\n\r\nab"

theorem endsHeaders_cutBody :
    EndsHeaders (ascii cutBody) [ascii "Content-Length: 5"] [] (ascii "ab") where
  bytes_eq := by decide
  fieldLines := List.forall_mem_singleton.mpr ⟨noPair_of_not_mem (by decide), by decide⟩
  noCrlf := noCrlf_nil
  colonless := by simp

/-- A line without a colon that is followed by more bytes than `Content-Length` says. -/
def shortLength : String := "Content-Length: 5\r\nGarbage\r\nHost: a\r\n\r\n"

theorem endsHeaders_shortLength :
    EndsHeaders (ascii shortLength) [ascii "Content-Length: 5"] (ascii "Garbage")
      (ascii "Host: a\r\n\r\n") where
  bytes_eq := by decide
  fieldLines := List.forall_mem_singleton.mpr ⟨noPair_of_not_mem (by decide), by decide⟩
  noCrlf := noPair_of_not_mem (by decide)
  colonless := by decide

/-- In the first request the rest of the body comes later, and the second call returns true. The
second request is rejected, and no chunk that comes later is taken for the rest of its body. -/
theorem posts_endsAtBlank :
    (postCall cutBody).flag = some false ∧
      (bodyCalls Buffer.zeroAlloc (postCall cutBody) [⟨1, ascii "cde"⟩]).flag = some true ∧
      EndsAtBlank (bodyCalls Buffer.zeroAlloc (postCall cutBody) [⟨1, ascii "cde"⟩]) postRequest
        (ascii cutBody) ∧
      ∀ ks, (postCall shortLength).unread + (bytesOf ks).length < 2 ^ 63 →
        EndsAtBlank (bodyCalls Buffer.zeroAlloc (postCall shortLength) ks) postRequest
          (ascii shortLength) := by
  refine ⟨by decide +kernel, by decide +kernel, ?_, ?_⟩
  · refine (endsAtBlank_iff Buffer.zeroAlloc (bufferOf_holds _) (by decide)
      (atHeaders_post cutBody)).mpr ?_ _ (by decide +kernel)
    intro fields line rest hline
    exact .inl (hline.unique endsHeaders_cutBody).2.1
  · refine (endsAtBlank_iff Buffer.zeroAlloc (bufferOf_holds _) (by decide)
      (atHeaders_post shortLength)).mpr ?_
    intro fields line rest hline
    obtain ⟨rfl, rfl, rfl⟩ := hline.unique endsHeaders_shortLength
    exact .inr (by decide +kernel)

theorem endsHeaders_garbage :
    EndsHeaders (ascii "Garbage\r\nContent-Length: 5\r\n\r\n") [] (ascii "Garbage")
      (ascii "Content-Length: 5\r\n\r\n") where
  bytes_eq := by decide
  fieldLines := by simp [FieldLines]
  noCrlf := noPair_of_not_mem (by decide)
  colonless := by decide

def garbageRequest : String := "GET / HTTP/1.1\r\nGarbage\r\nContent-Length: 5\r\n\r\n"

/-- The line `Garbage` ends the headers: the request is complete without a header, and the
`Content-Length` after the line stays in the buffer. No later call is needed. -/
theorem garbage_ends_headers :
    ∃ r, AtHeaders 0 {} (ascii garbageRequest) r
        (ascii "Garbage\r\nContent-Length: 5\r\n\r\n") ∧
      (∃ c buf found, parseRequest 0 {} (bufferOf garbageRequest) = .returned true c buf found ∧
        c.state = .kGotAll ∧ c.request.headers = ∅ ∧
        buf.readable = ascii "Content-Length: 5\r\n\r\n") ∧
      ¬ EndsAtBlank (parseRequest 0 {} (bufferOf garbageRequest)) r
        (ascii "Garbage\r\nContent-Length: 5\r\n\r\n") := by
  let r := (lineRequest (ascii "GET / HTTP/1.1")).setReceiveTime 0
  have hat : AtHeaders 0 {} (ascii garbageRequest) r
      (ascii "Garbage\r\nContent-Length: 5\r\n\r\n") := by
    refine .inr ⟨rfl, ascii "GET / HTTP/1.1", _, noPair_of_not_mem (by decide), ?_, ?_, rfl⟩
    · decide +kernel
    · decide +kernel
  have hbody : scanBody { state := .kExpectBody, request := r }
        (ascii "Content-Length: 5\r\n\r\n") =
      .returned true { state := .kGotAll, request := r }
        (ascii "Content-Length: 5\r\n\r\n") [] := by
    rw [scanBody, if_neg (by decide +kernel)]
  have hheaders : parseBytes 0 { state := .kExpectHeaders, request := r }
      (ascii "Garbage\r\nContent-Length: 5\r\n\r\n") = _ :=
    (parseBytes_endsHeaders endsHeaders_garbage).trans hbody
  obtain ⟨f, hparse⟩ := parseBytes_atHeaders hat
  have hagree := parseRequest_agrees 0 {} (bufferOf_holds garbageRequest)
  rw [hparse, hheaders, Parsed.log_returned] at hagree
  obtain ⟨buf, hret, hbuf⟩ := hagree.returned
  refine ⟨r, hat, ⟨_, buf, _, hret, rfl, by decide +kernel, hbuf.readable_eq⟩, fun hends => ?_⟩
  obtain ⟨fields, -, -, ⟨hwaits, -⟩ | ⟨-, body, hblank⟩⟩ := hends _ buf _ hret
  · cases hwaits
  · exact absurd (endsHeaders_garbage.unique hblank).2.1 (by decide)

-- A `Content-Length` that counts the header lines after `Garbage`: the first call returns false,
-- and a later byte completes the request with them as its body.
example :
    let p := postCall "Content-Length: 22\r\nGarbage\r\nContent-Length: 5\r\n\r\n"
    p.flag = some false ∧ (bodyCalls Buffer.zeroAlloc p [⟨1, ascii "z"⟩]).flag = some true := by
  decide +kernel

end HttpContext

end MyTinyHttpd
