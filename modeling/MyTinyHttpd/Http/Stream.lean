import MyTinyHttpd.Http.ParseBytes
import MyTinyHttpd.Http.RequestLine

/-!
# The parser on a stream

A call of `ParseRequest` sees a part of the stream. This file says how the outcome on a part
determines the outcome when more bytes follow (`parseBytes_resume`), and that the receive times
and the body that is left in the context do not influence the parser (`parseBytes_reframe`,
`parseBytes_timeless`).

The body state is the exception: for POST and PUT it compares the number of unread bytes with
`Content-Length`, so its outcome is not determined by a part of the stream. `Settled` excludes it.
-/

namespace MyTinyHttpd

open Verif

namespace HttpContext

/-- The induction rule of `parseBytes`: over the lines that a call reads. -/
theorem parseBytes_induction (t : Timestamp) {motive : HttpContext → List UInt8 → Parsed → Prop}
    (done : ∀ c bs p, scan t c bs = .done p → motive c bs p)
    (more : ∀ c bs c' rest found, scan t c bs = .more c' rest found →
      motive c' rest (parseBytes t c' rest) → motive c bs ((parseBytes t c' rest).log found))
    (c : HttpContext) (bs : List UInt8) : motive c bs (parseBytes t c bs) := by
  induction hn : bs.length using Nat.strong_induction_on generalizing c bs with
  | _ n ih =>
    cases hscan : scan t c bs with
    | done p => rw [parseBytes_done hscan]; exact done c bs p hscan
    | more c' rest found =>
      rw [parseBytes_more hscan]
      have hlt := scan_more_length hscan
      exact more c bs c' rest found hscan (ih rest.length (hn ▸ hlt) c' rest rfl)

/-! ## More bytes -/

/-- The context waits for a line. -/
def AwaitsLine (c : HttpContext) : Prop :=
  c.state = .kExpectRequestLine ∨ c.state = .kExpectHeaders

instance (c : HttpContext) : Decidable c.AwaitsLine := inferInstanceAs (Decidable (_ ∨ _))

theorem AwaitsLine.ne_gotAll {c : HttpContext} (h : c.AwaitsLine) : c.state ≠ .kGotAll := by
  rcases h with h | h <;> simp [h]

/-- The outcome does not depend on what follows: the call stopped before the body state, or the
method takes no body. -/
def Parsed.Settled : Parsed → Prop
  | .returned _ c _ _ => c.AwaitsLine ∨ c.request.takesBody = false
  | _ => False

/-- What becomes of an outcome when `more` follows: a call that waited for a line goes on. -/
def Parsed.resume (t : Timestamp) (more : List UInt8) : Parsed → Parsed
  | .returned ok c rest found =>
    if ok = true ∧ c.AwaitsLine then (parseBytes t c (rest ++ more)).log found
    else .returned ok c (rest ++ more) found
  | p => p

theorem Parsed.settled_log {p : Parsed} {found : List Method} :
    (p.log found).Settled ↔ p.Settled := by
  cases p <;> rfl

theorem Parsed.resume_log (t : Timestamp) (more : List UInt8) (p : Parsed)
    (found : List Method) : (p.log found).resume t more = (p.resume t more).log found := by
  cases p with
  | returned ok c rest f =>
    by_cases h : ok = true ∧ c.AwaitsLine
    · simp only [log_returned, resume, h, and_self, ↓reduceIte, log_log]
    · simp only [log_returned, resume, h, ↓reduceIte]
  | threw f => rfl
  | diverged => rfl

theorem scan_more_append {t : Timestamp} {c c' : HttpContext} {bs rest : List UInt8}
    {found : List Method} (h : scan t c bs = .more c' rest found) (more : List UInt8) :
    scan t c (bs ++ more) = .more c' (rest ++ more) found := by
  obtain ⟨line, hcut, ⟨hs, r, hres, rfl⟩ | ⟨hs, rfl, rfl⟩⟩ := scan_more h
  · simp only [scan, hs, scanRequestLine, cutLine_append hcut, hres]
  · simp only [scan, hs, scanHeaders, cutLine_append hcut]

/-- How a call can end: there is no line; or it is the request line, and it is rejected or makes
`assign` throw; or the call came to the body. -/
theorem scan_done {t : Timestamp} {c : HttpContext} {bs : List UInt8} {p : Parsed}
    (h : scan t c bs = .done p) :
    (c.AwaitsLine ∧ cutLine bs = none ∧ p = .returned true c bs []) ∨
      (c.state = .kExpectRequestLine ∧ ∃ line rest found, cutLine bs = some (line, rest) ∧
        ((processRequestLine c.request line = ⟨found, none⟩ ∧ p = .threw found) ∨
          ∃ r, processRequestLine c.request line = ⟨found, some (false, r)⟩ ∧
            p = .returned false { c with request := r } bs found)) ∨
      (c.state = .kExpectBody ∧ p = scanBody c bs) ∨ (c.state = .kGotAll ∧ p = .diverged) := by
  cases hs : c.state with
  | kExpectRequestLine =>
    simp only [scan, hs, scanRequestLine] at h
    cases hcut : cutLine bs with
    | none =>
      simp only [hcut, Scan.done.injEq] at h
      exact .inl ⟨.inl hs, rfl, h.symm⟩
    | some cut =>
      obtain ⟨line, rest⟩ := cut
      simp only [hcut] at h
      generalize hres : processRequestLine c.request line = res at h
      obtain ⟨found, ret⟩ := res
      refine .inr (.inl ⟨rfl, line, rest, found, rfl, ?_⟩)
      rcases ret with _ | ⟨_ | _, r⟩
      · cases h; exact .inl ⟨hres, rfl⟩
      · cases h; exact .inr ⟨r, hres, rfl⟩
      · cases h
  | kExpectHeaders =>
    simp only [scan, hs, scanHeaders] at h
    cases hcut : cutLine bs with
    | none =>
      simp only [hcut, Scan.done.injEq] at h
      exact .inl ⟨.inr hs, rfl, h.symm⟩
    | some cut => simp [hcut] at h
  | kExpectBody =>
    simp only [scan, hs, Scan.done.injEq] at h
    exact .inr (.inr (.inl ⟨rfl, h.symm⟩))
  | kGotAll =>
    simp only [scan, hs, Scan.done.injEq] at h
    exact .inr (.inr (.inr ⟨rfl, h.symm⟩))

/-- What the body state can do: reject the request, throw, or have all of it. -/
theorem scanBody_cases (c : HttpContext) (bs : List UInt8) :
    scanBody c bs = .returned false c bs [] ∨ scanBody c bs = .threw [] ∨
      ∃ r rest, scanBody c bs = .returned true { state := .kGotAll, request := r } rest [] ∧
        r.takesBody = c.request.takesBody := by
  unfold scanBody
  split
  · simp only
    split
    · exact .inl rfl
    · split
      · exact .inr (.inl rfl)
      · exact .inr (.inr ⟨_, _, rfl, rfl⟩)
  · exact .inr (.inr ⟨_, _, rfl, rfl⟩)

/-- The body is there: the method takes none, or the bytes are as many as `Content-Length` says. -/
def BodyComplete (r : HttpRequest) (bs : List UInt8) : Prop :=
  r.takesBody = true →
    r.getHeader (ascii "Content-Length") ≠ [] ∧
      castLong bs.length = strtol (r.getHeader (ascii "Content-Length")) ∧
      0 ≤ strtol (r.getHeader (ascii "Content-Length"))

/-- The body state has all of the request, with the headers that are stored. -/
theorem scanBody_complete {c : HttpContext} {bs : List UInt8} (h : BodyComplete c.request bs) :
    ∃ r rest, scanBody c bs = .returned true { state := .kGotAll, request := r } rest [] ∧
      r.headers = c.request.headers ∧ rest <:+ bs := by
  unfold scanBody
  split
  · rename_i htakes
    obtain ⟨hne, hlen, hneg⟩ := h htakes
    have hempty : (c.request.getHeader (ascii "Content-Length")).isEmpty = false := by
      simpa using hne
    simp only [hempty, hlen]
    rw [if_neg (by simp), if_neg (by omega)]
    exact ⟨_, _, rfl, rfl, List.drop_suffix _ _⟩
  · exact ⟨_, _, rfl, rfl, List.suffix_refl _⟩

/-- It rejects the request, or it throws for a negative `Content-Length`. -/
theorem scanBody_incomplete {c : HttpContext} {bs : List UInt8}
    (h : ¬ BodyComplete c.request bs) :
    scanBody c bs = .returned false c bs [] ∨
      scanBody c bs = .threw [] ∧ c.request.takesBody = true ∧
        strtol (c.request.getHeader (ascii "Content-Length")) < 0 := by
  rw [BodyComplete, Classical.not_imp] at h
  obtain ⟨htakes, h⟩ := h
  unfold scanBody
  rw [if_pos htakes]
  simp only
  split
  · exact .inl rfl
  · rename_i hfits
    rw [not_or, not_ne_iff, List.isEmpty_iff] at hfits
    have hneg : strtol (c.request.getHeader (ascii "Content-Length")) < 0 :=
      Int.not_le.mp fun hpos => h ⟨hfits.1, hfits.2, hpos⟩
    rw [if_pos hneg]
    exact .inr ⟨rfl, htakes, hneg⟩

theorem parseBytes_cut_none {t : Timestamp} {c : HttpContext} {bs : List UInt8} (hc : c.AwaitsLine)
    (h : cutLine bs = none) : parseBytes t c bs = .returned true c bs [] := by
  apply parseBytes_done
  rcases hc with hs | hs
  · simp only [scan, hs, scanRequestLine, h]
  · simp only [scan, hs, scanHeaders, h]

/-- A call that returns true waits for a line or has the request. -/
theorem parseBytes_returned_true {t : Timestamp} {c c' : HttpContext} {bs rest : List UInt8}
    {found : List Method} (h : parseBytes t c bs = .returned true c' rest found) :
    c'.AwaitsLine ∨ c'.state = .kGotAll := by
  refine parseBytes_induction t (motive := fun _ _ p => ∀ c' rest found,
    p = .returned true c' rest found → c'.AwaitsLine ∨ c'.state = .kGotAll) ?_ ?_ c bs _ _ _ h
  · intro c bs p hscan c' rest found hp
    obtain ⟨hc, -, rfl⟩ | ⟨-, line, rest', f, -, ⟨-, rfl⟩ | ⟨r, -, rfl⟩⟩ | ⟨-, rfl⟩ | ⟨-, rfl⟩ :=
      scan_done hscan
    · cases hp; exact .inl hc
    · cases hp
    · cases hp
    · rcases scanBody_cases c bs with hbody | hbody | ⟨r, rest', hbody, -⟩ <;> rw [hbody] at hp
      · cases hp
      · cases hp
      · cases hp; exact .inr rfl
    · cases hp
  · intro c bs c₁ rest₁ f hscan ih c' rest found hp
    obtain ⟨f', hq, -⟩ := Parsed.log_eq_returned hp
    exact ih _ _ _ hq

theorem scanBody_not_settled {c : HttpContext} (bs : List UInt8)
    (h : c.request.takesBody = true) (hs : c.state = .kExpectBody) : ¬ (scanBody c bs).Settled := by
  rcases scanBody_cases c bs with hbody | hbody | ⟨r, rest, hbody, hr⟩ <;> rw [hbody]
  · simp [Parsed.Settled, AwaitsLine, hs, h]
  · exact id
  · simp [Parsed.Settled, AwaitsLine, hr, h]

/-- **The outcome on a longer stream.** -/
theorem parseBytes_resume {t : Timestamp} {c : HttpContext} {bs : List UInt8}
    (h : (parseBytes t c bs).Settled) (more : List UInt8) :
    parseBytes t c (bs ++ more) = (parseBytes t c bs).resume t more := by
  refine parseBytes_induction t
    (motive := fun c bs p => p.Settled → parseBytes t c (bs ++ more) = p.resume t more)
    ?_ ?_ c bs h
  · intro c bs p hscan hp
    obtain ⟨hc, -, rfl⟩ | ⟨hs, line, rest, found, hcut, ⟨-, rfl⟩ | ⟨r, hres, rfl⟩⟩ | ⟨hs, rfl⟩ |
      ⟨-, rfl⟩ := scan_done hscan
    · simp only [Parsed.resume, hc, and_self, ↓reduceIte, Parsed.log_nil]
    · exact hp.elim
    · have hscan' : scan t c (bs ++ more) =
          .done (.returned false { c with request := r } (bs ++ more) found) := by
        simp only [scan, hs, scanRequestLine, cutLine_append hcut, hres]
      rw [parseBytes_done hscan']
      simp [Parsed.resume]
    -- In the body state the method takes no body, since the outcome is settled.
    · have hbody : c.request.takesBody = false :=
        Bool.eq_false_iff.mpr fun h => scanBody_not_settled bs h hs hp
      have hdone : ∀ bs, scanBody c bs = .returned true { c with state := .kGotAll } bs [] := by
        intro bs
        simp only [scanBody, hbody, Bool.false_eq_true, ↓reduceIte]
      have hscan' : scan t c (bs ++ more) = .done (scanBody c (bs ++ more)) := by
        simp only [scan, hs]
      rw [parseBytes_done hscan', hdone, hdone]
      simp [Parsed.resume, AwaitsLine]
    · exact hp.elim
  · intro c bs c' rest found hscan ih hp
    rw [parseBytes_more (scan_more_append hscan more), ih (Parsed.settled_log.mp hp),
      Parsed.resume_log]

/-! ## Streams without a body -/

/-- The parser will not come to a POST or PUT request, and it will not throw: the request line, if
it is there, is rejected or names a method without a body. -/
def BodyFree (c : HttpContext) (bs : List UInt8) : Prop :=
  match c.state with
  | .kExpectRequestLine => ∀ line rest, cutLine bs = some (line, rest) →
      ∃ ok r, (processRequestLine c.request line).returned = some (ok, r) ∧
        (ok = true → r.takesBody = false)
  | .kGotAll => False
  | _ => c.request.takesBody = false

theorem bodyFree_of_takesBody {c : HttpContext}
    (hs : c.state = .kExpectHeaders ∨ c.state = .kExpectBody) (h : c.request.takesBody = false)
    (bs : List UInt8) : c.BodyFree bs := by
  rcases hs with hs | hs <;> simpa only [BodyFree, hs] using h

theorem BodyFree.headerLine {c : HttpContext} {bs : List UInt8} (h : c.BodyFree bs)
    (hs : c.state = .kExpectHeaders) (line bs' : List UInt8) :
    (c.headerLine line).BodyFree bs' := by
  simp only [BodyFree, hs] at h
  unfold HttpContext.headerLine
  split
  · refine bodyFree_of_takesBody ?_ ?_ bs'
    · exact .inl hs
    · exact h
  · refine bodyFree_of_takesBody ?_ ?_ bs'
    · exact .inr rfl
    · exact h

/-- After a line the stream stays free of bodies, whatever follows. -/
theorem BodyFree.scan_more {t : Timestamp} {c c' : HttpContext} {bs rest : List UInt8}
    {found : List Method} (h : c.BodyFree bs) (hscan : scan t c bs = .more c' rest found)
    (bs' : List UInt8) : c'.BodyFree bs' := by
  obtain ⟨line, hcut, ⟨hs, r, hres, rfl⟩ | ⟨hs, -, rfl⟩⟩ := HttpContext.scan_more hscan
  · simp only [BodyFree, hs] at h
    obtain ⟨ok, r', hr', hbody⟩ := h line rest hcut
    rw [hres] at hr'
    cases hr'
    exact hbody rfl
  · exact h.headerLine hs line bs'

/-- How a call ends on a stream without a body, when `more` is to follow: it rejects the request
line, it waits for a line, or it has all of the request. -/
def Parsed.BodyFree (more : List UInt8) : Parsed → Prop
  | .returned false c _ _ => c.state = .kExpectRequestLine
  | .returned true c rest _ =>
    (c.AwaitsLine ∧ c.BodyFree (rest ++ more)) ∨ (c.state = .kGotAll ∧ c.request.takesBody = false)
  | _ => False

theorem BodyFree.parse (t : Timestamp) {c : HttpContext} {bs more : List UInt8}
    (h : c.BodyFree (bs ++ more)) : (parseBytes t c bs).BodyFree more := by
  refine parseBytes_induction t
    (motive := fun c bs p => c.BodyFree (bs ++ more) → p.BodyFree more) ?_ ?_ c bs h
  · intro c bs p hscan h
    obtain ⟨hc, -, rfl⟩ | ⟨hs, line, rest, found, hcut, hp⟩ | ⟨hs, rfl⟩ | ⟨hs, rfl⟩ :=
      scan_done hscan
    · exact .inl ⟨hc, h⟩
    · simp only [HttpContext.BodyFree, hs] at h
      obtain ⟨ok, r, hr, -⟩ := h line (rest ++ more) (cutLine_append hcut more)
      obtain ⟨hres, rfl⟩ | ⟨r, -, rfl⟩ := hp
      · rw [hres] at hr
        cases hr
      · exact hs
    · simp only [HttpContext.BodyFree, hs] at h
      simp only [scanBody, h, Bool.false_eq_true, ↓reduceIte]
      exact .inr ⟨rfl, h⟩
    · simp only [HttpContext.BodyFree, hs] at h
  · intro c bs c' rest found hscan ih h
    have h' := ih (h.scan_more (scan_more_append hscan more) _)
    generalize parseBytes t c' rest = p at h'
    cases p with
    | returned ok c'' rest' f => cases ok <;> exact h'
    | threw f => exact h'
    | diverged => exact h'

theorem Parsed.BodyFree.settled {p : Parsed} {more : List UInt8} (h : p.BodyFree more) :
    p.Settled := by
  cases p with
  | returned ok c rest found =>
    cases ok with
    | false => exact .inl (.inl h)
    | true =>
      rcases h with h | h
      · exact .inl h.1
      · exact .inr h.2
  | threw found => exact h.elim
  | diverged => exact h.elim

/-! ## Receive times and bodies -/

/-- The context with another receive time and body in its request. -/
def reframe (f : Timestamp → Timestamp) (g : List UInt8 → List UInt8) (c : HttpContext) :
    HttpContext :=
  { c with request := c.request.reframe f g }

/-- The context holds a request whose body the parser has stored. -/
def GotBody (c : HttpContext) : Prop := c.state = .kGotAll ∧ c.request.takesBody = true

instance (c : HttpContext) : Decidable c.GotBody := inferInstanceAs (Decidable (_ ∧ _))

/-- The outcome from a context with another receive time and body: a body that the parser has
stored is not the other one. -/
def Parsed.reframe (f : Timestamp → Timestamp) (g : List UInt8 → List UInt8) : Parsed → Parsed
  | .returned ok c rest found =>
    .returned ok (if c.GotBody then c.reframe f id else c.reframe f g) rest found
  | p => p

section

variable (f : Timestamp → Timestamp) (g : List UInt8 → List UInt8)

theorem Parsed.reframe_log (p : Parsed) (found : List Method) :
    (p.log found).reframe f g = (p.reframe f g).log found := by
  cases p <;> rfl

theorem headerLine_reframe (c : HttpContext) (line : List UInt8) :
    (c.reframe f g).headerLine line = (c.headerLine line).reframe f g := by
  unfold headerLine
  split <;> rfl

theorem Parsed.reframe_awaits {c : HttpContext} (hc : c.state ≠ .kGotAll) (ok : Bool)
    (rest : List UInt8) (found : List Method) :
    (Parsed.returned ok c rest found).reframe f g = .returned ok (c.reframe f g) rest found := by
  simp [Parsed.reframe, GotBody, hc]

theorem scanBody_reframe (c : HttpContext) (hs : c.state = .kExpectBody) (bs : List UInt8) :
    scanBody (c.reframe f g) bs = (scanBody c bs).reframe f g := by
  have ht : (c.reframe f g).request.takesBody = c.request.takesBody := rfl
  have hg : (c.reframe f g).request.getHeader (ascii "Content-Length") =
      c.request.getHeader (ascii "Content-Length") := rfl
  simp only [scanBody, ht, hg]
  split
  · rename_i hbody
    split
    · rw [Parsed.reframe_awaits f g (by simp [hs])]
    · split
      · rfl
      · have hgot : ∀ b, GotBody { state := .kGotAll, request := { c.request with body := b } } :=
          fun _ => ⟨rfl, hbody⟩
        simp only [Parsed.reframe, hgot, ↓reduceIte]
        rfl
  · rename_i hbody
    have hgot : ¬ GotBody { c with state := .kGotAll } := fun h => hbody h.2
    simp only [Parsed.reframe, hgot, ↓reduceIte]
    rfl

/-- The receive times and the body that is in the context do not influence the parser. -/
theorem parseBytes_reframe (t : Timestamp) (c : HttpContext) (bs : List UInt8) :
    parseBytes (f t) (c.reframe f g) bs = (parseBytes t c bs).reframe f g := by
  refine parseBytes_induction t
    (motive := fun c bs p => parseBytes (f t) (c.reframe f g) bs = p.reframe f g) ?_ ?_ c bs
  · intro c bs p hscan
    apply parseBytes_done
    have hstate : (c.reframe f g).state = c.state := rfl
    have hreq : (c.reframe f g).request = c.request.reframe f g := rfl
    obtain ⟨hc, hcut, rfl⟩ | ⟨hs, line, rest, found, hcut, ⟨hres, rfl⟩ | ⟨r, hres, rfl⟩⟩ |
      ⟨hs, rfl⟩ | ⟨hs, rfl⟩ := scan_done hscan
    · rw [Parsed.reframe_awaits f g hc.ne_gotAll]
      rcases hc with hs | hs
      · simp only [scan, hstate, hs, scanRequestLine, hcut]
      · simp only [scan, hstate, hs, scanHeaders, hcut]
    · simp only [scan, hstate, hs, scanRequestLine, hcut, hreq, processRequestLine_reframe, hres,
        Option.map_none]
      rfl
    · simp only [scan, hstate, hs, scanRequestLine, hcut, hreq, processRequestLine_reframe, hres,
        Option.map_some]
      rfl
    · simp only [scan, hstate, hs, scanBody_reframe f g c hs]
    · simp only [scan, hstate, hs]
      rfl
  · intro c bs c' rest found hscan ih
    rw [Parsed.reframe_log, ← ih]
    apply parseBytes_more
    obtain ⟨line, hcut, ⟨hs, r, hres, rfl⟩ | ⟨hs, rfl, rfl⟩⟩ := scan_more hscan
    · have hreq : (c.reframe f g).request = c.request.reframe f g := rfl
      have hstate : (c.reframe f g).state = .kExpectRequestLine := hs
      simp only [scan, hstate, scanRequestLine, hcut, hreq, processRequestLine_reframe, hres,
        Option.map_some]
      rfl
    · have hstate : (c.reframe f g).state = .kExpectHeaders := hs
      simp only [scan, hstate, scanHeaders, hcut, headerLine_reframe]

end

/-- The context without the receive time of its request. -/
def timeless (c : HttpContext) : HttpContext := { c with request := c.request.timeless }

def Parsed.timeless : Parsed → Parsed
  | .returned ok c rest found => .returned ok c.timeless rest found
  | p => p

theorem Parsed.timeless_eq_returned {p : Parsed} {ok : Bool} {c₀ : HttpContext}
    {rest : List UInt8} {found : List Method} (h : p.timeless = .returned ok c₀ rest found) :
    ∃ c, p = .returned ok c rest found ∧ c.timeless = c₀ := by
  cases p with
  | returned ok' c rest' found' => cases h; exact ⟨c, rfl, rfl⟩
  | threw found' => cases h
  | diverged => cases h

/-- Without the receive times, the outcome does not depend on when the call is made. -/
theorem parseBytes_timeless (t : Timestamp) (c : HttpContext) (bs : List UInt8) :
    (parseBytes t c bs).timeless = parseBytes 0 c.timeless bs := by
  have h := parseBytes_reframe (fun _ => 0) id t c bs
  have ht : c.reframe (fun _ => 0) id = c.timeless := rfl
  rw [ht] at h
  rw [h]
  cases parseBytes t c bs with
  | returned ok c' rest found => simp only [Parsed.reframe, ite_self]; rfl
  | threw found => rfl
  | diverged => rfl

end HttpContext

end MyTinyHttpd
