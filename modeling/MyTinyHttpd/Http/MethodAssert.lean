import MyTinyHttpd.Http.Pipeline

/-!
# The assertion in `SetMethod`

`SetMethod` asserts that the request has no method yet. A request line that is rejected after its
method was stored leaves the method in the context and the line in the buffer, so the next call
of `ParseRequest` reads the line again and finds the method.

* `parseBytes_found`: what `SetMethod` finds in a call of `ParseRequest`.
* `clean_step`: as long as no such line is rejected, the context has no method when it waits for a
  request line.
* `found_invalid_iff`: the assertion holds in a run, exactly when no call but the last rejects such
  a line.
-/

namespace MyTinyHttpd

open Verif HttpRequest

/-- `ProcessRequestLine` throws: there is nothing before the first `?` of the target. -/
def ThrowingLine (line : List UInt8) : Prop :=
  ∃ m target text, line = m ++ 32 :: (target ++ 32 :: text) ∧ 32 ∉ m ∧ 32 ∉ target ∧
    target.takeWhile (· ≠ 63) = []

theorem processRequestLine_throws {r : HttpRequest} {line : List UInt8} :
    (processRequestLine r line).returned = none ↔ ThrowingLine line := by
  constructor
  · intro h
    obtain hn | ⟨m, rest, rfl, hm, hr⟩ | ⟨m, target, text, rfl, hm, ht⟩ := line_shape line
    · rw [processRequestLine_none r hn] at h; cases h
    · rw [processRequestLine_one r hm hr] at h; cases h
    · rw [processRequestLine_two r hm ht] at h
      exact ⟨m, target, text, rfl, hm, ht, setTarget_eq_none.mp (Option.map_eq_none_iff.mp h)⟩
  · rintro ⟨m, target, text, rfl, hm, ht, hp⟩
    rw [processRequestLine_two r hm ht, setTarget_eq_none.mpr hp, Option.map_none]

theorem processRequestLine_found (r : HttpRequest) (line : List UInt8) :
    (processRequestLine r line).found = if 32 ∈ line then [r.method] else [] := by
  obtain hn | ⟨m, rest, rfl, hm, hr⟩ | ⟨m, target, text, rfl, hm, ht⟩ := line_shape line
  · rw [processRequestLine_none r hn, if_neg hn]
  · rw [processRequestLine_one r hm hr, if_pos (by simp)]
  · rw [processRequestLine_two r hm ht, if_pos (by simp)]

/-- The bytes start with a request line that stores a method and is then rejected. -/
def RejectsMethod (bs : List UInt8) : Prop :=
  ∃ line rest, cutLine bs = some (line, rest) ∧ 32 ∈ line ∧ methodOf line ≠ .kInvalid ∧
    ¬ AcceptedLine line ∧ ¬ ThrowingLine line

namespace HttpContext

variable {t : Timestamp}

/-- What the calls of `SetMethod` found. -/
def Parsed.found : Parsed → List Method
  | .returned _ _ _ found => found
  | .threw found => found
  | .diverged => []

theorem Parsed.found_log (found : List Method) (p : Parsed) :
    (p.log found).found = if p = .diverged then [] else found ++ p.found := by
  cases p <;> simp [Parsed.log, Parsed.found]

theorem parseBytes_found_nil {c : HttpContext} (hs : c.state ≠ .kExpectRequestLine)
    (bs : List UInt8) : (parseBytes t c bs).found = [] := by
  refine parseBytes_induction t
    (motive := fun c _ p => c.state ≠ .kExpectRequestLine → p.found = []) ?_ ?_ c bs hs
  · intro c bs p hscan hs
    obtain ⟨-, -, rfl⟩ | ⟨hs', -⟩ | ⟨-, rfl⟩ | ⟨-, rfl⟩ := scan_done hscan
    · rfl
    · exact absurd hs' hs
    · rcases scanBody_cases c bs with hbody | hbody | ⟨r, rest, hbody, -⟩ <;> rw [hbody] <;> rfl
    · rfl
  · intro c bs c' rest found hscan ih hs
    obtain ⟨line, -, ⟨hs', -⟩ | ⟨hs', rfl, rfl⟩⟩ := scan_more hscan
    · exact absurd hs' hs
    · rw [Parsed.log_nil]
      apply ih
      unfold headerLine
      split <;> simp [hs']

/-- What `SetMethod` finds: the method in the context, when there is a request line with a
space. -/
theorem parseBytes_found {c : HttpContext} (hs : c.state = .kExpectRequestLine)
    {bs line rest : List UInt8} (hcut : cutLine bs = some (line, rest)) :
    (parseBytes t c bs).found = if 32 ∈ line then [c.request.method] else [] := by
  rw [← processRequestLine_found c.request line]
  cases hscan : scan t c bs with
  | done p =>
    rw [parseBytes_done hscan]
    obtain ⟨-, hnone, -⟩ | ⟨-, line', rest', f, hcut', hp⟩ | ⟨hs', -⟩ | ⟨hs', -⟩ := scan_done hscan
    · rw [hcut] at hnone; cases hnone
    · rw [hcut] at hcut'
      cases hcut'
      obtain ⟨hres, rfl⟩ | ⟨r, hres, rfl⟩ := hp <;> rw [hres] <;> rfl
    · cases hs.symm.trans hs'
    · cases hs.symm.trans hs'
  | more c' rest' f =>
    obtain ⟨line', hcut', ⟨-, r, hres, rfl⟩ | ⟨hs', -⟩⟩ := scan_more hscan
    · rw [hcut] at hcut'
      cases hcut'
      have hended := parseBytes_ended t
        (c := { state := .kExpectHeaders, request := r.setReceiveTime t }) (by simp) rest
      have hne : parseBytes t { state := .kExpectHeaders, request := r.setReceiveTime t } rest ≠
          .diverged := by
        intro h
        rw [h] at hended
        exact hended
      rw [parseBytes_more hscan, Parsed.found_log, if_neg hne, parseBytes_found_nil (by simp), hres,
        List.append_nil]
    · cases hs.symm.trans hs'

/-- How a call comes to wait for a request line: it is in the state already, and there is no line
yet or the line is rejected. -/
theorem parseBytes_requestLine {c c' : HttpContext} {bs rest : List UInt8} {ok : Bool}
    {found : List Method} (h : parseBytes t c bs = .returned ok c' rest found)
    (hs' : c'.state = .kExpectRequestLine) :
    c.state = .kExpectRequestLine ∧
      (c' = c ∨ ∃ line rest', cutLine bs = some (line, rest') ∧
        (processRequestLine c.request line).returned = some (false, c'.request)) := by
  refine parseBytes_induction t (motive := fun c bs p => ∀ ok c' rest found,
    p = .returned ok c' rest found → c'.state = .kExpectRequestLine →
      c.state = .kExpectRequestLine ∧ (c' = c ∨ ∃ line rest', cutLine bs = some (line, rest') ∧
        (processRequestLine c.request line).returned = some (false, c'.request)))
    ?_ ?_ c bs ok c' rest found h hs'
  · intro c bs p hscan ok c' rest found hp hs'
    obtain ⟨-, -, rfl⟩ | ⟨hs, line, rest', f, hcut, ⟨-, rfl⟩ | ⟨r, hres, rfl⟩⟩ | ⟨hs, rfl⟩ |
      ⟨-, rfl⟩ :=
      scan_done hscan
    · cases hp; exact ⟨hs', .inl rfl⟩
    · cases hp
    · cases hp; exact ⟨hs, .inr ⟨line, rest', hcut, by rw [hres]⟩⟩
    · rcases scanBody_cases c bs with hbody | hbody | ⟨r, rest', hbody, -⟩ <;> rw [hbody] at hp
      · cases hp; cases hs.symm.trans hs'
      · cases hp
      · cases hp; cases hs'
    · cases hp
  -- After a line the context waits for the headers or the body.
  · intro c bs c₁ rest₁ f hscan ih ok c' rest found hp hs'
    have hstate : c₁.state ≠ .kExpectRequestLine := by
      obtain ⟨line, -, ⟨-, r, -, rfl⟩ | ⟨hs, -, rfl⟩⟩ := scan_more hscan
      · simp
      · unfold headerLine
        split <;> simp [hs]
    obtain ⟨f', hq, -⟩ := Parsed.log_eq_returned hp
    exact absurd (ih _ _ _ _ hq hs').1 hstate

end HttpContext

namespace Session

open HttpContext

variable {ω : Type} (alloc : Allocator) (server : HttpServer ω) {s : Session ω}

theorem foundBy_message (h : s.Ready) (hrun : s.status = .running) (k : Chunk) :
    s.foundBy alloc server (.message k) =
      (parseBytes k.time s.conn.context (s.unread ++ k.data)).found := by
  obtain ⟨f, hp, -, -, -, hf⟩ | ⟨ok, c, rest, f, hp, ⟨-, ha⟩ | ⟨-, -, ha⟩⟩ :=
    step_message alloc server h hrun k
  · simp [foundBy, hf, hp, Parsed.found]
  · simp [foundBy, ha.found_eq, hp, Parsed.found]
  · simp [foundBy, ha.found_eq, hp, Parsed.found]

/-- The context has no method when it waits for a request line. -/
def Clean (s : Session ω) : Prop :=
  s.status = .running → s.conn.context.state = .kExpectRequestLine →
    s.conn.context.request.method = .kInvalid

/-- The chunk makes the parser reject a request line whose method it has stored. -/
def Rejects (s : Session ω) (k : Chunk) : Prop :=
  s.status = .running ∧ s.conn.context.state = .kExpectRequestLine ∧
    RejectsMethod (s.unread ++ k.data)

theorem clean_established (answers : Nat → WriteResult) (w : ω) :
    (established alloc answers w).Clean := fun _ _ => rfl

theorem clean_step (h : s.Ready) (hclean : s.Clean) (e : Event)
    (he : ∀ k, e = .message k → ¬ s.Rejects k) : (s.step alloc server e).Clean := by
  cases e with
  | writable =>
    obtain ⟨hstatus, hcontext, -⟩ := step_writable alloc server s
    intro hrun hs
    rw [hcontext] at hs ⊢
    exact hclean (hstatus.symm.trans hrun) hs
  | message k =>
    by_cases hrun : s.status = .running
    · obtain ⟨f, -, -, hthrew, -⟩ | ⟨ok, c, rest, f, hp, ⟨-, ha⟩ | ⟨-, -, ha⟩⟩ :=
        step_message alloc server h hrun k
      · intro hrun'
        cases hthrew.symm.trans hrun'
      · intro _ hs'
        rw [ha.context_eq] at hs' ⊢
        obtain ⟨hs, rfl | ⟨line, rest', hcut, hret⟩⟩ := parseBytes_requestLine hp hs'
        · exact hclean hrun hs
        · by_cases hspace : 32 ∈ line
          · by_contra hm
            rw [processRequestLine_method hret hspace] at hm
            refine he k rfl ⟨hrun, hs, line, rest', hcut, hspace, hm, fun haccepted => ?_,
              fun hthrows => ?_⟩
            · obtain ⟨r, hr⟩ := processRequestLine_accepts.mpr haccepted
              rw [hret] at hr
              cases hr
            · rw [processRequestLine_throws.mpr hthrows] at hret
              cases hret
          · rw [processRequestLine_none _ hspace] at hret
            simp only [Option.some.injEq, Prod.mk.injEq, true_and] at hret
            rw [← hret]
            exact hclean hrun hs
      · intro _ _
        rw [ha.context_eq]
        rfl
    · rw [step_not_running alloc server hrun]
      exact hclean

/-- In a clean state the next call of `SetMethod` finds no method. -/
theorem Clean.found (h : s.Ready) (hclean : s.Clean) (e : Event) :
    ∀ m ∈ s.foundBy alloc server e, m = .kInvalid := by
  intro m hm
  cases e with
  | writable => simp [foundBy, step] at hm
  | message k =>
    by_cases hrun : s.status = .running
    · rw [foundBy_message alloc server h hrun] at hm
      by_cases hs : s.conn.context.state = .kExpectRequestLine
      · cases hcut : cutLine (s.unread ++ k.data) with
        | none => rw [parseBytes_cut_none (.inl hs) hcut] at hm; simp [Parsed.found] at hm
        | some cut =>
          rw [parseBytes_found hs hcut] at hm
          split at hm
          · rw [List.mem_singleton.mp hm]
            exact hclean hrun hs
          · simp at hm
      · rw [parseBytes_found_nil hs] at hm
        simp at hm
    · simp [foundBy, step_not_running alloc server hrun] at hm

/-- A rejected request line is still in the buffer, and its method in the context. -/
structure Stale (s : Session ω) : Prop where
  running : s.status = .running
  state_eq : s.conn.context.state = .kExpectRequestLine
  method_ne : s.conn.context.request.method ≠ .kInvalid
  line : ∃ line rest, cutLine s.unread = some (line, rest) ∧ 32 ∈ line

theorem Rejects.stale {k : Chunk} (hr : s.Rejects k) (h : s.Ready) :
    (s.step alloc server (.message k)).Stale := by
  obtain ⟨hrun, hs, line, rest, hcut, hspace, hm, hnot, hthrows⟩ := hr
  obtain ⟨⟨ok, r⟩, hret⟩ := Option.ne_none_iff_exists'.mp fun hnone =>
    hthrows (processRequestLine_throws (r := s.conn.context.request).mp hnone)
  have hok : ok = false := by
    cases ok with
    | false => rfl
    | true => exact absurd (processRequestLine_accepts.mp ⟨r, hret⟩) hnot
  subst hok
  have hscan : scan k.time s.conn.context (s.unread ++ k.data) =
      .done (.returned false { s.conn.context with request := r } (s.unread ++ k.data)
        (processRequestLine s.conn.context.request line).found) := by
    simp only [scan, hs, scanRequestLine, hcut, hret]
  have ha := (step_returned alloc server h hrun (parseBytes_done hscan)).1 (by simp [hs])
  refine ⟨ha.status_eq, by rw [ha.context_eq]; exact hs, ?_, ⟨line, rest, ?_, hspace⟩⟩
  · rw [ha.context_eq, processRequestLine_method hret hspace]
    exact hm
  · rw [ha.unread_eq]
    exact hcut

theorem Stale.writable (hs : s.Stale) : (s.step alloc server .writable).Stale := by
  obtain ⟨hstatus, hcontext, hunread, -⟩ := step_writable alloc server s
  refine ⟨hstatus.trans hs.running, ?_, ?_, ?_⟩
  · rw [hcontext]; exact hs.state_eq
  · rw [hcontext]; exact hs.method_ne
  · rw [hunread]; exact hs.line

theorem Stale.run (hs : s.Stale) {events : List Event} (he : chunksOf events = []) :
    (events.foldl (step alloc server) s).Stale := by
  induction events generalizing s with
  | nil => exact hs
  | cons e events ih =>
    cases e with
    | writable => exact ih (hs.writable alloc server) he
    | message k => cases he

/-- The next chunk, whatever it is, makes `SetMethod` find the method. -/
theorem Stale.found (hs : s.Stale) (h : s.Ready) (k : Chunk) :
    ∃ m ∈ s.foundBy alloc server (.message k), m ≠ .kInvalid := by
  obtain ⟨line, rest, hcut, hspace⟩ := hs.line
  refine ⟨s.conn.context.request.method, ?_, hs.method_ne⟩
  rw [foundBy_message alloc server h hs.running, parseBytes_found hs.state_eq
    (cutLine_append hcut k.data), if_pos hspace]
  simp

/-! ## Runs -/

/-- The next chunk of the events. -/
theorem exists_message {events : List Event} (h : chunksOf events ≠ []) :
    ∃ pre k post, events = pre ++ .message k :: post ∧ chunksOf pre = [] := by
  induction events with
  | nil => exact absurd rfl h
  | cons e events ih =>
    cases e with
    | message k => exact ⟨[], k, events, rfl, rfl⟩
    | writable =>
      obtain ⟨pre, k, post, rfl, hpre⟩ := ih h
      exact ⟨.writable :: pre, k, post, rfl, hpre⟩

/-- The run up to a point after which more chunks come. -/
theorem clean_run (answers : Nat → WriteResult) (w : ω) (pre suffix : List Event)
    (hsuffix : chunksOf suffix ≠ [])
    (h : ∀ pre' k post, pre ++ suffix = pre' ++ .message k :: post → chunksOf post ≠ [] →
      ¬ (pre'.foldl (step alloc server) (established alloc answers w)).Rejects k) :
    (pre.foldl (step alloc server) (established alloc answers w)).Clean := by
  induction pre using List.reverseRecOn generalizing suffix with
  | nil => exact clean_established alloc answers w
  | append_singleton pre e ih =>
    rw [List.append_assoc] at h
    have hsuffix' : chunksOf ([e] ++ suffix) ≠ [] := by
      cases e with
      | message k => simp [chunksOf]
      | writable => exact hsuffix
    rw [List.foldl_append, List.foldl_cons, List.foldl_nil]
    apply clean_step alloc server (ready_run alloc server (ready_established alloc answers w) pre)
      (ih ([e] ++ suffix) hsuffix' h)
    rintro k rfl
    exact h pre k suffix rfl hsuffix

/-- **When the assertion in `SetMethod` holds.** In every run of a connection, whatever the server
and the kernel: exactly when no chunk but the last makes the parser reject a request line whose
method it has stored. -/
theorem found_invalid_iff (answers : Nat → WriteResult) (w : ω) (events : List Event) :
    (∀ m ∈ (events.foldl (step alloc server) (established alloc answers w)).found,
        m = .kInvalid) ↔
      ∀ pre k post, events = pre ++ .message k :: post → chunksOf post ≠ [] →
        ¬ (pre.foldl (step alloc server) (established alloc answers w)).Rejects k := by
  have hready := ready_established alloc answers w
  rw [forall_log_iff (I := Ready) (fun s e h => ready_step alloc server h e)
    (fun s e h => (step_logs alloc server h e).2) (fun m => m = Method.kInvalid) hready]
  constructor
  · rintro ⟨-, h⟩ pre k post he hpost hrejects
    obtain ⟨pre', k', post', rfl, hpre'⟩ := exists_message hpost
    have hs := ready_run alloc server hready pre
    have hstale := (hrejects.stale alloc server hs).run alloc server hpre'
    have hs' := ready_run alloc server (ready_step alloc server hs (.message k)) pre'
    obtain ⟨m, hm, hne⟩ := hstale.found alloc server hs' k'
    refine hne (h (pre ++ .message k :: pre') (.message k') post' (by simp [he]) m ?_)
    simpa using hm
  · intro h
    refine ⟨by simp [established], fun pre e post he => ?_⟩
    have hs := ready_run alloc server hready pre
    cases e with
    | writable => simp [foundBy, step]
    | message k =>
      have hclean := clean_run alloc server answers w pre (.message k :: post) (by simp [chunksOf])
        (he ▸ h)
      exact hclean.found alloc server hs (.message k)

/-- A request line with a wrong version, and one byte more. -/
def wrongVersion : List Event :=
  [.message ⟨1, ascii "GET / HTTP/2.0\r\n"⟩, .message ⟨2, ascii "x"⟩]

/-- The second call reads the line again and finds the method of the first. -/
theorem wrongVersion_found :
    (wrongVersion.foldl (step Buffer.zeroAlloc plainServer) plainSession).found =
      [.kInvalid, .kGet] := by
  decide +kernel

end Session

end MyTinyHttpd
