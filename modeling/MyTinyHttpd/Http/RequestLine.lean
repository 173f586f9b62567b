import MyTinyHttpd.Http.Context

/-!
# What `ProcessRequestLine` does, by the shape of the line

A line has no space, one space, or it is `method SP target SP rest` with no space in the method
and the target (`line_shape`). One lemma for each shape says what `ProcessRequestLine` returns,
stores and throws.

* `processRequestLine_two`: the target is split at its first `?`; an empty part before it makes
  `SetPath` throw. The line is accepted when the rest is `HTTP/1.0` or `HTTP/1.1`.
* `processRequestLine_accepts`: the accepted lines.
* `processRequestLine_reframe`: the receive time and the body are neither read nor changed.
-/

namespace MyTinyHttpd

open Verif HttpRequest

/-! ## The method -/

theorem startsWith_append_space (m x : List UInt8) (name : String) (hn : 32 ∉ ascii name) :
    startsWith (m ++ 32 :: x) name = startsWith m name := by
  unfold startsWith
  congr 1
  rcases Nat.lt_or_ge m.length (ascii name).length with h | h
  -- The method is shorter than the name: the space would be in the name.
  · have hl : (m ++ 32 :: x).take (ascii name).length ≠ ascii name := by
      intro e
      apply hn
      rw [← e, List.mem_take_iff_getElem]
      exact ⟨m.length, by simp; omega, by simp⟩
    have hr : m.take (ascii name).length ≠ ascii name := by
      intro e
      have := congrArg List.length e
      simp at this; omega
    simp [hl, hr]
  · rw [List.take_append_of_le_length h]

/-- The space after the method decides no comparison. -/
theorem methodOf_append_space (m x : List UInt8) : methodOf (m ++ 32 :: x) = methodOf m := by
  simp only [methodOf, startsWith_append_space m x "GET" (by decide),
    startsWith_append_space m x "POST" (by decide), startsWith_append_space m x "HEAD" (by decide),
    startsWith_append_space m x "PUT" (by decide), startsWith_append_space m x "DELETE" (by decide),
    startsWith_append_space m x "OPTIONS" (by decide)]

/-! ## The target and the version -/

/-- The target of a request line: the path is what stands before the first `?`, without its first
byte, and the query is the rest. Nothing before the `?` makes `SetPath` throw. -/
def setTarget (r : HttpRequest) (target : List UInt8) : Option HttpRequest :=
  let path := target.takeWhile (· ≠ 63)
  let query := target.dropWhile (· ≠ 63)
  if path = [] then none
  else if query = [] then some { r with path := path.tail }
  else some { r with path := path.tail, query }

theorem setTarget_plain (r : HttpRequest) {target : List UInt8} (h : 63 ∉ target) :
    setTarget r target = if target = [] then none else some { r with path := target.tail } := by
  have hne : ∀ a ∈ target, decide (a ≠ 63) = true := by
    intro a ha
    simp only [ne_eq, decide_not, Bool.not_eq_true', decide_eq_false_iff_not]
    rintro rfl
    exact h ha
  simp only [setTarget, List.takeWhile_eq_self_iff.mpr hne, List.dropWhile_eq_nil_iff.mpr hne,
    ↓reduceIte]

theorem setTarget_query (r : HttpRequest) {p : List UInt8} (h : 63 ∉ p) (q : List UInt8) :
    setTarget r (p ++ 63 :: q) =
      if p = [] then none else some { r with path := p.tail, query := 63 :: q } := by
  have hne : ∀ a ∈ p, decide (a ≠ 63) = true := by
    intro a ha
    simp only [ne_eq, decide_not, Bool.not_eq_true', decide_eq_false_iff_not]
    rintro rfl
    exact h ha
  simp only [setTarget, List.takeWhile_append_of_pos hne, List.dropWhile_append_of_pos hne]
  simp

/-- The version that the end of an accepted line names. -/
def versionOf (text : List UInt8) : Option Version :=
  if text = ascii "HTTP/1.1" then some .kHttp11
  else if text = ascii "HTTP/1.0" then some .kHttp10
  else none

/-- The end of the line: it is accepted when it names a version. -/
def setVersionOf (r : HttpRequest) (text : List UInt8) : Bool × HttpRequest :=
  match versionOf text with
  | some v => (true, r.setVersion v)
  | none => (false, r)

theorem text_eq_iff {text : List UInt8} (h : text.length = 8 ∧ text.take 7 = ascii "HTTP/1.")
    (c : UInt8) : text = ascii "HTTP/1." ++ [c] ↔ text.getLast? = some c := by
  obtain ⟨h8, h7⟩ := h
  constructor
  · intro e; rw [e]; simp
  · intro e
    have hne : text ≠ [] := by rintro rfl; simp at h8
    rw [List.getLast?_eq_some_getLast hne, Option.some.injEq] at e
    rw [← h7, ← e, show 7 = text.length - 1 by omega, ← List.dropLast_eq_take]
    exact (List.dropLast_append_getLast hne).symm

theorem processVersion_eq (r : HttpRequest) (line : List UInt8) (start : Nat) :
    processVersion r line start = setVersionOf r (line.drop start) := by
  unfold processVersion setVersionOf versionOf
  generalize line.drop start = text
  have h11 : ascii "HTTP/1.1" = ascii "HTTP/1." ++ [49] := by decide
  have h10 : ascii "HTTP/1.0" = ascii "HTTP/1." ++ [48] := by decide
  rw [h11, h10]
  by_cases h : text.length = 8 ∧ text.take 7 = ascii "HTTP/1."
  · simp only [h, and_self, ↓reduceIte, text_eq_iff h]
    split
    · rfl
    · split <;> rfl
  · have hne : ∀ c : UInt8, text ≠ ascii "HTTP/1." ++ [c] := by
      rintro c rfl
      exact h ⟨rfl, rfl⟩
    simp only [h, hne, ↓reduceIte]

/-! ## The line -/

theorem line_shape (line : List UInt8) :
    32 ∉ line ∨ (∃ m rest, line = m ++ 32 :: rest ∧ 32 ∉ m ∧ 32 ∉ rest) ∨
      ∃ m target text, line = m ++ 32 :: (target ++ 32 :: text) ∧ 32 ∉ m ∧ 32 ∉ target := by
  by_cases h : 32 ∈ line
  · obtain ⟨m, rest, rfl, hm⟩ := List.eq_append_cons_of_mem h
    by_cases h' : 32 ∈ rest
    · obtain ⟨target, text, rfl, ht⟩ := List.eq_append_cons_of_mem h'
      exact .inr (.inr ⟨m, target, text, rfl, hm, ht⟩)
    · exact .inr (.inl ⟨m, rest, rfl, hm, h'⟩)
  · exact .inl h

section

variable (r : HttpRequest)

theorem processRequestLine_none {line : List UInt8} (h : 32 ∉ line) :
    processRequestLine r line = ⟨[], some (false, r)⟩ := by
  simp [processRequestLine, List.idxOf_eq_length h]

theorem processRequestLine_one {m rest : List UInt8} (hm : 32 ∉ m) (hr : 32 ∉ rest) :
    processRequestLine r (m ++ 32 :: rest) =
      ⟨[r.method], some (false, { r with method := methodOf m })⟩ := by
  have hd : (m ++ 32 :: rest).drop (m.length + 1) = rest := by simp
  simp [processRequestLine, idxOf_append_cons hm, hd, List.idxOf_eq_length hr, setMethod,
    methodOf_append_space]
  omega

/-- A range of the target, as a range of the line. -/
theorem assign_target (m target text : List UInt8) {i j : Nat} (hj : j ≤ target.length) :
    assign (m ++ 32 :: (target ++ 32 :: text)) (m.length + 1 + i) ((m.length + 1 + j : Nat) : Int) =
      if i ≤ j then some ((target.drop i).take (j - i)) else none := by
  split
  · rename_i hij
    rw [assign_of_le (by omega), ← List.drop_drop]
    have hd : (m ++ 32 :: (target ++ 32 :: text)).drop (m.length + 1) = target ++ 32 :: text := by
      simp
    rw [hd, List.drop_append_of_le_length (by omega),
      List.take_append_of_le_length (by simp; omega)]
    congr 2; omega
  · exact assign_of_lt (by omega)

/-- Where the two spaces of a line stand, and what is behind the first one. -/
theorem line_two {m target : List UInt8} (hm : 32 ∉ m) (ht : 32 ∉ target) (text : List UInt8) :
    let line := m ++ 32 :: (target ++ 32 :: text)
    line.idxOf 32 = m.length ∧ line.drop (m.length + 1) = target ++ 32 :: text ∧
      (target ++ 32 :: text).idxOf 32 = target.length ∧
      (target ++ 32 :: text).take target.length = target ∧
      line.length = m.length + 1 + target.length + 1 + text.length := by
  refine ⟨idxOf_append_cons hm _, by simp, idxOf_append_cons ht _, by simp, ?_⟩
  simp only [List.length_append, List.length_cons]
  omega

/-- Two spaces: the method, the target between them and the version after them. -/
theorem processRequestLine_two {m target : List UInt8} (hm : 32 ∉ m) (ht : 32 ∉ target)
    (text : List UInt8) :
    processRequestLine r (m ++ 32 :: (target ++ 32 :: text)) =
      ⟨[r.method], (setTarget { r with method := methodOf m } target).map
        (setVersionOf · text)⟩ := by
  set line := m ++ 32 :: (target ++ 32 :: text) with hline
  have hmethod : r.setMethod line = { r with method := methodOf m } := by
    rw [setMethod, hline, methodOf_append_space]
  obtain ⟨hstart, hdrop, hspace, hrange, hlen⟩ := line_two hm ht text
  rw [← hline] at hstart hdrop hlen
  have hend : line.drop (m.length + 1 + target.length + 1) = text := by
    rw [Nat.add_assoc, ← List.drop_drop, hdrop]; simp
  simp only [processRequestLine, hmethod, hstart, hdrop, hspace, Nat.add_sub_cancel_left, hrange,
    processVersion_eq, hend]
  rw [if_pos (by omega), if_pos (by omega)]
  congr 2
  generalize { r with method := methodOf m } = r'
  by_cases hq : 63 ∈ target
  · obtain ⟨p, q, rfl, hp⟩ := List.eq_append_cons_of_mem hq
    have hpath := assign_target m (p ++ 63 :: q) text (i := 1) (j := p.length) (by simp)
    have hquery := assign_target m (p ++ 63 :: q) text (i := p.length) (Nat.le_refl _)
    rw [← hline] at hpath hquery
    rw [idxOf_append_cons hp, if_pos (by simp), setTarget_query r' hp]
    simp only [setPath, setQuery, hpath, hquery]
    cases p with
    | nil => simp
    | cons a p => simp
  · have hpath := assign_target m target text (i := 1) (Nat.le_refl _)
    rw [← hline] at hpath
    rw [List.idxOf_eq_length hq, if_neg (by simp), setTarget_plain r' hq, setPath, hpath]
    cases target with
    | nil => simp
    | cons a target => simp

end

theorem setTarget_method {r r' : HttpRequest} {target : List UInt8}
    (h : setTarget r target = some r') : r'.method = r.method := by
  simp only [setTarget] at h
  split at h
  · cases h
  · split at h <;> cases h <;> rfl

theorem setVersionOf_method (r : HttpRequest) (text : List UInt8) :
    (setVersionOf r text).2.method = r.method := by
  unfold setVersionOf
  cases versionOf text <;> rfl

/-- The method that a line with a space stores. -/
theorem processRequestLine_method {r r' : HttpRequest} {line : List UInt8} {ok : Bool}
    (h : (processRequestLine r line).returned = some (ok, r')) (hspace : 32 ∈ line) :
    r'.method = methodOf line := by
  obtain hn | ⟨m, rest, rfl, hm, hr⟩ | ⟨m, target, text, rfl, hm, ht⟩ := line_shape line
  · exact absurd hspace hn
  · rw [processRequestLine_one r hm hr] at h
    cases h
    exact (methodOf_append_space m rest).symm
  · rw [processRequestLine_two r hm ht] at h
    obtain ⟨r₁, h₁, h₂⟩ := Option.map_eq_some_iff.mp h
    have hv := setVersionOf_method r₁ text
    rw [h₂] at hv
    rw [hv, setTarget_method h₁, methodOf_append_space]

/-! ## Accepted lines -/

/-- `method SP target SP version`: no space in the method and the target, a byte before the
target's first `?`, and a known version. -/
def AcceptedLine (line : List UInt8) : Prop :=
  ∃ m target text, line = m ++ 32 :: (target ++ 32 :: text) ∧ 32 ∉ m ∧ 32 ∉ target ∧
    target.takeWhile (· ≠ 63) ≠ [] ∧ (text = ascii "HTTP/1.0" ∨ text = ascii "HTTP/1.1")

theorem versionOf_isSome {text : List UInt8} :
    (versionOf text).isSome = true ↔ text = ascii "HTTP/1.0" ∨ text = ascii "HTTP/1.1" := by
  unfold versionOf
  split
  · simp_all
  · split <;> simp_all

theorem setVersionOf_fst (r : HttpRequest) (text : List UInt8) :
    (setVersionOf r text).1 = (versionOf text).isSome := by
  unfold setVersionOf
  cases versionOf text <;> rfl

theorem setTarget_eq_none {r : HttpRequest} {target : List UInt8} :
    setTarget r target = none ↔ target.takeWhile (· ≠ 63) = [] := by
  simp only [setTarget]
  split
  · rename_i h; simp only [h]
  · rename_i h
    split <;> simp only [h, reduceCtorEq]

/-- The flag that `ProcessRequestLine` returns. -/
theorem processRequestLine_accepts {r : HttpRequest} {line : List UInt8} :
    (∃ r', (processRequestLine r line).returned = some (true, r')) ↔ AcceptedLine line := by
  constructor
  · rintro ⟨r', h⟩
    obtain hn | ⟨m, rest, rfl, hm, hr⟩ | ⟨m, target, text, rfl, hm, ht⟩ := line_shape line
    · rw [processRequestLine_none r hn] at h; simp at h
    · rw [processRequestLine_one r hm hr] at h; simp at h
    · rw [processRequestLine_two r hm ht] at h
      obtain ⟨r₁, h₁, h₂⟩ := Option.map_eq_some_iff.mp h
      have hflag := setVersionOf_fst r₁ text
      rw [h₂] at hflag
      refine ⟨m, target, text, rfl, hm, ht, ?_, versionOf_isSome.mp hflag.symm⟩
      intro he
      rw [setTarget_eq_none.mpr he] at h₁
      cases h₁
  · rintro ⟨m, target, text, rfl, hm, ht, hp, hv⟩
    rw [processRequestLine_two r hm ht]
    obtain ⟨r₁, h₁⟩ := Option.ne_none_iff_exists'.mp fun e =>
      hp (setTarget_eq_none (r := { r with method := methodOf m }).mp e)
    refine ⟨(setVersionOf r₁ text).2, ?_⟩
    rw [h₁, Option.map_some, ← versionOf_isSome.mpr hv, ← setVersionOf_fst r₁ text]

/-! ## The receive time and the body -/

/-- The request with another receive time and body; `timeless` and `withBody` are instances. -/
def HttpRequest.reframe (f : Timestamp → Timestamp) (g : List UInt8 → List UInt8)
    (r : HttpRequest) : HttpRequest :=
  { r with receiveTime := f r.receiveTime, body := g r.body }

section

variable (f : Timestamp → Timestamp) (g : List UInt8 → List UInt8) (r : HttpRequest)

theorem setTarget_reframe (target : List UInt8) :
    setTarget (r.reframe f g) target = (setTarget r target).map (·.reframe f g) := by
  simp only [setTarget]
  split
  · rfl
  · split <;> rfl

theorem setVersionOf_reframe (text : List UInt8) :
    setVersionOf (r.reframe f g) text =
      ((setVersionOf r text).1, (setVersionOf r text).2.reframe f g) := by
  unfold setVersionOf
  cases versionOf text <;> rfl

theorem processRequestLine_reframe (line : List UInt8) :
    processRequestLine (r.reframe f g) line =
      ⟨(processRequestLine r line).found,
        (processRequestLine r line).returned.map fun x => (x.1, x.2.reframe f g)⟩ := by
  obtain hn | ⟨m, rest, rfl, hm, hr⟩ | ⟨m, target, text, rfl, hm, ht⟩ := line_shape line
  · simp only [processRequestLine_none _ hn, Option.map_some]
  · simp only [processRequestLine_one _ hm hr, Option.map_some]
    rfl
  · simp only [processRequestLine_two _ hm ht]
    have hmethod : { r.reframe f g with method := methodOf m } =
        HttpRequest.reframe f g { r with method := methodOf m } := rfl
    rw [hmethod, setTarget_reframe, Option.map_map, Option.map_map]
    congr 2
    funext r'
    exact setVersionOf_reframe f g r' text

end

end MyTinyHttpd
