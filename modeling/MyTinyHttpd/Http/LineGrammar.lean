import Mathlib.Data.List.Find
import MyTinyHttpd.Http.RoundTrip

/-!
# The request line against its grammar

`ProcessRequestLine` finds the method, the target and the version by the first two spaces and the
first `?` of the target, and gives ranges of the line to the setters of the request.

* `setterCalls`: these calls, with their ranges. `returned_eq_none_iff`: an inverted range is what
  makes `ProcessRequestLine` throw.
* `ranges_ordered_iff`: no range is inverted exactly when the target, if the line has one, has a
  byte before its first `?`.
* `methodOf_eq_iff`: `SetMethod` compares as many bytes as a name has, and never looks at the end of
  the method, so a name that goes on is taken for the name.
* `grammar_iff`: apart from that the line is read as its grammar says.
-/

namespace MyTinyHttpd

open Verif HttpRequest

/-! ## The ranges that the setters get -/

inductive Setter where
  | setMethod
  | setPath
  | setQuery
  deriving DecidableEq

/-- A call of a setter with a range of the line. -/
structure SetterCall where
  setter : Setter
  first : Nat
  last : Nat
  deriving DecidableEq

/-- The calls that `ProcessRequestLine` makes. An inverted range makes `SetPath` throw, and
`SetQuery` is not called. -/
def setterCalls (line : List UInt8) : List SetterCall :=
  let space := line.idxOf 32
  if space ≠ line.length then
    let method : SetterCall := ⟨.setMethod, 0, space⟩
    let start := space + 1
    let space := start + (line.drop start).idxOf 32
    if space ≠ line.length then
      let question := start + ((line.drop start).take (space - start)).idxOf 63
      if question ≠ space then
        let path : SetterCall := ⟨.setPath, start + 1, question⟩
        if path.first ≤ path.last then [method, path, ⟨.setQuery, question, space⟩]
        else [method, path]
      else [method, ⟨.setPath, start + 1, space⟩]
    else [method]
  else []

theorem setterCalls_none {line : List UInt8} (h : 32 ∉ line) : setterCalls line = [] := by
  simp [setterCalls, List.idxOf_eq_length h]

theorem setterCalls_one {m rest : List UInt8} (hm : 32 ∉ m) (hr : 32 ∉ rest) :
    setterCalls (m ++ 32 :: rest) = [⟨.setMethod, 0, m.length⟩] := by
  have hd : (m ++ 32 :: rest).drop (m.length + 1) = rest := by simp
  simp [setterCalls, idxOf_append_cons hm, hd, List.idxOf_eq_length hr]
  omega

/-- The path ends at the first `?` of the target, or at its end. -/
theorem setterCalls_two {m target : List UInt8} (hm : 32 ∉ m) (ht : 32 ∉ target)
    (text : List UInt8) :
    let start := m.length + 1
    let question := start + target.idxOf 63
    setterCalls (m ++ 32 :: (target ++ 32 :: text)) =
      [⟨.setMethod, 0, m.length⟩, ⟨.setPath, start + 1, question⟩] ++
        if 63 ∈ target ∧ start + 1 ≤ question then
          [⟨.setQuery, question, start + target.length⟩]
        else [] := by
  obtain ⟨hstart, hdrop, hspace, hrange, hlen⟩ := line_two hm ht text
  simp only [setterCalls, hstart, hdrop, hspace, Nat.add_sub_cancel_left, hrange]
  rw [if_pos (by omega), if_pos (by omega)]
  by_cases hq : 63 ∈ target
  · have hlt : target.idxOf 63 < target.length := List.idxOf_lt_length_of_mem hq
    rw [if_pos (by omega)]
    simp only [hq, true_and]
    split <;> rfl
  · simp [hq]

/-- Nothing stands before the first `?` of the target. -/
theorem idxOf_question_eq_zero {target : List UInt8} :
    target.idxOf 63 = 0 ↔ target = [] ∨ target.head? = some 63 := by
  cases target with
  | nil => simp
  | cons c target =>
    by_cases hc : c = 63
    · simp [hc]
    · simp [List.idxOf_cons_ne _ hc, hc]

/-- The exception of `ProcessRequestLine` comes from an inverted range. -/
theorem returned_eq_none_iff (r : HttpRequest) (line : List UInt8) :
    (processRequestLine r line).returned = none ↔
      ∃ call ∈ setterCalls line, call.last < call.first := by
  obtain hn | ⟨m, rest, rfl, hm, hr⟩ | ⟨m, target, text, rfl, hm, ht⟩ := line_shape line
  · simp [processRequestLine_none r hn, setterCalls_none hn]
  · simp [processRequestLine_one r hm hr, setterCalls_one hm hr]
  · rw [processRequestLine_two r hm ht, setterCalls_two hm ht, Option.map_eq_none_iff,
      setTarget_eq_none]
    have hle : target.idxOf 63 ≤ target.length := List.idxOf_le_length
    have hzero : target.takeWhile (· ≠ 63) = [] ↔ target.idxOf 63 = 0 := by
      rw [idxOf_question_eq_zero]
      cases target <;> simp
    rw [hzero]
    constructor
    · intro h
      refine ⟨⟨.setPath, m.length + 1 + 1, m.length + 1 + target.idxOf 63⟩, by simp, ?_⟩
      simp only
      omega
    · rintro ⟨call, hcall, hlt⟩
      simp only [List.mem_append, List.mem_cons, List.not_mem_nil, or_false] at hcall
      rcases hcall with (rfl | rfl) | hcall
      · simp at hlt
      · simp only at hlt
        omega
      · split at hcall
        · rw [List.mem_singleton.mp hcall] at hlt
          simp only at hlt
          omega
        · simp at hcall

/-- Nothing is thrown when the target, if there is one, has a byte before its first `?`. -/
theorem returned_ne_none_iff (r : HttpRequest) (line : List UInt8) :
    (processRequestLine r line).returned ≠ none ↔
      ∀ m target text, line = m ++ 32 :: (target ++ 32 :: text) → 32 ∉ m → 32 ∉ target →
        target ≠ [] ∧ target.head? ≠ some 63 := by
  constructor
  · rintro h m target text rfl hm ht
    rw [processRequestLine_two _ hm ht, ne_eq, Option.map_eq_none_iff, setTarget_eq_none] at h
    constructor
    · rintro rfl
      exact h rfl
    · intro hhead
      obtain ⟨rest, rfl⟩ := List.head?_eq_some_iff.mp hhead
      exact h (by simp)
  · intro h
    obtain hn | ⟨m, rest, rfl, hm, hr⟩ | ⟨m, target, text, rfl, hm, ht⟩ := line_shape line
    · simp [processRequestLine_none _ hn]
    · simp [processRequestLine_one _ hm hr]
    · obtain ⟨hne, hhead⟩ := h m target text rfl hm ht
      rw [processRequestLine_two _ hm ht, ne_eq, Option.map_eq_none_iff, setTarget_eq_none]
      cases target with
      | nil => exact absurd rfl hne
      | cons c target => simpa using hhead

/-- **When every range is in order.** Each call of `SetMethod`, `SetPath` and `SetQuery` gets a
range that starts at or before its end, exactly when the text between the first two spaces, if the
line has two, is not empty and does not start with `?`. -/
theorem ranges_ordered_iff (line : List UInt8) :
    (∀ call ∈ setterCalls line, call.first ≤ call.last) ↔
      ∀ m target text, line = m ++ 32 :: (target ++ 32 :: text) → 32 ∉ m → 32 ∉ target →
        target ≠ [] ∧ target.head? ≠ some 63 := by
  rw [← returned_ne_none_iff {} line, ne_eq, returned_eq_none_iff]
  simp

/-- The target of `GET ?a HTTP/1.1` starts with `?`: `SetPath` gets a range that ends before its
start, and throws. -/
theorem questionFirst_inverted :
    ⟨.setPath, 5, 4⟩ ∈ setterCalls (ascii "GET ?a HTTP/1.1") ∧
      (¬ ∀ call ∈ setterCalls (ascii "GET ?a HTTP/1.1"), call.first ≤ call.last) ∧
      (processRequestLine {} (ascii "GET ?a HTTP/1.1")).returned = none := by
  decide

/-! ## The method -/

/-- The method that is named by exactly these bytes. -/
def exactMethod (m : List UInt8) : Method :=
  (knownMethods.find? fun k => m = ascii (toMethodString k)).getD .kInvalid

theorem startsWith_iff {m : List UInt8} {name : String} :
    startsWith m name = true ↔ ascii name <+: m := by
  rw [startsWith, decide_eq_true_eq, List.prefix_iff_eq_take]
  exact eq_comm

/-- `SetMethod` takes the first name that the bytes start with. -/
theorem methodOf_eq_find (m : List UInt8) :
    methodOf m =
      (knownMethods.find? fun k => startsWith m (toMethodString k)).getD .kInvalid := by
  simp only [methodOf, knownMethods, List.find?_cons, List.find?_nil, toMethodString]
  repeat' split
  all_goals simp_all

/-- No name is the start of another one. -/
theorem name_inj {k k' : Method} (hk : k ∈ knownMethods) (hk' : k' ∈ knownMethods)
    (h : ascii (toMethodString k) <+: ascii (toMethodString k')) : k = k' := by
  have hall : ∀ k ∈ knownMethods, ∀ k' ∈ knownMethods,
      ascii (toMethodString k) <+: ascii (toMethodString k') → k = k' := by decide
  exact hall k hk k' hk' h

/-- `SetMethod` reads a method as it is named exactly when the method does not go on after a
name. -/
theorem methodOf_eq_iff (m : List UInt8) :
    methodOf m = exactMethod m ↔
      ∀ k ∈ knownMethods, ascii (toMethodString k) <+: m → m = ascii (toMethodString k) := by
  rw [methodOf_eq_find]
  constructor
  · intro h k hk hprefix
    obtain ⟨k', hfind⟩ := Option.isSome_iff_exists.mp
      (List.find?_isSome (p := fun k => startsWith m (toMethodString k)).mpr
        ⟨k, hk, startsWith_iff.mpr hprefix⟩)
    have hk' := List.mem_of_find?_eq_some hfind
    rw [hfind, Option.getD_some, exactMethod] at h
    have hne : k' ≠ .kInvalid := by
      rintro rfl
      exact absurd hk' (by decide)
    cases hexact : knownMethods.find? fun k => m = ascii (toMethodString k) with
    | none =>
      rw [hexact] at h
      exact absurd h hne
    | some k₁ =>
      rw [hexact, Option.getD_some] at h
      subst h
      have hm : m = ascii (toMethodString k') := by simpa using List.find?_some hexact
      rw [hm] at hprefix
      rw [hm, name_inj hk hk' hprefix]
  · intro h
    have hsame : ∀ k ∈ knownMethods, startsWith m (toMethodString k) =
        decide (m = ascii (toMethodString k)) := by
      intro k hk
      rw [Bool.eq_iff_iff, startsWith_iff, decide_eq_true_eq]
      refine ⟨h k hk, fun he => ?_⟩
      rw [he]
    rw [exactMethod, List.find?_congr hsame]

/-! ## The whole line -/

/-- `line` is `m SP t SP v`, with no space in `m` and `t`, and `v` names a version. -/
structure Splits (line m t v : List UInt8) : Prop where
  line_eq : line = m ++ 32 :: (t ++ 32 :: v)
  method_ok : 32 ∉ m
  target_ok : 32 ∉ t
  version_ok : v = ascii "HTTP/1.0" ∨ v = ascii "HTTP/1.1"

theorem Splits.method_eq {line m t v : List UInt8} (h : Splits line m t v) :
    m = line.takeWhile (· ≠ 32) := by
  have hne : ∀ c ∈ m, decide (c ≠ 32) = true := by
    intro c hc
    simp only [ne_eq, decide_not, Bool.not_eq_true', decide_eq_false_iff_not]
    rintro rfl
    exact h.method_ok hc
  rw [h.line_eq, List.takeWhile_append_of_pos hne]
  simp

/-- The request has what the parts of the line say. -/
structure ReadsAs (r : HttpRequest) (m t v : List UInt8) : Prop where
  version_eq : versionOf v = some r.version
  path_eq : r.path = t.tail.takeWhile (· ≠ 63)
  query_eq : r.query = t.dropWhile (· ≠ 63)
  method_eq : r.method = exactMethod m

/-- The request that an accepted line stores. -/
theorem processRequestLine_splits {line m t v : List UInt8} (h : Splits line m t v)
    (ht : t ≠ [] ∧ t.head? ≠ some 63) :
    ∃ r, (processRequestLine {} line).returned = some (true, r) ∧ r.method = methodOf m ∧
      versionOf v = some r.version ∧ r.path = t.tail.takeWhile (· ≠ 63) ∧
      r.query = t.dropWhile (· ≠ 63) := by
  obtain ⟨c, t, rfl⟩ := List.exists_cons_of_ne_nil ht.1
  have hc : c ≠ 63 := by simpa using ht.2
  obtain ⟨version, hversion⟩ := Option.isSome_iff_exists.mp (versionOf_isSome.mpr h.version_ok)
  have hstored : setTarget { method := methodOf m } (c :: t) =
      some { method := methodOf m
             path := t.takeWhile (· ≠ 63)
             query := t.dropWhile (· ≠ 63) } := by
    have htake : (c :: t).takeWhile (· ≠ 63) = c :: t.takeWhile (· ≠ 63) := by simp [hc]
    have hdrop : (c :: t).dropWhile (· ≠ 63) = t.dropWhile (· ≠ 63) := by simp [hc]
    simp only [setTarget, htake, hdrop, reduceCtorEq, if_false, List.tail_cons]
    split
    · next hquery => rw [hquery]
    · rfl
  refine ⟨{ method := methodOf m, version := version, path := t.takeWhile (· ≠ 63),
            query := t.dropWhile (· ≠ 63) }, ?_, rfl, hversion, rfl, ?_⟩
  · rw [h.line_eq, processRequestLine_two _ h.method_ok h.target_ok, hstored, Option.map_some,
      setVersionOf, hversion]
    rfl
  · simp [hc]

/-- The line is accepted exactly when it has the form of the grammar, and then read as its parts
say. -/
structure FollowsGrammar (line : List UInt8) : Prop where
  accepted : (∃ r, (processRequestLine {} line).returned = some (true, r)) ↔
    ∃ m t v, Splits line m t v
  read : ∀ r m t v, (processRequestLine {} line).returned = some (true, r) → Splits line m t v →
    ReadsAs r m t v

/-- **The request line against its grammar.** A line whose target, if it has one, is not empty and
does not start with `?` is accepted and read as the grammar says, if and only if it is not a line of
that form whose method starts with the name of a method and goes on after it. -/
theorem grammar_iff (line : List UInt8)
    (htarget : ∀ m t v, line = m ++ 32 :: (t ++ 32 :: v) → 32 ∉ m → 32 ∉ t →
      t ≠ [] ∧ t.head? ≠ some 63) :
    FollowsGrammar line ↔
      ∀ m t v, Splits line m t v → ∀ k ∈ knownMethods,
        ascii (toMethodString k) <+: m → m = ascii (toMethodString k) := by
  have hsplits : ∀ {m t v}, Splits line m t v → t ≠ [] ∧ t.head? ≠ some 63 := fun h =>
    htarget _ _ _ h.line_eq h.method_ok h.target_ok
  have haccept : (∃ r, (processRequestLine {} line).returned = some (true, r)) ↔
      ∃ m t v, Splits line m t v := by
    rw [processRequestLine_accepts]
    constructor
    · rintro ⟨m, t, v, hline, hm, ht, -, hv⟩
      exact ⟨m, t, v, hline, hm, ht, hv⟩
    · rintro ⟨m, t, v, h⟩
      refine ⟨m, t, v, h.line_eq, h.method_ok, h.target_ok, ?_, h.version_ok⟩
      obtain ⟨c, t, rfl⟩ := List.exists_cons_of_ne_nil (hsplits h).1
      simpa using (hsplits h).2
  constructor
  · intro h m t v hline
    obtain ⟨r, hr, hmethod, -⟩ := processRequestLine_splits hline (hsplits hline)
    rw [← methodOf_eq_iff, ← hmethod]
    exact (h.read r m t v hr hline).method_eq
  · intro h
    refine ⟨haccept, fun r m t v hr hline => ?_⟩
    obtain ⟨r', hr', hmethod, hversion, hpath, hquery⟩ :=
      processRequestLine_splits hline (hsplits hline)
    obtain rfl : r' = r := by simpa [hr'] using hr
    exact ⟨hversion, hpath, hquery, hmethod.trans ((methodOf_eq_iff m).mpr (h m t v hline))⟩

theorem putLine_follows : FollowsGrammar (ascii "PUT /a?b HTTP/1.0") := by
  refine (grammar_iff _ ((returned_ne_none_iff {} _).mp (by decide))).mpr ?_
  intro m t v h
  rw [h.method_eq]
  decide

/-- `GETS` is taken for `GET`. -/
theorem getsLine_not_follows : ¬ FollowsGrammar (ascii "GETS /x HTTP/1.1") := by
  intro h
  have hsplits : Splits (ascii "GETS /x HTTP/1.1") (ascii "GETS") (ascii "/x")
      (ascii "HTTP/1.1") := by
    constructor <;> decide
  have hread := h.read { method := .kGet, version := .kHttp11, path := ascii "x" } _ _ _
    (by decide) hsplits
  exact absurd hread.method_eq (by decide)

end MyTinyHttpd
