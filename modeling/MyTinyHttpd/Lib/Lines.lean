import MyTinyHttpd.Lib.Seq

/-!
# Text in lines

Lines end with the pair `a, b`, and the first empty line ends the head of the text.

* `splitPair a b xs`: the parts of `xs` between the pairs.
* `cutBlank a b xs`: the lines before the first `a, b, a, b`, and what follows it.
  `cutBlank_append`: the lines of a text without an empty line come before the others;
  `cutBlank_of_blank`: after an empty line comes the rest. `cutBlank_lines`: when the lines are not
  empty and have no `a`, they are found again, whatever follows.
-/

namespace Verif

variable {α : Type} [DecidableEq α] {a b : α}

/-- The parts of a text between the pairs `a, b`. -/
def splitPair (a b : α) : List α → List (List α)
  | [] => [[]]
  | [x] => [[x]]
  | x :: y :: rest =>
    if x = a ∧ y = b then [] :: splitPair a b rest
    else
      match splitPair a b (y :: rest) with
      | [] => [[x]]
      | l :: ls => (x :: l) :: ls

/-- The lines before the first `a, b, a, b`, and what follows it. -/
def cutBlank (a b : α) (xs : List α) : Option (List (List α) × List α) :=
  let i := search [a, b, a, b] xs
  if i = xs.length then none else some (splitPair a b (xs.take i), xs.drop (i + 4))

/-! ## Splitting -/

theorem splitPair_cons {x : α} (hx : x ≠ a) (xs : List α) :
    ∃ l ls, splitPair a b xs = l :: ls ∧ splitPair a b (x :: xs) = (x :: l) :: ls := by
  cases xs with
  | nil => exact ⟨[], [], rfl, rfl⟩
  | cons y rest =>
    cases hs : splitPair a b (y :: rest) with
    | nil =>
      exfalso
      revert hs
      cases rest with
      | nil => simp [splitPair]
      | cons z rest =>
        simp only [splitPair]
        split
        · simp
        · split <;> simp
    | cons l ls => exact ⟨l, ls, rfl, by simp [splitPair, hx, hs]⟩

/-- A line without `a` is one part. -/
theorem splitPair_line {l : List α} (h : a ∉ l) : splitPair a b l = [l] := by
  induction l with
  | nil => rfl
  | cons x l ih =>
    obtain ⟨hx, hl⟩ := List.ne_and_not_mem_of_not_mem_cons h
    obtain ⟨l', ls, hrest, hall⟩ := splitPair_cons (b := b) (Ne.symm hx) l
    rw [ih hl] at hrest
    cases hrest
    exact hall

theorem splitPair_ne_nil (xs : List α) : splitPair a b xs ≠ [] := by
  fun_cases splitPair a b xs <;> simp

/-- `a ≠ b`, so the pair after `xs` is not a part of one that `xs` begins. -/
theorem splitPair_append (hab : a ≠ b) (xs rest : List α) :
    splitPair a b (xs ++ a :: b :: rest) = splitPair a b xs ++ splitPair a b rest := by
  fun_induction splitPair a b xs with
  | case1 => simp [splitPair]
  | case2 x => simp [splitPair, hab]
  | case3 x y xs hpair ih => simp [splitPair, hpair, ih]
  | case4 x y xs hpair hnil ih => exact absurd hnil (splitPair_ne_nil _)
  | case5 x y xs hpair l ls hls ih =>
    rw [hls, List.cons_append, List.cons_append] at ih
    simp only [List.cons_append, splitPair, if_neg hpair, ih]

/-! ## The first empty line -/

theorem search_cons_of_ne {x : α} (hx : x ≠ a) (pat xs : List α) :
    search (a :: pat) (x :: xs) = search (a :: pat) xs + 1 := by
  rw [search, if_neg]
  rw [List.cons_prefix_cons]
  exact fun h => hx h.1.symm

theorem search_line {l : List α} (h : a ∉ l) (pat xs : List α) :
    search (a :: pat) (l ++ xs) = l.length + search (a :: pat) xs := by
  induction l with
  | nil => simp
  | cons x l ih =>
    obtain ⟨hx, hl⟩ := List.ne_and_not_mem_of_not_mem_cons h
    rw [List.cons_append, search_cons_of_ne (Ne.symm hx), ih hl, List.length_cons]
    omega

/-- The search stops at the first occurrence. -/
theorem search_le_of_append (pat l r : List α) : search pat (l ++ pat ++ r) ≤ l.length := by
  induction l with
  | nil =>
    cases pat with
    | nil => cases r <;> simp [search]
    | cons p pat =>
      have hhere : p :: pat <+: p :: (pat ++ r) := List.prefix_append (p :: pat) r
      simp only [List.nil_append, List.cons_append, search, if_pos hhere, Nat.zero_le]
  | cons x l ih =>
    simp only [List.cons_append, search]
    split
    · exact Nat.zero_le _
    · rw [List.length_cons]
      exact Nat.succ_le_succ ih

omit [DecidableEq α] in
/-- No occurrence goes over an element that the pattern does not have. -/
theorem prefix_append_cons_iff {pat : List α} {y : α} (hy : y ∉ pat) (xs ys : List α) :
    pat <+: xs ++ y :: ys ↔ pat <+: xs := by
  constructor
  · intro h
    rcases List.prefix_or_prefix_of_prefix h (List.prefix_append xs (y :: ys)) with hp | ⟨t, rfl⟩
    · exact hp
    · rw [List.prefix_append_right_inj] at h
      cases t with
      | nil => simp
      | cons z t =>
        obtain ⟨rfl, -⟩ := List.cons_prefix_cons.mp h
        simp at hy
  · exact fun h => h.trans (List.prefix_append xs _)

theorem search_append_cons {pat : List α} {y : α} (hy : y ∉ pat) {xs : List α}
    (hxs : ¬ pat <:+: xs) (ys : List α) :
    search pat (xs ++ y :: ys) = xs.length + search pat (y :: ys) := by
  induction xs with
  | nil => simp
  | cons x xs ih =>
    have hhere : ¬ pat <+: x :: (xs ++ y :: ys) := by
      rw [← List.cons_append, prefix_append_cons_iff hy]
      exact fun h => hxs h.isInfix
    have hrest : ¬ pat <:+: xs := fun h => hxs (h.trans (List.suffix_cons x xs).isInfix)
    rw [List.cons_append, search, if_neg hhere, ih hrest, List.length_cons]
    omega

/-- No line of the text is empty, and it does not end with a pair. -/
def NoBlank (a b : α) (xs : List α) : Prop := ¬ [a, b, a, b] <:+: xs ++ [a, b]

instance (xs : List α) : Decidable (NoBlank a b xs) :=
  inferInstanceAs (Decidable (¬ _))

omit [DecidableEq α] in
theorem NoBlank.tail {x : α} {xs : List α} (h : NoBlank a b (x :: xs)) : NoBlank a b xs :=
  fun hp => h (hp.trans (List.suffix_cons x _).isInfix)

theorem noBlank_of_notMem (hab : a ≠ b) {l : List α} (h : a ∉ l) : NoBlank a b l := by
  intro hp
  have hcount := hp.sublist.count_le a
  rw [List.count_append, List.count_eq_zero_of_not_mem h] at hcount
  simp [hab.symm] at hcount

omit [DecidableEq α] in
/-- The pair after the text does not complete an empty line that begins in it. -/
theorem NoBlank.not_prefix (hab : a ≠ b) {x : α} {xs : List α} (h : NoBlank a b (x :: xs))
    (ys : List α) : ¬ [a, b, a, b] <+: x :: xs ++ a :: b :: ys := by
  intro hp
  have hall : x :: xs ++ a :: b :: ys = (x :: xs ++ [a, b]) ++ ys := by simp
  rw [hall] at hp
  rcases List.prefix_or_prefix_of_prefix hp (List.prefix_append _ ys) with hp | hp
  · exact h hp.isInfix
  · obtain ⟨t, ht⟩ := hp
    match xs, ht with
    | [], ht =>
      simp only [List.cons_append, List.nil_append, List.cons.injEq] at ht
      exact hab ht.2.1
    | [y], ht =>
      simp only [List.cons_append, List.nil_append, List.cons.injEq] at ht
      obtain ⟨rfl, rfl, -⟩ := ht
      exact h List.infix_rfl
    | y :: z :: xs, ht =>
      have hlength := congrArg List.length ht
      simp only [List.length_append, List.length_cons, List.length_nil] at hlength
      omega

/-- Where the search goes on. -/
theorem search_noBlank (hab : a ≠ b) {xs : List α} (h : NoBlank a b xs) (ys : List α) :
    search [a, b, a, b] (xs ++ a :: b :: ys) =
      xs.length + search [a, b, a, b] (a :: b :: ys) := by
  induction xs with
  | nil => simp
  | cons x xs ih =>
    have hhere : ¬ [a, b, a, b] <+: x :: (xs ++ a :: b :: ys) := h.not_prefix hab ys
    rw [List.cons_append, search, if_neg hhere, ih h.tail, List.length_cons]
    omega

/-- Something other than `a` after a pair does not end the head. -/
theorem search_pair (hab : a ≠ b) {rest : List α} (hrest : rest.head? ≠ some a) :
    search [a, b, a, b] (a :: b :: rest) = 2 + search [a, b, a, b] rest := by
  have hhere : ¬ [a, b, a, b] <+: a :: b :: rest := by
    intro hp
    obtain ⟨t, ht⟩ := hp
    simp only [List.cons_append, List.cons.injEq, true_and] at ht
    exact hrest (by rw [← ht]; rfl)
  rw [search, if_neg hhere, search_cons_of_ne hab.symm]
  omega

/-! ## The lines before it -/

/-- The lines of a text without an empty line come before those of the rest. -/
theorem cutBlank_append (hab : a ≠ b) {xs : List α} (h : NoBlank a b xs) {rest : List α}
    (hrest : rest.head? ≠ some a) : cutBlank a b (xs ++ a :: b :: rest) =
      (cutBlank a b rest).map fun r => (splitPair a b xs ++ r.1, r.2) := by
  have hsearch : search [a, b, a, b] (xs ++ a :: b :: rest) =
      xs.length + (2 + search [a, b, a, b] rest) := by
    rw [search_noBlank hab h, search_pair hab hrest]
  simp only [cutBlank, hsearch, List.length_append, List.length_cons]
  by_cases hnone : search [a, b, a, b] rest = rest.length
  · rw [if_pos hnone, if_pos (by omega)]
    rfl
  · rw [if_neg hnone, if_neg (by omega), Option.map_some, List.take_length_add_append,
      Nat.add_assoc, List.drop_length_add_append, ← splitPair_append hab, Nat.add_comm 2,
      Nat.add_right_comm]
    rfl

/-- The empty line right after the text. -/
theorem cutBlank_end (hab : a ≠ b) {xs : List α} (h : NoBlank a b xs) (rest : List α) :
    cutBlank a b (xs ++ a :: b :: a :: b :: rest) = some (splitPair a b xs, rest) := by
  have hsearch : search [a, b, a, b] (xs ++ a :: b :: a :: b :: rest) = xs.length := by
    rw [search_noBlank hab h]
    simp [search]
  simp only [cutBlank, hsearch]
  rw [if_neg (by simp), List.take_left, List.drop_length_add_append]
  rfl

/-- The lines of a head, and what follows it. -/
theorem cutBlank_lines (hab : a ≠ b) {l : List α} {ls : List (List α)} (h : a ∉ l)
    (hls : ∀ l' ∈ ls, l' ≠ [] ∧ a ∉ l') (rest : List α) :
    cutBlank a b ((l :: ls).flatMap (· ++ [a, b]) ++ a :: b :: rest) = some (l :: ls, rest) := by
  have hl := noBlank_of_notMem hab h
  induction ls generalizing l with
  | nil => simpa [splitPair_line h] using cutBlank_end hab hl rest
  | cons l' ls ih =>
    obtain ⟨⟨hne, hl'⟩, hls⟩ := List.forall_mem_cons.mp hls
    have hhead : ((l' :: ls).flatMap (· ++ [a, b]) ++ a :: b :: rest).head? ≠ some a := by
      obtain ⟨x, l', rfl⟩ := List.exists_cons_of_ne_nil hne
      simpa using fun he : x = a => hl' (by simp [he])
    have hcut := cutBlank_append hab hl hhead
    rw [ih hl' hls (noBlank_of_notMem hab hl'), Option.map_some, splitPair_line h] at hcut
    simpa using hcut

theorem search_eq_zero {pat xs : List α} (h : pat <+: xs) : search pat xs = 0 := by
  cases xs with
  | nil => rfl
  | cons x xs => rw [search, if_pos h]

/-- An occurrence is found before what follows is looked at. -/
theorem search_append_of_infix {pat xs : List α} (h : pat <:+: xs) (ys : List α) :
    search pat (xs ++ ys) = search pat xs ∧ search pat xs + pat.length ≤ xs.length := by
  induction xs with
  | nil =>
    obtain rfl := List.infix_nil.mp h
    exact ⟨search_eq_zero (List.nil_prefix), Nat.le_refl 0⟩
  | cons x xs ih =>
    by_cases hhere : pat <+: x :: xs
    · rw [search_eq_zero hhere, search_eq_zero (hhere.trans (List.prefix_append _ ys))]
      exact ⟨rfl, by simpa using hhere.length_le⟩
    · have hnot : ¬ pat <+: x :: (xs ++ ys) := fun hp =>
        hhere (List.prefix_of_prefix_length_le hp (List.prefix_append (x :: xs) ys) h.length_le)
      obtain ⟨hsearch, hle⟩ := ih ((List.infix_cons_iff.mp h).resolve_left hhere)
      rw [List.cons_append, search, if_neg hnot, search, if_neg hhere, hsearch, List.length_cons]
      exact ⟨rfl, by omega⟩

/-- After an empty line comes the rest. -/
theorem cutBlank_of_blank {xs : List α} (h : [a, b, a, b] <:+: xs) (ys : List α) :
    ∃ ls rest, cutBlank a b xs = some (ls, rest) ∧
      cutBlank a b (xs ++ ys) = some (ls, rest ++ ys) := by
  obtain ⟨hsearch, hle⟩ := search_append_of_infix h ys
  have hfour : [a, b, a, b].length = 4 := rfl
  refine ⟨splitPair a b (xs.take (search [a, b, a, b] xs)), xs.drop (search [a, b, a, b] xs + 4),
    ?_, ?_⟩
  · rw [cutBlank, if_neg (by omega)]
  · rw [cutBlank, hsearch, if_neg (by rw [List.length_append]; omega),
      List.take_append_of_le_length (by omega), List.drop_append_of_le_length (by omega)]

end Verif
