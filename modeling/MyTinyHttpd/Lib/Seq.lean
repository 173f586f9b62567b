import Mathlib.Data.List.DropRight
import Mathlib.Data.List.Infix
import Mathlib.Data.List.Basic

/-!
# Searching, writing and copying in byte sequences

The standard algorithms that C++ runs over a range, on lists. A pointer is an index, and
`std::find` is `List.idxOf`: both give the end of the range when there is nothing to find.

* `exists_parts`: a list of lists whose elements are an image.
* `sublist_of_append`: the order of two elements of a list, when the later one is in the first part.
* `set_split`: a list around one of its elements, before and after the element is replaced.
* `search`: `std::search`, with the same convention.
* `writeAt xs i ys`: the list after `ys` has been stored from index `i` on.
* `copyWithin xs src dst n`: `std::copy` of `n` elements inside one list, element by element and
  forward. `copyWithin_eq`: with `dst ≤ src` an overlap does no harm.
* `cutPair a b xs`: the elements before the first `a, b` and those after it. `cutPair_eq_some`
  says which splits these are; `cutPair_append`: a split stays when more elements follow.
-/

namespace Verif

variable {α : Type}

/-! ## Prefixes -/

/-- Two cuts of one list: the first part of one is a proper prefix of the first part of the
other, or it goes on after it. -/
theorem append_eq_append_cases {xs ys as bs : List α} (h : xs ++ ys = as ++ bs) :
    (xs.length < as.length ∧ ∃ more, more ≠ [] ∧ xs ++ more = as) ∨
      ∃ more, xs = as ++ more ∧ more ++ ys = bs := by
  rcases List.append_eq_append_iff.mp h with ⟨more, rfl, rfl⟩ | ⟨more, rfl, rfl⟩
  · cases more with
    | nil => exact .inr ⟨[], by simp⟩
    | cons a more => exact .inl ⟨by simp, a :: more, by simp, rfl⟩
  · exact .inr ⟨more, rfl, rfl⟩

open scoped List in
/-- A subsequence whose last element is not in the second part is one of the first part. -/
theorem sublist_of_append {x : α} {l l₁ l₂ : List α} (h : l ++ [x] <+ l₁ ++ l₂) (hx : x ∉ l₂) :
    l ++ [x] <+ l₁ := by
  obtain ⟨r₁, r₂, heq, hr₁, hr₂⟩ := List.sublist_append_iff.mp h
  rcases List.eq_nil_or_concat r₂ with rfl | ⟨r, y, rfl⟩
  · rw [heq, List.append_nil]
    exact hr₁
  · rw [List.concat_eq_append, ← List.append_assoc] at heq
    obtain rfl : x = y := List.singleton_inj.mp (List.append_inj' heq rfl).2
    exact absurd (hr₂.subset (by simp)) hx

/-! ## Replacing an element -/

/-- The list around one of its elements. -/
theorem set_split {l : List α} {i : Nat} {x : α} (h : l[i]? = some x) :
    ∃ l₁ l₂, l = l₁ ++ x :: l₂ ∧ ∀ y, l.set i y = l₁ ++ y :: l₂ := by
  obtain ⟨hlt, rfl⟩ := List.getElem?_eq_some_iff.mp h
  refine ⟨l.take i, l.drop (i + 1), by simp, fun y => ?_⟩
  rw [List.set_eq_take_append_cons_drop, if_pos hlt]

theorem set_self {l : List α} {i : Nat} {x : α} (h : l[i]? = some x) : l.set i x = l := by
  obtain ⟨hlt, rfl⟩ := List.getElem?_eq_some_iff.mp h
  exact List.set_getElem_self hlt

/-- How often an element is in the list after one has been replaced. -/
theorem count_set [DecidableEq α] {l : List α} {i : Nat} {old : α} (h : l[i]? = some old)
    (new x : α) :
    (l.set i new).count x + (if old = x then 1 else 0) = l.count x + if new = x then 1 else 0 := by
  obtain ⟨l₁, l₂, hl, hset⟩ := set_split h
  rw [hset, hl]
  simp only [List.count_append, List.count_cons, beq_iff_eq]
  omega

/-! ## Finding -/

section Find

variable [DecidableEq α]

/-- The first `a` after elements that are not `a`. -/
theorem idxOf_append_cons {a : α} {xs : List α} (h : a ∉ xs) (ys : List α) :
    (xs ++ a :: ys).idxOf a = xs.length := by
  rw [List.idxOf_append_of_notMem h, List.idxOf_cons_self, Nat.add_zero]

/-- `std::search`: the index of the first occurrence of `pat`, or the length. -/
def search (pat : List α) : List α → Nat
  | [] => 0
  | x :: xs => if pat <+: x :: xs then 0 else search pat xs + 1

theorem search_le_length (pat xs : List α) : search pat xs ≤ xs.length := by
  induction xs with
  | nil => simp [search]
  | cons x xs ih => simp only [search]; split <;> simp; omega

end Find

/-! ## Cutting at a pair of elements -/

section Cut

variable {a b : α}

/-- `a, b` does not occur in `l`. -/
def NoPair (a b : α) (l : List α) : Prop := ¬ [a, b] <:+: l

theorem NoPair.nil : NoPair a b [] := by simp [NoPair]

theorem NoPair.of_cons {x : α} {l : List α} (h : NoPair a b (x :: l)) : NoPair a b l :=
  fun hi => h (hi.trans (List.suffix_cons x l).isInfix)

/-- A list without `a` has no pair `a, b`. -/
theorem noPair_of_not_mem {l : List α} (h : a ∉ l) : NoPair a b l :=
  fun hi => h (hi.subset (by simp))

variable [DecidableEq α]

/-- The elements before the first `a, b` of `xs`, and those after it. -/
def cutPair (a b : α) (xs : List α) : Option (List α × List α) :=
  if search [a, b] xs = xs.length then none
  else some (xs.take (search [a, b] xs), xs.drop (search [a, b] xs + 2))

theorem search_pair_eq_length {l : List α} : search [a, b] l = l.length ↔ NoPair a b l := by
  induction l with
  | nil => simp [search, NoPair.nil]
  | cons x l ih =>
    by_cases hp : [a, b] <+: x :: l
    · simp [search, hp, NoPair, hp.isInfix]
    · simp only [search, hp, ↓reduceIte, List.length_cons, Nat.add_right_cancel_iff, ih, NoPair,
        List.infix_cons_iff, false_or]

/-- No pair starts in `l` when `a, b` follows it: `a ≠ b`, so the pair after `l` is not a part
of one that `l` begins. -/
theorem search_pair_append (hab : a ≠ b) {l : List α} (h : NoPair a b l) (r : List α) :
    search [a, b] (l ++ a :: b :: r) = l.length := by
  induction l with
  | nil => simp [search]
  | cons x l ih =>
    have hp : ¬ [a, b] <+: x :: (l ++ a :: b :: r) := by
      rw [List.cons_prefix_cons]
      rintro ⟨rfl, hb⟩
      cases l with
      | nil =>
        obtain ⟨e, -⟩ := List.cons_prefix_cons.mp hb
        exact hab e.symm
      | cons y l =>
        obtain ⟨rfl, -⟩ := List.cons_prefix_cons.mp hb
        exact h (by simp [List.infix_cons_iff, List.cons_prefix_cons])
    simp only [List.cons_append, search, hp, ↓reduceIte, List.length_cons, ih h.of_cons]

/-- A pair that the search finds: the elements before it have none. -/
theorem search_pair_split {l : List α} (h : search [a, b] l ≠ l.length) :
    l = l.take (search [a, b] l) ++ a :: b :: l.drop (search [a, b] l + 2) ∧
      NoPair a b (l.take (search [a, b] l)) := by
  induction l with
  | nil => simp [search] at h
  | cons x l ih =>
    by_cases hp : [a, b] <+: x :: l
    · obtain ⟨rfl, hp'⟩ := List.cons_prefix_cons.mp hp
      obtain ⟨t, rfl⟩ : ∃ t, l = b :: t := by
        obtain ⟨t, ht⟩ := hp'
        exact ⟨t, ht.symm⟩
      simp [search, hp, NoPair.nil]
    · simp only [search, hp, ↓reduceIte, List.length_cons, ne_eq, Nat.add_right_cancel_iff] at h ⊢
      obtain ⟨he, hn⟩ := ih h
      have hle := search_le_length [a, b] l
      refine ⟨?_, ?_⟩
      · simp only [List.take_succ_cons, List.cons_append, List.cons.injEq, true_and,
          show search [a, b] l + 1 + 2 = (search [a, b] l + 2) + 1 by omega, List.drop_succ_cons]
        exact he
      · simp only [List.take_succ_cons]
        intro hi
        rcases List.infix_cons_iff.mp hi with hq | hq
        · exact hp (hq.trans (List.take_prefix (search [a, b] l + 1) (x :: l)))
        · exact hn hq

theorem cutPair_eq_some (hab : a ≠ b) {xs l r : List α} :
    cutPair a b xs = some (l, r) ↔ xs = l ++ a :: b :: r ∧ NoPair a b l := by
  constructor
  · intro h
    unfold cutPair at h
    split at h
    · cases h
    · rename_i hs
      obtain ⟨he, hn⟩ := search_pair_split hs
      simp only [Option.some.injEq, Prod.mk.injEq] at h
      obtain ⟨rfl, rfl⟩ := h
      exact ⟨he, hn⟩
  · rintro ⟨rfl, hn⟩
    have hs := search_pair_append hab hn r
    simp [cutPair, hs]

theorem cutPair_eq_none {xs : List α} : cutPair a b xs = none ↔ NoPair a b xs := by
  rw [← search_pair_eq_length]
  unfold cutPair
  split <;> simp_all

/-- A pair that is found is found at the same place when more elements follow. -/
theorem cutPair_append (hab : a ≠ b) {xs l r : List α} (h : cutPair a b xs = some (l, r))
    (ys : List α) : cutPair a b (xs ++ ys) = some (l, r ++ ys) := by
  obtain ⟨rfl, hn⟩ := (cutPair_eq_some hab).mp h
  exact (cutPair_eq_some hab).mpr ⟨by simp, hn⟩

theorem cutPair_length (hab : a ≠ b) {xs l r : List α} (h : cutPair a b xs = some (l, r)) :
    xs.length = l.length + 2 + r.length := by
  obtain ⟨rfl, -⟩ := (cutPair_eq_some hab).mp h
  simp; omega

end Cut

/-! ## Writing and copying -/

section Write

/-- The list after `ys` has been stored from index `i` on. -/
def writeAt (xs : List α) (i : Nat) (ys : List α) : List α :=
  xs.take i ++ ys ++ xs.drop (i + ys.length)

theorem length_le_writeAt (xs : List α) (i : Nat) (ys : List α) :
    xs.length ≤ (writeAt xs i ys).length := by
  simp [writeAt]; omega

/-- What is stored is read back. -/
theorem take_drop_writeAt {xs : List α} {i : Nat} {ys : List α} (h : i + ys.length ≤ xs.length) :
    ((writeAt xs i ys).drop i).take ys.length = ys := by
  have hi : (xs.take i).length = i := by simp; omega
  simp [writeAt, hi]

/-- The elements before the store stay. -/
theorem take_writeAt {xs : List α} {i j : Nat} {ys : List α} (h : i ≤ xs.length) (hj : j ≤ i) :
    (writeAt xs i ys).take j = xs.take j := by
  have hi : (xs.take i).length = i := by simp; omega
  simp only [writeAt, List.append_assoc]
  rw [List.take_append_of_le_length (by omega), List.take_take, Nat.min_eq_left hj]

/-- The elements after the store stay. -/
theorem drop_writeAt {xs : List α} {i j : Nat} {ys : List α} (h : i ≤ xs.length)
    (hj : i + ys.length ≤ j) : (writeAt xs i ys).drop j = xs.drop j := by
  have hi : (xs.take i ++ ys).length = i + ys.length := by simp; omega
  rw [writeAt, List.drop_append, hi, List.drop_eq_nil_of_le (by omega), List.nil_append,
    List.drop_drop]
  congr 1; omega

theorem writeAt_nil (xs : List α) (i : Nat) : writeAt xs i [] = xs := by
  simp [writeAt]

/-- Storing one element and then the others after it is storing them all. -/
theorem writeAt_set (xs : List α) (i : Nat) (y : α) (ys : List α) (h : i < xs.length) :
    writeAt (xs.set i y) (i + 1) ys = writeAt xs i (y :: ys) := by
  have ht : (xs.set i y).take (i + 1) = xs.take i ++ [y] := by
    have hi : (xs.take i).length = i := by simp; omega
    rw [List.set_eq_take_append_cons_drop, if_pos h, List.take_append, hi,
      List.take_of_length_le (by omega)]
    simp
  have hd : (xs.set i y).drop (i + 1 + ys.length) = xs.drop (i + (ys.length + 1)) := by
    rw [List.drop_set_of_lt (by omega)]; congr 1; omega
  simp only [writeAt, ht, hd, List.length_cons, List.append_assoc, List.cons_append,
    List.nil_append]

theorem length_writeAt {xs ys : List α} {i : Nat} (h : i + ys.length ≤ xs.length) :
    (writeAt xs i ys).length = xs.length := by
  simp only [writeAt, List.length_append, List.length_take, List.length_drop]
  omega

/-- A store behind a store. -/
theorem writeAt_writeAt {xs ys zs : List α} {i : Nat} (h : i + ys.length ≤ xs.length) :
    writeAt (writeAt xs i ys) (i + ys.length) zs = writeAt xs i (ys ++ zs) := by
  have hlen : (xs.take i ++ ys).length = i + ys.length := by
    rw [List.length_append, List.length_take]
    omega
  have hdrop : (writeAt xs i ys).drop (i + ys.length + zs.length) =
      xs.drop (i + (ys.length + zs.length)) := by
    rw [drop_writeAt (by omega) (by omega), Nat.add_assoc]
  rw [writeAt, hdrop, writeAt, List.take_left' hlen]
  simp only [writeAt, List.append_assoc, List.length_append]

variable [Inhabited α]

/-- `std::copy` of `n` elements from `src` to `dst` inside one list: one element at a time, from
the first to the last. -/
def copyWithin (xs : List α) (src dst : Nat) : Nat → List α
  | 0 => xs
  | n + 1 => copyWithin (xs.set dst xs[src]!) (src + 1) (dst + 1) n

/-- A copy towards the front stores the elements that were there before it: the element it
overwrites next has been copied already. -/
theorem copyWithin_eq {xs : List α} {src dst n : Nat} (h : dst ≤ src) (hn : src + n ≤ xs.length) :
    copyWithin xs src dst n = writeAt xs dst ((xs.drop src).take n) := by
  induction n generalizing xs src dst with
  | zero => simp [copyWithin, writeAt_nil]
  | succ n ih =>
    have hs : src < xs.length := by omega
    rw [copyWithin, ih (by omega) (by simp; omega), List.drop_set_of_lt (by omega),
      writeAt_set _ _ _ _ (by omega), List.drop_eq_getElem_cons hs, List.take_succ_cons,
      getElem!_pos xs src hs]

end Write

end Verif
