import Mathlib.Data.List.Nodup
import Mathlib.Tactic.Common

/-!
# Linked lists with iterators

An element of a `LinkedList` has an identity, which is never used again, and an iterator is the
identity of an element, or `none` for the end. An iterator stays valid until its element is erased.

* `places v`: the iterators at which `v` stands. `mem_places`, `places_pushBack`, `places_erase`,
  `places_moveToEnd`: what the operations do to them.
* `rest`, `restFrom`: the elements from an iterator on. A traversal that goes to the next element,
  or erases the element and goes on behind it, has one element less before it (`restFrom_next`) and
  a valid iterator (`valid_next`).
* `values`: the list without the identities. `values_erase`, `values_moveToEnd`: for a value that
  stands at one place.
-/

namespace Verif

variable {α : Type}

/-- The elements in order, and the identity of the next one. -/
structure LinkedList (α : Type) where
  elems : List (Nat × α)
  fresh : Nat
  ids_nodup : (elems.map Prod.fst).Nodup
  lt_fresh : ∀ e ∈ elems, e.1 < fresh

namespace LinkedList

theorem ids_nodup_pushBack (l : LinkedList α) (v : α) :
    ((l.elems ++ [(l.fresh, v)]).map Prod.fst).Nodup := by
  rw [List.map_append, List.map_singleton, List.nodup_append]
  refine ⟨l.ids_nodup, List.nodup_singleton _, fun id hid id' hid' => ?_⟩
  obtain ⟨e, he, rfl⟩ := List.mem_map.mp hid
  rw [List.mem_singleton.mp hid']
  exact Nat.ne_of_lt (l.lt_fresh e he)

theorem lt_fresh_pushBack (l : LinkedList α) (v : α) :
    ∀ e ∈ l.elems ++ [(l.fresh, v)], e.1 < l.fresh + 1 := by
  intro e he
  rcases List.mem_append.mp he with he | he
  · exact Nat.lt_succ_of_lt (l.lt_fresh e he)
  · rw [List.mem_singleton.mp he]
    exact Nat.lt_succ_self _

theorem perm_moveToEnd (l : List (Nat × α)) (it : Nat) :
    (l.filter (fun e => e.1 ≠ it) ++ l.filter (fun e => e.1 = it)).Perm l := by
  have h := List.filter_append_perm (fun e : Nat × α => decide (e.1 ≠ it)) l
  simpa using h

theorem ids_nodup_moveToEnd (l : LinkedList α) (it : Nat) :
    ((l.elems.filter (fun e => e.1 ≠ it) ++ l.elems.filter (fun e => e.1 = it)).map
      Prod.fst).Nodup :=
  ((perm_moveToEnd l.elems it).map Prod.fst).nodup_iff.mpr l.ids_nodup

theorem lt_fresh_moveToEnd (l : LinkedList α) (it : Nat) :
    ∀ e ∈ l.elems.filter (fun e => e.1 ≠ it) ++ l.elems.filter (fun e => e.1 = it),
      e.1 < l.fresh :=
  fun e he => l.lt_fresh e ((perm_moveToEnd l.elems it).mem_iff.mp he)

/-! ## The operations -/

def empty : LinkedList α := ⟨[], 0, List.nodup_nil, fun _ h => absurd h List.not_mem_nil⟩

/-- The element at an iterator; `none` if the iterator is not valid. -/
def get? (l : LinkedList α) (it : Nat) : Option α := l.elems.lookup it

/-- `push_back(v)`: the list and `--end()`. -/
def pushBack (l : LinkedList α) (v : α) : LinkedList α × Nat :=
  (⟨l.elems ++ [(l.fresh, v)], l.fresh + 1, l.ids_nodup_pushBack v, l.lt_fresh_pushBack v⟩, l.fresh)

/-- `erase(it)`, without the iterator that it returns. -/
def erase (l : LinkedList α) (it : Nat) : LinkedList α where
  elems := l.elems.filter fun e => e.1 ≠ it
  fresh := l.fresh
  ids_nodup := l.ids_nodup.sublist (List.filter_sublist.map Prod.fst)
  lt_fresh e he := l.lt_fresh e (List.mem_of_mem_filter he)

/-- `splice(end(), l, it)`. -/
def moveToEnd (l : LinkedList α) (it : Nat) : LinkedList α where
  elems := l.elems.filter (fun e => e.1 ≠ it) ++ l.elems.filter fun e => e.1 = it
  fresh := l.fresh
  ids_nodup := l.ids_nodup_moveToEnd it
  lt_fresh := l.lt_fresh_moveToEnd it

/-- The iterator at the first element. -/
def first (es : List (Nat × α)) : Option Nat := es.head?.map Prod.fst

def begin (l : LinkedList α) : Option Nat := first l.elems

/-- `--end()`. -/
def last (l : LinkedList α) : Option Nat := l.elems.getLast?.map Prod.fst

/-- The elements from an iterator on. -/
def rest (l : LinkedList α) (it : Nat) : List (Nat × α) := l.elems.dropWhile fun e => e.1 ≠ it

/-- `++it`, and the iterator that `erase(it)` returns. -/
def next (l : LinkedList α) (it : Nat) : Option Nat := first (l.rest it).tail

/-- The elements that a traversal still has to visit. -/
def restFrom (l : LinkedList α) : Option Nat → List (Nat × α)
  | none => []
  | some it => l.rest it

def values (l : LinkedList α) : List α := l.elems.map Prod.snd

/-! ## Places -/

section

variable {l : LinkedList α} {it : Nat} {v w : α}

theorem lookup_eq_some {es : List (Nat × α)} (hnd : (es.map Prod.fst).Nodup) :
    es.lookup it = some v ↔ (it, v) ∈ es := by
  induction es with
  | nil => simp
  | cons e es ih =>
    obtain ⟨id, u⟩ := e
    rw [List.map_cons, List.nodup_cons] at hnd
    rw [List.lookup_cons, List.mem_cons, ← ih hnd.2]
    by_cases hid : it = id
    · subst hid
      have hnot : List.lookup it es ≠ some v := fun h =>
        hnd.1 (List.mem_map.mpr ⟨(it, v), (ih hnd.2).mp h, rfl⟩)
      simp [hnot, eq_comm]
    · have hne : (it == id) = false := by simpa using hid
      simp [hne, hid]

theorem get?_eq_some : l.get? it = some v ↔ (it, v) ∈ l.elems := lookup_eq_some l.ids_nodup

/-- An element and what is before and behind it. -/
theorem exists_split (h : l.get? it = some v) :
    ∃ before behind, l.elems = before ++ (it, v) :: behind ∧ (∀ e ∈ before, e.1 ≠ it) ∧
      ∀ e ∈ behind, e.1 ≠ it := by
  obtain ⟨before, behind, heq⟩ := List.append_of_mem (get?_eq_some.mp h)
  have hnd := l.ids_nodup
  rw [heq, List.map_append, List.map_cons, List.nodup_append, List.nodup_cons] at hnd
  refine ⟨before, behind, heq, fun e he hid => ?_, fun e he hid => ?_⟩
  · exact hnd.2.2 e.1 (List.mem_map.mpr ⟨e, he, rfl⟩) it List.mem_cons_self hid
  · exact hnd.2.1.1 (List.mem_map.mpr ⟨e, he, hid⟩)

variable {before behind : List (Nat × α)}

theorem erase_elems (heq : l.elems = before ++ (it, v) :: behind) (hbefore : ∀ e ∈ before, e.1 ≠ it)
    (hbehind : ∀ e ∈ behind, e.1 ≠ it) : (l.erase it).elems = before ++ behind := by
  have h₁ : before.filter (fun e => e.1 ≠ it) = before :=
    List.filter_eq_self.mpr fun e he => decide_eq_true (hbefore e he)
  have h₂ : behind.filter (fun e => e.1 ≠ it) = behind :=
    List.filter_eq_self.mpr fun e he => decide_eq_true (hbehind e he)
  simp only [erase, heq, List.filter_append, h₁, List.filter_cons, h₂]
  simp

theorem moveToEnd_elems (heq : l.elems = before ++ (it, v) :: behind)
    (hbefore : ∀ e ∈ before, e.1 ≠ it) (hbehind : ∀ e ∈ behind, e.1 ≠ it) :
    (l.moveToEnd it).elems = before ++ behind ++ [(it, v)] := by
  have h₁ : before.filter (fun e => e.1 = it) = [] :=
    List.filter_eq_nil_iff.mpr fun e he => by simpa using hbefore e he
  have h₂ : behind.filter (fun e => e.1 = it) = [] :=
    List.filter_eq_nil_iff.mpr fun e he => by simpa using hbehind e he
  have herase := erase_elems heq hbefore hbehind
  simp only [erase] at herase
  simp only [moveToEnd, herase]
  simp only [heq, List.filter_append, h₁, List.filter_cons, h₂]
  simp

theorem last_moveToEnd (h : l.get? it = some v) : (l.moveToEnd it).last = some it := by
  obtain ⟨before, behind, heq, hbefore, hbehind⟩ := exists_split h
  simp [last, moveToEnd_elems heq hbefore hbehind]

end

section

variable [DecidableEq α] {l : LinkedList α} {it : Nat} {v w : α}

/-- The iterators at which a value stands. -/
def places (l : LinkedList α) (v : α) : List Nat :=
  (l.elems.filter fun e => e.2 = v).map Prod.fst

theorem mem_places : it ∈ l.places v ↔ l.get? it = some v := by
  rw [get?_eq_some, places, List.mem_map]
  constructor
  · rintro ⟨⟨id, u⟩, he, rfl⟩
    obtain ⟨hmem, hv⟩ := List.mem_filter.mp he
    rwa [← of_decide_eq_true hv]
  · intro h
    exact ⟨(it, v), List.mem_filter.mpr ⟨h, decide_eq_true rfl⟩, rfl⟩

theorem places_pushBack :
    (l.pushBack v).1.places w = l.places w ++ if v = w then [l.fresh] else [] := by
  simp only [places, pushBack, List.filter_append, List.map_append, List.filter_cons,
    List.filter_nil]
  by_cases h : v = w <;> simp [h]

theorem places_erase : (l.erase it).places w = (l.places w).filter (· ≠ it) := by
  simp only [places, erase, List.filter_map, List.filter_filter]
  congr 1
  refine List.filter_congr fun e _ => ?_
  simp only [Function.comp_apply, Bool.and_comm]

theorem places_erase_of_ne (h : l.get? it = some v) (hw : w ≠ v) :
    (l.erase it).places w = l.places w := by
  rw [places_erase, List.filter_eq_self]
  intro id hid
  refine decide_eq_true fun he => hw ?_
  rw [he, mem_places, h] at hid
  exact (Option.some.inj hid).symm

theorem places_erase_self (h : l.places v = [it]) : (l.erase it).places v = [] := by
  rw [places_erase, h]
  simp

theorem places_moveToEnd_of_ne (h : l.get? it = some v) (hw : w ≠ v) :
    (l.moveToEnd it).places w = l.places w := by
  obtain ⟨before, behind, heq, hbefore, hbehind⟩ := exists_split h
  simp [places, moveToEnd_elems heq hbefore hbehind, heq, hw.symm]

theorem places_moveToEnd_self (h : l.places v = [it]) : (l.moveToEnd it).places v = [it] := by
  have hget : l.get? it = some v := mem_places.mp (by simp [h])
  obtain ⟨before, behind, heq, hbefore, hbehind⟩ := exists_split hget
  have herase := places_erase_self h
  simp only [places, erase_elems heq hbefore hbehind] at herase
  rw [places, moveToEnd_elems heq hbefore hbehind, List.filter_append, List.map_append, herase]
  simp

/-- A value that stands at one place. -/
theorem values_erase (h : l.places v = [it]) : (l.erase it).values = l.values.erase v := by
  have hget : l.get? it = some v := mem_places.mp (by simp [h])
  obtain ⟨before, behind, heq, hbefore, hbehind⟩ := exists_split hget
  have hnot : v ∉ before.map Prod.snd := by
    intro hv
    obtain ⟨⟨id, u⟩, he, hu⟩ := List.mem_map.mp hv
    have hplace : id ∈ l.places v := by
      rw [mem_places, get?_eq_some, heq, ← hu]
      exact List.mem_append_left _ he
    rw [h, List.mem_singleton] at hplace
    exact hbefore _ he hplace
  rw [values, values, erase_elems heq hbefore hbehind, heq, List.map_append, List.map_append,
    List.map_cons, List.erase_append_right _ hnot, List.erase_cons_head]

theorem values_moveToEnd (h : l.places v = [it]) :
    (l.moveToEnd it).values = l.values.erase v ++ [v] := by
  have hget : l.get? it = some v := mem_places.mp (by simp [h])
  obtain ⟨before, behind, heq, hbefore, hbehind⟩ := exists_split hget
  rw [← values_erase h, values, values, moveToEnd_elems heq hbefore hbehind,
    erase_elems heq hbefore hbehind, List.map_append]
  rfl

end

/-! ## Traversals -/

section

variable {l : LinkedList α} {it : Nat} {v : α} {before behind : List (Nat × α)}

theorem rest_eq (heq : l.elems = before ++ (it, v) :: behind) (hbefore : ∀ e ∈ before, e.1 ≠ it) :
    l.rest it = (it, v) :: behind := by
  rw [rest, heq, List.dropWhile_append_of_pos (fun e he => decide_eq_true (hbefore e he))]
  simp

/-- The elements from the first one of `es` on, when `es` is what the list ends with. -/
theorem restFrom_first (before : List (Nat × α)) {es : List (Nat × α)}
    (heq : l.elems = before ++ es) :
    l.restFrom (first es) = es := by
  cases es with
  | nil => rfl
  | cons e es =>
    obtain ⟨id, u⟩ := e
    refine rest_eq heq fun e he hid => ?_
    have hnd := l.ids_nodup
    rw [heq, List.map_append, List.nodup_append] at hnd
    exact hnd.2.2 e.1 (List.mem_map.mpr ⟨e, he, rfl⟩) id List.mem_cons_self hid

theorem restFrom_begin : l.restFrom l.begin = l.elems := restFrom_first [] rfl

/-- Behind an element, with the element in the list and without it. -/
theorem restFrom_next (h : l.get? it = some v) :
    l.rest it = (it, v) :: l.restFrom (l.next it) ∧
      (l.erase it).restFrom (l.next it) = l.restFrom (l.next it) := by
  obtain ⟨before, behind, heq, hbefore, hbehind⟩ := exists_split h
  have hrest := rest_eq heq hbefore
  have hnext : l.next it = first behind := by rw [next, hrest, List.tail_cons]
  have hfrom : l.restFrom (first behind) = behind :=
    restFrom_first (before ++ [(it, v)]) (by rw [heq, List.append_assoc]; rfl)
  rw [hnext, hfrom, restFrom_first before (erase_elems heq hbefore hbehind)]
  exact ⟨hrest, rfl⟩

/-- An iterator that a traversal can be at: the end or an element. -/
def Valid (l : LinkedList α) (it : Option Nat) : Prop := ∀ id ∈ it, ∃ v, l.get? id = some v

theorem valid_first (before : List (Nat × α)) {es : List (Nat × α)} (heq : l.elems = before ++ es) :
    l.Valid (first es) := by
  cases es with
  | nil => intro id hid; cases hid
  | cons e es =>
    intro id hid
    cases hid
    exact ⟨e.2, get?_eq_some.mpr (heq ▸ List.mem_append_right _ List.mem_cons_self)⟩

theorem valid_begin : l.Valid l.begin := valid_first [] rfl

theorem valid_next (h : l.get? it = some v) :
    l.Valid (l.next it) ∧ (l.erase it).Valid (l.next it) := by
  obtain ⟨before, behind, heq, hbefore, hbehind⟩ := exists_split h
  have hnext : l.next it = first behind := by rw [next, rest_eq heq hbefore, List.tail_cons]
  rw [hnext]
  refine ⟨valid_first (before ++ [(it, v)]) ?_,
    valid_first before (erase_elems heq hbefore hbehind)⟩
  rw [heq, List.append_assoc]
  rfl

end

end LinkedList

end Verif
