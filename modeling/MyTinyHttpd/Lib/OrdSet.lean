import Mathlib.Data.List.Sort
import Mathlib.Order.Defs.LinearOrder

/-!
# Ordered sets

A finite set with its elements in increasing order, as `std::set` keeps them: `first` is the first
element, and `below x`, `notBelow x` are the two parts that `lower_bound(x)` separates.

The lemmas say what the elements of each result are and how many there are.
-/

namespace Verif

structure OrdSet (α : Type) [LinearOrder α] where
  elems : List α
  sorted : elems.Pairwise (· < ·)

namespace OrdSet

variable {α : Type} [LinearOrder α]

instance : Membership α (OrdSet α) := ⟨fun s x => x ∈ s.elems⟩

instance (x : α) (s : OrdSet α) : Decidable (x ∈ s) := inferInstanceAs (Decidable (x ∈ s.elems))

def empty : OrdSet α := ⟨[], .nil⟩

def size (s : OrdSet α) : Nat := s.elems.length

/-- The first element. -/
def first (s : OrdSet α) : Option α := s.elems.head?

/-- The elements before `lower_bound(x)`. -/
def below (s : OrdSet α) (x : α) : OrdSet α :=
  ⟨s.elems.filter (· < x), s.sorted.sublist List.filter_sublist⟩

/-- The elements from `lower_bound(x)` on. -/
def notBelow (s : OrdSet α) (x : α) : OrdSet α :=
  ⟨s.elems.filter (x ≤ ·), s.sorted.sublist List.filter_sublist⟩

def erase (s : OrdSet α) (x : α) : OrdSet α :=
  ⟨s.elems.erase x, s.sorted.sublist List.erase_sublist⟩

theorem nodup (s : OrdSet α) : s.elems.Nodup := s.sorted.imp fun h => h.ne

theorem sorted_orderedInsert {s : OrdSet α} {x : α} (hx : x ∉ s) :
    (s.elems.orderedInsert (· ≤ ·) x).Pairwise (· < ·) := by
  have hle := List.Pairwise.orderedInsert x s.elems (s.sorted.imp fun h => le_of_lt h)
  have hne : (s.elems.orderedInsert (· ≤ ·) x).Nodup := by
    rw [(List.perm_orderedInsert (· ≤ ·) x s.elems).nodup_iff, List.nodup_cons]
    exact ⟨hx, s.nodup⟩
  exact hle.imp₂ (fun _ _ h hn => lt_of_le_of_ne h hn) hne

def insert (s : OrdSet α) (x : α) : OrdSet α :=
  if hx : x ∈ s then s else ⟨s.elems.orderedInsert (· ≤ ·) x, sorted_orderedInsert hx⟩

/-! ## Elements -/

variable {s : OrdSet α} {x y : α}

theorem mem_def : x ∈ s ↔ x ∈ s.elems := Iff.rfl

@[simp] theorem not_mem_empty : x ∉ (empty : OrdSet α) := List.not_mem_nil

@[simp] theorem mem_insert : y ∈ s.insert x ↔ y = x ∨ y ∈ s := by
  unfold insert
  split
  · rename_i hx
    constructor
    · exact .inr
    · rintro (rfl | hy)
      · exact hx
      · exact hy
  · exact List.mem_orderedInsert (· ≤ ·)

@[simp] theorem mem_erase : y ∈ s.erase x ↔ y ≠ x ∧ y ∈ s := s.nodup.mem_erase_iff

@[simp] theorem mem_below : y ∈ s.below x ↔ y ∈ s ∧ y < x := by
  simp [below, mem_def]

@[simp] theorem mem_notBelow : y ∈ s.notBelow x ↔ y ∈ s ∧ x ≤ y := by
  simp [notBelow, mem_def]

theorem mem_of_first (h : s.first = some x) : x ∈ s := List.mem_of_mem_head? h

theorem size_insert (h : x ∉ s) : (s.insert x).size = s.size + 1 := by
  rw [insert, dif_neg h]
  exact List.orderedInsert_length (· ≤ ·) s.elems x

theorem size_erase (h : x ∈ s) : (s.erase x).size + 1 = s.size := by
  have hpos : 0 < s.elems.length := List.length_pos_of_mem h
  rw [size, erase, List.length_erase_of_mem h, size]
  omega

theorem size_below_add (s : OrdSet α) (x : α) :
    (s.below x).size + (s.notBelow x).size = s.size := by
  have h := List.length_eq_length_filter_add (l := s.elems) (· < x)
  simpa [size, below, notBelow, ← decide_not] using h.symm

end OrdSet

end Verif
