import Mathlib.Order.Defs.LinearOrder

/-!
# Circular buffers

* `CircularBuffer`: `pushBack` overwrites the oldest element when the buffer is full.
* `FullBuffer`: a buffer that is full from the start. `ago i` is the element that was pushed `i`
  pushes before the newest one.
-/

namespace Verif

structure CircularBuffer (α : Type) where
  capacity : Nat
  /-- The oldest one first. -/
  elems : List α
  fits : elems.length ≤ capacity

namespace CircularBuffer

variable {α : Type}

def make (capacity : Nat) : CircularBuffer α := ⟨capacity, [], Nat.zero_le capacity⟩

def full (b : CircularBuffer α) : Bool := b.capacity == b.elems.length

def empty (b : CircularBuffer α) : Bool := b.elems.isEmpty

def front (b : CircularBuffer α) : Option α := b.elems.head?

/-- The elements after `pushBack`. -/
def pushed (b : CircularBuffer α) (x : α) : List α :=
  if b.elems.length < b.capacity then b.elems ++ [x]
  else if b.capacity = 0 then b.elems
  else b.elems.drop 1 ++ [x]

theorem pushed_fits (b : CircularBuffer α) (x : α) : (b.pushed x).length ≤ b.capacity := by
  have := b.fits
  unfold pushed
  split
  · rw [List.length_append, List.length_singleton]
    omega
  · split
    · exact b.fits
    · rw [List.length_append, List.length_drop, List.length_singleton]
      omega

def pushBack (b : CircularBuffer α) (x : α) : CircularBuffer α :=
  { b with elems := b.pushed x, fits := b.pushed_fits x }

theorem drop_fits (b : CircularBuffer α) : (b.elems.drop 1).length ≤ b.capacity := by
  have := b.fits
  rw [List.length_drop]
  omega

def popFront (b : CircularBuffer α) : CircularBuffer α :=
  { b with elems := b.elems.drop 1, fits := b.drop_fits }

/-- The newest element is changed. -/
def modifyBack (b : CircularBuffer α) (f : α → α) : CircularBuffer α :=
  { b with
    elems := b.elems.modify (b.elems.length - 1) f
    fits := by rw [List.length_modify]; exact b.fits }

variable {b : CircularBuffer α}

theorem full_eq_false_iff : b.full = false ↔ b.elems.length < b.capacity := by
  have := b.fits
  simp only [full, beq_eq_false_iff_ne]
  omega

theorem full_iff : b.full = true ↔ b.elems.length = b.capacity := by
  simp only [full, beq_iff_eq]
  exact eq_comm

theorem empty_iff : b.empty = true ↔ b.elems = [] := List.isEmpty_iff

end CircularBuffer

/-! ## Full buffers -/

structure FullBuffer (α : Type) (n : Nat) extends CircularBuffer α where
  capacity_eq : capacity = n
  length_eq : elems.length = n

namespace FullBuffer

variable {α : Type} {n : Nat}

def replicate (n : Nat) (x : α) : FullBuffer α n where
  capacity := n
  elems := List.replicate n x
  fits := Nat.le_of_eq List.length_replicate
  capacity_eq := rfl
  length_eq := List.length_replicate

/-- The oldest element goes. -/
theorem pushed_eq (b : FullBuffer α n) (x : α) :
    b.toCircularBuffer.pushed x = (b.elems ++ [x]).drop 1 := by
  have hc := b.capacity_eq
  have hl := b.length_eq
  rw [CircularBuffer.pushed, if_neg (by omega)]
  split
  · have hnil : b.elems = [] := List.length_eq_zero_iff.mp (by omega)
    rw [hnil]
    rfl
  · exact (List.drop_append_of_le_length (by omega)).symm

def pushBack (b : FullBuffer α n) (x : α) : FullBuffer α n where
  toCircularBuffer := b.toCircularBuffer.pushBack x
  capacity_eq := b.capacity_eq
  length_eq := by
    show (b.toCircularBuffer.pushed x).length = n
    rw [pushed_eq, List.length_drop, List.length_append, b.length_eq, List.length_singleton,
      Nat.add_sub_cancel]

def modifyBack (b : FullBuffer α n) (f : α → α) : FullBuffer α n where
  toCircularBuffer := b.toCircularBuffer.modifyBack f
  capacity_eq := b.capacity_eq
  length_eq := (List.length_modify ..).trans b.length_eq

def ago (b : FullBuffer α n) (i : Nat) : Option α :=
  if i < n then b.elems[n - 1 - i]? else none

variable {b : FullBuffer α n} {x y : α} {i : Nat}

theorem elems_pushBack : (b.pushBack x).elems = (b.elems ++ [x]).drop 1 := b.pushed_eq x

theorem elems_modifyBack (f : α → α) : (b.modifyBack f).elems = b.elems.modify (n - 1) f := by
  have hmodify : (b.modifyBack f).elems = b.elems.modify (b.elems.length - 1) f := rfl
  rw [hmodify, b.length_eq]

theorem lt_of_ago (h : b.ago i = some x) : i < n := by
  unfold ago at h
  split at h
  · assumption
  · cases h

theorem exists_ago (b : FullBuffer α n) (hi : i < n) : ∃ x, b.ago i = some x := by
  have hlt : n - 1 - i < b.elems.length := by
    rw [b.length_eq]
    omega
  exact ⟨b.elems[n - 1 - i], by rw [ago, if_pos hi, List.getElem?_eq_getElem hlt]⟩

theorem mem_elems : x ∈ b.elems ↔ ∃ i, b.ago i = some x := by
  constructor
  · intro h
    obtain ⟨j, hj, rfl⟩ := List.mem_iff_getElem.mp h
    rw [b.length_eq] at hj
    refine ⟨n - 1 - j, ?_⟩
    have he : n - 1 - (n - 1 - j) = j := by omega
    rw [ago, if_pos (by omega), he]
    exact List.getElem?_eq_getElem _
  · rintro ⟨i, hi⟩
    rw [ago, if_pos (lt_of_ago hi)] at hi
    exact List.mem_of_getElem? hi

theorem ago_replicate (h : (replicate n x).ago i = some y) : y = x := by
  exact List.eq_of_mem_replicate (mem_elems.mpr ⟨i, h⟩)

/-- The oldest element. -/
theorem front_eq_ago (hn : 0 < n) : b.front = b.ago (n - 1) := by
  rw [CircularBuffer.front, ago, if_pos (by omega), Nat.sub_self, List.head?_eq_getElem?]

theorem ago_pushBack_zero (hn : 0 < n) : (b.pushBack x).ago 0 = some x := by
  have he : 1 + (n - 1 - 0) = b.elems.length := by
    rw [b.length_eq]
    omega
  rw [ago, if_pos hn]
  simp only [elems_pushBack, List.getElem?_drop, he, List.getElem?_concat_length]

theorem ago_pushBack_succ (hi : i + 1 < n) : (b.pushBack x).ago (i + 1) = b.ago i := by
  have he : 1 + (n - 1 - (i + 1)) = n - 1 - i := by omega
  have hlt : n - 1 - i < b.elems.length := by
    rw [b.length_eq]
    omega
  rw [ago, ago, if_pos hi, if_pos (by omega)]
  simp only [elems_pushBack, List.getElem?_drop, he, List.getElem?_append_left hlt]

theorem ago_modifyBack_zero (f : α → α) : (b.modifyBack f).ago 0 = (b.ago 0).map f := by
  unfold ago
  split
  · simp [elems_modifyBack]
  · rfl

theorem ago_modifyBack_succ (f : α → α) (i : Nat) :
    (b.modifyBack f).ago (i + 1) = b.ago (i + 1) := by
  unfold ago
  split
  · have hne : n - 1 ≠ n - 1 - (i + 1) := by omega
    simp [elems_modifyBack, hne]
  · rfl

end FullBuffer

end Verif
