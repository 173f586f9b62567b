import Mathlib.Data.List.Basic

/-!
# Removal from a vector by a swap with the last element

`swapPop l i` puts the last element in the place `i` and drops the last place. The other elements
keep their indices.
-/

namespace Verif

variable {α : Type}

def swapPop (l : List α) (i : Nat) : List α :=
  match l.getLast? with
  | none => l
  | some back => (l.set i back).dropLast

theorem swapPop_length (l : List α) (i : Nat) : (swapPop l i).length = l.length - 1 := by
  unfold swapPop
  split
  · next h => rw [List.getLast?_eq_none_iff.mp h]; rfl
  · simp

/-- The places before the last one. -/
theorem swapPop_getElem? {l : List α} {i j : Nat} (hi : i < l.length) (hj : j + 1 < l.length) :
    (swapPop l i)[j]? = if j = i then l[l.length - 1]? else l[j]? := by
  unfold swapPop
  split
  · next h =>
    rw [List.getLast?_eq_none_iff.mp h] at hi
    exact absurd hi (Nat.not_lt_zero i)
  · next back h =>
    rw [List.getLast?_eq_getElem?] at h
    rw [List.getElem?_dropLast, List.length_set, if_pos (by omega), List.getElem?_set]
    split
    · next hij =>
      subst hij
      rw [if_pos rfl, h]
    · next hij => rw [if_neg (Ne.symm hij)]

/-- For the last place nothing moves. -/
theorem dropLast_getElem? {l : List α} {j : Nat} (hj : j + 1 < l.length) :
    l.dropLast[j]? = if j = l.length - 1 then l[l.length - 1]? else l[j]? := by
  rw [List.getElem?_dropLast, if_pos (by omega), if_neg (by omega)]

end Verif
