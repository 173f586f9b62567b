import Mathlib.Data.List.Basic
import Mathlib.Order.Lattice
import Mathlib.Tactic.Common

/-!
# Binary search

`std::lower_bound` of a list, as a loop over the start and the length of the part that is left.

* `lowerBound_spec`: in every list, sorted or not, the search ends between an element that is before
  the place and one that is not.
* `lastAtMost`: the last element whose key is not above a value. In a sorted list it is the one
  whose successor is above (`lastAtMost_of_next`).
-/

namespace Verif

variable {α : Type}

/-- The loop, from `first` on with `len` elements left. `before` compares with the value. -/
def lowerBoundLoop (before : α → Bool) (xs : List α) : Nat → Nat → Nat → Nat
  | 0, first, _ => first
  | fuel + 1, first, len =>
    if 0 < len then
      let half := len / 2
      if (xs[first + half]?).any before then
        lowerBoundLoop before xs fuel (first + half + 1) (len - half - 1)
      else lowerBoundLoop before xs fuel first half
    else first

/-- The index of the place. The loop ends within as many rounds as there are elements. -/
def lowerBound (before : α → Bool) (xs : List α) : Nat :=
  lowerBoundLoop before xs xs.length 0 xs.length

/-- What is known of the ends of the part that is left. -/
structure Bracket (before : α → Bool) (xs : List α) (first last : Nat) : Prop where
  last_le : last ≤ xs.length
  lower : ∀ i x, i + 1 = first → xs[i]? = some x → before x = true
  upper : ∀ x, xs[last]? = some x → before x = false

variable {before : α → Bool} {xs : List α}

theorem lowerBoundLoop_spec {fuel first len : Nat} (hlen : len ≤ fuel)
    (h : Bracket before xs first (first + len)) :
    Bracket before xs (lowerBoundLoop before xs fuel first len)
      (lowerBoundLoop before xs fuel first len) := by
  induction fuel generalizing first len with
  | zero =>
    obtain rfl : len = 0 := by omega
    exact h
  | succ fuel ih =>
    rw [lowerBoundLoop]
    split
    · rename_i hpos
      have hmiddle : first + len / 2 < xs.length := by
        have := h.last_le
        omega
      have hx := List.getElem?_eq_getElem hmiddle
      simp only [hx, Option.any_some]
      cases hbefore : before xs[first + len / 2] with
      | true =>
        have hlast : first + len / 2 + 1 + (len - len / 2 - 1) = first + len := by omega
        refine ih (by omega) ⟨?_, ?_, ?_⟩
        · rw [hlast]
          exact h.last_le
        · intro i x hi hix
          obtain rfl : i = first + len / 2 := by omega
          rw [hx] at hix
          obtain rfl := Option.some.inj hix
          exact hbefore
        · rw [hlast]
          exact h.upper
      | false =>
        refine ih (by omega) ⟨by omega, h.lower, ?_⟩
        intro x hix
        rw [hx] at hix
        obtain rfl := Option.some.inj hix
        exact hbefore
    · obtain rfl : len = 0 := by omega
      exact h

theorem lowerBound_spec (before : α → Bool) (xs : List α) :
    Bracket before xs (lowerBound before xs) (lowerBound before xs) := by
  refine lowerBoundLoop_spec (Nat.le_refl _) ⟨by omega, ?_, ?_⟩
  · intro i x hi
    omega
  · intro x hx
    rw [List.getElem?_eq_none (by omega)] at hx
    cases hx

/-! ## The last element that is not above a value -/

section

variable {κ : Type} [LinearOrder κ] {key : α → κ} {s : κ} {x : α}

def lastAtMost (key : α → κ) (s : κ) (xs : List α) : Option α :=
  (xs.filter fun x => key x ≤ s).getLast?

theorem lastAtMost_eq_none_iff : lastAtMost key s xs = none ↔ ∀ x ∈ xs, s < key x := by
  rw [lastAtMost, List.getLast?_eq_none_iff, List.filter_eq_nil_iff]
  simp only [decide_eq_true_eq, not_le]

theorem lastAtMost_eq_some_iff :
    lastAtMost key s xs = some x ↔
      ∃ ys zs, xs = ys ++ x :: zs ∧ key x ≤ s ∧ ∀ z ∈ zs, s < key z := by
  constructor
  · intro h
    obtain ⟨l, hl⟩ := List.getLast?_eq_some_iff.mp h
    obtain ⟨ys, ws, rfl, -, hws⟩ := List.filter_eq_append_iff.mp hl
    obtain ⟨us, zs, rfl, -, hx, hzs⟩ := List.filter_eq_cons_iff.mp hws
    refine ⟨ys ++ us, zs, by simp, by simpa using hx, ?_⟩
    simpa using hzs
  · rintro ⟨ys, zs, rfl, hx, hzs⟩
    have hnone : zs.filter (fun x => key x ≤ s) = [] := by
      simpa [List.filter_eq_nil_iff] using hzs
    rw [lastAtMost, List.filter_append, List.filter_cons_of_pos (by simpa using hx), hnone,
      List.getLast?_append]
    rfl

/-- In a sorted list, only the first element has to be looked at, -/
theorem lastAtMost_eq_none_of_head (hsorted : xs.Pairwise fun x y => key x < key y)
    (hhead : ∀ x, xs.head? = some x → s < key x) : lastAtMost key s xs = none := by
  rw [lastAtMost_eq_none_iff]
  cases xs with
  | nil => exact List.forall_mem_nil _
  | cons x xs =>
    intro y hy
    rcases List.mem_cons.mp hy with rfl | hy
    · exact hhead y rfl
    · exact lt_trans (hhead x rfl) (List.rel_of_pairwise_cons hsorted hy)

/-- or only the successor. -/
theorem lastAtMost_of_next (hsorted : xs.Pairwise fun x y => key x < key y) {i : Nat}
    (hx : xs[i]? = some x) (hle : key x ≤ s) (hnext : ∀ y, xs[i + 1]? = some y → s < key y) :
    lastAtMost key s xs = some x := by
  obtain ⟨hi, rfl⟩ := List.getElem?_eq_some_iff.mp hx
  refine lastAtMost_eq_some_iff.mpr ⟨xs.take i, xs.drop (i + 1), ?_, hle, ?_⟩
  · rw [← List.drop_eq_getElem_cons hi, List.take_append_drop]
  · have hdrop := lastAtMost_eq_none_of_head (hsorted.sublist (List.drop_sublist (i + 1) xs))
      (by rwa [List.head?_drop])
    exact lastAtMost_eq_none_iff.mp hdrop

end

end Verif
