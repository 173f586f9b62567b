import Mathlib.Data.Nat.Digits.Lemmas
import Mathlib.Tactic.Common

/-!
# Texts of fixed width sort like what they stand for

The lexicographic order of lists.

* `flatten_lt`: fields of the same widths one after the other sort by the first field that differs.
* `fixedWidth b digit w n`: the last `w` digits of `n`. `fixedWidth_lt`: they sort like the numbers.
-/

namespace Verif

variable {α : Type}

/-! ## Fields -/

section

variable [LT α]

theorem append_lt_append_of_lt {xs xs' : List α} (h : xs < xs') (hlen : xs.length = xs'.length)
    (ys ys' : List α) : xs ++ ys < xs' ++ ys' := by
  induction xs generalizing xs' with
  | nil =>
    cases xs' with
    | nil => exact absurd h (List.not_lt_nil _)
    | cons x' xs' => simp at hlen
  | cons x xs ih =>
    cases xs' with
    | nil => simp at hlen
    | cons x' xs' =>
      rw [List.cons_append, List.cons_append, List.cons_lt_cons_iff]
      rcases List.cons_lt_cons_iff.mp h with hx | ⟨rfl, hxs⟩
      · exact .inl hx
      · exact .inr ⟨rfl, ih hxs (by simpa using hlen)⟩

theorem append_lt_append_left (xs : List α) {ys ys' : List α} (h : ys < ys') :
    xs ++ ys < xs ++ ys' := by
  induction xs with
  | nil => exact h
  | cons x xs ih =>
    rw [List.cons_append, List.cons_append, List.cons_lt_cons_iff]
    exact .inr ⟨rfl, ih⟩

/-- Fields of the same widths. -/
theorem flatten_lt {fields fields' : List (List α)} (h : fields < fields')
    (hlen : fields.map List.length = fields'.map List.length) :
    fields.flatten < fields'.flatten := by
  induction fields generalizing fields' with
  | nil =>
    cases fields' with
    | nil => exact absurd h (List.not_lt_nil _)
    | cons x' xs' => simp at hlen
  | cons x xs ih =>
    cases fields' with
    | nil => simp at hlen
    | cons x' xs' =>
      obtain ⟨hx, hxs⟩ := by simpa using hlen
      rw [List.flatten_cons, List.flatten_cons]
      rcases List.cons_lt_cons_iff.mp h with hlt | ⟨rfl, hlt⟩
      · exact append_lt_append_of_lt hlt hx _ _
      · exact append_lt_append_left x (ih hlt hxs)

end

/-! ## Numbers -/

/-- The last `w` digits. -/
def fixedWidth (b : Nat) (digit : Nat → α) : Nat → Nat → List α
  | 0, _ => []
  | w + 1, n => fixedWidth b digit w (n / b) ++ [digit (n % b)]

variable {b : Nat} {digit : Nat → α}

theorem length_fixedWidth (w n : Nat) : (fixedWidth b digit w n).length = w := by
  induction w generalizing n with
  | zero => rfl
  | succ w ih => rw [fixedWidth, List.length_append, ih, List.length_singleton]

theorem fixedWidth_lt [LT α] (hb : 0 < b) (hdigit : ∀ i j, i < j → j < b → digit i < digit j)
    {w n m : Nat} (h : n < m) (hm : m < b ^ w) :
    fixedWidth b digit w n < fixedWidth b digit w m := by
  induction w generalizing n m with
  | zero =>
    rw [Nat.pow_zero] at hm
    omega
  | succ w ih =>
    rw [fixedWidth, fixedWidth]
    have hquot : m / b < b ^ w := Nat.div_lt_of_lt_mul (by rwa [Nat.pow_succ, Nat.mul_comm] at hm)
    rcases Nat.lt_or_ge (n / b) (m / b) with hlt | hge
    · refine append_lt_append_of_lt (ih hlt hquot) ?_ _ _
      rw [length_fixedWidth, length_fixedWidth]
    · have heq : n / b = m / b := Nat.le_antisymm (Nat.div_le_div_right (Nat.le_of_lt h)) hge
      rw [heq]
      refine append_lt_append_left _ (List.cons_lt_cons_iff.mpr (.inl ?_))
      refine hdigit _ _ ?_ (Nat.mod_lt m hb)
      have hn := Nat.div_add_mod n b
      have hm' := Nat.div_add_mod m b
      rw [heq] at hn
      omega

end Verif
