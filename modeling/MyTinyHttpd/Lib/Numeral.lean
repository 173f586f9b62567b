import Mathlib.Data.Nat.Digits.Lemmas
import Mathlib.Tactic.Common

/-!
# Numerals

The digits of a number, the lowest first, as a loop finds them that ends when nothing is left, and
the numeral that is read from them, the highest first.

* `IsNumeral`: digits that are read as the number, without leading zeros.
* `lowDigits_eq`: the loop gives `Nat.digits`, and one digit for zero.
* `isNumeral_lowDigits`: a character for each digit makes a numeral.
-/

namespace Verif

variable {α : Type} {b n : Nat}

/-- The canonical numeral of `n` in base `b`, of characters with a value. -/
structure IsNumeral (b : Nat) (isDigit : α → Prop) (value : α → Nat) (n : Nat) (ds : List α) :
    Prop where
  ne_nil : ds ≠ []
  isDigit_of_mem : ∀ c ∈ ds, isDigit c
  eq_zero_of_head : ∀ c, ds.head? = some c → value c = 0 → ds = [c]
  value_eq : ds.foldl (fun acc c => b * acc + value c) 0 = n

/-- `do { n % b; n /= b; } while (n != 0)`. -/
def lowDigits (b : Nat) : Nat → Nat → List Nat
  | 0, _ => []
  | fuel + 1, n => n % b :: if n / b = 0 then [] else lowDigits b fuel (n / b)

theorem lowDigits_eq (hb : 1 < b) {fuel : Nat} (hfuel : n < fuel) :
    lowDigits b fuel n = if n = 0 then [0] else Nat.digits b n := by
  induction fuel generalizing n with
  | zero => omega
  | succ fuel ih =>
    rw [lowDigits]
    by_cases hn : n = 0
    · subst hn
      simp
    · have hdigits := Nat.digits_def' hb (Nat.pos_of_ne_zero hn)
      have hlt : n / b < n := Nat.div_lt_self (Nat.pos_of_ne_zero hn) hb
      rw [if_neg hn, hdigits]
      by_cases hdiv : n / b = 0
      · rw [if_pos hdiv, hdiv, Nat.digits_zero]
      · rw [if_neg hdiv, ih (by omega), if_neg hdiv]

theorem lowDigits_lt (hb : 1 < b) {fuel : Nat} : ∀ d ∈ lowDigits b fuel n, d < b := by
  induction fuel generalizing n with
  | zero => exact List.forall_mem_nil _
  | succ fuel ih =>
    rw [lowDigits]
    split
    · simpa using Nat.mod_lt n (by omega)
    · exact List.forall_mem_cons.mpr ⟨Nat.mod_lt n (by omega), ih⟩

theorem ofDigits_lowDigits (hb : 1 < b) {fuel : Nat} (hfuel : n < fuel) :
    Nat.ofDigits b (lowDigits b fuel n) = n := by
  rw [lowDigits_eq hb hfuel]
  split
  · rename_i hn
    rw [hn]
    rfl
  · exact Nat.ofDigits_digits b n

/-- The characters are read back. -/
theorem foldl_map_reverse {digit : Nat → α} {value : α → Nat}
    (hvalue : ∀ d < b, value (digit d) = d) {ds : List Nat} (hds : ∀ d ∈ ds, d < b) :
    (ds.map digit).reverse.foldl (fun acc c => b * acc + value c) 0 = Nat.ofDigits b ds := by
  induction ds with
  | nil => rfl
  | cons d ds ih =>
    obtain ⟨hd, hds⟩ := List.forall_mem_cons.mp hds
    rw [List.map_cons, List.reverse_cons, List.foldl_append, ih hds, Nat.ofDigits_cons]
    simp only [List.foldl_cons, List.foldl_nil, hvalue d hd]
    exact Nat.add_comm _ _

/-- The last digit that the loop finds is zero only if there is no other. -/
theorem lowDigits_eq_zero (hb : 1 < b) {fuel : Nat} (hfuel : n < fuel)
    (h : (lowDigits b fuel n).getLast? = some 0) : lowDigits b fuel n = [0] := by
  rw [lowDigits_eq hb hfuel] at h ⊢
  by_cases hn : n = 0
  · rw [if_pos hn]
  · rw [if_neg hn] at h
    have hne : Nat.digits b n ≠ [] := Nat.digits_ne_nil_iff_ne_zero.mpr hn
    rw [List.getLast?_eq_getLast_of_ne_nil hne] at h
    exact absurd (Option.some.inj h) (Nat.getLast_digit_ne_zero b hn)

theorem lowDigits_ne_nil {fuel : Nat} (hfuel : n < fuel) : lowDigits b fuel n ≠ [] := by
  cases fuel with
  | zero => omega
  | succ fuel => exact List.cons_ne_nil _ _

theorem isNumeral_lowDigits (hb : 1 < b) {fuel : Nat} (hfuel : n < fuel) {digit : Nat → α}
    {isDigit : α → Prop} {value : α → Nat} (hdigit : ∀ d < b, isDigit (digit d))
    (hvalue : ∀ d < b, value (digit d) = d) :
    IsNumeral b isDigit value n ((lowDigits b fuel n).map digit).reverse where
  ne_nil := by simpa using lowDigits_ne_nil hfuel
  isDigit_of_mem := by
    intro c hc
    obtain ⟨d, hd, rfl⟩ := List.mem_map.mp (List.mem_reverse.mp hc)
    exact hdigit d (lowDigits_lt hb d hd)
  eq_zero_of_head := by
    intro c hc hzero
    rw [List.head?_reverse, List.getLast?_map, Option.map_eq_some_iff] at hc
    obtain ⟨d, hd, rfl⟩ := hc
    rw [hvalue d (lowDigits_lt hb d (List.mem_of_getLast? hd))] at hzero
    subst hzero
    rw [lowDigits_eq_zero hb hfuel hd]
    rfl
  value_eq := (foldl_map_reverse hvalue (lowDigits_lt hb)).trans (ofDigits_lowDigits hb hfuel)

end Verif
