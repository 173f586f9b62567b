import Mathlib.Data.Int.Order.Basic
import Mathlib.Tactic.Common

/-!
# Integer stairs

The staircase `stair p q r n = (p * n + r) / q` climbs `p` in every `q` steps, as evenly as integers
can. Calendar formulas use it for days in a cycle of years or months. Division rounds down.

* `stair_le_iff`: the staircase has an adjoint, which is a quotient again: `stepAt p q r a` is the
  last step that is not above `a`.
* `stepAt_eq`: it is the one step between whose ends `a` stands.
-/

namespace Verif

variable {p q r a n : Int}

/-- The height of the step `n`. -/
def stair (p q r n : Int) : Int := (p * n + r) / q

/-- The last step that is not above `a`. -/
def stepAt (p q r a : Int) : Int := (q * a + (q - 1 - r)) / p

theorem stair_le_iff (hp : 0 < p) (hq : 0 < q) : stair p q r n ≤ a ↔ n ≤ stepAt p q r a := by
  have hstair : stair p q r n < a + 1 ↔ p * n + r < (a + 1) * q := Int.ediv_lt_iff_lt_mul hq
  have hstep : n ≤ stepAt p q r a ↔ n * p ≤ q * a + (q - 1 - r) := Int.le_ediv_iff_mul_le hp
  have hcomm : n * p = p * n := Int.mul_comm n p
  have hexpand : (a + 1) * q = q * a + q := by rw [Int.add_mul, Int.one_mul, Int.mul_comm a q]
  omega

theorem stepAt_eq (hp : 0 < p) (hq : 0 < q) (hle : stair p q r n ≤ a)
    (hlt : a < stair p q r (n + 1)) : stepAt p q r a = n := by
  have hle' := (stair_le_iff hp hq).mp hle
  have hlt' := mt (stair_le_iff (a := a) (r := r) (n := n + 1) hp hq).mpr
  omega

end Verif
