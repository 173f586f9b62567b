import Mathlib.Data.List.Chain
import Mathlib.Tactic.Common

/-!
# Keeping the last value

A machine that computes a value for each input, and takes the value of the last input again if the
new one has the same key. The computation may fail, and then there is no run.

* `memoRun`: the values of a run. `memoRun_defined`: there are some if no computation fails.
* `memoRun_eq_iff`: they are the computed ones exactly if inputs that follow each other with the
  same key have the same value, the first one that which was there before.
-/

namespace Verif

variable {ι κ ω : Type} [DecidableEq κ]

/-- The values for the inputs, with the key and the value of the input before. -/
def memoRun (key : ι → κ) (compute : ι → Option ω) : κ → ω → List ι → Option (List ω)
  | _, _, [] => some []
  | k, w, i :: is =>
    (if key i = k then some w else compute i).bind fun w' =>
      (memoRun key compute (key i) w' is).map (w' :: ·)

variable {key : ι → κ} {compute : ι → Option ω} {k : κ} {w : ω} {is : List ι} {ws : List ω}

theorem memoRun_defined (key : ι → κ) (k : κ) (w : ω) (h : ∀ i ∈ is, (compute i).isSome) :
    ∃ ws, memoRun key compute k w is = some ws := by
  induction is generalizing k w with
  | nil => exact ⟨[], rfl⟩
  | cons i is ih =>
    obtain ⟨hi, his⟩ := List.forall_mem_cons.mp h
    obtain ⟨w', hw'⟩ : ∃ w', (if key i = k then some w else compute i) = some w' := by
      split
      · exact ⟨w, rfl⟩
      · exact Option.isSome_iff_exists.mp hi
    obtain ⟨ws, hws⟩ := ih (key i) w' his
    refine ⟨w' :: ws, ?_⟩
    rw [memoRun, hw', Option.bind_some, hws, Option.map_some]

theorem memoRun_eq_iff (h : memoRun key compute k w is = some ws) :
    ws.map some = is.map compute ↔
      (∀ i ∈ is.head?, key i = k → compute i = some w) ∧
        is.IsChain fun i j => key j = key i → compute j = compute i := by
  induction is generalizing k w ws with
  | nil =>
    obtain rfl := Option.some.inj h
    simp
  | cons i is ih =>
    obtain ⟨w', hw', h⟩ := Option.bind_eq_some_iff.mp h
    obtain ⟨ws', hrun, rfl⟩ := Option.map_eq_some_iff.mp h
    have hfirst : some w' = compute i ↔ (key i = k → compute i = some w) := by
      by_cases hk : key i = k
      · rw [if_pos hk] at hw'
        obtain rfl := Option.some.inj hw'
        exact ⟨fun h _ => h.symm, fun h => (h hk).symm⟩
      · rw [if_neg hk] at hw'
        exact iff_of_true hw'.symm fun h => absurd h hk
    rw [List.map_cons, List.map_cons, List.cons.injEq, ih hrun, List.isChain_cons]
    simp only [List.head?_cons, Option.mem_def, Option.some.injEq, forall_eq', ← hfirst]
    constructor
    · rintro ⟨hi, hnext, hchain⟩
      exact ⟨hi, hi ▸ hnext, hchain⟩
    · rintro ⟨hi, hnext, hchain⟩
      exact ⟨hi, hi ▸ hnext, hchain⟩

end Verif
