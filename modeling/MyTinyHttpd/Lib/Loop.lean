import Mathlib.Tactic.Common

/-!
# While loops that may not end

`whileLoop cond body fuel s` runs `while (cond) body` from the state `s`, evaluating the condition
at most `fuel` times. `none` means that the loop has not ended within the fuel; an exception
thrown by the body ends the loop with `.error`.

* `whileLoop_mono`: more fuel never changes a result, so a result is the loop's.
* `whileLoop_total`: an invariant and a measure that each repeating iteration makes smaller end
  the loop with a fuel that only depends on the measure.
* `whileLoop_variant`: the same for a body that throws nothing, with the invariant at each
  evaluation of the condition.
* `whileLoop_stuck`: an invariant under which the loop always repeats keeps it from ending, for
  every fuel.
* `LoopHead`: the states in which the condition is evaluated, `LoopHead.invariant`: what the body
  keeps holds in them.
-/

namespace Verif

variable {σ ε : Type}

/-- `while (cond s) s = body s`, with at most `fuel` evaluations of the condition. -/
def whileLoop (cond : σ → Bool) (body : σ → Except ε σ) : Nat → σ → Option (Except ε σ)
  | 0, _ => none
  | n + 1, s =>
    if cond s then
      match body s with
      | .error e => some (.error e)
      | .ok s' => whileLoop cond body n s'
    else some (.ok s)

section Rules

variable {cond : σ → Bool} {body : σ → Except ε σ} {s s' : σ} {n : Nat}

theorem whileLoop_exit (h : cond s = false) : whileLoop cond body (n + 1) s = some (.ok s) := by
  simp [whileLoop, h]

theorem whileLoop_next (h : cond s = true) (hb : body s = .ok s') :
    whileLoop cond body (n + 1) s = whileLoop cond body n s' := by
  simp [whileLoop, h, hb]

theorem whileLoop_throw {e : ε} (h : cond s = true) (hb : body s = .error e) :
    whileLoop cond body (n + 1) s = some (.error e) := by
  simp [whileLoop, h, hb]

/-- The last iteration of a loop: the body clears the condition. -/
theorem whileLoop_last (h : cond s = true) (hb : body s = .ok s') (h' : cond s' = false) :
    whileLoop cond body (n + 2) s = some (.ok s') := by
  rw [whileLoop_next h hb, whileLoop_exit h']

theorem whileLoop_mono {r : Except ε σ} {m : Nat} (h : whileLoop cond body n s = some r)
    (hm : n ≤ m) : whileLoop cond body m s = some r := by
  induction n generalizing s m with
  | zero => simp [whileLoop] at h
  | succ n ih =>
    obtain ⟨m, rfl⟩ : ∃ k, m = k + 1 := ⟨m - 1, by omega⟩
    cases hc : cond s with
    | false => rw [whileLoop_exit hc] at h ⊢; exact h
    | true =>
      cases hb : body s with
      | error e => rw [whileLoop_throw hc hb] at h ⊢; exact h
      | ok s' =>
        rw [whileLoop_next hc hb] at h ⊢
        exact ih h (by omega)

/-- Total correctness: `inv` is kept and `m` gets smaller while the loop repeats. The fuel
`m s + 2` pays for the repeating iterations, the last one and the evaluation that ends the
loop. -/
theorem whileLoop_total (inv : σ → Prop) (m : σ → Nat) (post : Except ε σ → Prop)
    (hc : ∀ s, inv s → cond s = true)
    (herr : ∀ s e, inv s → body s = .error e → post (.error e))
    (hrep : ∀ s s', inv s → body s = .ok s' → cond s' = true → inv s' ∧ m s' < m s)
    (hend : ∀ s s', inv s → body s = .ok s' → cond s' = false → post (.ok s')) :
    ∀ s, inv s → ∃ r, whileLoop cond body (m s + 2) s = some r ∧ post r := by
  suffices key : ∀ k s, inv s → m s < k → ∃ r, whileLoop cond body (k + 1) s = some r ∧ post r from
    fun s hs => key (m s + 1) s hs (Nat.lt_succ_self _)
  intro k
  induction k with
  | zero => intro s _ hlt; omega
  | succ k ih =>
    intro s hs hlt
    have hcs := hc s hs
    cases hb : body s with
    | error e => exact ⟨.error e, whileLoop_throw hcs hb, herr s e hs hb⟩
    | ok s' =>
      cases hc' : cond s' with
      | false => exact ⟨.ok s', whileLoop_last hcs hb hc', hend s s' hs hb hc'⟩
      | true =>
        obtain ⟨hs', hm⟩ := hrep s s' hs hb hc'
        rw [whileLoop_next hcs hb]
        exact ih s' hs' (by omega)

/-- The rule for an invariant that holds at each evaluation of the condition. -/
theorem whileLoop_variant (inv : σ → Prop) (m : σ → Nat)
    (hbody : ∀ s, inv s → cond s = true → ∃ s', body s = .ok s' ∧ inv s' ∧ m s' < m s) :
    ∀ s, inv s → ∃ s', whileLoop cond body (m s + 1) s = some (.ok s') ∧ inv s' ∧
      cond s' = false := by
  suffices key : ∀ k s, inv s → m s ≤ k →
      ∃ s', whileLoop cond body (k + 1) s = some (.ok s') ∧ inv s' ∧ cond s' = false from
    fun s hs => key (m s) s hs (Nat.le_refl _)
  intro k
  induction k with
  | zero =>
    intro s hs hle
    cases hc : cond s with
    | false => exact ⟨s, whileLoop_exit hc, hs, hc⟩
    | true =>
      obtain ⟨s', -, -, hm⟩ := hbody s hs hc
      omega
  | succ k ih =>
    intro s hs hle
    cases hc : cond s with
    | false => exact ⟨s, whileLoop_exit hc, hs, hc⟩
    | true =>
      obtain ⟨s', hb, hs', hm⟩ := hbody s hs hc
      rw [whileLoop_next hc hb]
      exact ih s' hs' (by omega)

/-- A loop that always repeats does not end, whatever the fuel. -/
theorem whileLoop_stuck (inv : σ → Prop)
    (step : ∀ s, inv s → cond s = true ∧ ∃ s', body s = .ok s' ∧ inv s') :
    ∀ n s, inv s → whileLoop cond body n s = none := by
  intro n
  induction n with
  | zero => intro s _; rfl
  | succ n ih =>
    intro s hs
    obtain ⟨hc, s', hb, hs'⟩ := step s hs
    rw [whileLoop_next hc hb]
    exact ih s' hs'

/-- The condition is evaluated in the state, in the loop that starts in `s`. -/
inductive LoopHead (cond : σ → Bool) (body : σ → Except ε σ) (s : σ) : σ → Prop
  | start : LoopHead cond body s s
  | next {t t' : σ} (head : LoopHead cond body s t) (hc : cond t = true) (hb : body t = .ok t') :
    LoopHead cond body s t'

theorem LoopHead.invariant (inv : σ → Prop) (hs : inv s)
    (hbody : ∀ t t', inv t → cond t = true → body t = .ok t' → inv t') {t : σ}
    (h : LoopHead cond body s t) : inv t := by
  induction h with
  | start => exact hs
  | next _ hc hb ih => exact hbody _ _ ih hc hb

end Rules

end Verif
