import Mathlib.Data.List.Induction
import Mathlib.Tactic.Common

/-!
# Runs of a machine, invariants and simulation

A machine is a step function `step : σ → ι → σ × ο`: an input takes a state to the next state
and an output. `run` feeds a list of inputs; `Guarded ok` says that every input of a run is
admissible in the state that receives it.

* `run_simulates`: when every admissible step of one machine is a step of another one with the
  same output, so is every admissible run.

A machine without outputs is a step function `σ → ι → σ`, and its runs are folds.

* `foldl_invariant`: what every step keeps, every run keeps; `legal_invariant`: the same when each
  input of the run is admissible (`Legal`); `legal_induction`: for what speaks of the inputs too.
* `legal_simulates`: a step of one machine may be several steps of the other, or none. `Leads`: for
  a machine that is a part of another one.
* `safe_iff`: a property that an invariant gives and that a bad step breaks holds after every part
  of a run exactly when no step is bad. `safe_end_iff`: for a property that is never regained it is
  enough to look at the end.
* `forall_log_iff`: for a log that the steps extend, what holds of all entries at the end holds of
  the entries that each step adds in the state that it starts from.
* `Since`: something has started and not ended; `flag_iff_since`: what a flag of the state says of
  the run.
* `le_served_iff`: a machine that does at most one job in a step has done all jobs exactly when at
  no time more jobs are missing than steps are left.
-/

namespace Verif

variable {σ τ ι ο : Type}

/-- The state after the inputs, and the outputs in order. -/
def run (step : σ → ι → σ × ο) : σ → List ι → σ × List ο
  | s, [] => (s, [])
  | s, i :: is =>
    let r := step s i
    let t := run step r.1 is
    (t.1, r.2 :: t.2)

/-- Each input of the run meets `ok` in the state that receives it. -/
def Guarded (step : σ → ι → σ × ο) (ok : σ → ι → Prop) : σ → List ι → Prop
  | _, [] => True
  | s, i :: is => ok s i ∧ Guarded step ok (step s i).1 is

section

variable {step : σ → ι → σ × ο} {ok : σ → ι → Prop}

instance guardedDecidable [∀ s i, Decidable (ok s i)] :
    ∀ s is, Decidable (Guarded step ok s is)
  | _, [] => isTrue trivial
  | s, i :: is =>
    have := guardedDecidable (step s i).1 is
    inferInstanceAs (Decidable (ok s i ∧ Guarded step ok (step s i).1 is))

/-- A simulation `R` from `step` to `abs`, with equal outputs. -/
theorem run_simulates {abs : τ → ι → τ × ο} {R : σ → τ → Prop}
    (hstep : ∀ s t i, R s t → ok s i → R (step s i).1 (abs t i).1 ∧ (step s i).2 = (abs t i).2)
    {s : σ} {t : τ} {is : List ι} (hR : R s t) (hg : Guarded step ok s is) :
    R (run step s is).1 (run abs t is).1 ∧ (run step s is).2 = (run abs t is).2 := by
  induction is generalizing s t with
  | nil => exact ⟨hR, rfl⟩
  | cons i is ih =>
    obtain ⟨hR', ho⟩ := hstep s t i hR hg.1
    obtain ⟨hr, hos⟩ := ih hR' hg.2
    exact ⟨hr, by simp only [run, ho, hos]⟩

end

/-! ## Machines without outputs -/

section

variable {step : σ → ι → σ} {I : σ → Prop}

theorem foldl_invariant (hstep : ∀ s i, I s → I (step s i)) {s : σ} (hs : I s) (is : List ι) :
    I (is.foldl step s) := by
  induction is generalizing s with
  | nil => exact hs
  | cons i is ih => exact ih (hstep s i hs)

/-- Two machines that are given the same inputs. -/
def pair (step : σ → ι → σ) (step' : τ → ι → τ) (p : σ × τ) (i : ι) : σ × τ :=
  (step p.1 i, step' p.2 i)

theorem foldl_pair (step : σ → ι → σ) (step' : τ → ι → τ) (s : σ) (t : τ) (is : List ι) :
    is.foldl (pair step step') (s, t) = (is.foldl step s, is.foldl step' t) := by
  induction is generalizing s t with
  | nil => rfl
  | cons i is ih => exact ih (step s i) (step' t i)

/-- The steps of a run are its first step and the steps of the rest. -/
theorem forall_step_cons {Q : σ → ι → Prop} {s : σ} {i : ι} {is : List ι} :
    (∀ pre j post, i :: is = pre ++ j :: post → Q (pre.foldl step s) j) ↔
      Q s i ∧ ∀ pre j post, is = pre ++ j :: post → Q (pre.foldl step (step s i)) j := by
  constructor
  · intro h
    refine ⟨h [] i is rfl, fun pre j post he => ?_⟩
    exact h (i :: pre) j post (by rw [he]; rfl)
  · rintro ⟨hfirst, hrest⟩ pre j post he
    cases pre with
    | nil => cases he; exact hfirst
    | cons i' pre => cases he; exact hrest pre j post rfl

/-- The last input apart. -/
theorem forall_step_snoc {Q : List ι → ι → Prop} {is : List ι} {j : ι} :
    (∀ pre i post, is ++ [j] = pre ++ i :: post → Q pre i) ↔
      (∀ pre i post, is = pre ++ i :: post → Q pre i) ∧ Q is j := by
  constructor
  · intro h
    refine ⟨fun pre i post he => ?_, h is j [] rfl⟩
    exact h pre i (post ++ [j]) (by rw [he]; simp)
  · rintro ⟨hrest, hlast⟩ pre i post he
    rcases List.eq_nil_or_concat post with rfl | ⟨post, j', rfl⟩
    · obtain ⟨rfl, heq⟩ := List.append_inj' he rfl
      cases heq
      exact hlast
    · rw [List.concat_eq_append, ← List.cons_append, ← List.append_assoc] at he
      exact hrest pre i post (List.append_inj' he rfl).1

/-- The entries of the log at the end of a run, by the steps that added them. -/
theorem forall_log_iff {log : σ → List ο} {added : σ → ι → List ο}
    (hI : ∀ s i, I s → I (step s i)) (hlog : ∀ s i, I s → log (step s i) = log s ++ added s i)
    (P : ο → Prop) {s : σ} (hs : I s) (is : List ι) :
    (∀ o ∈ log (is.foldl step s), P o) ↔
      (∀ o ∈ log s, P o) ∧
        ∀ pre i post, is = pre ++ i :: post → ∀ o ∈ added (pre.foldl step s) i, P o := by
  induction is generalizing s with
  | nil => simp
  | cons i is ih =>
    rw [List.foldl_cons, ih (hI s i hs), hlog s i hs]
    simp only [List.mem_append, or_imp, forall_and, and_assoc]
    refine and_congr_right fun _ => ?_
    exact (forall_step_cons (Q := fun s i => ∀ o ∈ added s i, P o)).symm

end

/-! ## Admissible runs -/

section

variable {step : σ → ι → σ} {ok : σ → ι → Prop}

/-- Each input of the run meets `ok` in the state that receives it. -/
def Legal (step : σ → ι → σ) (ok : σ → ι → Prop) : σ → List ι → Prop :=
  Guarded (fun s i => (step s i, ())) ok

instance legalDecidable [∀ s i, Decidable (ok s i)] (s : σ) (is : List ι) :
    Decidable (Legal step ok s is) :=
  inferInstanceAs (Decidable (Guarded (fun s i => (step s i, ())) ok s is))

theorem legal_cons {s : σ} {i : ι} {is : List ι} :
    Legal step ok s (i :: is) ↔ ok s i ∧ Legal step ok (step s i) is := Iff.rfl

theorem legal_iff {s : σ} {is : List ι} :
    Legal step ok s is ↔ ∀ pre i post, is = pre ++ i :: post → ok (pre.foldl step s) i := by
  induction is generalizing s with
  | nil => exact iff_of_true trivial (by simp)
  | cons i is ih => rw [legal_cons, ih, forall_step_cons]

theorem legal_append {s : σ} {is js : List ι} :
    Legal step ok s (is ++ js) ↔ Legal step ok s is ∧ Legal step ok (is.foldl step s) js := by
  induction is generalizing s with
  | nil => exact (and_iff_right trivial).symm
  | cons i is ih => rw [List.cons_append, legal_cons, legal_cons, ih, List.foldl_cons, and_assoc]

theorem legal_snoc {s : σ} {is : List ι} {i : ι} :
    Legal step ok s (is ++ [i]) ↔ Legal step ok s is ∧ ok (is.foldl step s) i := by
  rw [legal_append, legal_cons]
  exact and_congr_right fun _ => and_iff_left trivial

/-- What holds of the empty run and of a run with one more step holds of every run. -/
theorem legal_induction {P : List ι → Prop} {s : σ} (hnil : P [])
    (hsnoc : ∀ is i, Legal step ok s is → ok (is.foldl step s) i → P is → P (is ++ [i]))
    {is : List ι} (h : Legal step ok s is) : P is := by
  induction is using List.reverseRecOn with
  | nil => exact hnil
  | append_singleton is i ih =>
    obtain ⟨his, hi⟩ := legal_snoc.mp h
    exact hsnoc is i his hi (ih his)

theorem legal_of_forall {P : ι → Prop} {is : List ι} (h : ∀ i ∈ is, P i) (s : σ) :
    Legal step (fun _ i => P i) s is := by
  refine legal_iff.mpr fun pre i post he => h i ?_
  rw [he]
  exact List.mem_append_right pre List.mem_cons_self

theorem legal_and {ok' : σ → ι → Prop} {s : σ} {is : List ι} (h : Legal step ok s is)
    (h' : Legal step ok' s is) : Legal step (fun s i => ok s i ∧ ok' s i) s is := by
  rw [legal_iff] at h h' ⊢
  exact fun pre i post he => ⟨h pre i post he, h' pre i post he⟩

theorem legal_invariant {I : σ → Prop} (hstep : ∀ s i, I s → ok s i → I (step s i)) {s : σ}
    (hs : I s) {is : List ι} (hok : Legal step ok s is) : I (is.foldl step s) := by
  induction is generalizing s with
  | nil => exact hs
  | cons i is ih => exact ih (hstep s i hs hok.1) hok.2

/-- When an admissible run of another machine matches every admissible step, one matches every
admissible run. -/
theorem legal_simulates {κ : Type} {step' : τ → κ → τ} {ok' : τ → κ → Prop} {R : σ → τ → Prop}
    (hstep : ∀ s t i, R s t → ok s i →
      ∃ js, Legal step' ok' t js ∧ R (step s i) (js.foldl step' t))
    {s : σ} {t : τ} {is : List ι} (hR : R s t) (hok : Legal step ok s is) :
    ∃ js, Legal step' ok' t js ∧ R (is.foldl step s) (js.foldl step' t) := by
  induction is generalizing s t with
  | nil => exact ⟨[], trivial, hR⟩
  | cons i is ih =>
    obtain ⟨js, hjs, hR'⟩ := hstep s t i hR hok.1
    obtain ⟨ks, hks, hR''⟩ := ih hR' hok.2
    refine ⟨js ++ ks, legal_append.mpr ⟨hjs, hks⟩, ?_⟩
    rw [List.foldl_append]
    exact hR''

/-- An admissible run leads from `s` to `t`. -/
def Leads (step : σ → ι → σ) (ok : σ → ι → Prop) (s t : σ) : Prop :=
  ∃ is, Legal step ok s is ∧ is.foldl step s = t

theorem Leads.refl (s : σ) : Leads step ok s s := ⟨[], trivial, rfl⟩

theorem Leads.next {s t : σ} (h : Leads step ok s t) {i : ι} (hi : ok t i) :
    Leads step ok s (step t i) := by
  obtain ⟨is, his, rfl⟩ := h
  refine ⟨is ++ [i], legal_snoc.mpr ⟨his, hi⟩, ?_⟩
  rw [List.foldl_append]
  rfl

variable {I G : σ → Prop} {bad : σ → ι → Prop}

/-- A property `G` that the invariant `I` gives and that a bad step breaks. -/
theorem safe_iff (hG : ∀ s, I s → G s)
    (hgood : ∀ s i, I s → ok s i → ¬ bad s i → I (step s i))
    (hbad : ∀ s i, I s → ok s i → bad s i → ¬ G (step s i)) {s : σ} (hs : I s) {is : List ι}
    (hok : Legal step ok s is) :
    (∀ pre post, is = pre ++ post → G (pre.foldl step s)) ↔
      ∀ pre i post, is = pre ++ i :: post → ¬ bad (pre.foldl step s) i := by
  induction is generalizing s with
  | nil => simp [hG s hs]
  | cons i is ih =>
    rw [forall_step_cons (Q := fun s i => ¬ bad s i)]
    by_cases hb : bad s i
    · refine iff_of_false (fun h => ?_) fun h => h.1 hb
      exact hbad s i hs hok.1 hb (h [i] is rfl)
    · rw [← ih (hgood s i hs hok.1 hb) hok.2, and_iff_right hb]
      constructor
      · intro h pre post he
        exact h (i :: pre) post (by rw [he]; rfl)
      · intro h pre post he
        cases pre with
        | nil => exact hG s hs
        | cons j pre => cases he; exact h pre post rfl

/-- For a property that no step regains. -/
theorem safe_end_iff (hG : ∀ s, I s → G s) (hlost : ∀ s i, G (step s i) → G s)
    (hgood : ∀ s i, I s → ok s i → ¬ bad s i → I (step s i))
    (hbad : ∀ s i, I s → ok s i → bad s i → ¬ G (step s i)) {s : σ} (hs : I s) {is : List ι}
    (hok : Legal step ok s is) :
    G (is.foldl step s) ↔ ∀ pre i post, is = pre ++ i :: post → ¬ bad (pre.foldl step s) i := by
  rw [← safe_iff hG hgood hbad hs hok]
  constructor
  · rintro h pre post rfl
    rw [List.foldl_append] at h
    -- Backwards through the steps after `pre`.
    induction post using List.reverseRecOn with
    | nil => exact h
    | append_singleton post i ih =>
      rw [List.foldl_append] at h
      refine ih (legal_append.mpr ?_) (hlost _ i h)
      exact ⟨(legal_append.mp hok).1,
        (legal_append.mp (legal_append.mp hok).2).1⟩
  · intro h
    exact h is [] (List.append_nil is).symm

end

/-! ## Since -/

section

variable {step : σ → ι → σ} {starts : σ → ι → Prop} {ends : ι → Prop}

/-- A step of the run has started something that no later step has ended. -/
def Since (step : σ → ι → σ) (starts : σ → ι → Prop) (ends : ι → Prop) (s : σ) (is : List ι) :
    Prop :=
  ∃ pre i post, is = pre ++ i :: post ∧ starts (pre.foldl step s) i ∧ ∀ j ∈ post, ¬ ends j

theorem not_since_nil {s : σ} : ¬ Since step starts ends s [] := by
  rintro ⟨pre, i, post, he, -⟩
  simp at he

theorem since_snoc {s : σ} {is : List ι} {j : ι} :
    Since step starts ends s (is ++ [j]) ↔
      starts (is.foldl step s) j ∨ Since step starts ends s is ∧ ¬ ends j := by
  constructor
  · rintro ⟨pre, i, post, he, hi, hpost⟩
    rcases List.eq_nil_or_concat post with rfl | ⟨post, j', rfl⟩
    · obtain ⟨rfl, heq⟩ := List.append_inj' he rfl
      cases heq
      exact .inl hi
    · rw [List.concat_eq_append] at he hpost
      rw [← List.cons_append, ← List.append_assoc] at he
      obtain ⟨rfl, heq⟩ := List.append_inj' he rfl
      cases heq
      refine .inr ⟨⟨pre, i, post, rfl, hi, fun k hk => hpost k ?_⟩, hpost j ?_⟩
      · exact List.mem_append_left [j] hk
      · exact List.mem_append_right post List.mem_cons_self
  · rintro (hj | ⟨⟨pre, i, post, rfl, hi, hpost⟩, hj⟩)
    · exact ⟨is, j, [], rfl, hj, by simp⟩
    · refine ⟨pre, i, post ++ [j], by simp, hi, fun k hk => ?_⟩
      rcases List.mem_append.mp hk with hk | hk
      · exact hpost k hk
      · rw [List.mem_singleton.mp hk]
        exact hj

/-- A flag `F` that some steps set and others clear tells what has happened last. -/
theorem flag_iff_since {F : σ → Prop} (hset : ∀ s i, starts s i → F (step s i))
    (hclear : ∀ s i, ends i → ¬ F (step s i))
    (hkeep : ∀ s i, ¬ starts s i → ¬ ends i → (F (step s i) ↔ F s)) {s : σ} (hs : ¬ F s)
    (is : List ι) : F (is.foldl step s) ↔ Since step starts ends s is := by
  induction is using List.reverseRecOn with
  | nil => exact iff_of_false hs not_since_nil
  | append_singleton is i ih =>
    rw [List.foldl_append, List.foldl_cons, List.foldl_nil, since_snoc, ← ih]
    by_cases hstart : starts (is.foldl step s) i
    · exact iff_of_true (hset _ i hstart) (.inl hstart)
    by_cases hend : ends i
    · exact iff_of_false (hclear _ i hend) fun h => h.elim hstart fun h => h.2 hend
    · rw [hkeep _ i hstart hend]
      exact ⟨fun h => .inr ⟨h, hend⟩, fun h => h.elim (absurd · hstart) And.left⟩

theorem not_since_of_legal {s : σ} {is post : List ι}
    (h : Legal step (fun s i => ¬ starts s i) s (is ++ post)) : ¬ Since step starts ends s is := by
  rintro ⟨pre, i, mid, rfl, hi, -⟩
  exact legal_iff.mp h pre i (mid ++ post) (by simp) hi

end

/-! ## One job in a step -/

/-- How many jobs have been done after the inputs, when each step does one of the jobs that have
come so far. `arrived` counts them by the inputs; `done` of them had been done after `pre`. -/
def served (arrived : List ι → Nat) (pre : List ι) (done : Nat) : List ι → Nat
  | [] => done
  | i :: is => served arrived (pre ++ [i]) (min (arrived (pre ++ [i])) (done + 1)) is

theorem le_served_iff {arrived : List ι → Nat} {pre : List ι} {n done : Nat} {is : List ι} :
    n ≤ served arrived pre done is ↔
      n ≤ done + is.length ∧
        ∀ i is₁ is₂, is = i :: is₁ ++ is₂ → n ≤ arrived (pre ++ i :: is₁) + is₂.length := by
  induction is generalizing pre done with
  | nil => simp [served]
  | cons i is ih =>
    simp only [served, ih, List.length_cons]
    constructor
    · rintro ⟨hfirst, hrest⟩
      refine ⟨by omega, ?_⟩
      intro i' is₁ is₂ he
      rw [List.cons_append, List.cons.injEq] at he
      obtain ⟨rfl, rfl⟩ := he
      cases is₁ with
      | nil => rw [List.nil_append] at hfirst; omega
      | cons j is₁ => simpa using hrest j is₁ is₂ rfl
    · rintro ⟨hfirst, hrest⟩
      have hnow := hrest i [] is rfl
      refine ⟨by omega, fun j is₁ is₂ he => ?_⟩
      simpa using hrest i (j :: is₁) is₂ (by rw [he]; rfl)

end Verif
