import Mathlib.Data.List.Induction
import Mathlib.Tactic.Common

/-!
# Lexical resolution of paths

A path is a sequence of names between separators. Read from the left, the empty name and `dot`
stay where they are, `dot dot` goes up and any other name goes down. `resolve` says where a path
leads: so many levels above the start (for a relative path), and then down these names. At the root
of an absolute path `dot dot` stays there.

* `walk_eq`: to go on from a place with the names of a path is to go up by what the path climbs
  above its start, and then down its names.
* `below_join_iff`: when the path below a directory leads to a place in the directory.
-/

namespace Verif

namespace LexPath

variable {α : Type}

/-- A place: levels above the start, and the names down from there. -/
structure Place (α : Type) where
  up : Nat
  names : List (List α)
  deriving DecidableEq

def here : Place α := ⟨0, []⟩

/-- One level up. -/
def leave (root : Bool) (p : Place α) : Place α :=
  if p.names = [] then if root then p else ⟨p.up + 1, []⟩
  else ⟨p.up, p.names.dropLast⟩

/-- The place where `climb`, seen from `p`, is. -/
def onward (root : Bool) (p climb : Place α) : Place α :=
  ⟨if root then p.up else p.up + (climb.up - p.names.length),
    p.names.take (p.names.length - climb.up) ++ climb.names⟩

theorem leave_onward (root : Bool) (p climb : Place α) :
    leave root (onward root p climb) = onward root p (leave false climb) := by
  by_cases hnames : climb.names = []
  · by_cases hp : p.names.length ≤ climb.up
    -- `climb` is at or above the start of `p`.
    · have h₀ : p.names.length - climb.up = 0 := by omega
      have h₁ : p.names.length - (climb.up + 1) = 0 := by omega
      have h₂ : climb.up + 1 - p.names.length = climb.up - p.names.length + 1 := by omega
      cases root <;> simp [leave, onward, hnames, h₀, h₁, h₂, Nat.add_assoc]
    · have htake : p.names.take (p.names.length - climb.up) ≠ [] := by
        rw [← List.length_pos_iff, List.length_take]
        omega
      have hdrop : (p.names.take (p.names.length - climb.up)).dropLast =
          p.names.take (p.names.length - (climb.up + 1)) := by
        rw [List.dropLast_eq_take, List.length_take, List.take_take]
        congr 1
        omega
      have h₀ : climb.up - p.names.length = 0 := by omega
      have h₁ : climb.up + 1 - p.names.length = 0 := by omega
      simp only [leave, onward, hnames, List.append_nil, htake, hdrop, h₀, h₁, Bool.false_eq_true,
        ↓reduceIte]
  · have hne : p.names.take (p.names.length - climb.up) ++ climb.names ≠ [] := by simp [hnames]
    simp only [leave, onward, hnames, hne, ↓reduceIte, List.dropLast_append_of_ne_nil hnames]

variable [DecidableEq α]

section

variable (sep dot : α) (root : Bool)

/-- One name. -/
def enter (p : Place α) (name : List α) : Place α :=
  if name = [] ∨ name = [dot] then p
  else if name = [dot, dot] then leave root p
  else ⟨p.up, p.names ++ [name]⟩

def walk (p : Place α) (names : List (List α)) : Place α := names.foldl (enter dot root) p

def isAbsolute (path : List α) : Bool := path.head? = some sep

/-- Where the path leads. -/
def resolve (path : List α) : Place α := walk dot (isAbsolute sep path) here (path.splitOn sep)

/-- The path leads to the directory or below it. -/
def Below (dir path : List α) : Prop :=
  isAbsolute sep path = isAbsolute sep dir ∧ (resolve sep dot path).up = (resolve sep dot dir).up ∧
    (resolve sep dot dir).names <+: (resolve sep dot path).names

instance (dir path : List α) : Decidable (Below sep dot dir path) :=
  inferInstanceAs (Decidable (_ ∧ _ ∧ _))

/-- The directory, a separator if it does not end with one, and the path. -/
def join (dir path : List α) : List α :=
  dir ++ (if dir.getLast? ≠ some sep then [sep] else []) ++ path

/-- The path does not leave the directory for good: the names that it goes down after its highest
point are first those that it has climbed. -/
def Confined (dir path : List α) : Prop :=
  let climb := walk dot false here (path.splitOn sep)
  let names := (resolve sep dot dir).names
  (isAbsolute sep dir = true ∨ climb.up ≤ names.length) ∧
    names.drop (names.length - climb.up) <+: climb.names

instance (dir path : List α) : Decidable (Confined sep dot dir path) :=
  inferInstanceAs (Decidable ((_ ∨ _) ∧ _))

end

variable {sep dot : α} {root : Bool}

theorem walk_append (p : Place α) (xs ys : List (List α)) :
    walk dot root p (xs ++ ys) = walk dot root (walk dot root p xs) ys := List.foldl_append

theorem walk_snoc (p : Place α) (xs : List (List α)) (name : List α) :
    walk dot root p (xs ++ [name]) = enter dot root (walk dot root p xs) name := by
  rw [walk_append]
  rfl

theorem walk_nil_name (p : Place α) : walk dot root p [[]] = p := by
  simp [walk, enter]

/-- Going on from the place `p`. -/
theorem walk_eq (p : Place α) (names : List (List α)) :
    walk dot root p names = onward root p (walk dot false here names) := by
  induction names using List.reverseRecOn with
  | nil => simp [walk, here, onward]
  | append_singleton names name ih =>
    simp only [walk_snoc, ih]
    generalize walk dot false here names = climb
    unfold enter
    split
    · rfl
    split
    · exact leave_onward root p climb
    · simp [onward]

/-! ## Joining -/

theorem splitOn_append_sep (xs ys : List α) :
    (xs ++ sep :: ys).splitOn sep = xs.splitOn sep ++ ys.splitOn sep :=
  List.splitOnP_append_cons xs ys (by simp)

theorem isAbsolute_append {dir : List α} (h : dir ≠ []) (path : List α) :
    isAbsolute sep (dir ++ path) = isAbsolute sep dir := by
  cases dir with
  | nil => exact absurd rfl h
  | cons a dir => rfl

theorem isAbsolute_join {dir : List α} (h : dir ≠ []) (path : List α) :
    isAbsolute sep (join sep dir path) = isAbsolute sep dir := by
  rw [join, List.append_assoc, isAbsolute_append h]

/-- A path is read on from where the directory leads. -/
theorem resolve_join {dir : List α} (h : dir ≠ []) (path : List α) :
    resolve sep dot (join sep dir path) =
      walk dot (isAbsolute sep dir) (resolve sep dot dir) (path.splitOn sep) := by
  rw [resolve, isAbsolute_join h, join]
  by_cases hlast : dir.getLast? = some sep
  -- The separator at the end of the directory adds an empty name to it.
  · obtain ⟨d, rfl⟩ := List.getLast?_eq_some_iff.mp hlast
    have hdir : (d ++ [sep]).splitOn sep = d.splitOn sep ++ [[]] := splitOn_append_sep d []
    rw [if_neg (by simp [hlast]), List.append_nil, List.append_assoc, List.singleton_append,
      splitOn_append_sep, walk_append, resolve, hdir, walk_append, walk_nil_name]
  · rw [if_pos hlast, List.append_assoc, List.singleton_append, splitOn_append_sep, walk_append,
      resolve]

/-- **When a path below a directory leads to a place in it.** -/
theorem below_join_iff {dir : List α} (h : dir ≠ []) (path : List α) :
    Below sep dot dir (join sep dir path) ↔ Confined sep dot dir path := by
  unfold Below Confined
  rw [isAbsolute_join h, resolve_join h, walk_eq]
  generalize walk dot false here (path.splitOn sep) = climb
  generalize resolve sep dot dir = p
  have hprefix : p.names <+: p.names.take (p.names.length - climb.up) ++ climb.names ↔
      p.names.drop (p.names.length - climb.up) <+: climb.names := by
    nth_rewrite 1 [← List.take_append_drop (p.names.length - climb.up) p.names]
    exact List.prefix_append_right_inj _
  simp only [onward, true_and, hprefix]
  refine and_congr_left fun _ => ?_
  cases isAbsolute sep dir with
  | true => simp
  | false => simp; omega

end LexPath

end Verif
