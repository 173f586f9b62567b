import MyTinyHttpd.Lib.BigEndian

/-!
# Reading values from the front of a sequence

A reader takes a value from the front of a sequence, or fails. `Reads p ok e` says that `p` undoes
the encoding `e` of the values that are `ok`: it succeeds exactly on the sequences that start with
an encoded value, and leaves what follows.

* `Reads.take`, `Reads.item`, `Reads.word`: a number of elements, one element, a big-endian word.
* `Reads.many`: a number of values, one after the other.
-/

namespace Verif

variable {α β : Type}

abbrev Reader (β α : Type) := List β → Option (α × List β)

namespace Reader

def take (n : Nat) : Reader β (List β) := fun xs =>
  if n ≤ xs.length then some (xs.take n, xs.drop n) else none

def item : Reader β β
  | [] => none
  | x :: xs => some (x, xs)

/-- A word of `n` bytes, the most significant first. -/
def word (n : Nat) : Reader UInt8 (BitVec (8 * n)) := fun xs =>
  (take n xs).map fun r => (BitVec.ofNat (8 * n) (ofBytes r.1), r.2)

def many (p : Reader β α) : Nat → Reader β (List α)
  | 0, xs => some ([], xs)
  | n + 1, xs => (p xs).bind fun r => (many p n r.2).map fun r' => (r.1 :: r'.1, r'.2)

end Reader

/-- `p` reads what `e` writes. -/
structure Reads (p : Reader β α) (ok : α → Prop) (e : α → List β) : Prop where
  iff : ∀ xs a ys, p xs = some (a, ys) ↔ ok a ∧ xs = e a ++ ys

namespace Reads

variable {p : Reader β α} {ok : α → Prop} {e : α → List β}

theorem read (h : Reads p ok e) {a : α} (ha : ok a) (ys : List β) : p (e a ++ ys) = some (a, ys) :=
  (h.iff _ _ _).mpr ⟨ha, rfl⟩

protected theorem take (n : Nat) :
    Reads (Reader.take n : Reader β (List β)) (·.length = n) id where
  iff xs a ys := by
    unfold Reader.take
    constructor
    · split
      · rintro h
        cases h
        exact ⟨by simpa, by simp⟩
      · rintro h
        cases h
    · rintro ⟨hlen, rfl⟩
      rw [if_pos (by simp [hlen])]
      simp [← hlen]

protected theorem item : Reads (Reader.item : Reader β β) (fun _ => True) ([·]) where
  iff xs a ys := by
    cases xs with
    | nil => simp [Reader.item]
    | cons x xs => simp [Reader.item]

protected theorem word (n : Nat) :
    Reads (Reader.word n) (fun _ => True) fun x => toBytes n x.toNat where
  iff xs x ys := by
    unfold Reader.word
    rw [Option.map_eq_some_iff]
    constructor
    · rintro ⟨r, hr, he⟩
      obtain ⟨hlen, rfl⟩ := ((Reads.take n).iff xs r.1 r.2).mp hr
      cases he
      rw [toBytes_ofNat_ofBytes hlen]
      exact ⟨trivial, rfl⟩
    · rintro ⟨-, rfl⟩
      refine ⟨(toBytes n x.toNat, ys), (Reads.take n).read (length_toBytes n _) ys, ?_⟩
      rw [ofNat_ofBytes_toBytes]

protected theorem many (h : Reads p (fun _ => True) e) (n : Nat) :
    Reads (p.many n) (·.length = n) (·.flatMap e) where
  iff xs as ys := by
    induction n generalizing xs as with
    | zero =>
      simp only [Reader.many, Option.some.injEq, Prod.mk.injEq, List.length_eq_zero_iff]
      constructor
      · rintro ⟨rfl, rfl⟩
        exact ⟨rfl, rfl⟩
      · rintro ⟨rfl, rfl⟩
        exact ⟨rfl, rfl⟩
    | succ n ih =>
      simp only [Reader.many, Option.bind_eq_some_iff, Option.map_eq_some_iff, Prod.mk.injEq]
      constructor
      · rintro ⟨⟨a, zs⟩, hfirst, ⟨as', ws⟩, hrest, rfl, rfl⟩
        obtain ⟨-, rfl⟩ := (h.iff xs a zs).mp hfirst
        obtain ⟨hlen, rfl⟩ := (ih zs as').mp hrest
        exact ⟨by simp [hlen], by simp⟩
      · rintro ⟨hlen, rfl⟩
        cases as with
        | nil => cases hlen
        | cons a as =>
          refine ⟨(a, as.flatMap e ++ ys), (h.iff _ _ _).mpr ⟨trivial, by simp⟩, (as, ys), ?_,
            rfl, rfl⟩
          exact (ih _ _).mpr ⟨by simpa using hlen, rfl⟩

end Reads

end Verif
