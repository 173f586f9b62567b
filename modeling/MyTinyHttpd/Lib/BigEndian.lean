import Mathlib.Data.BitVec
import Mathlib.Tactic.Common

/-!
# Integers as bytes, the most significant first

`toBytes n x` are the `n` bytes of `x` in network order, `ofBytes` the value of a sequence of bytes.

* `ofBytes_toBytes`: `n` bytes hold the value modulo `256 ^ n`.
* `toBytes_ofBytes`: every sequence of bytes is that of its value.
* `ofNat_ofBytes_toBytes`, `toBytes_ofNat_ofBytes`: the same for words of `n` bytes.
-/

namespace Verif

/-- The last `n` bytes of `x`. -/
def toBytes : Nat → Nat → List UInt8
  | 0, _ => []
  | n + 1, x => toBytes n (x / 256) ++ [UInt8.ofNat x]

def ofBytes (bs : List UInt8) : Nat := bs.foldl (fun acc b => 256 * acc + b.toNat) 0

@[simp] theorem length_toBytes (n x : Nat) : (toBytes n x).length = n := by
  induction n generalizing x with
  | zero => rfl
  | succ n ih => simp [toBytes, ih]

theorem ofBytes_snoc (bs : List UInt8) (b : UInt8) :
    ofBytes (bs ++ [b]) = 256 * ofBytes bs + b.toNat := by
  simp [ofBytes, List.foldl_append]

theorem ofBytes_toBytes (n x : Nat) : ofBytes (toBytes n x) = x % 256 ^ n := by
  induction n generalizing x with
  | zero => simp [toBytes, ofBytes, Nat.mod_one]
  | succ n ih =>
    have hlast : (UInt8.ofNat x).toNat = x % 256 := by simp
    rw [toBytes, ofBytes_snoc, ih, hlast, Nat.pow_succ, Nat.mul_comm (256 ^ n) 256, Nat.mod_mul]
    omega

theorem toBytes_ofBytes (bs : List UInt8) : toBytes bs.length (ofBytes bs) = bs := by
  induction bs using List.reverseRecOn with
  | nil => rfl
  | append_singleton bs b ih =>
    have hdiv : (256 * ofBytes bs + b.toNat) / 256 = ofBytes bs := by
      have := b.toNat_lt
      omega
    have hlast : UInt8.ofNat (256 * ofBytes bs + b.toNat) = b := by
      apply UInt8.toNat_inj.mp
      have := b.toNat_lt
      simp
    rw [List.length_append, List.length_singleton, toBytes, ofBytes_snoc, hdiv, hlast, ih]

/-- A word of `n` bytes is read back from its bytes. -/
theorem ofNat_ofBytes_toBytes {n : Nat} (x : BitVec (8 * n)) :
    BitVec.ofNat (8 * n) (ofBytes (toBytes n x.toNat)) = x := by
  have hpow : 256 ^ n = 2 ^ (8 * n) := by rw [Nat.pow_mul]
  rw [ofBytes_toBytes, hpow, Nat.mod_eq_of_lt x.isLt, BitVec.ofNat_toNat, BitVec.setWidth_eq]

theorem ofBytes_lt (bs : List UInt8) : ofBytes bs < 256 ^ bs.length := by
  have hmod := ofBytes_toBytes bs.length (ofBytes bs)
  rw [toBytes_ofBytes] at hmod
  rw [hmod]
  exact Nat.mod_lt _ (Nat.pow_pos (by decide))

/-- A sequence of bytes is that of the word that it is read as. -/
theorem toBytes_ofNat_ofBytes {n : Nat} {bs : List UInt8} (h : bs.length = n) :
    toBytes n (BitVec.ofNat (8 * n) (ofBytes bs)).toNat = bs := by
  subst h
  have hlt := ofBytes_lt bs
  have hpow : 256 ^ bs.length = 2 ^ (8 * bs.length) := by rw [Nat.pow_mul]
  rw [hpow] at hlt
  rw [BitVec.toNat_ofNat, Nat.mod_eq_of_lt hlt, toBytes_ofBytes]

end Verif
