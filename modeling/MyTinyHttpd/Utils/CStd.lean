import Mathlib.Data.List.DropRight
import Mathlib.Data.Nat.Digits.Lemmas
import MyTinyHttpd.Lib.Numeral
import MyTinyHttpd.Lib.Seq

/-!
# The C and C++ standard library, as the program uses it

Bytes are `UInt8`, a `std::string` is the list of its bytes. Conversions between integer types
wrap (`castInt`, `castLong`, `castSizeT`); `strtol` saturates.
-/

namespace MyTinyHttpd

/-- The bytes of a string literal (all of them ASCII in the source). -/
def ascii (s : String) : List UInt8 := s.toList.map fun c => UInt8.ofNat c.toNat

/-- The length of a literal, from its characters. -/
theorem length_ascii_ofList (cs : List Char) : (ascii (String.ofList cs)).length = cs.length := by
  simp [ascii]

theorem length_ascii_append_le {s t : String} {m n : Nat} (hs : (ascii s).length ≤ m)
    (ht : (ascii t).length ≤ n) : (ascii (s ++ t)).length ≤ m + n := by
  simp only [ascii, String.toList_append, List.map_append, List.length_append] at hs ht ⊢
  omega

/-- `static_cast<int>` of a `size_t`. -/
def castInt (n : Nat) : Int := Int.bmod n (2 ^ 32)

/-- `static_cast<long>` of a `size_t`. -/
def castLong (n : Nat) : Int := Int.bmod n (2 ^ 64)

/-- The conversion of a signed integer to `size_t`. -/
def castSizeT (i : Int) : Nat := (i % 2 ^ 64).toNat

theorem castInt_of_lt {n : Nat} (h : n < 2 ^ 31) : castInt n = n :=
  Int.bmod_eq_of_le (by omega) (by omega)

theorem castLong_of_lt {n : Nat} (h : n < 2 ^ 63) : castLong n = n :=
  Int.bmod_eq_of_le (by omega) (by omega)

theorem castLong_le (n : Nat) : castLong n ≤ n := by
  unfold castLong
  rw [Int.bmod_def]
  split <;> omega

theorem castSizeT_of_lt {n : Nat} (h : n < 2 ^ 64) : castSizeT n = n := by
  unfold castSizeT
  rw [Int.emod_eq_of_lt (by omega) (by omega)]
  rfl

/-- `std::string::assign(first, last)` of a range of `mem`. An inverted range has a negative
length, which `assign` takes for a huge one: it throws `std::length_error` (`none`). -/
def assign (mem : List UInt8) (first : Nat) (last : Int) : Option (List UInt8) :=
  if first ≤ last then some ((mem.drop first).take (last.toNat - first)) else none

theorem assign_of_le {mem : List UInt8} {first last : Nat} (h : first ≤ last) :
    assign mem first last = some ((mem.drop first).take (last - first)) := by
  simp [assign, h]

theorem assign_of_lt {mem : List UInt8} {first last : Nat} (h : last < first) :
    assign mem first last = none := by
  simp [assign, h]

/-- `isspace` in the C locale. -/
def isSpace (c : UInt8) : Bool := c = 32 || (9 ≤ c && c ≤ 13)

/-- `isdigit`. -/
def isDigit (c : UInt8) : Bool := 48 ≤ c && c ≤ 57

def longMax : Int := 2 ^ 63 - 1

def longMin : Int := -2 ^ 63

/-- The value of a run of decimal digits. -/
def digitsValue (ds : List UInt8) : Nat := ds.foldl (fun acc d => 10 * acc + (d.toNat - 48)) 0

/-- `strtol(s, nullptr, 10)`: blanks, an optional sign, and the longest run of digits, which the
NUL after the string's last byte ends at the latest. Out-of-range values saturate. -/
def strtol (s : List UInt8) : Int :=
  let s := s.dropWhile isSpace
  let negative := s.head? = some 45
  let s := if s.head? = some 45 ∨ s.head? = some 43 then s.tail else s
  let v : Int := digitsValue (s.takeWhile isDigit)
  if negative then max longMin (-v) else min longMax v

/-- The decimal digits of `n`, as `printf` writes a non-negative value. -/
def decimal (n : Nat) : List UInt8 :=
  if n = 0 then [48] else (Nat.digits 10 n).reverse.map fun d => UInt8.ofNat (48 + d)

/-- `snprintf` into an array of `size` bytes: the text is cut to leave room for the NUL. -/
def snprintf (size : Nat) (text : List UInt8) : List UInt8 := text.take (size - 1)

/-- `%d` and its like. -/
def decimalInt (i : Int) : List UInt8 :=
  if i < 0 then 45 :: decimal i.natAbs else decimal i.toNat

/-- `%0wd`: zeros between the sign and the digits, up to `w` bytes. -/
def decimalPad (w : Nat) (i : Int) : List UInt8 :=
  let sign : List UInt8 := if i < 0 then [45] else []
  let ds := decimal i.natAbs
  sign ++ List.replicate (w - (sign.length + ds.length)) 48 ++ ds

/-- The characters of a string up to its first NUL: what a C function gets of it. -/
def cStr (s : List UInt8) : List UInt8 := s.takeWhile (· ≠ 0)

theorem cStr_append_of_not_mem {s : List UInt8} (h : 0 ∉ s) (t : List UInt8) :
    cStr (s ++ t) = s ++ cStr t := by
  refine List.takeWhile_append_of_pos fun a ha => ?_
  simp only [ne_eq, decide_not, Bool.not_eq_true', decide_eq_false_iff_not]
  rintro rfl
  exact h ha

theorem cStr_of_not_mem {s : List UInt8} (h : 0 ∉ s) : cStr s = s := by
  simpa [cStr] using cStr_append_of_not_mem h []

theorem cStr_append_of_mem {s : List UInt8} (h : 0 ∈ s) (t : List UInt8) :
    cStr (s ++ t) = cStr s := by
  obtain ⟨s₁, s₂, rfl, hs₁⟩ := List.eq_append_cons_of_mem h
  rw [List.append_assoc, cStr_append_of_not_mem hs₁, cStr_append_of_not_mem hs₁]
  simp [cStr]

/-! ## `strtol` reads back what `printf` writes -/

theorem digit_byte {d : Nat} (h : d < 10) :
    isDigit (UInt8.ofNat (48 + d)) = true ∧ (UInt8.ofNat (48 + d)).toNat - 48 = d := by
  have : d = 0 ∨ d = 1 ∨ d = 2 ∨ d = 3 ∨ d = 4 ∨ d = 5 ∨ d = 6 ∨ d = 7 ∨ d = 8 ∨ d = 9 := by omega
  rcases this with rfl | rfl | rfl | rfl | rfl | rfl | rfl | rfl | rfl | rfl <;> decide

theorem isDigit_of_mem_decimal {n : Nat} {c : UInt8} (h : c ∈ decimal n) : isDigit c = true := by
  unfold decimal at h
  split at h
  · simp only [List.mem_singleton] at h; subst h; decide
  · simp only [List.mem_map, List.mem_reverse] at h
    obtain ⟨d, hd, rfl⟩ := h
    exact (digit_byte (Nat.digits_lt_base (by decide) hd)).1

theorem decimal_ne_nil (n : Nat) : decimal n ≠ [] := by
  unfold decimal
  split
  · simp
  · rename_i h; simpa [Nat.digits_eq_nil_iff_eq_zero] using h

theorem digitsValue_map_reverse (ds : List Nat) (h : ∀ d ∈ ds, d < 10) :
    digitsValue (ds.reverse.map fun d => UInt8.ofNat (48 + d)) = Nat.ofDigits 10 ds := by
  rw [List.map_reverse]
  exact Verif.foldl_map_reverse (fun d hd => (digit_byte hd).2) h

theorem digitsValue_decimal (n : Nat) : digitsValue (decimal n) = n := by
  unfold decimal
  split
  · rename_i h; subst h; rfl
  · rw [digitsValue_map_reverse _ fun d hd => Nat.digits_lt_base (by decide) hd,
      Nat.ofDigits_digits]

theorem isSpace_of_isDigit {c : UInt8} (h : isDigit c = true) : isSpace c = false := by
  simp only [isDigit, isSpace, Bool.and_eq_true, decide_eq_true_eq, Bool.or_eq_false_iff,
    decide_eq_false_iff_not, Bool.and_eq_false_iff, UInt8.le_iff_toNat_le] at h ⊢
  simp only [← UInt8.toNat_inj] at h ⊢
  simp at h ⊢; omega

theorem strtol_le (s : List UInt8) : strtol s ≤ longMax := by
  unfold strtol
  simp only
  split
  · simp only [longMin, longMax]
    omega
  · exact Int.min_le_left ..

/-- A string of digits within `long` reads as its value. -/
theorem strtol_of_isDigit {s : List UInt8} (h : ∀ c ∈ s, isDigit c = true)
    (hlt : digitsValue s < 2 ^ 63) : strtol s = digitsValue s := by
  have hsp : s.dropWhile isSpace = s := by
    cases s with
    | nil => rfl
    | cons c s => simp [isSpace_of_isDigit (h c (by simp))]
  have hsign : ∀ k : UInt8, isDigit k = false → ¬ s.head? = some k := by
    intro k hk hh
    have := h k (List.mem_of_mem_head? hh)
    simp [hk] at this
  have htw : s.takeWhile isDigit = s := List.takeWhile_eq_self_iff.mpr h
  simp only [strtol, hsp, hsign 45 (by decide), hsign 43 (by decide), or_self, ↓reduceIte, htw,
    longMax]
  omega

theorem strtol_decimal {n : Nat} (h : n < 2 ^ 63) : strtol (decimal n) = n := by
  have hv := digitsValue_decimal n
  rw [strtol_of_isDigit (fun _ hc => isDigit_of_mem_decimal hc) (by omega), hv]

/-! ## What `snprintf` does not cut -/

theorem snprintf_of_lt {size : Nat} {text : List UInt8} (h : text.length < size) :
    snprintf size text = text := List.take_of_length_le (by omega)

theorem length_decimal_le {n k : Nat} (h : n < 10 ^ k) (hk : 0 < k) : (decimal n).length ≤ k := by
  unfold decimal
  split
  · exact hk
  · rw [List.length_map, List.length_reverse]
    exact (Nat.digits_length_le_iff (by decide) n).mpr h

theorem decimal_injective : Function.Injective decimal :=
  Function.LeftInverse.injective digitsValue_decimal

end MyTinyHttpd
