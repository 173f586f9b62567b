import MyTinyHttpd.Lib.Machine
import MyTinyHttpd.Utils.CStd

/-!
# `base/log_stream.h`, `base/log_stream.cc`

A `FixedBuffer` takes a text that leaves a byte free, and silently drops any other. `LogStream`
writes texts through `Append`, and numbers directly into the array when 48 bytes are free. `overrun`
says that such a write, with its NUL, has gone past the array.

The text that `%.12g` gives for a `double` is an argument here (`DoubleText`). `FormatSi` and
`FormatIec` are left out.

* `LogItem.text`, `LogItem.Fits`: what an item writes, and when.
* `insert_eq`, `insert_data`: what `operator<<` does.
-/

namespace MyTinyHttpd

def kSmallBuffer : Nat := 4000

def kLargeBuffer : Nat := 4000 * 1000

/-- `FixedBuffer<SIZE>`: the bytes from `data_` to `cur_`. -/
structure FixedBuffer (size : Nat) where
  data : List UInt8 := []
  length_le : data.length ≤ size := by exact Nat.zero_le size
  deriving DecidableEq

namespace FixedBuffer

variable {size : Nat}

def avail (b : FixedBuffer size) : Nat := size - b.data.length

def append (b : FixedBuffer size) (buf : List UInt8) : FixedBuffer size :=
  if h : buf.length < b.avail then
    { data := b.data ++ buf
      length_le := by rw [List.length_append]; unfold avail at h; omega }
  else b

def reset (_ : FixedBuffer size) : FixedBuffer size := {}

variable {b : FixedBuffer size} {buf : List UInt8}

theorem append_data (h : buf.length < b.avail) : (b.append buf).data = b.data ++ buf := by
  rw [append, dif_pos h]

theorem append_dropped (h : ¬ buf.length < b.avail) : b.append buf = b := dif_neg h

end FixedBuffer

/-! ## Numbers -/

namespace LogStream

def digits : List UInt8 := ascii "9876543210123456789"

/-- `zero[lsd]`, where `zero` points to the middle of `digits`. -/
def zero (lsd : Int) : UInt8 := digits.getD (9 + lsd).toNat 0

def digitsHex : List UInt8 := ascii "0123456789ABCDEF"

/-- The loop of `Convert`: the digits from the lowest on. -/
def convertLoop : Nat → Int → List UInt8
  | 0, _ => []
  | fuel + 1, i =>
    zero (i.tmod 10) :: if i.tdiv 10 = 0 then [] else convertLoop fuel (i.tdiv 10)

/-- `Convert(buf, value)`, without the NUL. Each iteration makes the number smaller, so there are
not more than `|value| + 1`. -/
def convert (value : Int) : List UInt8 :=
  let p := convertLoop (value.natAbs + 1) value
  let p := if value < 0 then p ++ [45] else p
  p.reverse

def convertHexLoop : Nat → Nat → List UInt8
  | 0, _ => []
  | fuel + 1, i =>
    digitsHex.getD (i % 16) 0 :: if i / 16 = 0 then [] else convertHexLoop fuel (i / 16)

/-- `ConvertHex(buf, value)`, without the NUL. -/
def convertHex (value : UInt64) : List UInt8 :=
  (convertHexLoop (value.toNat + 1) value.toNat).reverse

theorem length_convertLoop_le {k : Nat} (fuel : Nat) {i : Int} (hi : i.natAbs < 10 ^ (k + 1)) :
    (convertLoop fuel i).length ≤ k + 1 := by
  induction fuel generalizing i k with
  | zero => exact Nat.zero_le _
  | succ fuel ih =>
    rw [convertLoop, List.length_cons]
    split
    · exact Nat.succ_le_succ (Nat.zero_le k)
    · rename_i hne
      have hdiv : (i.tdiv 10).natAbs = i.natAbs / 10 := Int.natAbs_tdiv i 10
      cases k with
      | zero =>
        refine absurd (Int.natAbs_eq_zero.mp ?_) hne
        rw [hdiv]
        omega
      | succ k =>
        refine Nat.succ_le_succ (ih ?_)
        rw [hdiv]
        rw [Nat.pow_succ] at hi
        omega

theorem length_convert_le {value : Int} (hge : -2 ^ 63 ≤ value) (hlt : value < 2 ^ 64) :
    (convert value).length ≤ 20 := by
  rw [convert, List.length_reverse]
  split
  · have := length_convertLoop_le (k := 18) (value.natAbs + 1) (i := value) (by omega)
    rw [List.length_append, List.length_singleton]
    omega
  · exact length_convertLoop_le (k := 19) _ (by omega)

theorem length_convertHexLoop_le {k : Nat} (fuel : Nat) {i : Nat} (hi : i < 16 ^ (k + 1)) :
    (convertHexLoop fuel i).length ≤ k + 1 := by
  induction fuel generalizing i k with
  | zero => exact Nat.zero_le _
  | succ fuel ih =>
    rw [convertHexLoop, List.length_cons]
    split
    · exact Nat.succ_le_succ (Nat.zero_le k)
    · rename_i hne
      cases k with
      | zero => omega
      | succ k =>
        refine Nat.succ_le_succ (ih ?_)
        rw [Nat.pow_succ] at hi
        omega

theorem length_convertHex_le (value : UInt64) : (convertHex value).length ≤ 16 := by
  rw [convertHex, List.length_reverse]
  exact length_convertHexLoop_le (k := 15) _ value.toNat_lt

def kMaxNumericSize : Nat := 48

end LogStream

/-! ## The stream -/

open LogStream (convert convertHex kMaxNumericSize)

/-- What `%.12g` gives for a `double`. -/
structure DoubleText where
  text : List UInt8
  length_lt : text.length < kMaxNumericSize

/-- An argument of `operator<<`. A `float` is a `double`, and `const unsigned char*` is
`const char*`. -/
inductive LogItem where
  | bool (v : Bool)
  | char (v : UInt8)
  | short (v : Int16)
  | unsignedShort (v : UInt16)
  | int (v : Int32)
  | unsignedInt (v : UInt32)
  | long (v : Int64)
  | unsignedLong (v : UInt64)
  | longLong (v : Int64)
  | unsignedLongLong (v : UInt64)
  | pointer (v : UInt64)
  | double (v : DoubleText)
  /-- `const char*`, which may be null. -/
  | cString (str : Option (List UInt8))
  /-- `std::string`, `Slice`, `Buffer`, `Fmt`, and what is given to `Append`. -/
  | string (v : List UInt8)

structure LogStream where
  buffer : FixedBuffer kSmallBuffer := ⟨[], Nat.zero_le _⟩
  overrun : Bool := false

namespace LogStream

def append (s : LogStream) (data : List UInt8) : LogStream :=
  { s with buffer := s.buffer.append data }

/-- A text and its NUL are written at `current()`, and `Add` moves it behind the text. -/
def writeCurrent (s : LogStream) (text : List UInt8) : LogStream :=
  if text.length < s.buffer.avail then { s with buffer := s.buffer.append text }
  else { s with overrun := true }

/-- The numbers are written when there is room for the longest. -/
def formatNumber (s : LogStream) (text : List UInt8) : LogStream :=
  if kMaxNumericSize ≤ s.buffer.avail then s.writeCurrent text else s

def formatInteger (s : LogStream) (v : Int) : LogStream := s.formatNumber (convert v)

/-- `operator<<`. -/
def insert (s : LogStream) : LogItem → LogStream
  | .bool v => s.append (if v then ascii "1" else ascii "0")
  | .char v => s.append [v]
  | .short v => s.formatInteger v.toInt
  | .unsignedShort v => s.formatInteger v.toNat
  | .int v => s.formatInteger v.toInt
  | .unsignedInt v => s.formatInteger v.toNat
  | .long v => s.formatInteger v.toInt
  | .unsignedLong v => s.formatInteger v.toNat
  | .longLong v => s.formatInteger v.toInt
  | .unsignedLongLong v => s.formatInteger v.toNat
  | .pointer v => s.formatNumber (ascii "0x" ++ convertHex v)
  | .double v => s.formatNumber v.text
  | .cString none => s.append (ascii "(null)")
  | .cString (some str) => s.append (cStr str)
  | .string v => s.append v

/-- `s << a << b << …`. -/
def insertAll (s : LogStream) (items : List LogItem) : LogStream := items.foldl insert s

end LogStream

/-! ## What an item writes -/

namespace LogItem

def text : LogItem → List UInt8
  | .bool v => if v then ascii "1" else ascii "0"
  | .char v => [v]
  | .short v => convert v.toInt
  | .unsignedShort v => convert v.toNat
  | .int v => convert v.toInt
  | .unsignedInt v => convert v.toNat
  | .long v => convert v.toInt
  | .unsignedLong v => convert v.toNat
  | .longLong v => convert v.toInt
  | .unsignedLongLong v => convert v.toNat
  | .pointer v => ascii "0x" ++ convertHex v
  | .double v => v.text
  | .cString none => ascii "(null)"
  | .cString (some str) => cStr str
  | .string v => v

def isText : LogItem → Bool
  | .bool _ | .char _ | .cString _ | .string _ => true
  | _ => false

/-- The item is written into a buffer of which `used` bytes are taken. -/
def Fits (item : LogItem) (used : Nat) : Prop :=
  if item.isText then used + item.text.length < kSmallBuffer
  else used + kMaxNumericSize ≤ kSmallBuffer

instance (item : LogItem) (used : Nat) : Decidable (item.Fits used) :=
  inferInstanceAs (Decidable (ite _ _ _))

theorem fits_text {item : LogItem} (h : item.isText = true) {used : Nat} :
    item.Fits used ↔ used + item.text.length < kSmallBuffer := by
  rw [Fits, if_pos h]

theorem fits_number {item : LogItem} (h : item.isText = false) {used : Nat} :
    item.Fits used ↔ used + kMaxNumericSize ≤ kSmallBuffer := by
  rw [Fits, if_neg (by simp [h])]

/-- No number is longer than what it asks for. -/
theorem length_text_lt {item : LogItem} (h : item.isText = false) :
    item.text.length < kMaxNumericSize := by
  have hint : ∀ {v : Int}, -2 ^ 63 ≤ v → v < 2 ^ 64 → (convert v).length < kMaxNumericSize :=
    fun hge hlt => Nat.lt_of_le_of_lt (LogStream.length_convert_le hge hlt) (by decide)
  cases item with
  | short v => exact hint (by have := v.le_toInt; omega) (by have := v.toInt_lt; omega)
  | int v => exact hint (by have := v.le_toInt; omega) (by have := v.toInt_lt; omega)
  | long v => exact hint v.le_toInt (by have := v.toInt_lt; omega)
  | longLong v => exact hint v.le_toInt (by have := v.toInt_lt; omega)
  | unsignedShort v => exact hint (by omega) (by have := v.toNat_lt; omega)
  | unsignedInt v => exact hint (by omega) (by have := v.toNat_lt; omega)
  | unsignedLong v => exact hint (by omega) (by have := v.toNat_lt; omega)
  | unsignedLongLong v => exact hint (by omega) (by have := v.toNat_lt; omega)
  | pointer v =>
    have hlen := LogStream.length_convertHex_le v
    have h0x : (ascii "0x").length = 2 := length_ascii_ofList _
    rw [text, List.length_append, h0x, kMaxNumericSize]
    omega
  | double v => exact v.length_lt
  | bool _ | char _ | cString _ | string _ => cases h

theorem Fits.lt {item : LogItem} {used : Nat} (h : item.Fits used) :
    used + item.text.length < kSmallBuffer := by
  by_cases htext : item.isText = true
  · exact (fits_text htext).mp h
  · rw [Bool.not_eq_true] at htext
    have hlt := length_text_lt htext
    rw [fits_number htext] at h
    omega

end LogItem

namespace LogStream

variable {s : LogStream}

/-- The texts and the numbers are written in two ways, each with its own test. -/
theorem insert_cases (s : LogStream) (item : LogItem) :
    s.insert item = if item.isText then s.append item.text else s.formatNumber item.text := by
  cases item with
  | cString str => cases str <;> rfl
  | _ => rfl

theorem insert_eq (s : LogStream) (item : LogItem) :
    s.insert item = if item.Fits s.buffer.data.length then s.append item.text else s := by
  have hle := s.buffer.length_le
  rw [insert_cases]
  by_cases htext : item.isText = true
  · simp only [htext, ↓reduceIte, LogItem.fits_text htext]
    split
    · rfl
    · rename_i hfull
      rw [append, FixedBuffer.append_dropped (by rw [FixedBuffer.avail]; omega)]
  · rw [Bool.not_eq_true] at htext
    have hlt := LogItem.length_text_lt htext
    simp only [htext, Bool.false_eq_true, ↓reduceIte, LogItem.fits_number htext, formatNumber]
    by_cases hroom : s.buffer.data.length + kMaxNumericSize ≤ kSmallBuffer
    · have havail : kMaxNumericSize ≤ s.buffer.avail := by
        rw [FixedBuffer.avail]
        omega
      rw [if_pos hroom, if_pos havail, writeCurrent, if_pos (Nat.lt_of_lt_of_le hlt havail)]
      rfl
    · rw [if_neg hroom, if_neg (by rw [FixedBuffer.avail]; omega)]

theorem insert_data (s : LogStream) (item : LogItem) :
    (s.insert item).buffer.data =
      if item.Fits s.buffer.data.length then s.buffer.data ++ item.text else s.buffer.data := by
  rw [insert_eq]
  split
  · rename_i hfits
    have hlt := hfits.lt
    refine FixedBuffer.append_data ?_
    rw [FixedBuffer.avail]
    omega
  · rfl

/-- A byte stays free. -/
theorem insert_length_lt (h : s.buffer.data.length < kSmallBuffer) (item : LogItem) :
    (s.insert item).buffer.data.length < kSmallBuffer := by
  rw [insert_data]
  split
  · rename_i hfits
    rw [List.length_append]
    exact LogItem.Fits.lt hfits
  · exact h

theorem insertAll_cons (s : LogStream) (item : LogItem) (items : List LogItem) :
    s.insertAll (item :: items) = (s.insert item).insertAll items := rfl

theorem insertAll_append (s : LogStream) (items items' : List LogItem) :
    s.insertAll (items ++ items') = (s.insertAll items).insertAll items' :=
  List.foldl_append

theorem insertAll_length_lt (h : s.buffer.data.length < kSmallBuffer) (items : List LogItem) :
    (s.insertAll items).buffer.data.length < kSmallBuffer :=
  Verif.foldl_invariant (I := fun s : LogStream => s.buffer.data.length < kSmallBuffer)
    (fun _ item h => insert_length_lt h item) h items

end LogStream

end MyTinyHttpd
