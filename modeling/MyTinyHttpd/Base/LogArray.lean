import MyTinyHttpd.Base.LogStream
import MyTinyHttpd.Lib.Numeral

/-!
# `base/log_stream.cc`: writing into the array

`Convert` and `ConvertHex` with the stores that they make, and `LogStream` with the array of its
buffer. A store outside the array is `none`.

* `convertTo_eq`, `convertHexTo_eq`: the text and its NUL are stored, and nothing else.
* `convert_numeral`, `convertHex_numeral`: the text is a numeral.
* `convertTo_exact`: both, for every type.
* `Shows`: what a stream has in its array; `insert_shows`: `operator<<` keeps it.
* `insertAll_whole`: no store leaves the array, and no item is cut.
-/

namespace MyTinyHttpd

open Verif

namespace LogStream

/-- `*p = c`. -/
def store (mem : List UInt8) (p : Nat) (c : UInt8) : Option (List UInt8) :=
  if p < mem.length then some (mem.set p c) else none

/-- The loops of `Convert` and `ConvertHex`, from `p` on: the memory and `p` after it. -/
def digitLoop (base : Int) (digit : Int → UInt8) :
    Nat → List UInt8 → Nat → Int → Option (List UInt8 × Nat)
  | 0, _, _, _ => none
  | fuel + 1, mem, p, i =>
    (store mem p (digit (i.tmod base))).bind fun mem =>
      if i.tdiv base ≠ 0 then digitLoop base digit fuel mem (p + 1) (i.tdiv base)
      else some (mem, p + 1)

/-- `std::reverse(buf, p)`. -/
def reverseRange (mem : List UInt8) (buf p : Nat) : List UInt8 :=
  mem.take buf ++ ((mem.drop buf).take (p - buf)).reverse ++ mem.drop p

/-- The last statements of both: the NUL, the reversal and the length. -/
def finishNumber (buf : Nat) (r : List UInt8 × Nat) : Option (List UInt8 × Nat) :=
  (store r.1 r.2 0).map fun mem => (reverseRange mem buf r.2, r.2 - buf)

/-- `Convert`. The memory after it, and what it returns. -/
def convertTo (mem : List UInt8) (buf : Nat) (value : Int) : Option (List UInt8 × Nat) :=
  ((digitLoop 10 zero (value.natAbs + 1) mem buf value).bind fun r =>
    if value < 0 then (store r.1 r.2 45).map (·, r.2 + 1) else some r).bind (finishNumber buf)

/-- `digits_hex[lsd]`. -/
def hexDigit (lsd : Int) : UInt8 := digitsHex.getD lsd.toNat 0

/-- `ConvertHex`. -/
def convertHexTo (mem : List UInt8) (buf : Nat) (value : UInt64) : Option (List UInt8 × Nat) :=
  (digitLoop 16 hexDigit (value.toNat + 1) mem buf value.toNat).bind (finishNumber buf)

/-! ## The stores -/

section Stores

variable {mem : List UInt8} {p : Nat}

theorem store_eq (c : UInt8) (h : p < mem.length) : store mem p c = some (writeAt mem p [c]) := by
  rw [store, if_pos h, ← writeAt_set _ _ _ _ h, writeAt_nil]

/-- A store behind what has been stored. -/
theorem store_writeAt {text : List UInt8} (c : UInt8) (h : p + text.length < mem.length) :
    store (writeAt mem p text) (p + text.length) c = some (writeAt mem p (text ++ [c])) := by
  rw [store_eq c (by rwa [length_writeAt (by omega)]), writeAt_writeAt (by omega)]

theorem reverseRange_writeAt {text : List UInt8} {c : UInt8} (h : p + text.length < mem.length) :
    reverseRange (writeAt mem p (text ++ [c])) p (p + text.length) =
      writeAt mem p (text.reverse ++ [c]) := by
  have hp : (mem.take p).length = p := by
    rw [List.length_take]
    omega
  have hdrop : ∀ rest, (mem.take p ++ (text ++ rest)).drop (p + text.length) = rest := by
    intro rest
    rw [← List.append_assoc, List.drop_left' (by rw [List.length_append, hp])]
  simp only [reverseRange, writeAt, List.append_assoc, List.length_append, List.length_reverse]
  rw [hdrop, List.take_left' hp, List.drop_left' hp, Nat.add_sub_cancel_left, List.take_left]

/-- The text of the loop: the digits from the lowest on. -/
def loopText (base : Int) (digit : Int → UInt8) : Nat → Int → List UInt8
  | 0, _ => []
  | fuel + 1, i =>
    digit (i.tmod base) :: if i.tdiv base = 0 then [] else loopText base digit fuel (i.tdiv base)

theorem digitLoop_eq {base : Int} (hbase : 1 < base.natAbs) (digit : Int → UInt8) {fuel : Nat}
    {i : Int} (hfuel : i.natAbs < fuel)
    (h : p + (loopText base digit fuel i).length ≤ mem.length) :
    digitLoop base digit fuel mem p i = some (writeAt mem p (loopText base digit fuel i),
      p + (loopText base digit fuel i).length) := by
  induction fuel generalizing mem p i with
  | zero => omega
  | succ fuel ih =>
    rw [loopText, List.length_cons] at h
    have hp : p < mem.length := by omega
    rw [digitLoop, loopText, store, if_pos hp, Option.bind_some]
    by_cases hzero : i.tdiv base = 0
    · rw [if_neg (not_not.mpr hzero), if_pos hzero, ← writeAt_set _ _ _ _ hp, writeAt_nil]
      rfl
    · have hlt : (i.tdiv base).natAbs < i.natAbs := by
        rw [Int.natAbs_tdiv]
        refine Nat.div_lt_self (Int.natAbs_pos.mpr ?_) hbase
        rintro rfl
        exact hzero (Int.zero_tdiv _)
      rw [if_neg hzero] at h ⊢
      rw [if_pos hzero, ih (by omega) (by rw [List.length_set]; omega), writeAt_set _ _ _ _ hp,
        List.length_cons, Nat.add_right_comm, Nat.add_assoc]

/-- The NUL, and the digits in order. -/
theorem finishNumber_writeAt {text : List UInt8} (h : p + text.length < mem.length) :
    finishNumber p (writeAt mem p text, p + text.length) =
      some (writeAt mem p (text.reverse ++ [0]), text.length) := by
  rw [finishNumber, store_writeAt 0 h, Option.map_some, reverseRange_writeAt h,
    Nat.add_sub_cancel_left]

end Stores

/-! ## The texts -/

theorem convertLoop_eq_loopText (fuel : Nat) (i : Int) :
    convertLoop fuel i = loopText 10 zero fuel i := by
  induction fuel generalizing i with
  | zero => rfl
  | succ fuel ih => rw [convertLoop, loopText, ih]

theorem convertHexLoop_eq_loopText (fuel n : Nat) :
    convertHexLoop fuel n = loopText 16 hexDigit fuel n := by
  induction fuel generalizing n with
  | zero => rfl
  | succ fuel ih =>
    have hdiv : (n : Int).tdiv 16 = (n / 16 : Nat) := rfl
    rw [convertHexLoop, loopText, ih, hdiv]
    simp only [Int.natCast_eq_zero]
    rfl

/-- A remainder of a negative number finds its digit on the other side of the table. -/
theorem zero_eq {r : Int} (h : r.natAbs < 10) : zero r = UInt8.ofNat (48 + r.natAbs) := by
  have hall : ∀ k : Fin 19, zero ((k.val : Int) - 9) =
      UInt8.ofNat (48 + ((k.val : Int) - 9).natAbs) := by decide
  have hr := hall ⟨(r + 9).toNat, by omega⟩
  have hcast : (((r + 9).toNat : Nat) : Int) - 9 = r := by omega
  simpa only [hcast] using hr

theorem convertLoop_eq (fuel : Nat) (i : Int) :
    convertLoop fuel i = (lowDigits 10 fuel i.natAbs).map fun d => UInt8.ofNat (48 + d) := by
  induction fuel generalizing i with
  | zero => rfl
  | succ fuel ih =>
    have hmod : (i.tmod 10).natAbs = i.natAbs % 10 := Int.natAbs_tmod i 10
    have hdiv : (i.tdiv 10).natAbs = i.natAbs / 10 := Int.natAbs_tdiv i 10
    have hzero : i.tdiv 10 = 0 ↔ i.natAbs / 10 = 0 := by rw [← hdiv, Int.natAbs_eq_zero]
    rw [convertLoop, lowDigits, zero_eq (by omega), hmod, ih, hdiv, List.map_cons]
    simp only [hzero, apply_ite (List.map _), List.map_nil]

theorem convertHexLoop_eq (fuel n : Nat) :
    convertHexLoop fuel n = (lowDigits 16 fuel n).map fun d => digitsHex.getD d 0 := by
  induction fuel generalizing n with
  | zero => rfl
  | succ fuel ih =>
    rw [convertHexLoop, lowDigits, ih, List.map_cons]
    simp only [apply_ite (List.map _), List.map_nil]

/-- The decimal digits, with their values. -/
abbrev IsDecimal (n : Nat) (ds : List UInt8) : Prop :=
  IsNumeral 10 (fun c => isDigit c = true) (fun c => c.toNat - 48) n ds

/-- The upper-case hexadecimal digits, with their values. -/
abbrev IsHex (n : Nat) (ds : List UInt8) : Prop :=
  IsNumeral 16 (fun c => c ∈ ascii "0123456789ABCDEF")
    (fun c => (ascii "0123456789ABCDEF").idxOf c) n ds

theorem convert_numeral (value : Int) :
    ∃ ds, convert value = (if value < 0 then [45] else []) ++ ds ∧ IsDecimal value.natAbs ds := by
  refine ⟨(convertLoop (value.natAbs + 1) value).reverse, ?_, ?_⟩
  · rw [convert]
    split <;> simp
  · rw [convertLoop_eq]
    exact isNumeral_lowDigits (by decide) (Nat.lt_succ_self _) (fun d hd => (digit_byte hd).1)
      (fun d hd => (digit_byte hd).2)

theorem convertHex_numeral (value : UInt64) : IsHex value.toNat (convertHex value) := by
  have hall : ∀ d : Fin 16, digitsHex.getD d 0 ∈ ascii "0123456789ABCDEF" ∧
      (ascii "0123456789ABCDEF").idxOf (digitsHex.getD d 0) = d := by decide
  rw [convertHex, convertHexLoop_eq]
  exact isNumeral_lowDigits (by decide) (Nat.lt_succ_self _) (fun d hd => (hall ⟨d, hd⟩).1)
    (fun d hd => (hall ⟨d, hd⟩).2)

/-! ## `Convert` and `ConvertHex` -/

section Convert

variable {mem : List UInt8} {buf : Nat}

/-- The text and its NUL are stored. -/
theorem convertTo_eq {value : Int} (h : buf + (convert value).length < mem.length) :
    convertTo mem buf value =
      some (writeAt mem buf (convert value ++ [0]), (convert value).length) := by
  have hloop := convertLoop_eq_loopText (value.natAbs + 1) value
  unfold convert at h ⊢
  rw [hloop] at h ⊢
  simp only [List.length_reverse] at h ⊢
  unfold convertTo
  by_cases hneg : value < 0
  · simp only [if_pos hneg] at h ⊢
    have hlen : (loopText 10 zero (value.natAbs + 1) value ++ [45]).length =
        (loopText 10 zero (value.natAbs + 1) value).length + 1 := List.length_append
    rw [digitLoop_eq (by decide) zero (by omega) (by omega), Option.bind_some,
      store_writeAt 45 (by omega), Option.map_some, Option.bind_some, Nat.add_assoc, ← hlen,
      finishNumber_writeAt h]
  · simp only [if_neg hneg] at h ⊢
    rw [digitLoop_eq (by decide) zero (by omega) (by omega), Option.bind_some,
      Option.bind_some, finishNumber_writeAt h]

theorem convertHexTo_eq {value : UInt64} (h : buf + (convertHex value).length < mem.length) :
    convertHexTo mem buf value =
      some (writeAt mem buf (convertHex value ++ [0]), (convertHex value).length) := by
  unfold convertHex at h ⊢
  rw [convertHexLoop_eq_loopText] at h ⊢
  rw [List.length_reverse] at h ⊢
  rw [convertHexTo, digitLoop_eq (by decide) hexDigit (by omega) (by omega), Option.bind_some,
    finishNumber_writeAt h]

end Convert

/-- The integer types that `FormatInteger` is instantiated with. -/
inductive IntType where
  | int
  | unsignedInt
  | long
  | unsignedLong
  | longLong
  | unsignedLongLong

/-- The values of the type. -/
def IntType.Holds (v : Int) : IntType → Prop
  | .int => -2 ^ 31 ≤ v ∧ v < 2 ^ 31
  | .unsignedInt => 0 ≤ v ∧ v < 2 ^ 32
  | .long | .longLong => -2 ^ 63 ≤ v ∧ v < 2 ^ 63
  | .unsignedLong | .unsignedLongLong => 0 ≤ v ∧ v < 2 ^ 64

theorem IntType.Holds.bounds {v : Int} {T : IntType} (h : T.Holds v) :
    -2 ^ 63 ≤ v ∧ v < 2 ^ 64 := by
  cases T <;> simp only [IntType.Holds] at h <;> omega

/-- `Convert` writes a sign and the decimal numeral, in 20 bytes at most and a NUL, and returns the
length, and so does `ConvertHex` with the hexadecimal numeral in 16. -/
theorem convertTo_exact :
    (∀ (T : IntType) (v : Int), T.Holds v → ∀ (mem : List UInt8) (buf : Nat),
      buf + 21 ≤ mem.length → ∃ text ds,
        convertTo mem buf v = some (writeAt mem buf (text ++ [0]), text.length) ∧
        text.length ≤ 20 ∧ text = (if v < 0 then [45] else []) ++ ds ∧
        IsDecimal v.natAbs ds) ∧
    ∀ (v : UInt64) (mem : List UInt8) (buf : Nat), buf + 17 ≤ mem.length → ∃ text,
      convertHexTo mem buf v = some (writeAt mem buf (text ++ [0]), text.length) ∧
      text.length ≤ 16 ∧ IsHex v.toNat text := by
  constructor
  · intro T v hv mem buf hroom
    have hlen := length_convert_le hv.bounds.1 hv.bounds.2
    obtain ⟨ds, htext, hds⟩ := convert_numeral v
    exact ⟨convert v, ds, convertTo_eq (by omega), hlen, htext, hds⟩
  · intro v mem buf hroom
    have hlen := length_convertHex_le v
    exact ⟨convertHex v, convertHexTo_eq (by omega), hlen, convertHex_numeral v⟩

/-- The least `long`. -/
theorem convertTo_least :
    ∃ text ds, convertTo (List.replicate 21 0) 0 (-2 ^ 63) =
        some (writeAt (List.replicate 21 0) 0 (text ++ [0]), text.length) ∧
      text.length ≤ 20 ∧ text = (if (-2 ^ 63 : Int) < 0 then [45] else []) ++ ds ∧
      IsDecimal (-2 ^ 63 : Int).natAbs ds :=
  convertTo_exact.1 .long (-2 ^ 63) (by simp only [IntType.Holds]; omega) _ 0 (by decide)

end LogStream

/-! ## The stream -/

open LogStream (convert convertHex convertTo convertHexTo store kMaxNumericSize)

/-- A `LogStream` with the array of its buffer. -/
structure StreamArray where
  /-- `data_`. -/
  mem : List UInt8
  cur : Nat := 0

namespace StreamArray

def avail (a : StreamArray) : Nat := kSmallBuffer - a.cur

/-- `memcpy` to `cur_`, and the like. -/
def copy (a : StreamArray) (bytes : List UInt8) : Option (List UInt8) :=
  if a.cur + bytes.length ≤ a.mem.length then some (writeAt a.mem a.cur bytes) else none

def append (a : StreamArray) (data : List UInt8) : Option StreamArray :=
  if data.length < a.avail then (a.copy data).map (⟨·, a.cur + data.length⟩) else some a

def formatInteger (a : StreamArray) (v : Int) : Option StreamArray :=
  if kMaxNumericSize ≤ a.avail then
    (convertTo a.mem a.cur v).map fun r => ⟨r.1, a.cur + r.2⟩
  else some a

/-- `operator<<(const void*)`. -/
def formatPointer (a : StreamArray) (v : UInt64) : Option StreamArray :=
  if kMaxNumericSize ≤ a.avail then
    ((store a.mem a.cur 48).bind fun mem => store mem (a.cur + 1) 120).bind fun mem =>
      (convertHexTo mem (a.cur + 2) v).map fun r => ⟨r.1, a.cur + (r.2 + 2)⟩
  else some a

/-- `operator<<(double)`. -/
def formatDouble (a : StreamArray) (v : DoubleText) : Option StreamArray :=
  if kMaxNumericSize ≤ a.avail then
    (a.copy (snprintf kMaxNumericSize v.text ++ [0])).map (⟨·, a.cur + v.text.length⟩)
  else some a

/-- `operator<<`. -/
def insert (a : StreamArray) : LogItem → Option StreamArray
  | .bool v => a.append (if v then ascii "1" else ascii "0")
  | .char v => a.append [v]
  | .short v => a.formatInteger v.toInt
  | .unsignedShort v => a.formatInteger v.toNat
  | .int v => a.formatInteger v.toInt
  | .unsignedInt v => a.formatInteger v.toNat
  | .long v => a.formatInteger v.toInt
  | .unsignedLong v => a.formatInteger v.toNat
  | .longLong v => a.formatInteger v.toInt
  | .unsignedLongLong v => a.formatInteger v.toNat
  | .pointer v => a.formatPointer v
  | .double v => a.formatDouble v
  | .cString none => a.append (ascii "(null)")
  | .cString (some str) => a.append (cStr str)
  | .string v => a.append v

/-- `s << a << b << …`. -/
def insertAll (a : StreamArray) (items : List LogItem) : Option StreamArray := items.foldlM insert a

/-- The array of `a` holds what the buffer of `s` holds, and one more byte. -/
structure Shows (a : StreamArray) (s : LogStream) : Prop where
  length_mem : a.mem.length = kSmallBuffer
  data_eq : a.mem.take a.cur = s.buffer.data
  cur_lt : a.cur < kSmallBuffer

variable {a : StreamArray} {s : LogStream}

theorem Shows.cur_eq (h : Shows a s) : a.cur = s.buffer.data.length := by
  have := h.length_mem
  have := h.cur_lt
  rw [← h.data_eq, List.length_take]
  omega

theorem Shows.avail_eq (h : Shows a s) : a.avail = s.buffer.avail := by
  rw [avail, FixedBuffer.avail, h.cur_eq]

/-- A text that leaves a byte free, with or without a NUL behind it. -/
theorem Shows.write (h : Shows a s) {text tail : List UInt8} (hlt : text.length < a.avail)
    (htail : tail.length ≤ 1) :
    Shows ⟨writeAt a.mem a.cur (text ++ tail), a.cur + text.length⟩ (s.append text) := by
  have hlen := h.length_mem
  have hcur := h.cur_lt
  have hdata := h.data_eq
  have havail := h.avail_eq
  unfold avail at hlt havail
  refine ⟨?_, ?_, ?_⟩
  · exact (length_writeAt (by rw [List.length_append]; omega)).trans hlen
  · have htake : (a.mem.take a.cur).length = a.cur := by rw [List.length_take]; omega
    have happend : (s.buffer.append text).data = s.buffer.data ++ text :=
      FixedBuffer.append_data (by omega)
    rw [LogStream.append, happend, writeAt, ← List.append_assoc, List.append_assoc _ tail,
      List.take_left' (by rw [List.length_append, htake]), hdata]
  · simp only
    omega

theorem append_shows (h : Shows a s) (text : List UInt8) :
    ∃ a', a.append text = some a' ∧ Shows a' (s.append text) := by
  unfold append
  by_cases hlt : text.length < a.avail
  · have hwrite := h.write hlt (show ([] : List UInt8).length ≤ 1 from Nat.zero_le 1)
    rw [List.append_nil] at hwrite
    have hroom : a.cur + text.length ≤ a.mem.length := by
      have := h.length_mem
      unfold avail at hlt
      omega
    rw [if_pos hlt, copy, if_pos hroom]
    exact ⟨_, rfl, hwrite⟩
  · rw [if_neg hlt]
    refine ⟨a, rfl, ?_⟩
    rwa [LogStream.append, FixedBuffer.append_dropped (by rwa [← h.avail_eq])]

/-- A number that is written, with its NUL, when 48 bytes are free. -/
theorem number_shows (h : Shows a s) {text : List UInt8} (hlt : text.length < kMaxNumericSize)
    {r : Option StreamArray} (hroom : kMaxNumericSize ≤ a.avail →
      r = some ⟨writeAt a.mem a.cur (text ++ [0]), a.cur + text.length⟩)
    (hfull : ¬ kMaxNumericSize ≤ a.avail → r = some a) :
    ∃ a', r = some a' ∧ Shows a' (s.formatNumber text) := by
  by_cases havail : kMaxNumericSize ≤ a.avail
  · refine ⟨_, hroom havail, ?_⟩
    rw [LogStream.formatNumber, ← h.avail_eq, if_pos havail, LogStream.writeCurrent, ← h.avail_eq,
      if_pos (by omega)]
    exact h.write (by omega) (Nat.le_refl 1)
  · refine ⟨a, hfull havail, ?_⟩
    rwa [LogStream.formatNumber, ← h.avail_eq, if_neg havail]

theorem Shows.lt_length (h : Shows a s) {n : Nat} (hn : n < kMaxNumericSize)
    (havail : kMaxNumericSize ≤ a.avail) : a.cur + n < a.mem.length := by
  have := h.length_mem
  unfold avail at havail
  omega

theorem formatInteger_shows (h : Shows a s) {v : Int}
    (hlen : (convert v).length < kMaxNumericSize) :
    ∃ a', a.formatInteger v = some a' ∧ Shows a' (s.formatInteger v) := by
  refine number_shows h hlen ?_ fun hfull => if_neg hfull
  intro havail
  rw [formatInteger, if_pos havail, LogStream.convertTo_eq (h.lt_length hlen havail)]
  rfl

theorem formatPointer_shows (h : Shows a s) (v : UInt64) :
    ∃ a', a.formatPointer v = some a' ∧ Shows a' (s.formatNumber (ascii "0x" ++ convertHex v)) := by
  have hhex := LogStream.length_convertHex_le v
  have h0x : ascii "0x" = [48, 120] := by decide
  have hlen : (ascii "0x" ++ convertHex v).length < kMaxNumericSize :=
    @LogItem.length_text_lt (.pointer v) rfl
  refine number_shows h hlen ?_ fun hfull => if_neg hfull
  intro havail
  have hroom := fun n (hn : n < kMaxNumericSize) => h.lt_length hn havail
  have hfirst : store a.mem a.cur 48 = some (writeAt a.mem a.cur [48]) :=
    LogStream.store_eq 48 (hroom 0 (by decide))
  have hsecond : store (writeAt a.mem a.cur [48]) (a.cur + 1) 120 =
      some (writeAt a.mem a.cur [48, 120]) :=
    LogStream.store_writeAt 120 (hroom 1 (by decide))
  have htwo : a.cur + [48, 120].length ≤ a.mem.length := Nat.le_of_lt (hroom 2 (by decide))
  have hthird : convertHexTo (writeAt a.mem a.cur [48, 120]) (a.cur + 2) v = some
      (writeAt a.mem a.cur ([48, 120] ++ (convertHex v ++ [0])), (convertHex v).length) := by
    rw [LogStream.convertHexTo_eq (by
      rw [length_writeAt htwo, Nat.add_assoc]
      exact hroom _ (by rw [kMaxNumericSize]; omega))]
    exact congrArg (fun m => some (m, _)) (writeAt_writeAt htwo)
  rw [formatPointer, if_pos havail, hfirst, Option.bind_some, hsecond, Option.bind_some, hthird,
    Option.map_some, h0x, List.length_append, List.append_assoc, Nat.add_comm [48, 120].length]
  rfl

theorem formatDouble_shows (h : Shows a s) (v : DoubleText) :
    ∃ a', a.formatDouble v = some a' ∧ Shows a' (s.formatNumber v.text) := by
  refine number_shows h v.length_lt ?_ fun hfull => if_neg hfull
  intro havail
  have hroom : a.cur + (v.text ++ [0]).length ≤ a.mem.length := by
    rw [List.length_append, List.length_singleton]
    exact h.lt_length v.length_lt havail
  rw [formatDouble, if_pos havail, snprintf_of_lt v.length_lt, copy, if_pos hroom]
  rfl

/-- `operator<<` writes what the stream without its array says. -/
theorem insert_shows (h : Shows a s) (item : LogItem) :
    ∃ a', a.insert item = some a' ∧ Shows a' (s.insert item) := by
  cases item with
  | bool v => exact append_shows h _
  | char v => exact append_shows h _
  | short v => exact formatInteger_shows h (@LogItem.length_text_lt (.short v) rfl)
  | unsignedShort v => exact formatInteger_shows h (@LogItem.length_text_lt (.unsignedShort v) rfl)
  | int v => exact formatInteger_shows h (@LogItem.length_text_lt (.int v) rfl)
  | unsignedInt v => exact formatInteger_shows h (@LogItem.length_text_lt (.unsignedInt v) rfl)
  | long v => exact formatInteger_shows h (@LogItem.length_text_lt (.long v) rfl)
  | unsignedLong v => exact formatInteger_shows h (@LogItem.length_text_lt (.unsignedLong v) rfl)
  | longLong v => exact formatInteger_shows h (@LogItem.length_text_lt (.longLong v) rfl)
  | unsignedLongLong v =>
    exact formatInteger_shows h (@LogItem.length_text_lt (.unsignedLongLong v) rfl)
  | pointer v => exact formatPointer_shows h v
  | double v => exact formatDouble_shows h v
  | cString str =>
    cases str with
    | none => exact append_shows h _
    | some str => exact append_shows h _
  | string v => exact append_shows h _

theorem insertAll_shows (h : Shows a s) (items : List LogItem) :
    ∃ a', a.insertAll items = some a' ∧ Shows a' (s.insertAll items) := by
  induction items generalizing a s with
  | nil => exact ⟨a, rfl, h⟩
  | cons item items ih =>
    obtain ⟨a₁, hinsert, h₁⟩ := insert_shows h item
    obtain ⟨a', hall, h'⟩ := ih h₁
    refine ⟨a', ?_, h'⟩
    rw [insertAll, List.foldlM_cons, hinsert]
    exact hall

theorem fresh_shows {mem : List UInt8} (hmem : mem.length = kSmallBuffer) :
    Shows ⟨mem, 0⟩ {} :=
  ⟨hmem, rfl, (by decide : 0 < kSmallBuffer)⟩

end StreamArray

namespace LogStream

/-- For each item, whether it is written. -/
def kept : LogStream → List LogItem → List Bool
  | _, [] => []
  | s, item :: items => decide (item.Fits s.buffer.data.length) :: kept (s.insert item) items

theorem length_kept (s : LogStream) (items : List LogItem) :
    (kept s items).length = items.length := by
  induction items generalizing s with
  | nil => rfl
  | cons item items ih => rw [kept, List.length_cons, List.length_cons, ih]

theorem getElem?_kept (s : LogStream) (items : List LogItem) (i : Nat) :
    (kept s items)[i]? = items[i]?.map fun item =>
      decide (item.Fits (s.insertAll (items.take i)).buffer.data.length) := by
  induction items generalizing s i with
  | nil => rfl
  | cons item items ih =>
    cases i with
    | zero => rfl
    | succ i => exact ih (s.insert item) i

theorem insertAll_data (s : LogStream) (items : List LogItem) :
    (s.insertAll items).buffer.data = s.buffer.data ++
      ((items.zip (kept s items)).filter Prod.snd).flatMap fun p => p.1.text := by
  induction items generalizing s with
  | nil => exact (List.append_nil _).symm
  | cons item items ih =>
    rw [insertAll_cons, ih, insert_data, kept, List.zip_cons_cons]
    by_cases hfits : item.Fits s.buffer.data.length
    · rw [if_pos hfits, List.filter_cons_of_pos (by simpa using hfits), List.flatMap_cons,
        List.append_assoc]
    · rw [if_neg hfits, List.filter_cons_of_neg (by simpa using hfits)]

end LogStream

namespace StreamArray

/-- No store leaves the array, after every insertion a byte is free, and the buffer has the texts of
the items in order, each as a whole or not at all. Left out is a text that does not leave a byte
free, and a number when fewer than 48 bytes are. -/
theorem insertAll_whole (mem : List UInt8) (hmem : mem.length = kSmallBuffer)
    (items : List LogItem) :
    (∀ n, ∃ a, insertAll ⟨mem, 0⟩ (items.take n) = some a ∧ a.cur < kSmallBuffer) ∧
    ∃ a, ∃ kept : List Bool, insertAll ⟨mem, 0⟩ items = some a ∧ kept.length = items.length ∧
      a.mem.take a.cur = ((items.zip kept).filter Prod.snd).flatMap (fun p => p.1.text) ∧
      ∀ i item a', items[i]? = some item → kept[i]? = some false →
        insertAll ⟨mem, 0⟩ (items.take i) = some a' →
        if item.isText then a'.avail ≤ item.text.length else a'.avail < kMaxNumericSize := by
  have hshows := fun items => insertAll_shows (fresh_shows hmem) items
  refine ⟨?_, ?_⟩
  · intro n
    obtain ⟨a, hall, ha⟩ := hshows (items.take n)
    exact ⟨a, hall, ha.cur_lt⟩
  · obtain ⟨a, hall, ha⟩ := hshows items
    refine ⟨a, LogStream.kept {} items, hall, LogStream.length_kept _ _, ?_, ?_⟩
    · rw [ha.data_eq, LogStream.insertAll_data]
      rfl
    · intro i item a' hitem hleft ha'
      obtain ⟨a₁, hall₁, h₁⟩ := hshows (items.take i)
      obtain rfl := Option.some.inj (hall₁.symm.trans ha')
      rw [LogStream.getElem?_kept, hitem, Option.map_some, Option.some.injEq,
        decide_eq_false_iff_not, ← h₁.cur_eq] at hleft
      have hlt := h₁.cur_lt
      unfold avail
      split
      · rename_i htext
        rw [LogItem.fits_text htext] at hleft
        omega
      · rename_i htext
        rw [LogItem.fits_number (by simpa using htext)] at hleft
        omega

/-- The array is filled up to its last byte. A number, a text and a character are left out on the
way. -/
def fillingItems : List LogItem :=
  [.string (List.replicate 3940 120), .int (-7), .string (List.replicate 20 121), .unsignedInt 5,
    .char 65, .string (List.replicate 40 122), .string (List.replicate 36 123), .char 66]

theorem fillingItems_whole :
    let mem := List.replicate kSmallBuffer 0
    (∀ n, ∃ a, insertAll ⟨mem, 0⟩ (fillingItems.take n) = some a ∧ a.cur < kSmallBuffer) ∧
    ∃ a, ∃ kept : List Bool, insertAll ⟨mem, 0⟩ fillingItems = some a ∧ a.cur = 3999 ∧
      kept.length = 8 ∧
      a.mem.take a.cur = ((fillingItems.zip kept).filter Prod.snd).flatMap (fun p => p.1.text) ∧
      ∀ i item a', fillingItems[i]? = some item → kept[i]? = some false →
        insertAll ⟨mem, 0⟩ (fillingItems.take i) = some a' →
        if item.isText then a'.avail ≤ item.text.length else a'.avail < kMaxNumericSize := by
  intro mem
  have hmem : mem.length = kSmallBuffer := List.length_replicate
  obtain ⟨hevery, a, kept, hall, hkept, hdata, hleft⟩ := insertAll_whole mem hmem fillingItems
  have hcur : a.cur = 3999 := by
    have hlength : (LogStream.insertAll {} fillingItems).buffer.data.length = 3999 := by
      decide +kernel
    obtain ⟨a', hall', h⟩ := insertAll_shows (fresh_shows hmem) fillingItems
    cases hall.symm.trans hall'
    rw [h.cur_eq, hlength]
  exact ⟨hevery, a, kept, hall, hcur, hkept, hdata, hleft⟩

end StreamArray

end MyTinyHttpd
