import MyTinyHttpd.Net.BufferAsserts

/-!
# Integers in a `Buffer`

The functions that append, prepend, peek at and read integers of 8, 16, 32 and 64 bits. An integer
is its two's-complement word; `htobe` and `betoh` are inverse byte swaps, so what is in the buffer
are the bytes of the word, the most significant first.

* `WireInt`: a signed integer of one of the four widths.
* `read_encode`: what one call of `ReadIntN` does to a buffer that starts with an integer.
* `wireInts_roundTrip`: any list of integers is read back.
-/

namespace MyTinyHttpd

open Verif

namespace Buffer

/-- `PeekIntN()`. -/
def peekInt (b : Buffer) (size : Nat) : BitVec (8 * size) :=
  BitVec.ofNat (8 * size) (ofBytes (b.range b.peek (b.peek + size)))

def peekInt64 (b : Buffer) : BitVec 64 := b.peekInt 8

def peekInt32 (b : Buffer) : BitVec 32 := b.peekInt 4

def peekInt16 (b : Buffer) : BitVec 16 := b.peekInt 2

def peekInt8 (b : Buffer) : BitVec 8 := b.peekInt 1

def retrieveInt64 (b : Buffer) : Buffer := b.retrieve 8

def retrieveInt32 (b : Buffer) : Buffer := b.retrieve 4

def retrieveInt16 (b : Buffer) : Buffer := b.retrieve 2

def retrieveInt8 (b : Buffer) : Buffer := b.retrieve 1

def readInt64 (b : Buffer) : BitVec 64 × Buffer := (b.peekInt64, b.retrieveInt64)

def readInt32 (b : Buffer) : BitVec 32 × Buffer := (b.peekInt32, b.retrieveInt32)

def readInt16 (b : Buffer) : BitVec 16 × Buffer := (b.peekInt16, b.retrieveInt16)

def readInt8 (b : Buffer) : BitVec 8 × Buffer := (b.peekInt8, b.retrieveInt8)

end Buffer

/-- The four widths. -/
inductive IntWidth where
  | int8
  | int16
  | int32
  | int64
  deriving DecidableEq

/-- A signed integer of one of the four widths. -/
inductive WireInt where
  | int8 (x : Int8)
  | int16 (x : Int16)
  | int32 (x : Int32)
  | int64 (x : Int64)
  deriving DecidableEq

/-- `sizeof(intN_t)`. -/
def IntWidth.size : IntWidth → Nat
  | int8 => 1
  | int16 => 2
  | int32 => 4
  | int64 => 8

namespace WireInt

def width : WireInt → IntWidth
  | int8 _ => .int8
  | int16 _ => .int16
  | int32 _ => .int32
  | int64 _ => .int64

def value : WireInt → Int
  | int8 x => x.toInt
  | int16 x => x.toInt
  | int32 x => x.toInt
  | int64 x => x.toInt

/-- The two's-complement word. -/
def bits : (x : WireInt) → BitVec (8 * x.width.size)
  | int8 x => x.toBitVec
  | int16 x => x.toBitVec
  | int32 x => x.toBitVec
  | int64 x => x.toBitVec

/-- The matching `AppendIntN`. -/
def append (alloc : Allocator) (b : Buffer) : WireInt → Buffer
  | int8 x => b.appendInt8 alloc x.toBitVec
  | int16 x => b.appendInt16 alloc x.toBitVec
  | int32 x => b.appendInt32 alloc x.toBitVec
  | int64 x => b.appendInt64 alloc x.toBitVec

/-- The matching `PrependIntN`. -/
def prepend (b : Buffer) : WireInt → Buffer
  | int8 x => b.prependInt8 x.toBitVec
  | int16 x => b.prependInt16 x.toBitVec
  | int32 x => b.prependInt32 x.toBitVec
  | int64 x => b.prependInt64 x.toBitVec

/-- `PeekIntN()`. -/
def peek (b : Buffer) : IntWidth → WireInt
  | .int8 => int8 (.ofBitVec b.peekInt8)
  | .int16 => int16 (.ofBitVec b.peekInt16)
  | .int32 => int32 (.ofBitVec b.peekInt32)
  | .int64 => int64 (.ofBitVec b.peekInt64)

/-- `ReadIntN()`. -/
def read (b : Buffer) : IntWidth → WireInt × Buffer
  | .int8 => (int8 (.ofBitVec b.readInt8.1), b.readInt8.2)
  | .int16 => (int16 (.ofBitVec b.readInt16.1), b.readInt16.2)
  | .int32 => (int32 (.ofBitVec b.readInt32.1), b.readInt32.2)
  | .int64 => (int64 (.ofBitVec b.readInt64.1), b.readInt64.2)

/-- Calls of `ReadIntN`, one for each width. -/
def readAll (b : Buffer) : List IntWidth → List WireInt × Buffer
  | [] => ([], b)
  | w :: ws =>
    let first := read b w
    let rest := readAll first.2 ws
    (first.1 :: rest.1, rest.2)

/-- The big-endian two's-complement encoding: the bytes of the value modulo `256 ^ size`. -/
def encode (x : WireInt) : List UInt8 :=
  toBytes x.width.size (x.value % 256 ^ x.width.size).toNat

@[simp] theorem length_encode (x : WireInt) : x.encode.length = x.width.size := length_toBytes _ _

end WireInt

/-! ## One integer -/

/-- The word of a signed integer is its value modulo `256 ^ n`. -/
theorem toNat_eq_emod {n : Nat} (x : BitVec (8 * n)) : x.toNat = (x.toInt % 256 ^ n).toNat := by
  have hpow : (256 : Int) ^ n = ((2 ^ (8 * n) : Nat) : Int) := by
    rw [Nat.pow_mul]
    norm_cast
  conv_lhs => rw [← BitVec.ofInt_toInt (x := x), BitVec.toNat_ofInt]
  rw [hpow]

namespace Buffer

variable {b : Buffer}

/-- A buffer that starts with the bytes of a word. -/
theorem peekInt_eq (h : b.Inv) {size : Nat} {x : BitVec (8 * size)} {rest : List UInt8}
    (hb : b.readable = toBytes size x.toNat ++ rest) : b.peekInt size = x := by
  have hlen : size ≤ b.readableBytes := by
    rw [← h.length_readable, hb, List.length_append, length_toBytes]
    omega
  rw [peekInt, range_peek hlen, hb, List.take_left' (length_toBytes _ _), ofNat_ofBytes_toBytes]

theorem retrieve_toBytes (h : b.Inv) {size n : Nat} {rest : List UInt8}
    (hb : b.readable = toBytes size n ++ rest) : (b.retrieve size).readable = rest := by
  rw [retrieve_readable h, hb, List.drop_left' (length_toBytes _ _)]

end Buffer

namespace WireInt

variable {b : Buffer}

theorem encode_eq (x : WireInt) : x.encode = toBytes x.width.size x.bits.toNat := by
  have hvalue : x.value = x.bits.toInt := by cases x <;> rfl
  rw [encode, hvalue, ← toNat_eq_emod]

/-- The bytes that `AppendIntN` and `PrependIntN` store. -/
theorem append_eq (alloc : Allocator) (b : Buffer) (x : WireInt) :
    x.append alloc b = b.append alloc x.encode := by
  have hint : x.append alloc b = b.appendInt alloc x.width.size x.bits := by cases x <;> rfl
  rw [hint, encode_eq, Buffer.appendInt]

theorem prepend_eq (b : Buffer) (x : WireInt) : x.prepend b = b.prepend x.encode := by
  have hint : x.prepend b = b.prependInt x.width.size x.bits := by cases x <;> rfl
  rw [hint, encode_eq, Buffer.prependInt]

theorem peek_eq_read (b : Buffer) (w : IntWidth) : peek b w = (read b w).1 := by
  cases w <;> rfl

theorem read_fst {x : WireInt} (h : b.peekInt x.width.size = x.bits) :
    (read b x.width).1 = x := by
  cases x with
  | int8 v => exact congrArg (fun w => int8 (.ofBitVec w)) h
  | int16 v => exact congrArg (fun w => int16 (.ofBitVec w)) h
  | int32 v => exact congrArg (fun w => int32 (.ofBitVec w)) h
  | int64 v => exact congrArg (fun w => int64 (.ofBitVec w)) h

/-- `ReadIntN` retrieves the bytes of the integer. -/
theorem read_snd (b : Buffer) (w : IntWidth) : (read b w).2 = b.retrieve w.size := by
  cases w <;> rfl

/-- **One integer.** A buffer that starts with the bytes of an integer: `ReadIntN` returns it and
leaves what follows. -/
theorem read_encode (h : b.Inv) {x : WireInt} {rest : List UInt8}
    (hb : b.readable = x.encode ++ rest) :
    (read b x.width).1 = x ∧ (read b x.width).2.Inv ∧ (read b x.width).2.readable = rest := by
  rw [encode_eq] at hb
  refine ⟨read_fst (Buffer.peekInt_eq h hb), ?_, ?_⟩
  · rw [read_snd]
    exact Buffer.retrieve_inv h _
  · rw [read_snd]
    exact Buffer.retrieve_toBytes h hb

/-! ## Lists of integers -/

theorem foldl_append (alloc : Allocator) (h : b.Inv) (xs : List WireInt) :
    (xs.foldl (append alloc) b).Inv ∧
      (xs.foldl (append alloc) b).readable = b.readable ++ xs.flatMap encode := by
  induction xs generalizing b with
  | nil => exact ⟨h, by simp⟩
  | cons x xs ih =>
    rw [List.foldl_cons, append_eq]
    obtain ⟨hinv, hreadable⟩ := ih (Buffer.append_inv alloc h x.encode)
    refine ⟨hinv, ?_⟩
    rw [hreadable, Buffer.append_readable alloc h]
    simp

theorem readAll_encode (h : b.Inv) {xs : List WireInt} {rest : List UInt8}
    (hb : b.readable = xs.flatMap encode ++ rest) :
    (readAll b (xs.map width)).1 = xs ∧ (readAll b (xs.map width)).2.readable = rest := by
  induction xs generalizing b with
  | nil => exact ⟨rfl, hb⟩
  | cons x xs ih =>
    have hfirst : b.readable = x.encode ++ (xs.flatMap encode ++ rest) := by
      rw [hb]
      simp
    obtain ⟨hx, hinv, hrest⟩ := read_encode h hfirst
    obtain ⟨hxs, hlast⟩ := ih hinv hrest
    simp only [List.map_cons, readAll, hx, hxs, hlast, and_self]

/-- **Integers in a buffer.** For every buffer and every list of integers of any widths:

* appending them adds their big-endian two's-complement encodings, in order;
* when the bytes that were there before have been retrieved, reading integers of these widths
  returns the list, and leaves what was appended after them;
* peeking returns what reading returns;
* an integer that is prepended, when there is enough room, is read back, and the readable bytes are
  those before. -/
theorem wireInts_roundTrip (alloc : Allocator) (b : Buffer) (h : b.Inv) (xs : List WireInt)
    (post : List UInt8) :
    let stored := xs.foldl (append alloc) b
    let unread := (stored.append alloc post).retrieve b.readableBytes
    stored.readable = b.readable ++ xs.flatMap encode ∧
      (readAll unread (xs.map width)).1 = xs ∧
      (readAll unread (xs.map width)).2.readable = post ∧
      (∀ w, peek b w = (read b w).1) ∧
      ∀ x : WireInt, x.width.size ≤ b.prependableBytes →
        (x.prepend b).readable = x.encode ++ b.readable ∧
          (read (x.prepend b) x.width).1 = x ∧
          (read (x.prepend b) x.width).2.readable = b.readable := by
  intro stored unread
  obtain ⟨hinv, hstored⟩ := foldl_append alloc h xs
  have hunread : unread.readable = xs.flatMap encode ++ post := by
    rw [Buffer.retrieve_readable (Buffer.append_inv alloc hinv post),
      Buffer.append_readable alloc hinv, hstored, List.append_assoc,
      List.drop_left' h.length_readable]
  obtain ⟨hread, hrest⟩ :=
    readAll_encode (Buffer.retrieve_inv (Buffer.append_inv alloc hinv post) _) hunread
  refine ⟨hstored, hread, hrest, peek_eq_read b, fun x hx => ?_⟩
  have hprepended : (x.prepend b).readable = x.encode ++ b.readable := by
    rw [prepend_eq, Buffer.prepend_readable h (by rw [length_encode]; exact hx)]
  have hinv' : (x.prepend b).Inv := by
    rw [prepend_eq]
    exact Buffer.prepend_inv h _
  obtain ⟨hx', -, hrest'⟩ := read_encode hinv' hprepended
  exact ⟨hprepended, hx', hrest'⟩

/-- Of one list with all widths, the bytes and what is read back. -/
def mixedInts : List WireInt := [.int16 (-2), .int64 258, .int8 (-128), .int32 (-1)]

theorem mixedInts_roundTrip :
    (Buffer.make Buffer.zeroAlloc 4).Inv ∧
      (mixedInts.foldl (append Buffer.zeroAlloc) (Buffer.make Buffer.zeroAlloc 4)).readable =
        [255, 254, 0, 0, 0, 0, 0, 0, 1, 2, 128, 255, 255, 255, 255] ∧
      (readAll (((mixedInts.foldl (append Buffer.zeroAlloc)
        (Buffer.make Buffer.zeroAlloc 4)).append Buffer.zeroAlloc []).retrieve
          (Buffer.make Buffer.zeroAlloc 4).readableBytes) (mixedInts.map width)).1 = mixedInts := by
  have hinv := Buffer.make_inv Buffer.zeroAlloc 4
  obtain ⟨hstored, hread, -⟩ := wireInts_roundTrip Buffer.zeroAlloc _ hinv mixedInts []
  refine ⟨hinv, hstored.trans ?_, hread⟩
  rw [Buffer.make_readable]
  decide

end WireInt

end MyTinyHttpd
