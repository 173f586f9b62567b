import MyTinyHttpd.Net.ByteQueue

/-!
# `EnsureWritableBytes` with `size_t` arithmetic

`Net/Buffer.lean` computes with exact numbers. Here sums and differences are taken modulo 2^64, an
allocation can fail, and a copy that leaves the elements of a vector has no defined result. The
assertions are compiled out.

* `ensureWritableBytes64_exact`: as long as `writer_index_ + len + kCheapPrepend` is below 2^64,
  nothing wraps, and the function is the one of the exact model, or the allocation fails.
* `ensureWritableBytes64_iff`: for which lengths the function does what its assertion says.
-/

namespace MyTinyHttpd

open Verif

/-- `a + b` for `size_t`. -/
def addSize (a b : Nat) : Nat := (a + b) % 2 ^ 64

/-- `a - b` for `size_t`. -/
def subSize (a b : Nat) : Nat := (a + 2 ^ 64 - b) % 2 ^ 64

theorem addSize_of_lt {a b : Nat} (h : a + b < 2 ^ 64) : addSize a b = a + b := Nat.mod_eq_of_lt h

theorem addSize_of_ge {a b : Nat} (h : 2 ^ 64 ≤ a + b) (ha : a < 2 ^ 64) (hb : b < 2 ^ 64) :
    addSize a b = a + b - 2 ^ 64 := by
  unfold addSize
  omega

theorem subSize_of_le {a b : Nat} (h : b ≤ a) (ha : a < 2 ^ 64) : subSize a b = a - b := by
  unfold subSize
  omega

theorem subSize_of_lt {a b : Nat} (h : a < b) : subSize a b = a + 2 ^ 64 - b := by
  unfold subSize
  omega

/-- Where storage comes from. A request for more than `max_size()` fails (`std::length_error`), and
so may any other (`std::bad_alloc`). -/
structure Memory where
  alloc : Allocator
  fails : Nat → Bool
  max_size (n : Nat) : 2 ^ 63 ≤ n → fails n = true

/-- How a call of `EnsureWritableBytes` ends. -/
inductive Ensure where
  | failed
  /-- The copy stores outside of the elements of the vector. -/
  | undefined
  | returned (b : Buffer)

namespace Buffer

def readableBytes64 (b : Buffer) : Nat := subSize b.writerIndex b.readerIndex

def writableBytes64 (b : Buffer) : Nat := subSize b.buffer.size b.writerIndex

/-- `MoveReadableFront(dst)`. -/
def moveReadableFront64 (b dst : Buffer) : Ensure :=
  if b.readableBytes64 = 0 ∨ kCheapPrepend + b.readableBytes64 ≤ dst.buffer.size then
    .returned { b.moveReadableFront dst with
      writerIndex := addSize kCheapPrepend b.readableBytes64 }
  else .undefined

/-- `MoveReadableFront(*this)`. -/
def moveReadaleFront64 (b : Buffer) : Ensure :=
  if b.readableBytes64 = 0 ∨ kCheapPrepend + b.readableBytes64 ≤ b.buffer.size then
    .returned { b.moveReadaleFront with writerIndex := addSize kCheapPrepend b.readableBytes64 }
  else .undefined

def makeSpace64 (mem : Memory) (b : Buffer) (len : Nat) : Ensure :=
  if addSize b.writableBytes64 b.prependableBytes < addSize len kCheapPrepend then
    if h : addSize b.writerIndex len < b.capacity then
      .returned { b with
        buffer := { b.buffer with size := addSize b.writerIndex len, size_le := Nat.le_of_lt h } }
    else
      let size := addSize kCheapPrepend (addSize b.writerIndex len)
      if mem.fails size then .failed
      else
        b.moveReadableFront64
          { buffer := Vec.make mem.alloc size
            readerIndex := kCheapPrepend
            writerIndex := kCheapPrepend }
  else b.moveReadaleFront64

def ensureWritableBytes64 (mem : Memory) (b : Buffer) (len : Nat) : Ensure :=
  if b.writableBytes64 < len then b.makeSpace64 mem len else .returned b

/-- The readable bytes, as far as they are elements of the vector. -/
def readableElements (b : Buffer) : List UInt8 :=
  ((b.buffer.storage.take b.buffer.size).drop b.readerIndex).take (b.writerIndex - b.readerIndex)

end Buffer

/-- The call fails in the allocation, or there is room for `len` bytes and the readable bytes are
those of `b`. -/
def Ensure.NotShort (b : Buffer) (len : Nat) : Ensure → Prop
  | failed => True
  | undefined => False
  | returned b' => len ≤ b'.writableBytes64 ∧ b'.readableElements = b.readable

namespace Buffer

variable {b : Buffer} {len : Nat}

theorem readableElements_eq (h : b.Inv) : b.readableElements = b.readable := by
  have hr := h.reader_le
  have hw := h.writer_le
  rw [readableElements, readable, range, List.drop_take, List.take_take]
  congr 1
  omega

theorem length_readableElements_le (b : Buffer) :
    b.readableElements.length ≤ b.buffer.size - b.readerIndex := by
  have := b.buffer.size_le
  simp only [readableElements, List.length_take, List.length_drop]
  omega

theorem readableElements_of_eq (h : b.writerIndex = b.readerIndex) : b.readableElements = [] := by
  simp [readableElements, h]

theorem Inv.readableBytes64 (h : b.Inv) (hsize : b.buffer.size < 2 ^ 64) :
    b.readableBytes64 = b.readableBytes :=
  subSize_of_le h.reader_le (h.writer_le.trans_lt hsize)

theorem Inv.writableBytes64 (h : b.Inv) (hsize : b.buffer.size < 2 ^ 64) :
    b.writableBytes64 = b.writableBytes :=
  subSize_of_le h.writer_le hsize

/-! ## When nothing wraps -/

theorem moveReadableFront64_eq {dst : Buffer} (h : b.Inv) (hsize : b.buffer.size < 2 ^ 63)
    (hdst : kCheapPrepend + b.readableBytes ≤ dst.buffer.size) :
    b.moveReadableFront64 dst = .returned (b.moveReadableFront dst) := by
  have hread := h.readableBytes64 (by omega)
  have hlt : kCheapPrepend + b.readableBytes < 2 ^ 64 := by
    have := h.writer_le
    unfold readableBytes kCheapPrepend
    omega
  rw [moveReadableFront64, hread, if_pos (.inr hdst), addSize_of_lt hlt]
  rfl

theorem moveReadaleFront64_eq (h : b.Inv) (hsize : b.buffer.size < 2 ^ 63)
    (hfits : kCheapPrepend + b.readableBytes ≤ b.buffer.size) :
    b.moveReadaleFront64 = .returned b.moveReadaleFront := by
  have hread := h.readableBytes64 (by omega)
  rw [moveReadaleFront64, hread, if_pos (.inr hfits), addSize_of_lt (by omega)]
  rfl

/-- Nothing wraps: the function is the one of the exact model, or the allocation fails. -/
theorem ensureWritableBytes64_exact (mem : Memory) (h : b.Inv) (hcap : b.capacity < 2 ^ 63)
    (hlen : b.writerIndex + len + kCheapPrepend < 2 ^ 64) :
    b.ensureWritableBytes64 mem len = .failed ∨
      b.ensureWritableBytes64 mem len = .returned (b.ensureWritableBytes mem.alloc len) := by
  have hr := h.reader_le
  have hw := h.writer_le
  have hsize : b.buffer.size < 2 ^ 63 := b.buffer.size_le.trans_lt hcap
  have hwritable := h.writableBytes64 (by omega)
  unfold ensureWritableBytes64 ensureWritableBytes
  rw [hwritable]
  split
  · rename_i hshort
    have hsum : addSize b.writableBytes b.prependableBytes =
        b.writableBytes + b.prependableBytes := by
      refine addSize_of_lt ?_
      unfold writableBytes prependableBytes
      omega
    have hreserve : addSize len kCheapPrepend = len + kCheapPrepend := addSize_of_lt (by omega)
    have hend : addSize b.writerIndex len = b.writerIndex + len := addSize_of_lt (by omega)
    unfold makeSpace64 makeSpace
    rw [hwritable, hsum, hreserve]
    split
    · by_cases hroom : b.writerIndex + len < b.capacity
      · right
        have hle : b.writerIndex + len ≤ b.buffer.capacity := Nat.le_of_lt hroom
        simp only [hend, hroom, ↓reduceDIte, ↓reduceIte, Vec.resize, hle]
      · have halloc : addSize kCheapPrepend (b.writerIndex + len) =
            kCheapPrepend + (b.writerIndex + len) := addSize_of_lt (by omega)
        simp only [hend, hroom, ↓reduceDIte, ↓reduceIte, halloc]
        split
        · exact .inl rfl
        · right
          rw [moveReadableFront64_eq h hsize]
          · rfl
          · simp only [Vec.make, readableBytes]
            omega
    · rename_i hfits
      right
      refine moveReadaleFront64_eq h hsize ?_
      unfold writableBytes prependableBytes at hfits
      unfold writableBytes at hshort
      unfold readableBytes
      omega
  · exact .inr rfl

theorem ensureWritableBytes_size_lt (alloc : Allocator) (hcap : b.capacity < 2 ^ 63)
    (hlen : b.writerIndex + len + kCheapPrepend < 2 ^ 64) :
    (b.ensureWritableBytes alloc len).buffer.size < 2 ^ 64 := by
  have hsize : b.buffer.size < 2 ^ 63 := b.buffer.size_le.trans_lt hcap
  unfold ensureWritableBytes makeSpace
  split
  · split
    · split
      · rename_i hroom
        have hle : b.writerIndex + len ≤ b.buffer.capacity := Nat.le_of_lt hroom
        simp only [Vec.resize, hle, ↓reduceDIte]
        omega
      · simp only [swap, moveReadableFront, Vec.write, make, Vec.make]
        omega
    · simp only [moveReadaleFront, Vec.copy]
      omega
  · omega

theorem notShort_exact (mem : Memory) (h : b.Inv) (hcap : b.capacity < 2 ^ 63)
    (hlen : b.writerIndex + len + kCheapPrepend < 2 ^ 64) :
    (b.ensureWritableBytes64 mem len).NotShort b len := by
  rcases ensureWritableBytes64_exact mem h hcap hlen with hfailed | hreturned
  · rw [hfailed]
    trivial
  · have hensured := ensureWritableBytes_ensured mem.alloc h len
    have hsize := ensureWritableBytes_size_lt mem.alloc hcap hlen
    rw [hreturned]
    refine ⟨?_, ?_⟩
    · rw [hensured.inv.writableBytes64 hsize]
      exact hensured.le_writable
    · rw [readableElements_eq hensured.inv, hensured.readable_eq]

/-! ## When a sum wraps -/

/-- Memory in which every request below `max_size()` succeeds. -/
def freeMemory : Memory where
  alloc := zeroAlloc
  fails n := decide (2 ^ 63 ≤ n)
  max_size _ h := decide_eq_true h

/-- The writer index and `len` wrap, but nothing is readable: `writable_bytes()` wraps as well, and
says that there is room. -/
theorem notShort_empty (mem : Memory) (h : b.Inv) (hcap : b.capacity < 2 ^ 63)
    (hempty : b.readableBytes = 0) (hlen : len + kCheapPrepend < 2 ^ 64)
    (hwraps : 2 ^ 64 ≤ b.writerIndex + len + kCheapPrepend) :
    (b.ensureWritableBytes64 mem len).NotShort b len := by
  have hr := h.reader_le
  have hw := h.writer_le
  have hsize : b.buffer.size < 2 ^ 63 := b.buffer.size_le.trans_lt hcap
  have hread := h.readableBytes64 (by omega)
  have hwritable := h.writableBytes64 (by omega)
  have hnil : b.readable = [] := h.readable_eq_nil.mpr hempty
  have hindex : b.writerIndex = b.readerIndex := by
    unfold readableBytes at hempty
    omega
  have hgrows : addSize b.writableBytes b.prependableBytes < addSize len kCheapPrepend := by
    unfold addSize writableBytes prependableBytes
    omega
  have hcapSize : b.buffer.size ≤ b.capacity := b.buffer.size_le
  unfold kCheapPrepend at hlen hwraps
  have hshort : b.writableBytes < len := by
    unfold writableBytes
    omega
  unfold ensureWritableBytes64
  rw [hwritable, if_pos hshort]
  unfold makeSpace64
  rw [hwritable, if_pos hgrows]
  split
  · -- the size of the vector wraps to less than the writer index
    rename_i hroom
    have hsum : 2 ^ 64 ≤ b.writerIndex + len := by
      by_contra hlt
      rw [addSize_of_lt (by omega)] at hroom
      omega
    refine ⟨?_, ?_⟩
    · simp only [writableBytes64]
      rw [addSize_of_ge hsum (by omega) (by omega), subSize_of_lt (by omega)]
      omega
    · rw [hnil]
      exact readableElements_of_eq hindex
  · -- the new vector is smaller than the reserve
    rename_i hroom
    have hsum : b.writerIndex + len < 2 ^ 64 := by
      by_contra hge
      rw [addSize_of_ge (by omega) (by omega) (by omega)] at hroom
      omega
    simp only
    split
    · trivial
    · rw [moveReadableFront64, hread, hempty, if_pos (.inl rfl)]
      refine ⟨?_, ?_⟩
      · simp only [writableBytes64, moveReadableFront, Vec.write, Vec.make, kCheapPrepend]
        rw [addSize_of_lt hsum, addSize_of_ge (by omega) (by omega) (by omega),
          addSize_of_lt (by omega), subSize_of_lt (by omega)]
        omega
      · rw [hnil]
        exact readableElements_of_eq rfl

/-- A vector that ends before the writer index has lost readable bytes. -/
theorem readableElements_ne {b' : Buffer} (h : b.Inv) (hpos : 0 < b.readableBytes)
    (hreader : b'.readerIndex = b.readerIndex) (hsize : b'.buffer.size < b.writerIndex) :
    b'.readableElements ≠ b.readable := by
  intro heq
  have hlength := congrArg List.length heq
  have hle := length_readableElements_le b'
  rw [h.length_readable] at hlength
  unfold readableBytes at hlength hpos
  omega

theorem moveReadableFront64_undefined {dst : Buffer} (h : b.Inv) (hsize : b.buffer.size < 2 ^ 63)
    (hpos : 0 < b.readableBytes) (hdst : dst.buffer.size < kCheapPrepend + b.readableBytes) :
    b.moveReadableFront64 dst = .undefined := by
  rw [moveReadableFront64, h.readableBytes64 (by omega), if_neg (by omega)]

/-- Moving to the front makes no room for more than the size of the vector. -/
theorem moveReadaleFront64_short (h : b.Inv) (hsize : b.buffer.size < 2 ^ 63)
    (hlen : b.buffer.size < len) : ¬ b.moveReadaleFront64.NotShort b len := by
  have hw := h.writer_le
  have hreadable : b.readableBytes ≤ b.buffer.size := (Nat.sub_le _ _).trans hw
  unfold moveReadaleFront64
  rw [h.readableBytes64 (by omega)]
  split
  · rename_i hcopy
    have hp := h.prepend_le
    rintro ⟨hroom, -⟩
    simp only [writableBytes64, moveReadaleFront, Vec.copy, kCheapPrepend] at hroom hcopy hp
    rw [addSize_of_lt (by omega), subSize_of_le (by omega) (by omega)] at hroom
    omega
  · exact id

theorem short_of_wraps (h : b.Inv) (hcap : b.capacity < 2 ^ 63) (hlen : len < 2 ^ 64)
    (hshort : b.writableBytes < len) (hwraps : 2 ^ 64 ≤ b.writerIndex + len + kCheapPrepend)
    (hmore : 0 < b.readableBytes ∨ 2 ^ 64 ≤ len + kCheapPrepend) :
    ¬ (b.ensureWritableBytes64 freeMemory len).NotShort b len := by
  have hr := h.reader_le
  have hw := h.writer_le
  have hsize : b.buffer.size < 2 ^ 63 := b.buffer.size_le.trans_lt hcap
  have hwritable := h.writableBytes64 (by omega)
  have hcapSize : b.buffer.size ≤ b.capacity := b.buffer.size_le
  have hp := h.prepend_le
  unfold kCheapPrepend at hwraps hmore hp
  unfold ensureWritableBytes64
  rw [hwritable, if_pos hshort]
  unfold makeSpace64
  rw [hwritable]
  split
  · rename_i hgrows
    -- with nothing readable, `len + kCheapPrepend` would have to be below 2^64 here
    have hpos : 0 < b.readableBytes := by
      rcases hmore with hpos | hlarge
      · exact hpos
      · simp only [addSize, writableBytes, prependableBytes, kCheapPrepend] at hgrows
        unfold readableBytes
        omega
    split
    · rename_i hroom
      have hsum : addSize b.writerIndex len < b.writerIndex := by
        unfold addSize at hroom ⊢
        omega
      rintro ⟨-, hreadable⟩
      refine readableElements_ne h hpos ?_ ?_ hreadable
      · rfl
      · exact hsum
    · rename_i hroom
      have hsmall : addSize kCheapPrepend (addSize b.writerIndex len) < kCheapPrepend := by
        simp only [addSize, kCheapPrepend] at hroom ⊢
        omega
      have hfails : freeMemory.fails (addSize kCheapPrepend (addSize b.writerIndex len)) = false :=
        decide_eq_false (by unfold kCheapPrepend at hsmall ⊢; omega)
      simp only [hfails, Bool.false_eq_true, ↓reduceIte]
      rw [moveReadableFront64_undefined h hsize hpos (Nat.lt_add_right _ hsmall)]
      exact id
  · rename_i hfits
    simp only [addSize, writableBytes, prependableBytes, kCheapPrepend] at hfits
    exact moveReadaleFront64_short h hsize (by omega)

/-- **`EnsureWritableBytes` never returns short, unless a sum wraps.** For every buffer and every
64-bit length, in a release build, where the assertion at the end of the function is compiled out:
whatever the memory does, the call fails in the allocation, or returns with
`writable_bytes() >= len` and the readable bytes unchanged, if and only if there is room already,
`writer_index_ + len + kCheapPrepend` is below 2^64, or nothing is readable and
`len + kCheapPrepend` is below 2^64. In this last case, when the sum with `writer_index_` wraps, the
room is no memory: `writer_index_` is beyond the size of the vector, and `writable_bytes()` is a
difference that has wrapped. -/
theorem ensureWritableBytes64_iff (h : b.Inv) (hcap : b.capacity < 2 ^ 63) (len : UInt64) :
    (∀ mem, (b.ensureWritableBytes64 mem len.toNat).NotShort b len.toNat) ↔
      len.toNat ≤ b.writableBytes ∨
        b.writerIndex + len.toNat + kCheapPrepend < 2 ^ 64 ∨
        (b.readableBytes = 0 ∧ len.toNat + kCheapPrepend < 2 ^ 64) := by
  have hlen : len.toNat < 2 ^ 64 := len.toNat_lt
  constructor
  · intro hall
    by_contra hcond
    rw [not_or, not_or, not_and] at hcond
    obtain ⟨hshort, hwraps, hmore⟩ := hcond
    refine short_of_wraps h hcap hlen (by omega) (by omega) ?_ (hall freeMemory)
    by_cases hempty : b.readableBytes = 0
    · have := hmore hempty
      exact .inr (by omega)
    · exact .inl (by omega)
  · intro hcond mem
    by_cases hwraps : b.writerIndex + len.toNat + kCheapPrepend < 2 ^ 64
    · exact notShort_exact mem h hcap hwraps
    · rcases hcond with hroom | hexact | ⟨hempty, hlt⟩
      · have hwritable := h.writableBytes64 ((b.buffer.size_le.trans_lt hcap).trans (by decide))
        rw [ensureWritableBytes64, hwritable, if_neg (by omega)]
        exact ⟨by rw [hwritable]; exact hroom, readableElements_eq h⟩
      · exact absurd hexact hwraps
      · exact notShort_empty mem h hcap hempty hlt (by omega)

theorem capacity_make (n : Nat) : (make zeroAlloc n).capacity = kCheapPrepend + n := by
  simp [capacity, Vec.capacity, make, Vec.make, zeroAlloc]

theorem ensureWritableBytes64_room :
    (make zeroAlloc 16).Inv ∧ (make zeroAlloc 16).capacity < 2 ^ 63 ∧
      ∀ mem, ((make zeroAlloc 16).ensureWritableBytes64 mem (5000 : UInt64).toNat).NotShort
        (make zeroAlloc 16) (5000 : UInt64).toNat := by
  have hcap : (make zeroAlloc 16).capacity < 2 ^ 63 := by
    rw [capacity_make]
    decide
  exact ⟨make_inv _ _, hcap, (ensureWritableBytes64_iff (make_inv _ _) hcap 5000).mpr
    (.inr (.inl (by decide)))⟩

/-- `tellg` has failed, and the length is -1: the sum with the reserve is 7, for which a new buffer
has room. The call returns, and there is room for as many bytes as before. -/
theorem ensureWritableBytes64_minus_one (mem : Memory) {n : Nat} (hn : n < 2 ^ 62) :
    ∃ b', (make zeroAlloc n).ensureWritableBytes64 mem (castSizeT (-1)) = .returned b' ∧
      b'.writableBytes64 = n := by
  have hlen : castSizeT (-1) = 2 ^ 64 - 1 := by decide
  have hwritable : (make zeroAlloc n).writableBytes64 = n := by
    simp only [writableBytes64, make, Vec.make]
    rw [subSize_of_le (by omega) (by unfold kCheapPrepend; omega)]
    omega
  have hreadable : (make zeroAlloc n).readableBytes64 = 0 := by
    simp only [readableBytes64, make]
    decide
  have hfits : ¬ addSize n (make zeroAlloc n).prependableBytes <
      addSize (2 ^ 64 - 1) kCheapPrepend := by
    simp only [addSize, prependableBytes, make, kCheapPrepend]
    omega
  rw [hlen, ensureWritableBytes64, hwritable, if_pos (by omega), makeSpace64, hwritable,
    if_neg hfits, moveReadaleFront64, hreadable, if_pos (.inl rfl)]
  refine ⟨_, rfl, ?_⟩
  simp only [writableBytes64, moveReadaleFront, Vec.copy, make, Vec.make]
  rw [addSize_of_lt (by decide), subSize_of_le (by omega) (by unfold kCheapPrepend; omega)]
  omega

/-- A new buffer has room for 1024 bytes, and is not short of 2^64 - 1 according to the call. -/
theorem ensureWritableBytes64_short :
    (∃ b', (make zeroAlloc kInitialSize).ensureWritableBytes64 freeMemory (castSizeT (-1)) =
        .returned b' ∧ b'.writableBytes64 = 1024) ∧
      ¬ ((make zeroAlloc kInitialSize).ensureWritableBytes64 freeMemory
        (castSizeT (-1))).NotShort (make zeroAlloc kInitialSize) (castSizeT (-1)) := by
  obtain ⟨b', hreturned, hroom⟩ := ensureWritableBytes64_minus_one freeMemory
    (show kInitialSize < 2 ^ 62 by decide)
  refine ⟨⟨b', hreturned, hroom⟩, ?_⟩
  rw [hreturned]
  rintro ⟨hle, -⟩
  rw [hroom] at hle
  exact absurd hle (by decide)

end Buffer

end MyTinyHttpd
