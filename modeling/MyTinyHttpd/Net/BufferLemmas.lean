import MyTinyHttpd.Net.Buffer

/-!
# What the operations of `Buffer` do to its readable bytes

`Buffer.Inv`: the indices are in order and inside the vector, and the vector has room for the
prepend reserve. One lemma for each operation says that it keeps the invariant and what it does
to the readable bytes; the callers never look into the vector.
-/

namespace MyTinyHttpd

open Verif

namespace Buffer

/-- The readable bytes, from the reader index to the writer index. -/
def readable (b : Buffer) : List UInt8 := b.range b.readerIndex b.writerIndex

structure Inv (b : Buffer) : Prop where
  reader_le : b.readerIndex ≤ b.writerIndex
  writer_le : b.writerIndex ≤ b.buffer.size
  prepend_le : kCheapPrepend ≤ b.buffer.size

namespace Inv

variable {b : Buffer}

theorem writer_le_length (h : b.Inv) : b.writerIndex ≤ b.buffer.storage.length :=
  Nat.le_trans h.writer_le b.buffer.size_le

@[simp] theorem length_readable (h : b.Inv) : b.readable.length = b.readableBytes := by
  have := h.writer_le_length
  simp [readable, range, readableBytes]; omega

theorem readable_eq_nil (h : b.Inv) : b.readable = [] ↔ b.readableBytes = 0 := by
  rw [← List.length_eq_zero_iff, h.length_readable]

end Inv

/-- `readable` through the first `writerIndex` bytes of the storage. -/
theorem readable_eq_drop_take (b : Buffer) :
    b.readable = (b.buffer.storage.take b.writerIndex).drop b.readerIndex := by
  rw [readable, range, List.drop_take]

/-! ## Construction -/

theorem make_inv (alloc : Allocator) (n : Nat) : (make alloc n).Inv where
  reader_le := Nat.le_refl _
  writer_le := by simp [make, Vec.make]
  prepend_le := by simp [make, Vec.make]

theorem make_readable (alloc : Allocator) (n : Nat) : (make alloc n).readable = [] := by
  simp [readable, range, make]

/-! ## Retrieving -/

theorem retrieveAll_inv {b : Buffer} (h : b.Inv) : b.retrieveAll.Inv where
  reader_le := Nat.le_refl _
  writer_le := h.prepend_le
  prepend_le := h.prepend_le

theorem retrieveAll_readable (b : Buffer) : b.retrieveAll.readable = [] := by
  simp [readable, range, retrieveAll]

theorem retrieve_inv {b : Buffer} (h : b.Inv) (len : Nat) : (b.retrieve len).Inv := by
  unfold retrieve
  split
  · rename_i hlt
    have := h.reader_le
    unfold readableBytes at hlt
    exact ⟨by simp only; omega, h.writer_le, h.prepend_le⟩
  · exact retrieveAll_inv h

/-- Retrieving all that is readable resets the indices; otherwise only the reader moves. -/
theorem retrieve_readable {b : Buffer} (h : b.Inv) (len : Nat) :
    (b.retrieve len).readable = b.readable.drop len := by
  unfold retrieve
  split
  · simp only [readable, range, List.drop_take, List.drop_drop]
    congr 1; omega
  · rename_i hle
    rw [retrieveAll_readable, List.drop_eq_nil_of_le]
    rw [h.length_readable]; omega

theorem range_peek {b : Buffer} {len : Nat} (hlen : len ≤ b.readableBytes) :
    b.range b.peek (b.peek + len) = b.readable.take len := by
  unfold readableBytes at hlen
  simp only [readable, range, peek, List.take_take]
  congr 1; omega

/-! ## Writing behind the writer index -/

theorem fill_inv {b : Buffer} (h : b.Inv) (ys : List UInt8) : (b.fill ys).Inv :=
  ⟨h.reader_le, h.writer_le, h.prepend_le⟩

theorem fill_readable {b : Buffer} (h : b.Inv) (ys : List UInt8) :
    (b.fill ys).readable = b.readable := by
  rw [readable_eq_drop_take, readable_eq_drop_take]
  simp only [fill, Vec.write, offsetofWrite]
  rw [take_writeAt h.writer_le_length (Nat.le_refl _)]

theorem hasWritten_inv {b : Buffer} (h : b.Inv) {len : Nat} (hlen : len ≤ b.writableBytes) :
    (b.hasWritten len).Inv := by
  have := h.reader_le
  have := h.writer_le
  unfold writableBytes at hlen
  exact ⟨by simp only [hasWritten]; omega, by simp only [hasWritten]; omega, h.prepend_le⟩

/-- Filling the writable area and claiming `len` of the bytes appends them. -/
theorem fill_hasWritten_readable {b : Buffer} (h : b.Inv) {ys : List UInt8} {len : Nat}
    (hys : ys.length ≤ b.writableBytes) (hlen : len ≤ ys.length) :
    ((b.fill ys).hasWritten len).readable = b.readable ++ ys.take len := by
  have hr := h.reader_le
  have hw := h.writer_le_length
  have hs := b.buffer.size_le
  have hfit : b.writerIndex + ys.length ≤ b.buffer.storage.length := by
    have := h.writer_le; unfold writableBytes at hys; omega
  have hback : ((writeAt b.buffer.storage b.writerIndex ys).drop b.writerIndex).take len =
      ys.take len := by
    conv => rhs; rw [← take_drop_writeAt hfit, List.take_take, Nat.min_eq_left hlen]
  have hfront : ((writeAt b.buffer.storage b.writerIndex ys).drop b.readerIndex).take
      (b.writerIndex - b.readerIndex) = b.readable := fill_readable h ys
  simp only [readable, range, hasWritten, fill, Vec.write, offsetofWrite] at hfront ⊢
  rw [show b.writerIndex + len - b.readerIndex = (b.writerIndex - b.readerIndex) + len by omega,
    List.take_add, hfront, List.drop_drop,
    show b.readerIndex + (b.writerIndex - b.readerIndex) = b.writerIndex by omega, hback]

theorem unwrite_inv {b : Buffer} (h : b.Inv) {len : Nat} (hlen : len ≤ b.readableBytes) :
    (b.unwrite len).Inv := by
  have := h.reader_le
  have := h.writer_le
  unfold readableBytes at hlen
  exact ⟨by simp only [unwrite]; omega, by simp only [unwrite]; omega, h.prepend_le⟩

theorem unwrite_readable {b : Buffer} (h : b.Inv) {len : Nat} (hlen : len ≤ b.readableBytes) :
    (b.unwrite len).readable = b.readable.take (b.readable.length - len) := by
  rw [h.length_readable]
  have := h.reader_le
  simp only [readable, range, unwrite, List.take_take, readableBytes] at hlen ⊢
  congr 1; omega

/-! ## Making room -/

theorem moveReadableFront_inv {b dst : Buffer}
    (hd : kCheapPrepend + b.readableBytes ≤ dst.buffer.size) : (b.moveReadableFront dst).Inv :=
  ⟨Nat.le_add_right _ _, hd, Nat.le_trans (Nat.le_add_right _ _) hd⟩

theorem moveReadableFront_readable {b dst : Buffer} (h : b.Inv)
    (hd : kCheapPrepend + b.readableBytes ≤ dst.buffer.size) :
    (b.moveReadableFront dst).readable = b.readable := by
  have hl : (b.range b.readerIndex b.writerIndex).length = b.readableBytes := h.length_readable
  have hs := dst.buffer.size_le
  have hfit : kCheapPrepend + (b.range b.readerIndex b.writerIndex).length ≤
      dst.buffer.storage.length := by omega
  have hback := take_drop_writeAt hfit
  rw [hl] at hback
  simpa only [readable, range, moveReadableFront, Vec.write, Nat.add_sub_cancel_left] using hback

/-- Inside one vector the copy goes towards the front when the reader index is past the
reserve. -/
theorem moveReadaleFront_readable {b : Buffer} (h : b.Inv) (hr : kCheapPrepend ≤ b.readerIndex) :
    b.moveReadaleFront.readable = b.readable := by
  have h1 := h.reader_le
  have h2 := h.writer_le_length
  have hl : (b.range b.readerIndex b.writerIndex).length = b.readableBytes := h.length_readable
  have hc : copyWithin b.buffer.storage b.readerIndex kCheapPrepend b.readableBytes =
      writeAt b.buffer.storage kCheapPrepend (b.range b.readerIndex b.writerIndex) :=
    copyWithin_eq hr (by unfold readableBytes; omega)
  have hfit : kCheapPrepend + (b.range b.readerIndex b.writerIndex).length ≤
      b.buffer.storage.length := by rw [hl]; unfold readableBytes; omega
  have hb := take_drop_writeAt hfit
  rw [hl] at hb
  simp only [moveReadaleFront, readable, range, Vec.copy, Nat.add_sub_cancel_left] at hb ⊢
  rw [hc]; exact hb

/-- What `EnsureWritableBytes(len)` promises. -/
structure Ensured (b b' : Buffer) (len : Nat) : Prop where
  inv : b'.Inv
  readable_eq : b'.readable = b.readable
  le_writable : len ≤ b'.writableBytes

theorem makeSpace_ensured (alloc : Allocator) {b : Buffer} (h : b.Inv) {len : Nat}
    (hlen : b.writableBytes < len) : Ensured b (b.makeSpace alloc len) len := by
  have hr := h.reader_le
  have hw := h.writer_le
  have hp := h.prepend_le
  unfold makeSpace
  split
  · split
    · -- the storage already has room: only the size grows
      rename_i hcap
      have hle : b.writerIndex + len ≤ b.buffer.capacity := Nat.le_of_lt hcap
      unfold writableBytes at hlen
      refine ⟨⟨hr, ?_, ?_⟩, ?_, ?_⟩
      all_goals simp only [Vec.resize, hle, ↓reduceDIte, writableBytes, readable, range]
      all_goals omega
    · have hd : kCheapPrepend + b.readableBytes ≤
          (make alloc (b.writerIndex + len)).buffer.size := by
        simp only [make, Vec.make, readableBytes]; omega
      refine ⟨moveReadableFront_inv hd, moveReadableFront_readable h hd, ?_⟩
      simp only [swap, moveReadableFront, writableBytes, Vec.write, make, Vec.make, readableBytes]
      omega
  · rename_i hroom
    unfold writableBytes prependableBytes at hroom
    unfold writableBytes at hlen
    refine ⟨⟨Nat.le_add_right _ _, ?_, hp⟩, moveReadaleFront_readable h (by omega), ?_⟩
    all_goals simp only [moveReadaleFront, Vec.copy, writableBytes, readableBytes]
    all_goals omega

theorem ensureWritableBytes_ensured (alloc : Allocator) {b : Buffer} (h : b.Inv) (len : Nat) :
    Ensured b (b.ensureWritableBytes alloc len) len := by
  unfold ensureWritableBytes
  split
  · rename_i hlt; exact makeSpace_ensured alloc h hlt
  · exact ⟨h, rfl, by omega⟩

/-! ## Appending -/

theorem append_inv (alloc : Allocator) {b : Buffer} (h : b.Inv) (data : List UInt8) :
    (b.append alloc data).Inv := by
  have he := ensureWritableBytes_ensured alloc h data.length
  exact hasWritten_inv (fill_inv he.inv data) he.le_writable

theorem append_readable (alloc : Allocator) {b : Buffer} (h : b.Inv) (data : List UInt8) :
    (b.append alloc data).readable = b.readable ++ data := by
  have he := ensureWritableBytes_ensured alloc h data.length
  unfold append
  rw [fill_hasWritten_readable he.inv he.le_writable (Nat.le_refl _), he.readable_eq,
    List.take_length]

theorem appendStream_inv (alloc : Allocator) {b : Buffer} (h : b.Inv) (len : Nat)
    (got : List UInt8) (good : Bool) : (b.appendStream alloc len got good).Inv := by
  have he := ensureWritableBytes_ensured alloc h len
  unfold appendStream
  split
  · exact hasWritten_inv (fill_inv he.inv got) he.le_writable
  · exact fill_inv he.inv got

/-- A read that stores at most `len` bytes, and exactly `len` when the stream stays good. -/
theorem appendStream_readable (alloc : Allocator) {b : Buffer} (h : b.Inv) {len : Nat}
    {got : List UInt8} {good : Bool} (hle : got.length ≤ len)
    (hgood : good = true → got.length = len) :
    (b.appendStream alloc len got good).readable = b.readable ++ if good then got else [] := by
  have he := ensureWritableBytes_ensured alloc h len
  unfold appendStream
  split
  · rename_i hg
    have hl := hgood hg
    rw [fill_hasWritten_readable he.inv (Nat.le_trans hle he.le_writable) (by omega),
      he.readable_eq, ← hl, List.take_length]
  · rw [fill_readable he.inv, he.readable_eq, List.append_nil]

/-- What was readable stays in front, whatever the read does. -/
theorem appendStream_prefix (alloc : Allocator) {b : Buffer} (h : b.Inv) (len : Nat)
    (got : List UInt8) (good : Bool) :
    b.readable <+: (b.appendStream alloc len got good).readable := by
  have he := ensureWritableBytes_ensured alloc h len
  rw [← he.readable_eq, ← fill_readable he.inv got]
  unfold appendStream
  split
  · simp only [readable, range, hasWritten]
    exact List.take_prefix_take_left (by omega)
  · exact List.prefix_rfl

theorem readFromFd_inv (alloc : Allocator) {b : Buffer} (h : b.Inv) (r : ReadvResult) :
    (b.readFromFd alloc r).1.Inv := by
  cases r with
  | failed errno => exact h
  | filled bytes =>
    have hf := fill_inv h (bytes.take b.writableBytes)
    simp only [readFromFd]
    split
    · rename_i hle
      exact hasWritten_inv hf hle
    · apply append_inv
      exact ⟨Nat.le_trans hf.reader_le hf.writer_le, Nat.le_refl _, hf.prepend_le⟩

/-- The bytes that `readv` stored are appended, those of `extrabuf` after those of the writable
area. -/
theorem readFromFd_readable (alloc : Allocator) {b : Buffer} (h : b.Inv) (bytes : List UInt8) :
    (b.readFromFd alloc (.filled bytes)).1.readable = b.readable ++ bytes := by
  simp only [readFromFd]
  split
  · rename_i hle
    rw [List.take_of_length_le hle, fill_hasWritten_readable h hle (Nat.le_refl _),
      List.take_length]
  · rename_i hgt
    have hlen : (bytes.take b.writableBytes).length = b.writableBytes := by simp; omega
    have hf := fill_inv h (bytes.take b.writableBytes)
    -- moving the writer index to the end claims the whole writable area
    have hfull : ({ b.fill (bytes.take b.writableBytes) with
        writerIndex := (b.fill (bytes.take b.writableBytes)).buffer.size } : Buffer) =
        (b.fill (bytes.take b.writableBytes)).hasWritten b.writableBytes := by
      have := h.writer_le
      simp only [fill, hasWritten, writableBytes, Vec.write, mk.injEq, true_and]; omega
    have hinv : ((b.fill (bytes.take b.writableBytes)).hasWritten b.writableBytes).Inv :=
      hasWritten_inv hf (Nat.le_refl _)
    rw [hfull, append_readable alloc hinv, fill_hasWritten_readable h (by omega) (by omega),
      List.append_assoc, List.take_take, Nat.min_self, List.take_append_drop]

/-! ## Prepending and shrinking -/

theorem prepend_inv {b : Buffer} (h : b.Inv) (data : List UInt8) : (b.prepend data).Inv := by
  have := h.reader_le
  exact ⟨by simp only [prepend]; omega, h.writer_le, h.prepend_le⟩

theorem prepend_readable {b : Buffer} (h : b.Inv) {data : List UInt8}
    (hlen : data.length ≤ b.prependableBytes) :
    (b.prepend data).readable = data ++ b.readable := by
  have h1 := h.reader_le
  have h2 := h.writer_le_length
  unfold prependableBytes at hlen
  have hfit : b.readerIndex - data.length + data.length ≤ b.buffer.storage.length := by omega
  have hback := take_drop_writeAt hfit
  have hrest : (writeAt b.buffer.storage (b.readerIndex - data.length) data).drop b.readerIndex =
      b.buffer.storage.drop b.readerIndex := drop_writeAt (by omega) (by omega)
  simp only [readable, range, prepend, Vec.write]
  rw [show b.writerIndex - (b.readerIndex - data.length) =
      data.length + (b.writerIndex - b.readerIndex) by omega, List.take_add, hback, List.drop_drop,
    show b.readerIndex - data.length + data.length = b.readerIndex by omega, hrest]

/-- `shrink_to_fit` of the vector. -/
def fit (alloc : Allocator) (b : Buffer) : Buffer :=
  { b with buffer := b.buffer.shrinkToFit alloc }

theorem fit_inv (alloc : Allocator) {b : Buffer} (h : b.Inv) : (b.fit alloc).Inv := by
  have hs : (b.buffer.shrinkToFit alloc).size = b.buffer.size := by
    unfold Vec.shrinkToFit; split <;> rfl
  exact ⟨h.reader_le, by simp only [fit, hs]; exact h.writer_le,
    by simp only [fit, hs]; exact h.prepend_le⟩

theorem fit_readable (alloc : Allocator) {b : Buffer} (h : b.Inv) :
    (b.fit alloc).readable = b.readable := by
  have h1 := h.writer_le
  have h2 := b.buffer.size_le
  have hs : (b.buffer.shrinkToFit alloc).storage.take b.writerIndex =
      b.buffer.storage.take b.writerIndex := by
    unfold Vec.shrinkToFit
    split
    · show (b.buffer.storage.take b.buffer.size ++ _).take b.writerIndex = _
      rw [List.take_append_of_le_length (by simp; omega), List.take_take, Nat.min_eq_left h1]
    · rfl
  rw [readable_eq_drop_take, readable_eq_drop_take]
  simp only [fit, hs]

theorem toSlice_eq {b : Buffer} (hsmall : b.readableBytes < 2 ^ 31) : b.toSlice = b.readable := by
  rw [toSlice, castInt_of_lt hsmall, castSizeT_of_lt (by omega), range_peek (Nat.le_refl _)]
  exact List.take_of_length_le (by simp [readable, range, readableBytes])

theorem shrink_eq (alloc : Allocator) (b : Buffer) (reserve : Nat) :
    b.shrink alloc reserve =
      (((make alloc kInitialSize).ensureWritableBytes alloc (b.readableBytes + reserve)).append
        alloc b.toSlice).fit alloc := rfl

theorem shrink_inv (alloc : Allocator) (b : Buffer) (reserve : Nat) :
    (b.shrink alloc reserve).Inv := by
  have he := ensureWritableBytes_ensured alloc (make_inv alloc kInitialSize)
    (b.readableBytes + reserve)
  rw [shrink_eq]
  exact fit_inv alloc (append_inv alloc he.inv b.toSlice)

theorem shrink_readable (alloc : Allocator) {b : Buffer} (hsmall : b.readableBytes < 2 ^ 31)
    (reserve : Nat) : (b.shrink alloc reserve).readable = b.readable := by
  have he := ensureWritableBytes_ensured alloc (make_inv alloc kInitialSize)
    (b.readableBytes + reserve)
  rw [shrink_eq, fit_readable alloc (append_inv alloc he.inv b.toSlice),
    append_readable alloc he.inv, he.readable_eq, make_readable, List.nil_append,
    toSlice_eq hsmall]

end Buffer

end MyTinyHttpd
