import MyTinyHttpd.Lib.BigEndian
import MyTinyHttpd.Net.ByteQueue

/-!
# The assertions inside `Buffer`

`Net/Buffer.lean` is the Release build. Here the assertions come back: for each operation, what its
own body and the operations that it calls assert on the way, with the values that they see. The
argument assertion of a call is `Call.ArgumentOk`; all others are `Call.Asserts`.

`MakeSpace` moves the readable bytes to a new vector with `MoveReadableFront`, which asserts that
the reader index is not inside the prepend reserve. `Prepend` is what moves it there.

* `asserts_iff`: over any calls, the other assertions hold exactly when no call takes a new vector
  while the reader index is inside the reserve.
-/

namespace MyTinyHttpd

open Verif

namespace Buffer

/-! ## Integers -/

/-- `AppendIntN(x)`, with the `size` bytes of `x` in network order. -/
def appendInt (alloc : Allocator) (b : Buffer) (size : Nat) (x : BitVec (8 * size)) : Buffer :=
  b.append alloc (toBytes size x.toNat)

def appendInt64 (alloc : Allocator) (b : Buffer) (x : BitVec 64) : Buffer := b.appendInt alloc 8 x

def appendInt32 (alloc : Allocator) (b : Buffer) (x : BitVec 32) : Buffer := b.appendInt alloc 4 x

def appendInt16 (alloc : Allocator) (b : Buffer) (x : BitVec 16) : Buffer := b.appendInt alloc 2 x

def appendInt8 (alloc : Allocator) (b : Buffer) (x : BitVec 8) : Buffer := b.appendInt alloc 1 x

/-- `PrependIntN(x)`. -/
def prependInt (b : Buffer) (size : Nat) (x : BitVec (8 * size)) : Buffer :=
  b.prepend (toBytes size x.toNat)

def prependInt64 (b : Buffer) (x : BitVec 64) : Buffer := b.prependInt 8 x

def prependInt32 (b : Buffer) (x : BitVec 32) : Buffer := b.prependInt 4 x

def prependInt16 (b : Buffer) (x : BitVec 16) : Buffer := b.prependInt 2 x

def prependInt8 (b : Buffer) (x : BitVec 8) : Buffer := b.prependInt 1 x

/-! ## What the bodies assert -/

/-- The constructor, on the new buffer. -/
def MakeAsserts (b : Buffer) (initialSize : Nat) : Prop :=
  b.readableBytes = 0 ∧ b.writableBytes = initialSize ∧ b.prependableBytes = kCheapPrepend

/-- `MoveReadableFront`, at its start and, on the destination, at its end. -/
def MoveAsserts (b dst : Buffer) : Prop :=
  kCheapPrepend ≤ b.readerIndex ∧ b.readableBytes = dst.readableBytes

def MakeSpaceAsserts (alloc : Allocator) (b : Buffer) (len : Nat) : Prop :=
  b.writableBytes < len ∧
    if b.writableBytes + b.prependableBytes < len + kCheapPrepend then
      if b.writerIndex + len < b.capacity then True
      else
        let temp := make alloc (b.writerIndex + len)
        temp.MakeAsserts (b.writerIndex + len) ∧ b.MoveAsserts (b.moveReadableFront temp)
    else b.MoveAsserts b.moveReadaleFront

def EnsureAsserts (alloc : Allocator) (b : Buffer) (len : Nat) : Prop :=
  (b.writableBytes < len → b.MakeSpaceAsserts alloc len) ∧
    len ≤ (b.ensureWritableBytes alloc len).writableBytes

/-- `Append`: `EnsureWritableBytes`, then `HasWritten`. -/
def AppendAsserts (alloc : Allocator) (b : Buffer) (data : List UInt8) : Prop :=
  b.EnsureAsserts alloc data.length ∧
    data.length ≤ ((b.ensureWritableBytes alloc data.length).fill data).writableBytes

def ShrinkAsserts (alloc : Allocator) (b : Buffer) (reserve : Nat) : Prop :=
  let temp := make alloc kInitialSize
  temp.MakeAsserts kInitialSize ∧ temp.EnsureAsserts alloc (b.readableBytes + reserve) ∧
    (temp.ensureWritableBytes alloc (b.readableBytes + reserve)).AppendAsserts alloc b.toSlice

/-- The buffer when `ReadFromFd` appends what is in `extrabuf`. -/
def filledUp (b : Buffer) (bytes : List UInt8) : Buffer :=
  let b := b.fill (bytes.take b.writableBytes)
  { b with writerIndex := b.buffer.size }

def ReadAsserts (alloc : Allocator) (b : Buffer) : ReadvResult → Prop
  | .failed _ => True
  | .filled bytes =>
    b.writableBytes < bytes.length →
      (b.filledUp bytes).AppendAsserts alloc (bytes.drop b.writableBytes)

/-! ## When they hold -/

/-- More bytes than fit are asked for, and the vector cannot grow where it is, while the reader
index is inside the prepend reserve. -/
def MovesPrepended (b : Buffer) (len : Nat) : Prop :=
  b.writableBytes < len ∧ b.capacity ≤ b.writerIndex + len ∧ b.readerIndex < kCheapPrepend

instance (b : Buffer) (len : Nat) : Decidable (b.MovesPrepended len) :=
  inferInstanceAs (Decidable (_ ∧ _ ∧ _))

variable {alloc : Allocator} {b : Buffer}

theorem make_asserts (alloc : Allocator) (n : Nat) : (make alloc n).MakeAsserts n := by
  refine ⟨by simp [readableBytes, make], ?_, rfl⟩
  simp [writableBytes, make, Vec.make]

theorem makeSpace_asserts_iff {len : Nat} (hlen : b.writableBytes < len) :
    b.MakeSpaceAsserts alloc len ↔ ¬ b.MovesPrepended len := by
  have hmoved : ∀ dst, b.readableBytes = (b.moveReadableFront dst).readableBytes := by
    intro dst
    simp [moveReadableFront, readableBytes]
  have hmoved' : b.readableBytes = b.moveReadaleFront.readableBytes := by
    simp [moveReadaleFront, readableBytes]
  simp only [MakeSpaceAsserts, MovesPrepended, MoveAsserts, hlen, true_and, ← hmoved, ← hmoved',
    and_true, make_asserts]
  split
  · split
    · simp only [true_iff]
      omega
    · omega
  · next hroom =>
    unfold prependableBytes at hroom
    omega

theorem ensure_asserts_iff (h : b.Inv) (len : Nat) :
    b.EnsureAsserts alloc len ↔ ¬ b.MovesPrepended len := by
  have hroom := (ensureWritableBytes_ensured alloc h len).le_writable
  by_cases hlen : b.writableBytes < len
  · simp only [EnsureAsserts, hroom, and_true, hlen, true_imp_iff, makeSpace_asserts_iff hlen]
  · simp [EnsureAsserts, hroom, hlen, MovesPrepended]

theorem append_asserts_iff (h : b.Inv) (data : List UInt8) :
    b.AppendAsserts alloc data ↔ ¬ b.MovesPrepended data.length := by
  have hroom := (ensureWritableBytes_ensured alloc h data.length).le_writable
  rw [AppendAsserts, ensure_asserts_iff h]
  exact and_iff_left hroom

/-- A new buffer has its reader index behind the reserve. -/
theorem shrink_asserts (b : Buffer) (reserve : Nat) : b.ShrinkAsserts alloc reserve := by
  have hnew := make_inv alloc kInitialSize
  have hensured := ensureWritableBytes_ensured alloc hnew (b.readableBytes + reserve)
  have hreader : ((make alloc kInitialSize).ensureWritableBytes alloc
      (b.readableBytes + reserve)).readerIndex = kCheapPrepend := by
    simp only [ensureWritableBytes, makeSpace]
    repeat' split
    all_goals rfl
  refine ⟨make_asserts alloc kInitialSize, (ensure_asserts_iff hnew _).mpr ?_,
    (append_asserts_iff hensured.inv _).mpr ?_⟩
  · exact fun hmoves => Nat.lt_irrefl _ hmoves.2.2
  · intro hmoves
    rw [MovesPrepended, hreader] at hmoves
    exact Nat.lt_irrefl _ hmoves.2.2

theorem filledUp_inv (h : b.Inv) (bytes : List UInt8) : (b.filledUp bytes).Inv :=
  ⟨Nat.le_trans h.reader_le h.writer_le, Nat.le_refl _, h.prepend_le⟩

/-- The bytes in `extrabuf` come on top of those that fill the writable area. -/
theorem read_asserts_iff (h : b.Inv) (bytes : List UInt8) :
    b.ReadAsserts alloc (.filled bytes) ↔ ¬ b.MovesPrepended bytes.length := by
  have hwriter := h.writer_le
  by_cases hlen : b.writableBytes < bytes.length
  · simp only [ReadAsserts, hlen, true_imp_iff]
    rw [append_asserts_iff (filledUp_inv h bytes)]
    have hcap : (b.filledUp bytes).capacity = b.capacity := by
      have hlength : (b.buffer.storage.length : Nat) =
          (writeAt b.buffer.storage b.writerIndex (bytes.take b.writableBytes)).length := by
        have hsize := b.buffer.size_le
        simp only [writeAt, List.length_append, List.length_take, List.length_drop]
        unfold writableBytes
        omega
      exact hlength.symm
    have hsame : (b.filledUp bytes).writableBytes = 0 ∧
        (b.filledUp bytes).writerIndex = b.buffer.size ∧
        (b.filledUp bytes).readerIndex = b.readerIndex :=
      ⟨Nat.sub_self _, rfl, rfl⟩
    simp only [MovesPrepended, hcap, hsame, List.length_drop]
    unfold writableBytes at hlen ⊢
    omega
  · simp [ReadAsserts, hlen, MovesPrepended]

/-! ## Calls -/

inductive Call where
  | append (data : List UInt8)
  | appendInt64 (x : BitVec 64)
  | appendInt32 (x : BitVec 32)
  | appendInt16 (x : BitVec 16)
  | appendInt8 (x : BitVec 8)
  | prepend (data : List UInt8)
  | prependInt64 (x : BitVec 64)
  | prependInt32 (x : BitVec 32)
  | prependInt16 (x : BitVec 16)
  | prependInt8 (x : BitVec 8)
  | retrieve (len : Nat)
  | retrieveAll
  | unwrite (len : Nat)
  | hasWritten (len : Nat)
  | ensureWritableBytes (len : Nat)
  | readFromFd (r : ReadvResult)
  | shrink (reserve : Nat)

namespace Call

def exec (alloc : Allocator) (b : Buffer) : Call → Buffer
  | append data => b.append alloc data
  | appendInt64 x => b.appendInt64 alloc x
  | appendInt32 x => b.appendInt32 alloc x
  | appendInt16 x => b.appendInt16 alloc x
  | appendInt8 x => b.appendInt8 alloc x
  | prepend data => b.prepend data
  | prependInt64 x => b.prependInt64 x
  | prependInt32 x => b.prependInt32 x
  | prependInt16 x => b.prependInt16 x
  | prependInt8 x => b.prependInt8 x
  | retrieve len => b.retrieve len
  | retrieveAll => b.retrieveAll
  | unwrite len => b.unwrite len
  | hasWritten len => b.hasWritten len
  | ensureWritableBytes len => b.ensureWritableBytes alloc len
  | readFromFd r => (b.readFromFd alloc r).1
  | shrink reserve => b.shrink alloc reserve

/-- The assertion of the call on its own argument. -/
def ArgumentOk (b : Buffer) : Call → Prop
  | prepend data => data.length ≤ b.prependableBytes
  | prependInt64 _ => 8 ≤ b.prependableBytes
  | prependInt32 _ => 4 ≤ b.prependableBytes
  | prependInt16 _ => 2 ≤ b.prependableBytes
  | prependInt8 _ => 1 ≤ b.prependableBytes
  | retrieve len | unwrite len => len ≤ b.readableBytes
  | hasWritten len => len ≤ b.writableBytes
  | _ => True

/-- All other assertions on the way. -/
def Asserts (alloc : Allocator) (b : Buffer) : Call → Prop
  | append data => b.AppendAsserts alloc data
  | appendInt64 x => b.AppendAsserts alloc (toBytes 8 x.toNat)
  | appendInt32 x => b.AppendAsserts alloc (toBytes 4 x.toNat)
  | appendInt16 x => b.AppendAsserts alloc (toBytes 2 x.toNat)
  | appendInt8 x => b.AppendAsserts alloc (toBytes 1 x.toNat)
  | ensureWritableBytes len => b.EnsureAsserts alloc len
  | readFromFd r => b.ReadAsserts alloc r
  | shrink reserve => b.ShrinkAsserts alloc reserve
  | _ => True

/-- How many bytes the call has to find room for in the buffer. -/
def size : Call → Nat
  | append data => data.length
  | appendInt64 _ => 8
  | appendInt32 _ => 4
  | appendInt16 _ => 2
  | appendInt8 _ => 1
  | ensureWritableBytes len => len
  | readFromFd (.filled bytes) => bytes.length
  | _ => 0

instance (b : Buffer) (c : Call) : Decidable (c.ArgumentOk b) := by
  cases c <;> unfold ArgumentOk <;> infer_instance

theorem exec_inv (h : b.Inv) {c : Call} (hc : c.ArgumentOk b) : (c.exec alloc b).Inv := by
  cases c with
  | append data => exact append_inv alloc h data
  | appendInt64 | appendInt32 | appendInt16 | appendInt8 => exact append_inv alloc h _
  | prepend data => exact prepend_inv h data
  | prependInt64 | prependInt32 | prependInt16 | prependInt8 => exact prepend_inv h _
  | retrieve len => exact retrieve_inv h len
  | retrieveAll => exact retrieveAll_inv h
  | unwrite len => exact unwrite_inv h hc
  | hasWritten len => exact hasWritten_inv h hc
  | ensureWritableBytes len => exact (ensureWritableBytes_ensured alloc h len).inv
  | readFromFd r => exact readFromFd_inv alloc h r
  | shrink reserve => exact shrink_inv alloc b reserve

/-- The assertions of one call. -/
theorem asserts_step_iff (h : b.Inv) (c : Call) :
    c.Asserts alloc b ↔ ¬ b.MovesPrepended c.size := by
  cases c with
  | append data => exact append_asserts_iff h data
  | appendInt64 | appendInt32 | appendInt16 | appendInt8 =>
    rw [Asserts, append_asserts_iff h, length_toBytes]
    rfl
  | ensureWritableBytes len => exact ensure_asserts_iff h len
  | readFromFd r =>
    cases r with
    | failed errno => exact iff_of_true trivial fun hmoves => Nat.not_lt_zero _ hmoves.1
    | filled bytes => exact read_asserts_iff h bytes
  | shrink reserve =>
    exact iff_of_true (shrink_asserts b reserve) fun hmoves => Nat.not_lt_zero _ hmoves.1
  | _ => exact iff_of_true trivial fun hmoves => Nat.not_lt_zero _ hmoves.1

end Call

/-- **When the inner assertions hold.** For every buffer that the constructor makes and all calls
that meet their own argument assertions: no other assertion fails, if and only if no call that has
to move the readable bytes to a new vector is made while the reader index is inside the prepend
reserve. -/
theorem asserts_iff (alloc : Allocator) (initialSize : Nat) (calls : List Call)
    (h : Legal (Call.exec alloc) (fun b c => c.ArgumentOk b) (make alloc initialSize) calls) :
    (∀ pre c post, calls = pre ++ c :: post →
        c.Asserts alloc (pre.foldl (Call.exec alloc) (make alloc initialSize))) ↔
      ∀ pre c post, calls = pre ++ c :: post →
        ¬ (pre.foldl (Call.exec alloc) (make alloc initialSize)).MovesPrepended c.size := by
  refine forall_congr' fun pre => forall_congr' fun c => forall_congr' fun post =>
    imp_congr_right fun he => ?_
  subst he
  have hinv : (pre.foldl (Call.exec alloc) (make alloc initialSize)).Inv :=
    legal_invariant (I := Inv) (fun _ _ hb hc => Call.exec_inv hb hc) (make_inv alloc initialSize)
      (legal_append.mp h).1
  exact Call.asserts_step_iff hinv c

/-- The prepended bytes are retrieved before the buffer grows. -/
def retrievedFirst : List Call :=
  [.append [1, 2, 3], .prependInt16 7, .retrieve 2, .append [4, 5, 6, 7, 8], .shrink 5]

theorem retrievedFirst_asserts :
    Legal (Call.exec zeroAlloc) (fun b c => c.ArgumentOk b) (make zeroAlloc 4) retrievedFirst ∧
      ∀ pre c post, retrievedFirst = pre ++ c :: post →
        c.Asserts zeroAlloc (pre.foldl (Call.exec zeroAlloc) (make zeroAlloc 4)) := by
  have h : Legal (Call.exec zeroAlloc) (fun b c => c.ArgumentOk b) (make zeroAlloc 4)
      retrievedFirst := by decide +kernel
  have hgood : Legal (Call.exec zeroAlloc) (fun b c => ¬ b.MovesPrepended c.size)
      (make zeroAlloc 4) retrievedFirst := by decide +kernel
  exact ⟨h, (asserts_iff zeroAlloc 4 retrievedFirst h).mpr (legal_iff.mp hgood)⟩

/-- A byte is prepended, then the buffer grows. -/
def prependThenGrow : List Call := [.prepend [0], .append [1, 2, 3, 4, 5]]

/-- `MoveReadableFront` finds the reader index at 7. -/
theorem prependThenGrow_fails :
    Legal (Call.exec zeroAlloc) (fun b c => c.ArgumentOk b) (make zeroAlloc 4) prependThenGrow ∧
      ¬ ∀ pre c post, prependThenGrow = pre ++ c :: post →
        c.Asserts zeroAlloc (pre.foldl (Call.exec zeroAlloc) (make zeroAlloc 4)) := by
  refine ⟨by decide +kernel, fun h => ?_⟩
  have happend : ((make zeroAlloc 4).prepend [0]).AppendAsserts zeroAlloc [1, 2, 3, 4, 5] :=
    h [.prepend [0]] (.append [1, 2, 3, 4, 5]) [] rfl
  have hspace := (happend.1.1 (by decide)).2
  rw [if_pos (by decide), if_neg (by decide)] at hspace
  exact absurd hspace.2.1 (by decide)

end Buffer

end MyTinyHttpd
