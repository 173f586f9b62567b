import MyTinyHttpd.Lib.Machine
import MyTinyHttpd.Net.BufferLemmas

/-!
# `Buffer` refines a byte queue

The abstract state is the sequence of bytes that were put in and not taken out. `Op` lists the
public operations with their arguments; `Op.exec` runs one on a `Buffer`, `Op.queue` on the
sequence. `Op.Admissible` is the operation's own argument assertion, and what the kernel and the
stream library promise of a read.

* `exec_refines`: an admissible operation keeps the invariant of the buffer, does to the
  readable bytes what it does to the sequence, and returns the same.
* `buffer_refines_byteQueue`: so does every run from a new buffer.
-/

namespace MyTinyHttpd

open Verif

namespace Buffer

inductive Op where
  | append (data : List UInt8)
  /-- `Append(is, len)`: the stream stores `got` and is good or not after it. -/
  | appendStream (len : Nat) (got : List UInt8) (good : Bool)
  | readFromFd (r : ReadvResult)
  /-- The caller stores `data` from `OffsetofWrite()` on, then calls `HasWritten(len)`. -/
  | hasWritten (data : List UInt8) (len : Nat)
  | unwrite (len : Nat)
  | retrieve (len : Nat)
  /-- `RetrieveUntil(Peek() + len)`. -/
  | retrieveUntil (len : Nat)
  | retrieveAll
  | retrieveAsString (len : Nat)
  | prepend (data : List UInt8)
  | shrink (reserve : Nat)

/-- What an operation returns: nothing, a string, or the result of `ReadFromFd` with the
`errno` that it stored. -/
inductive Out where
  | none
  | string (s : List UInt8)
  | count (n : Int) (errno : Option Int)
  deriving DecidableEq

namespace Op

/-- The operation on a buffer. -/
def exec (alloc : Allocator) (b : Buffer) : Op → Buffer × Out
  | append data => (b.append alloc data, .none)
  | appendStream len got good => (b.appendStream alloc len got good, .none)
  | readFromFd r =>
    let res := b.readFromFd alloc r
    (res.1, .count res.2.1 res.2.2)
  | hasWritten data len => ((b.fill data).hasWritten len, .none)
  | unwrite len => (b.unwrite len, .none)
  | retrieve len => (b.retrieve len, .none)
  | retrieveUntil len => (b.retrieveUntil (b.peek + len), .none)
  | retrieveAll => (b.retrieveAll, .none)
  | retrieveAsString len =>
    let res := b.retrieveAsString len
    (res.2, .string res.1)
  | prepend data => (b.prepend data, .none)
  | shrink reserve => (b.shrink alloc reserve, .none)

/-- The operation on the byte sequence. -/
def queue (q : List UInt8) : Op → List UInt8 × Out
  | append data => (q ++ data, .none)
  | appendStream _ got good => (if good then q ++ got else q, .none)
  | readFromFd (.failed errno) => (q, .count (-1) (some errno))
  | readFromFd (.filled bytes) => (q ++ bytes, .count bytes.length .none)
  | hasWritten data len => (q ++ data.take len, .none)
  | unwrite len => (q.take (q.length - len), .none)
  | retrieve len => (q.drop len, .none)
  | retrieveUntil len => (q.drop len, .none)
  | retrieveAll => ([], .none)
  | retrieveAsString len => (q.drop len, .string (q.take len))
  | prepend data => (data ++ q, .none)
  | shrink _ => (q, .none)

/-- The argument assertion of the operation. A stream stores at most `len` bytes, and `len` when
it stays good; `readv` stores what its areas hold, the second of which is offered when the first
is shorter than it. `Shrink` passes the number of readable bytes through an `int`. -/
def Admissible (b : Buffer) : Op → Prop
  | append _ => True
  | appendStream len got good => got.length ≤ len ∧ (good = true → got.length = len)
  | readFromFd (.failed _) => True
  | readFromFd (.filled bytes) =>
    bytes.length ≤ b.writableBytes + if b.writableBytes < extrabufSize then extrabufSize else 0
  | hasWritten data len => data.length ≤ b.writableBytes ∧ len ≤ data.length
  | unwrite len => len ≤ b.readableBytes
  | retrieve len => len ≤ b.readableBytes
  | retrieveUntil len => b.peek + len ≤ b.offsetofWrite
  | retrieveAll => True
  | retrieveAsString len => len ≤ b.readableBytes
  | prepend data => data.length ≤ b.prependableBytes
  | shrink _ => b.readableBytes < 2 ^ 31

instance (b : Buffer) (op : Op) : Decidable (op.Admissible b) := by
  cases op with
  | readFromFd r => cases r <;> unfold Admissible <;> infer_instance
  | _ => unfold Admissible; infer_instance

end Op

/-- The buffer is in order and its readable bytes are `q`. -/
structure Holds (b : Buffer) (q : List UInt8) : Prop where
  inv : b.Inv
  readable_eq : b.readable = q

theorem make_holds (alloc : Allocator) (n : Nat) : (make alloc n).Holds [] :=
  ⟨make_inv alloc n, make_readable alloc n⟩

theorem Holds.append {b : Buffer} {q : List UInt8} (h : b.Holds q) (alloc : Allocator)
    (data : List UInt8) : (b.append alloc data).Holds (q ++ data) :=
  ⟨append_inv alloc h.inv data, by rw [append_readable alloc h.inv, h.readable_eq]⟩

theorem readFromFd_count (alloc : Allocator) (b : Buffer) (bytes : List UInt8) :
    (b.readFromFd alloc (.filled bytes)).2 = ((bytes.length : Int), none) := by
  simp only [readFromFd]; split <;> rfl

theorem exec_refines (alloc : Allocator) {b : Buffer} {q : List UInt8} (op : Op) (h : b.Holds q)
    (hop : op.Admissible b) :
    (op.exec alloc b).1.Holds (op.queue q).1 ∧ (op.exec alloc b).2 = (op.queue q).2 := by
  have happend := h.append alloc
  obtain ⟨hi, rfl⟩ := h
  cases op with
  | append data => exact ⟨happend data, rfl⟩
  | appendStream len got good =>
    refine ⟨⟨appendStream_inv alloc hi len got good, ?_⟩, rfl⟩
    simp only [Op.exec, Op.queue]
    rw [appendStream_readable alloc hi hop.1 hop.2]
    split <;> simp
  | readFromFd r =>
    cases r with
    | failed errno => exact ⟨⟨hi, rfl⟩, rfl⟩
    | filled bytes =>
      refine ⟨⟨readFromFd_inv alloc hi _, readFromFd_readable alloc hi bytes⟩, ?_⟩
      simp only [Op.exec, Op.queue, readFromFd_count]
  | hasWritten data len =>
    have hw : len ≤ (b.fill data).writableBytes := Nat.le_trans hop.2 hop.1
    exact ⟨⟨hasWritten_inv (fill_inv hi data) hw, fill_hasWritten_readable hi hop.1 hop.2⟩, rfl⟩
  | unwrite len => exact ⟨⟨unwrite_inv hi hop, unwrite_readable hi hop⟩, rfl⟩
  | retrieve len => exact ⟨⟨retrieve_inv hi len, retrieve_readable hi len⟩, rfl⟩
  | retrieveUntil len =>
    simp only [Op.exec, Op.queue, retrieveUntil, Nat.add_sub_cancel_left, and_true]
    exact ⟨retrieve_inv hi len, retrieve_readable hi len⟩
  | retrieveAll => exact ⟨⟨retrieveAll_inv hi, retrieveAll_readable b⟩, rfl⟩
  | retrieveAsString len =>
    refine ⟨⟨retrieve_inv hi len, retrieve_readable hi len⟩, ?_⟩
    simp only [Op.exec, Op.queue, retrieveAsString, range_peek hop]
  | prepend data => exact ⟨⟨prepend_inv hi data, prepend_readable hi hop⟩, rfl⟩
  | shrink reserve =>
    exact ⟨⟨shrink_inv alloc b reserve, shrink_readable alloc hop reserve⟩, rfl⟩

/-- **Buffer refines a byte queue.** Whatever the initial size, the storage that allocations
return and the sequence of admissible operations: the indices are in order and inside the vector,
the readable bytes are those of the queue, and every call returns what the queue returns. -/
theorem buffer_refines_byteQueue (alloc : Allocator) (initialSize : Nat) (ops : List Op)
    (h : Guarded (Op.exec alloc) (fun b op => op.Admissible b) (make alloc initialSize) ops) :
    let r := run (Op.exec alloc) (make alloc initialSize) ops
    let q := run Op.queue [] ops
    r.1.readerIndex ≤ r.1.writerIndex ∧ r.1.writerIndex ≤ r.1.buffer.size ∧
      r.1.readable = q.1 ∧ r.2 = q.2 := by
  obtain ⟨hh, ho⟩ := run_simulates (fun b q op hR hop => exec_refines alloc op hR hop)
    (make_holds alloc initialSize) h
  exact ⟨hh.inv.reader_le, hh.inv.writer_le, hh.readable_eq, ho⟩

/-- An allocator that returns what was asked for, zeroed. -/
def zeroAlloc : Allocator := ⟨fun n => List.replicate n 0, by simp⟩

/-- On a buffer of 4 bytes: the third operation moves the readable bytes to the front, the fourth
overflows into `extrabuf` and takes a new vector. -/
def growingOps : List Op :=
  [.append [1, 2, 3], .retrieve 2, .append [4, 5, 6], .readFromFd (.filled [7, 8, 9]),
    .prepend [0, 0], .unwrite 1, .retrieveAsString 3, .shrink 5]

theorem growingOps_readable :
    Guarded (Op.exec zeroAlloc) (fun b op => op.Admissible b) (make zeroAlloc 4) growingOps ∧
      (run (Op.exec zeroAlloc) (make zeroAlloc 4) growingOps).1.readable = [4, 5, 6, 7, 8] := by
  have h : Guarded (Op.exec zeroAlloc) (fun b op => op.Admissible b) (make zeroAlloc 4)
      growingOps := by decide
  exact ⟨h, (buffer_refines_byteQueue zeroAlloc 4 growingOps h).2.2.1⟩

end Buffer

end MyTinyHttpd
