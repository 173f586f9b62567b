import MyTinyHttpd.Utils.CStd

/-!
# `net/buffer.h` and `net/buffer.cc`

A `Buffer` is a vector of bytes with a reader and a writer index. A pointer into the vector is
its index, so `Peek()` is the reader index and `OffsetofWrite()` the writer index. The asserts
are compiled out, as in the Release build; sizes are exact natural numbers, except where the
source narrows one to `int` (`toSlice`).

`boost::container::vector` is modelled with its allocated storage (`Vec`): `resize` with
`default_init` inside the capacity leaves the bytes that the storage happens to hold, and the
capacity decides a branch of `makeSpace`. What an allocation returns is a parameter
(`Allocator`).
-/

namespace MyTinyHttpd

open Verif

/-- Where storage comes from: the bytes that an allocation of `n` bytes returns, with whatever
they hold. It may return more than was asked for. -/
structure Allocator where
  allocate : Nat → List UInt8
  le_length (n : Nat) : n ≤ (allocate n).length

/-- `boost::container::vector<char>`: the allocated storage, of which the first `size` bytes are
the elements. -/
structure Vec where
  storage : List UInt8
  size : Nat
  size_le : size ≤ storage.length

namespace Vec

def capacity (v : Vec) : Nat := v.storage.length

/-- `vector(n)`: `n` elements with value 0. -/
def make (alloc : Allocator) (n : Nat) : Vec where
  storage := List.replicate n 0 ++ (alloc.allocate n).drop n
  size := n
  size_le := by simp

/-- The elements in a new storage, allocated for `n` of them. -/
def relocated (alloc : Allocator) (v : Vec) (n : Nat) : List UInt8 :=
  v.storage.take v.size ++ (alloc.allocate n).drop v.size

theorem le_length_relocated (alloc : Allocator) (v : Vec) (n : Nat) :
    n ≤ (v.relocated alloc n).length := by
  have := alloc.le_length n
  have := v.size_le
  simp [relocated]; omega

/-- `resize(n, default_init)`: new elements keep the bytes of the storage. -/
def resize (alloc : Allocator) (v : Vec) (n : Nat) : Vec :=
  if h : n ≤ v.capacity then { v with size := n, size_le := h }
  else { storage := v.relocated alloc n, size := n, size_le := v.le_length_relocated alloc n }

/-- `shrink_to_fit()`: the elements in a storage of their size. -/
def shrinkToFit (alloc : Allocator) (v : Vec) : Vec :=
  if v.size < v.capacity then
    { v with storage := v.relocated alloc v.size, size_le := v.le_length_relocated alloc v.size }
  else v

/-- The vector after `ys` has been stored from index `i` on. -/
def write (v : Vec) (i : Nat) (ys : List UInt8) : Vec where
  storage := writeAt v.storage i ys
  size := v.size
  size_le := Nat.le_trans v.size_le (length_le_writeAt v.storage i ys)

theorem length_copyWithin (xs : List UInt8) (src dst n : Nat) :
    (copyWithin xs src dst n).length = xs.length := by
  induction n generalizing xs src dst with
  | zero => rfl
  | succ n ih => simp [copyWithin, ih]

/-- `std::copy` of `n` elements from `src` to `dst` of the same vector. -/
def copy (v : Vec) (src dst n : Nat) : Vec where
  storage := copyWithin v.storage src dst n
  size := v.size
  size_le := by rw [length_copyWithin]; exact v.size_le

end Vec

def kCheapPrepend : Nat := 8

def kInitialSize : Nat := 1024

def kCrlf : List UInt8 := ascii "\r\n"

structure Buffer where
  buffer : Vec
  readerIndex : Nat
  writerIndex : Nat

/-- What `readv` did: it failed, or it stored `bytes` in its areas, in order. -/
inductive ReadvResult where
  | failed (errno : Int)
  | filled (bytes : List UInt8)

namespace Buffer

/-- `Buffer(initial_size)`. -/
def make (alloc : Allocator) (initialSize : Nat) : Buffer where
  buffer := Vec.make alloc (kCheapPrepend + initialSize)
  readerIndex := kCheapPrepend
  writerIndex := kCheapPrepend

/-- `swap`: the buffer and its argument after it. -/
def swap (b x : Buffer) : Buffer × Buffer := (x, b)

def readableBytes (b : Buffer) : Nat := b.writerIndex - b.readerIndex

def writableBytes (b : Buffer) : Nat := b.buffer.size - b.writerIndex

def prependableBytes (b : Buffer) : Nat := b.readerIndex

def capacity (b : Buffer) : Nat := b.buffer.capacity

def peek (b : Buffer) : Nat := b.readerIndex

def offsetofWrite (b : Buffer) : Nat := b.writerIndex

/-- The bytes of the vector between two pointers. -/
def range (b : Buffer) (first last : Nat) : List UInt8 :=
  (b.buffer.storage.drop first).take (last - first)

def findCrlf (b : Buffer) : Option Nat :=
  let crlf := b.peek + search kCrlf (b.range b.peek b.offsetofWrite)
  if crlf = b.offsetofWrite then none else some crlf

def retrieveAll (b : Buffer) : Buffer :=
  { b with readerIndex := kCheapPrepend, writerIndex := kCheapPrepend }

def retrieve (b : Buffer) (len : Nat) : Buffer :=
  if len < b.readableBytes then { b with readerIndex := b.readerIndex + len } else b.retrieveAll

def retrieveUntil (b : Buffer) (last : Nat) : Buffer := b.retrieve (last - b.peek)

def retrieveAsString (b : Buffer) (len : Nat) : List UInt8 × Buffer :=
  (b.range b.peek (b.peek + len), b.retrieve len)

def retrieveAllAsString (b : Buffer) : List UInt8 × Buffer := b.retrieveAsString b.readableBytes

/-- The bytes that the slice designates. Its length goes through an `int`. -/
def toSlice (b : Buffer) : List UInt8 :=
  b.range b.peek (b.peek + castSizeT (castInt b.readableBytes))

/-- `MoveReadableFront(dst)` with another buffer as `dst`. -/
def moveReadableFront (b dst : Buffer) : Buffer where
  buffer := dst.buffer.write kCheapPrepend (b.range b.readerIndex b.writerIndex)
  readerIndex := kCheapPrepend
  writerIndex := kCheapPrepend + b.readableBytes

/-- `MoveReadableFront(*this)`: the copy may overlap. -/
def moveReadaleFront (b : Buffer) : Buffer where
  buffer := b.buffer.copy b.readerIndex kCheapPrepend b.readableBytes
  readerIndex := kCheapPrepend
  writerIndex := kCheapPrepend + b.readableBytes

def makeSpace (alloc : Allocator) (b : Buffer) (len : Nat) : Buffer :=
  if b.writableBytes + b.prependableBytes < len + kCheapPrepend then
    if b.writerIndex + len < b.capacity then
      -- avoid resize that sets tail elements to 0
      { b with buffer := b.buffer.resize alloc (b.writerIndex + len) }
    else
      let temp := make alloc (b.writerIndex + len)
      (b.swap (b.moveReadableFront temp)).1
  else b.moveReadaleFront

def ensureWritableBytes (alloc : Allocator) (b : Buffer) (len : Nat) : Buffer :=
  if b.writableBytes < len then b.makeSpace alloc len else b

def hasWritten (b : Buffer) (len : Nat) : Buffer := { b with writerIndex := b.writerIndex + len }

def unwrite (b : Buffer) (len : Nat) : Buffer := { b with writerIndex := b.writerIndex - len }

/-- The writable area after `ys` has been stored at its start. -/
def fill (b : Buffer) (ys : List UInt8) : Buffer :=
  { b with buffer := b.buffer.write b.offsetofWrite ys }

/-- `Append(data, len)`. -/
def append (alloc : Allocator) (b : Buffer) (data : List UInt8) : Buffer :=
  ((b.ensureWritableBytes alloc data.length).fill data).hasWritten data.length

/-- `Append(is, len)`: `read` stores `got` and leaves the stream good or not. -/
def appendStream (alloc : Allocator) (b : Buffer) (len : Nat) (got : List UInt8) (good : Bool) :
    Buffer :=
  let b := (b.ensureWritableBytes alloc len).fill got
  if good then b.hasWritten len else b

def prepend (b : Buffer) (data : List UInt8) : Buffer :=
  let readerIndex := b.readerIndex - data.length
  { b with readerIndex := readerIndex, buffer := b.buffer.write readerIndex data }

def shrink (alloc : Allocator) (b : Buffer) (reserve : Nat) : Buffer :=
  let temp := make alloc kInitialSize
  let temp := temp.ensureWritableBytes alloc (b.readableBytes + reserve)
  let temp := temp.append alloc b.toSlice
  let temp := { temp with buffer := temp.buffer.shrinkToFit alloc }
  (b.swap temp).1

/-- The size of `extrabuf`, the second area of `readv`. -/
def extrabufSize : Nat := 65536

/-- `ReadFromFd`: the buffer, the number of bytes read (-1 for an error) and `*old_errno` when it
is set. The bytes that do not fit into the writable area are in `extrabuf`. -/
def readFromFd (alloc : Allocator) (b : Buffer) : ReadvResult → Buffer × Int × Option Int
  | .failed errno => (b, -1, some errno)
  | .filled bytes =>
    let writable := b.writableBytes
    let b := b.fill (bytes.take writable)
    let extrabuf := bytes.drop writable
    if bytes.length ≤ writable then (b.hasWritten bytes.length, bytes.length, none)
    else
      let b := { b with writerIndex := b.buffer.size }
      (b.append alloc extrabuf, bytes.length, none)

end Buffer

end MyTinyHttpd
