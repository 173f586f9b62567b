import MyTinyHttpd.Utils.CStd

/-!
# Files, as the server uses them

The file system is a parameter: a type `ω` of worlds and the operations that the standard streams
and `remove` perform on it. `FileSystem.logged` records the names that an operation passes to the
system; it is how a statement speaks of the files that a function touches.
-/

namespace MyTinyHttpd

/-- An open `std::ifstream`. -/
structure InFile where
  /-- `GetFileSize`: what `tellg` gives after `seekg(0, end)`. -/
  size : Int
  /-- What a `read` of that many bytes stores, and whether the stream is good after it. -/
  read : Nat → List UInt8 × Bool

/-- What `GetFileSize` and `read` can report for an open file of less than 10^13 bytes. -/
structure InFile.Reads (is : InFile) : Prop where
  size_nonneg : 0 ≤ is.size
  size_lt : is.size < 10 ^ 13
  read_le : ∀ n, (is.read n).1.length ≤ n
  good : ∀ n, (is.read n).2 = true → (is.read n).1.length = n

structure FileSystem (ω : Type) where
  /-- `std::ifstream(name, binary)`: `none` when the stream is not good. -/
  openIn : ω → List UInt8 → Option InFile × ω
  /-- `std::ofstream(name, binary)`: whether the stream is good. -/
  openOut : ω → List UInt8 → Bool × ω
  /-- `<<` on an `std::ofstream` that has been opened with the name, and its end of life. -/
  write : ω → List UInt8 → List UInt8 → ω
  /-- `::remove(name)`: the `errno` when it fails. -/
  remove : ω → List UInt8 → Option Int × ω

def FileSystem.logged {ω : Type} (fs : FileSystem ω) : FileSystem (ω × List (List UInt8)) where
  openIn w name :=
    let r := fs.openIn w.1 name
    (r.1, r.2, w.2 ++ [name])
  openOut w name :=
    let r := fs.openOut w.1 name
    (r.1, r.2, w.2 ++ [name])
  write w name bytes := (fs.write w.1 name bytes, w.2 ++ [name])
  remove w name :=
    let r := fs.remove w.1 name
    (r.1, r.2, w.2 ++ [name])

def ENOENT : Int := 2

/-- A file system without files. -/
def noFiles : FileSystem Unit where
  openIn w _ := (none, w)
  openOut w _ := (false, w)
  write w _ _ := w
  remove w _ := (some ENOENT, w)

end MyTinyHttpd
