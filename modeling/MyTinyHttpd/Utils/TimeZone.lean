import MyTinyHttpd.Lib.Reader
import MyTinyHttpd.Utils.CStd

/-!
# `utils/timezone.cc`: reading a time zone file

`ReadTimeZoneFile` reads a binary file into a `Rep` as it goes. A `std::logic_error` is caught and
leaves the `Rep` with what has been read by then; the function returns true in any case. An index
out of range, or an array of the size of a negative number, is undefined. Memory is always there,
and the field `names`, which nothing sets, is left out.

* `ReadM`: what the reading functions do to the file and to the `Rep`.
* `readRep`: the body of the `try`, with `readTables` for what follows the counts.
-/

namespace MyTinyHttpd

open Verif

/-- Times are `time_t`s; sums of 32-bit values stay in their range. -/
structure Transition where
  gmttime : Int
  localtime : Int
  localtimeIdx : Nat
  deriving DecidableEq

structure Localtime where
  gmtOffset : Int
  isDst : Bool
  arrbIdx : Nat
  deriving DecidableEq

/-- `TimeZone::Rep`. -/
structure Rep where
  transitions : List Transition := []
  localtimes : List Localtime := []
  abbreviation : List UInt8 := []
  deriving DecidableEq

inductive ReadError where
  /-- `std::logic_error`, or `std::length_error`, which is one. -/
  | logicError
  | undefined

/-- What is left of the file, and the `Rep`. -/
structure ReadState where
  file : List UInt8
  data : Rep := {}

abbrev ReadM := EStateM ReadError ReadState

namespace File

/-- `fread`, which throws when there are not enough bytes. -/
def fread {α : Type} (p : Reader UInt8 α) : ReadM α := fun s =>
  match p s.file with
  | some (a, rest) => .ok a { s with file := rest }
  | none => .error .logicError { s with file := [] }

/-- `char buf[n]` must be an array. -/
def readBytes (n : Nat) : ReadM (List UInt8) :=
  if n < 2 ^ 63 then fread (Reader.take n) else throw .undefined

def readUInt8 : ReadM UInt8 := fread Reader.item

def readInt32 : ReadM (BitVec 32) := fread (Reader.word 4)

end File

namespace TimeZone

open File

/-- `trans.reserve(timecnt)`. -/
def reserve (count : BitVec 32) : ReadM Unit :=
  if count.toInt < 0 then throw .logicError else pure ()

/-- The loop over the types. -/
def readLocaltimes : Nat → ReadM Unit
  | 0 => pure ()
  | n + 1 => do
    let gmtoff ← readInt32
    let isdst ← readUInt8
    let abbrind ← readUInt8
    let localtime : Localtime := ⟨gmtoff.toInt, isdst ≠ 0, abbrind.toNat⟩
    modify fun s => { s with data.localtimes := s.data.localtimes ++ [localtime] }
    readLocaltimes n

/-- The loop that makes the transitions. -/
def addTransitions : List (BitVec 32) → List UInt8 → ReadM Unit
  | t :: times, idx :: localtimes => do
    match (← get).data.localtimes[idx.toNat]? with
    | none => throw .undefined
    | some l =>
      let transition : Transition := ⟨t.toInt, t.toInt + l.gmtOffset, idx.toNat⟩
      modify fun s => { s with data.transitions := s.data.transitions ++ [transition] }
      addTransitions times localtimes
  | _, _ => pure ()

/-- What follows the counts. -/
def readTables (timecnt typecnt charcnt : BitVec 32) : ReadM Unit := do
  reserve timecnt
  let trans ← fread (Reader.many (Reader.word 4) timecnt.toInt.toNat)
  let localtimes ← fread (Reader.many Reader.item timecnt.toInt.toNat)
  readLocaltimes typecnt.toInt.toNat
  addTransitions trans localtimes
  let abbreviation ← readBytes (castSizeT charcnt.toInt)
  modify fun s => { s with data.abbreviation := abbreviation }

/-- The line that reads `leapcnt` is commented out. -/
def readRep : ReadM Unit := do
  let head ← readBytes 4
  if head ≠ ascii "TZif" then throw .logicError
  let _version ← readBytes 1
  let _reserved ← readBytes 15
  let _isgmtcnt ← readInt32
  let _isstdcnt ← readInt32
  let timecnt ← readInt32
  let typecnt ← readInt32
  let charcnt ← readInt32
  readTables timecnt typecnt charcnt

end TimeZone

/-- The `Rep` that is left when the exceptions have been caught. -/
def caught {α : Type} : EStateM.Result ReadError ReadState α → Option Rep
  | .ok _ s => some s.data
  | .error .logicError s => some s.data
  | .error .undefined _ => none

/-- `ReadTimeZoneFile`, on the bytes of the file, or on none when it cannot be opened: the `Rep`
after it, unless its behaviour is undefined. It returns true. -/
def readTimeZoneFile (content : Option (List UInt8)) (data : Rep) : Option Rep :=
  match content with
  | none => some data
  | some file => caught (TimeZone.readRep ⟨file, data⟩)

end MyTinyHttpd
