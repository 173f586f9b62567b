import Mathlib.Data.Nat.ModEq
import Mathlib.Logic.Function.Basic
import MyTinyHttpd.Lib.CircularBuffer

/-!
# `net/timing_wheel.cc`

The wheel and what it reads of the connections. An `Entry` is known by its number. The
`shared_ptr`s to it are in the buckets: it is alive as long as one bucket has it, and `~Entry` runs
when the last one goes. An assertion that fails sets `failed`.

An iterator of the circular buffer is a position in its memory. `begin() - buckets_begin_` depends
on the number of pushes only, and comes round after `n` of them: `SlotIndex`.
-/

namespace MyTinyHttpd

open Verif

/-- `begin() - buckets_begin_`, by the number of `push_back`s on a full buffer of `n` elements. -/
structure SlotIndex (n : Nat) where
  slot : Nat → Int
  eq_iff : ∀ i j, slot i = slot j ↔ i ≡ j [MOD n]

/-- Positions from the first bucket of the wheel on. -/
def SlotIndex.ofStart (n : Nat) : SlotIndex n where
  slot i := (i % n : Nat)
  eq_iff _ _ := Int.natCast_inj

/-- The number of an `Entry`, in the order of their allocation. -/
abbrev EntryId := Nat

structure WheelEntry where
  index : Int
  weakConn : Nat

/-- What the wheel knows of a `TcpConnection`. -/
structure WheelConn where
  timingContext : Option EntryId := none
  /-- `OnConnection` has been called for its end. -/
  isDown : Bool := false
  /-- The object has been deleted. -/
  isGone : Bool := false

inductive WheelEvent where
  | destroyed (e : EntryId)
  | shutdown (c : Nat)
  deriving DecidableEq

/-- `n` is `idle_seconds`. -/
structure TimingWheel (n : Nat) where
  connectionBuckets : FullBuffer (List EntryId) n := .replicate n []
  /-- The number of `push_back`s. -/
  pushes : Nat := 0
  entries : List WheelEntry := []
  conns : Nat → WheelConn := fun _ => {}
  failed : Bool := false
  log : List WheelEvent := []

namespace TimingWheel

variable {n : Nat} (slots : SlotIndex n)

/-- `lock()` of a `weak_ptr` to the entry is not null. -/
def Alive (w : TimingWheel n) (e : EntryId) : Prop :=
  ∃ bucket ∈ w.connectionBuckets.elems, e ∈ bucket

instance (w : TimingWheel n) (e : EntryId) : Decidable (w.Alive e) :=
  inferInstanceAs (Decidable (∃ bucket ∈ w.connectionBuckets.elems, e ∈ bucket))

/-- `~Entry`. -/
def destructor (w : TimingWheel n) (e : EntryId) : List WheelEvent :=
  match w.entries[e]? with
  | none => []
  | some entry =>
    .destroyed e ::
      if (w.conns entry.weakConn).isGone then [] else [.shutdown entry.weakConn]

/-- The `push_back` releases the oldest bucket, and with it the entries that are in no other. -/
def onTimer (w : TimingWheel n) : TimingWheel n :=
  let oldest := w.connectionBuckets.front.getD []
  let w' :=
    { w with connectionBuckets := w.connectionBuckets.pushBack [], pushes := w.pushes + 1 }
  { w' with log := w.log ++ (oldest.filter fun e => ¬ w'.Alive e).flatMap w.destructor }

def insertBack (w : TimingWheel n) (e : EntryId) : TimingWheel n :=
  { w with connectionBuckets := w.connectionBuckets.modifyBack (List.insert e) }

def onConnection (w : TimingWheel n) (c : Nat) (isConnected : Bool) : TimingWheel n :=
  let conn := w.conns c
  if isConnected then
    let e := w.entries.length
    let entry : WheelEntry := { index := slots.slot w.pushes, weakConn := c }
    let w := { w with entries := w.entries ++ [entry] }
    let w := w.insertBack e
    { w with
      failed := w.failed || conn.timingContext.isSome
      conns := Function.update w.conns c { conn with timingContext := some e } }
  else
    { w with
      failed := w.failed || conn.timingContext.isNone
      conns := Function.update w.conns c { conn with isDown := true } }

def setIndex (w : TimingWheel n) (e : EntryId) (index : Int) : TimingWheel n :=
  { w with entries := w.entries.modify e fun entry => { entry with index } }

def onMessage (w : TimingWheel n) (c : Nat) : TimingWheel n :=
  match (w.conns c).timingContext with
  | none => { w with failed := true }
  | some e =>
    if w.Alive e then
      if (w.entries[e]?.map WheelEntry.index) ≠ some (slots.slot w.pushes) then
        (w.setIndex e (slots.slot w.pushes)).insertBack e
      else w
    else { w with failed := true }

inductive WheelStep where
  /-- `OnConnection` of a connection that is connected. -/
  | up (c : Nat)
  /-- `OnConnection` of a connection that is not. -/
  | down (c : Nat)
  | message (c : Nat)
  | timer
  /-- The `TcpConnection` is deleted. -/
  | gone (c : Nat)

def step (w : TimingWheel n) : WheelStep → TimingWheel n
  | .up c => w.onConnection slots c true
  | .down c => w.onConnection slots c false
  | .message c => w.onMessage slots c
  | .timer => w.onTimer
  | .gone c => { w with conns := Function.update w.conns c { w.conns c with isGone := true } }

/-- A connection comes up once, and its messages are between its up and its down. -/
def Admissible (w : TimingWheel n) : WheelStep → Prop
  | .up c => (w.conns c).timingContext = none ∧ (w.conns c).isGone = false
  | .down c | .message c => (w.conns c).timingContext.isSome = true ∧
      (w.conns c).isDown = false ∧ (w.conns c).isGone = false
  | .timer | .gone _ => True

instance (w : TimingWheel n) (s : WheelStep) : Decidable (w.Admissible s) :=
  match s with
  | .up c => inferInstanceAs (Decidable ((w.conns c).timingContext = none ∧
      (w.conns c).isGone = false))
  | .down c | .message c => inferInstanceAs (Decidable ((w.conns c).timingContext.isSome = true ∧
      (w.conns c).isDown = false ∧ (w.conns c).isGone = false))
  | .timer | .gone _ => isTrue trivial

/-- `OnMessage` finds the entry of its connection. -/
def Finds (w : TimingWheel n) : WheelStep → Prop
  | .message c => ∃ e ∈ (w.conns c).timingContext, w.Alive e
  | _ => True

instance (w : TimingWheel n) (s : WheelStep) : Decidable (w.Finds s) :=
  match s with
  | .message c => inferInstanceAs (Decidable (∃ e ∈ (w.conns c).timingContext, w.Alive e))
  | .up _ | .down _ | .timer | .gone _ => isTrue trivial

end TimingWheel

end MyTinyHttpd
