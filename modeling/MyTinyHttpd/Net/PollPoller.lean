import Mathlib.Data.List.AList
import Mathlib.Logic.Function.Basic
import MyTinyHttpd.Lib.Machine
import MyTinyHttpd.Lib.SwapPop
import MyTinyHttpd.Net.EPollTable

/-!
# `net/poll_poller.cc`: all channels of a loop and the vector for `poll`

The channels are the elements of a type `κ`, as in `Net/EPollTable.lean`. A `PollPoller` has
`channels_` and `pollfds_`; the `status_` of a channel is the index of its entry, and `kNew` before
it has one. An entry whose descriptor is negative (`-fd - 1`) is ignored by `poll`. A failed
assertion, or a null pointer in `channels_`, sets `failed`.

`ChannelUse` is what the calls alone say about a channel.
-/

namespace MyTinyHttpd

open Verif

/-- `struct pollfd`. -/
structure PollFd where
  fd : Int
  events : BitVec 16
  revents : BitVec 16 := 0
  deriving DecidableEq

structure PollPoller (κ : Type) where
  channel : κ → Channel := fun _ => {}
  /-- `revents_` of the channels. -/
  revents : κ → BitVec 32 := fun _ => 0
  /-- `status_` of the channels; -1 is `kNew`. -/
  status : κ → Int := fun _ => -1
  channels : AList (fun _ : Int => κ) := ∅
  pollfds : List PollFd := []
  failed : Bool := false

namespace PollPoller

variable {κ : Type} [DecidableEq κ] (fd : κ → Nat)

def setStatus (s : PollPoller κ) (c : κ) (status : Int) : PollPoller κ :=
  { s with status := Function.update s.status c status }

/-- The descriptor of an entry that `poll` ignores. -/
def ignored (c : κ) : Int := -(fd c : Int) - 1

/-- The entry at the index of a channel, when the index is one of `pollfds_`. -/
def entry (s : PollPoller κ) (c : κ) : Option PollFd :=
  if 0 ≤ s.status c ∧ s.status c < s.pollfds.length then s.pollfds[(s.status c).toNat]? else none

def updateChannel (s : PollPoller κ) (c : κ) : PollPoller κ :=
  if s.status c = -1 then
    if (fd c : Int) ∈ s.channels then { s with failed := true }
    else
      let pfd : PollFd := { fd := fd c, events := (s.channel c).events.setWidth 16 }
      { s with
        pollfds := s.pollfds ++ [pfd]
        channels := s.channels.insert pfd.fd c }.setStatus c s.pollfds.length
  else if s.channels.lookup (fd c : Int) = some c then
    match s.entry c with
    | none => { s with failed := true }
    | some pfd =>
      if pfd.fd = fd c ∨ pfd.fd = ignored fd c then
        let pfd : PollFd :=
          { fd := if (s.channel c).isNoneEvent then ignored fd c else fd c
            events := (s.channel c).events.setWidth 16 }
        { s with pollfds := s.pollfds.set (s.status c).toNat pfd }
      else { s with failed := true }
  else { s with failed := true }

/-- The end of `RemoveChannel`: the entry `i` is taken out. -/
def takeOut (s : PollPoller κ) (i : Nat) : PollPoller κ :=
  if i = s.pollfds.length - 1 then { s with pollfds := s.pollfds.dropLast }
  else
    match s.pollfds.getLast? with
    | none => { s with failed := true }
    | some back =>
      let channelAtEnd := if back.fd < 0 then -back.fd - 1 else back.fd
      let s := { s with pollfds := swapPop s.pollfds i }
      match s.channels.lookup channelAtEnd with
      | none => { s with failed := true }
      | some d => s.setStatus d i

def removeChannel (s : PollPoller κ) (c : κ) : PollPoller κ :=
  if s.channels.lookup (fd c : Int) = some c ∧ (s.channel c).isNoneEvent = true then
    match s.entry c with
    | none => { s with failed := true }
    | some pfd =>
      if pfd.fd = ignored fd c ∧ pfd.events.signExtend 32 = (s.channel c).events then
        { s with channels := s.channels.erase (fd c : Int) }.takeOut (s.status c).toNat
      else { s with failed := true }
  else { s with failed := true }

/-- A call on a channel: `Remove()`, or a change of `events_` and `Update()`. -/
def step (s : PollPoller κ) : κ × ChannelOp → PollPoller κ
  | (c, .remove) =>
    if (s.channel c).isNoneEvent then s.removeChannel fd c else { s with failed := true }
  | (c, op) =>
    { s with channel := Function.update s.channel c (op.apply (s.channel c)) }.updateChannel fd c

/-- `::poll` writes `revents` of the entry `i`. -/
def polled (s : PollPoller κ) (revents : Nat → BitVec 16) : PollPoller κ :=
  { s with pollfds := s.pollfds.mapIdx fun i pfd => { pfd with revents := revents i } }

/-- The loop of `FillActiveChannels`, from an iterator on. -/
def fill (s : PollPoller κ) : Nat → List PollFd → List κ → PollPoller κ × List κ
  | _, [], active => (s, active)
  | 0, _ :: _, active => (s, active)
  | numEvents + 1, pfd :: rest, active =>
    if 0 < pfd.revents.toInt then
      match s.channels.lookup pfd.fd with
      | none => ({ s with failed := true }, active)
      | some c =>
        if (fd c : Int) = pfd.fd then
          fill { s with revents := Function.update s.revents c (pfd.revents.signExtend 32) }
            numEvents rest (active ++ [c])
        else ({ s with failed := true }, active)
    else fill s (numEvents + 1) rest active

def fillActiveChannels (s : PollPoller κ) (numEvents : Nat) (active : List κ) :
    PollPoller κ × List κ :=
  s.fill fd numEvents s.pollfds active

end PollPoller

/-! ## What the calls say about a channel -/

structure ChannelUse where
  /-- How often `UpdateChannel` has been called since the channel was new or removed. -/
  updates : Nat := 0
  removed : Bool := false
  deriving DecidableEq

namespace ChannelUse

variable {κ : Type} [DecidableEq κ]

def step (use : κ → ChannelUse) : κ × ChannelOp → κ → ChannelUse
  | (c, .remove) => Function.update use c { updates := 0, removed := true }
  | (c, _) => Function.update use c { use c with updates := (use c).updates + 1 }

/-- The channels after the calls. -/
def after (calls : List (κ × ChannelOp)) : κ → ChannelUse := calls.foldl step fun _ => {}

end ChannelUse

end MyTinyHttpd
