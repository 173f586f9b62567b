import MyTinyHttpd.Net.Channel

/-!
# `net/epoll_poller.cc`: the registration of a channel

What the poller and the kernel know of one channel: its `status_`, and the mask that epoll watches
for its descriptor, if the descriptor is registered. `epoll_ctl` does not fail here.

`Reported` says what the kernel may report for the channel: the events that are asked for, and
errors and hang-ups, which are never asked for.
-/

namespace MyTinyHttpd

/-! ## `poll.h` -/

def POLLIN : BitVec 32 := 0x001

def POLLPRI : BitVec 32 := 0x002

def POLLOUT : BitVec 32 := 0x004

def POLLERR : BitVec 32 := 0x008

def POLLHUP : BitVec 32 := 0x010

def POLLRDHUP : BitVec 32 := 0x2000

/-- `revents & mask`, as a condition. -/
def hasEvent (revents mask : BitVec 32) : Bool := (revents &&& mask) != 0

/-! ## The poller -/

inductive ChannelStatus where
  | kNew
  | kAdded
  | kDeleted
  deriving DecidableEq

structure Registration where
  status : ChannelStatus := .kNew
  /-- The mask of the descriptor in the epoll set. -/
  interest : Option (BitVec 32) := none
  deriving DecidableEq

namespace Registration

/-- `EPollPoller::UpdateChannel(channel)`. -/
def updateChannel (p : Registration) (ch : Channel) : Registration :=
  match p.status with
  | .kNew | .kDeleted =>
    -- `EPOLL_CTL_ADD`, also for a mask without events.
    { status := .kAdded, interest := some ch.events }
  | .kAdded =>
    if ch.isNoneEvent then { status := .kDeleted, interest := none }
    else { status := .kAdded, interest := some ch.events }

/-- `EPollPoller::RemoveChannel(channel)`. -/
def removeChannel (_ : Registration) : Registration := { status := .kNew, interest := none }

/-- The kernel may report the events `revents` for the channel. -/
def Reported (p : Registration) (revents : BitVec 32) : Prop :=
  match p.interest with
  | none => False
  | some events => revents &&& ~~~(events ||| POLLERR ||| POLLHUP) = 0

instance (p : Registration) (revents : BitVec 32) : Decidable (p.Reported revents) :=
  match h : p.interest with
  | none => isFalse (by simp [Reported, h])
  | some events =>
    decidable_of_iff (revents &&& ~~~(events ||| POLLERR ||| POLLHUP) = 0) (by simp [Reported, h])

end Registration

end MyTinyHttpd
