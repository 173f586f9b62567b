import Mathlib.Data.BitVec

/-!
# `net/channel.h`: the event mask of a connection

`events_` is the set of events that the poller watches, as a mask. The poller's side (`Update`,
`Remove`, `status_`) is in `Net/EPollPoller.lean`.

The lemmas say when the write event is watched.
-/

namespace MyTinyHttpd

structure Channel where
  events : BitVec 32 := 0

namespace Channel

def kNoneEvent : BitVec 32 := 0

/-- `POLLIN | POLLPRI`. -/
def kReadEvent : BitVec 32 := 0x001 ||| 0x002

/-- `POLLOUT`. -/
def kWriteEvent : BitVec 32 := 0x004

def enableReading (ch : Channel) : Channel := { events := ch.events ||| kReadEvent }

def disableReading (ch : Channel) : Channel := { events := ch.events &&& ~~~kReadEvent }

def enableWriting (ch : Channel) : Channel := { events := ch.events ||| kWriteEvent }

def disableWriting (ch : Channel) : Channel := { events := ch.events &&& ~~~kWriteEvent }

def disableAll (_ : Channel) : Channel := { events := kNoneEvent }

def isNoneEvent (ch : Channel) : Bool := ch.events == kNoneEvent

def isWriting (ch : Channel) : Bool := (ch.events &&& kWriteEvent) != 0

def isReading (ch : Channel) : Bool := (ch.events &&& kReadEvent) != 0

variable (ch : Channel)

@[simp] theorem isWriting_enableWriting : ch.enableWriting.isWriting = true := by
  have h : (ch.events ||| kWriteEvent) &&& kWriteEvent = kWriteEvent := by
    ext i
    simp only [BitVec.getElem_and, BitVec.getElem_or]
    cases kWriteEvent[i] <;> simp
  simp only [isWriting, enableWriting, h]
  decide

@[simp] theorem isWriting_disableWriting : ch.disableWriting.isWriting = false := by
  have h : (ch.events &&& ~~~kWriteEvent) &&& kWriteEvent = 0 := by
    ext i
    simp only [BitVec.getElem_and, BitVec.getElem_not]
    cases kWriteEvent[i] <;> simp
  simp [isWriting, disableWriting, h]

@[simp] theorem isWriting_enableReading : ch.enableReading.isWriting = ch.isWriting := by
  have hdisjoint : kReadEvent &&& kWriteEvent = 0 := by decide
  have h : (ch.events ||| kReadEvent) &&& kWriteEvent =
      (ch.events &&& kWriteEvent) ||| (kReadEvent &&& kWriteEvent) := by grind
  simp [isWriting, enableReading, h, hdisjoint]

@[simp] theorem isWriting_disableReading : ch.disableReading.isWriting = ch.isWriting := by
  have hdisjoint : ~~~kReadEvent &&& kWriteEvent = kWriteEvent := by decide
  simp only [isWriting, disableReading, BitVec.and_assoc, hdisjoint]

end Channel

end MyTinyHttpd
