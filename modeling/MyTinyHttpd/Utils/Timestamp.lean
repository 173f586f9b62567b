import Mathlib.Init

/-!
# `utils/timestamp.h`

Times are exact: the additions and subtractions of the program stay within `int64_t`.
-/

namespace MyTinyHttpd

/-- `Timestamp`: microseconds since the epoch. -/
abbrev Timestamp := Int

namespace Timestamp

def kMicroSecondsPerSecond : Int := 1000 * 1000

def invalid : Timestamp := 0

def isValid (t : Timestamp) : Bool := decide (0 < t)

end Timestamp

end MyTinyHttpd
