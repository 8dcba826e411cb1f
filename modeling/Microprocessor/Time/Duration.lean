import Microprocessor.Time.Binary64

/-! # Durations

    A span of simulated time, in whole nanoseconds.  The seconds of a duration
    have 64 bits; what would need more is refused. -/

namespace Microprocessor

/-- A span of time. -/
structure Duration where
  nanoseconds : Nat
  deriving DecidableEq

namespace Duration

/-- The nanoseconds of a second. -/
def perSecond : Nat := 1000000000

/-- The bound on the seconds of a duration. -/
def secondsBound : Nat := UInt64.size

/-- No time. -/
def zero : Duration := ⟨0⟩

/-- Whole seconds and nanoseconds beside them. -/
def of (seconds nanoseconds : Nat) : Duration :=
  ⟨seconds * perSecond + nanoseconds⟩

/-- The whole seconds. -/
def seconds (duration : Duration) : Nat :=
  duration.nanoseconds / perSecond

/-- The nanoseconds beside the whole seconds. -/
def subsecond (duration : Duration) : Nat :=
  duration.nanoseconds % perSecond

/-- The nearest nanosecond to a number of seconds, a half going to the even
    neighbour; none from 2^64 seconds on. -/
def ofSeconds? (seconds : Binary64) : Option Duration :=
  let (num, den) := seconds.fraction
  if num < secondsBound * den then some ⟨roundHalfEven (num * perSecond) den⟩ else none

/-- The sum, unless it reaches 2^64 seconds. -/
def add? (a b : Duration) : Option Duration :=
  let sum := a.nanoseconds + b.nanoseconds
  if sum < secondsBound * perSecond then some ⟨sum⟩ else none

/-- The seconds as a double: the whole seconds and the fraction are rounded,
    and so is their sum. -/
def toSeconds (duration : Duration) : Binary64 :=
  let whole := ((Binary64.nearest? duration.seconds 1).getD .zero).fraction
  let part := ((Binary64.nearest? duration.subsecond perSecond).getD .zero).fraction
  (Binary64.nearest? (whole.1 * part.2 + part.1 * whole.2) (whole.2 * part.2)).getD .zero

end Duration

end Microprocessor
