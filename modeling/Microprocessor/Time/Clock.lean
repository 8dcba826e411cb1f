import Microprocessor.Time.Duration

/-! # The simulated clock

    An oscillator of a fixed frequency counts cycles and the time they take.
    Time is rounded per interval, in double precision and then to
    nanoseconds, and summed. -/

namespace Microprocessor

/-- Why the clock cannot go on. -/
inductive ClockError
  /-- The interval is no duration. -/
  | unrepresentable
  /-- The time elapsed would be no duration. -/
  | overflow
  deriving DecidableEq

/-- The report for a clock that cannot go on. -/
def ClockError.message : ClockError → String
  | .unrepresentable =>
    "cannot convert float seconds to Duration: value is either too big or NaN"
  | .overflow => "overflow when adding durations"

/-- The cycles and the time elapsed. -/
structure Clock where
  /-- Oscillations per second, at least one. -/
  frequency : UInt64
  cycles : UInt64
  elapsed : Duration
  deriving DecidableEq

namespace Clock

/-- A clock at the start of time. -/
def ofFrequency (frequency : UInt64) : Clock :=
  ⟨max frequency 1, 0, .zero⟩

/-- A count as a double.  A count that no double holds is taken for the
    greatest double. -/
def countValue (count : UInt64) : Nat :=
  if count.toNat ≤ Binary64.mantissaBound then count.toNat else Binary64.greatest

/-- The time that `cycles` cycles take, if that is a duration. -/
def duration (clock : Clock) (cycles : UInt64) : Except ClockError Duration :=
  match (Binary64.nearest? (countValue cycles) (countValue clock.frequency)).bind
      Duration.ofSeconds? with
  | some interval => .ok interval
  | none => .error .unrepresentable

/-- Lets time pass; on an error the clock stands still. -/
def consume (clock : Clock) (interval : Duration) : Clock × Option ClockError :=
  match clock.elapsed.add? interval with
  | some elapsed => ({ clock with elapsed }, none)
  | none => (clock, some .overflow)

/-- Counts cycles and lets the time they take pass.  The cycles are counted
    even if the time cannot be. -/
def consumeCycles (clock : Clock) (cycles : UInt64) : Clock × Option ClockError :=
  let counted := { clock with cycles := clock.cycles + cycles }
  match clock.duration cycles with
  | .ok interval => counted.consume interval
  | .error failure => (counted, some failure)

end Clock

end Microprocessor
