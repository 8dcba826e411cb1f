import Microprocessor.Terminal.Argument
import Microprocessor.Time.Duration

/-! # Pacing

    A run is held to a multiple of the clock's speed by sleeping now and then.
    What is owed in sleep adds up until it is worth sleeping for; a sleep that
    takes too long is taken off what is owed next. -/

namespace Microprocessor.Terminal

/-- The nanoseconds of real time that simulated time is to take. -/
def Speed.realNanoseconds (speed : Speed) (simulated : Duration) : Nat :=
  match speed with
  | .unlimited => 0
  | .times multiplier =>
    let (num, den) := multiplier.fraction
    simulated.nanoseconds * den / num

/-- The nanoseconds of sleep that are owed. -/
structure SleepDebt where
  owed : Int
  deriving DecidableEq

namespace SleepDebt

/-- Nothing owed. -/
def none : SleepDebt := ⟨0⟩

/-- The least that is worth sleeping for: five milliseconds. -/
def least : Int := 5000000

/-- Owes more. -/
def charge (debt : SleepDebt) (nanoseconds : Nat) : SleepDebt :=
  ⟨debt.owed + nanoseconds⟩

/-- Owes less, after a sleep. -/
def pay (debt : SleepDebt) (nanoseconds : Nat) : SleepDebt :=
  ⟨debt.owed - nanoseconds⟩

/-- The milliseconds to sleep now. -/
def due (debt : SleepDebt) : Nat :=
  if least < debt.owed then debt.owed.toNat / 1000000 else 0

end SleepDebt

end Microprocessor.Terminal
