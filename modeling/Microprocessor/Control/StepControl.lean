/-! # Single-step control

    A controlling party can hold the processor before each instruction.  While
    step mode is on the processor waits; a grant lets one instruction through,
    and at most one grant is kept ahead of time.  Turning step mode off, or
    asking the processor to stop, ends a wait too.

      * the operations of the controlling party are `setArmed`, `toggle`,
        `resume`, `requestStop` and `clearStop`;
      * `beginWait` and `settle` are the processor's: a wait that has begun
        ends as soon as `settle` gives a way for it to end. -/

namespace Microprocessor

/-- How a wait ended. -/
inductive Wake
  | resumed
  | stopped
  deriving DecidableEq

/-- The state of single-step control. -/
structure StepControl where
  /-- Step mode is on. -/
  armed : Bool
  /-- One instruction may go through. -/
  granted : Bool
  /-- The processor is in a wait. -/
  waiting : Bool
  /-- The processor has been asked to stop. -/
  stop : Bool
  deriving DecidableEq

namespace StepControl

/-- Step mode off, nothing asked. -/
def initial : StepControl := ⟨false, false, false, false⟩

/-- Turns step mode on or off; turning it off withdraws a grant. -/
def setArmed (control : StepControl) (armed : Bool) : StepControl :=
  { control with armed, granted := armed && control.granted }

/-- Changes step mode, and gives the new setting. -/
def toggle (control : StepControl) : Bool × StepControl :=
  (!control.armed, control.setArmed !control.armed)

/-- Lets one instruction through. -/
def resume (control : StepControl) : StepControl :=
  { control with granted := true }

/-- Asks the processor to stop. -/
def requestStop (control : StepControl) : StepControl :=
  { control with stop := true }

/-- Withdraws the request to stop. -/
def clearStop (control : StepControl) : StepControl :=
  { control with stop := false }

/-- The processor begins to wait. -/
def beginWait (control : StepControl) : StepControl :=
  { control with waiting := true }

/-- How the wait ends now, if it can: a request to stop goes first, then a
    grant, which is used up, then step mode being off. -/
def settle (control : StepControl) : Option (Wake × StepControl) :=
  if control.stop then some (.stopped, { control with waiting := false })
  else if control.granted then some (.resumed, { control with granted := false, waiting := false })
  else if control.armed then none
  else some (.resumed, { control with waiting := false })

end StepControl

end Microprocessor
