/-! # Interrupt inputs

    A processor has a maskable request input and a latch for requests that
    cannot be masked.  The maskable input is driven by a controller, if there
    is one: it says whether it requests an interrupt, and when the processor
    accepts it gives the number of a vector.

      * `InterruptController` is what the processor knows of a controller;
      * `InterruptLine` is the simplest one, a line that carries one vector
        number at a time. -/

namespace Microprocessor

/-! ## Controllers -/

/-- What drives the maskable request input of a processor. -/
class InterruptController (γ : Type) where
  /-- Whether an interrupt is requested. -/
  pending : γ → Bool
  /-- The processor accepts a request: the number of its vector, and what
      becomes of the controller. -/
  acknowledge : γ → UInt8 × γ

/-- A line with at most one request on it. -/
structure InterruptLine where
  request? : Option UInt8
  deriving DecidableEq

namespace InterruptLine

/-- No request. -/
def idle : InterruptLine := ⟨none⟩

/-- Whether a request is waiting. -/
def isPending (line : InterruptLine) : Bool :=
  line.request?.isSome

/-- Puts a request on the line, in place of one not yet acknowledged. -/
def request (_ : InterruptLine) (vector : UInt8) : InterruptLine :=
  ⟨some vector⟩

/-- Takes any request off the line. -/
def cancel (_ : InterruptLine) : InterruptLine :=
  idle

/-- Takes the request off the line; an idle line gives vector 0. -/
def acknowledge (line : InterruptLine) : UInt8 × InterruptLine :=
  (line.request?.getD 0, idle)

end InterruptLine

instance : InterruptController InterruptLine where
  pending := InterruptLine.isPending
  acknowledge := InterruptLine.acknowledge

/-! ## Inputs -/

/-- The interrupt inputs of a processor with controllers of type `γ`. -/
structure InterruptInputs (γ : Type) where
  /-- What drives the maskable input, if anything does. -/
  controller : Option γ
  /-- A request that cannot be masked has been latched. -/
  nmi : Bool
  deriving DecidableEq

namespace InterruptInputs

variable {γ : Type}

/-- Nothing requested, and no controller. -/
def initial : InterruptInputs γ := ⟨none, false⟩

/-- Whether a maskable request is waiting. -/
def requestPending [InterruptController γ] (inputs : InterruptInputs γ) : Bool :=
  inputs.controller.any InterruptController.pending

/-- Accepts the maskable request, if one is waiting. -/
def acknowledge [InterruptController γ] (inputs : InterruptInputs γ) :
    Option UInt8 × InterruptInputs γ :=
  match inputs.controller with
  | none => (none, inputs)
  | some controller =>
    if InterruptController.pending controller then
      let (vector, controller) := InterruptController.acknowledge controller
      (some vector, { inputs with controller := some controller })
    else (none, inputs)

/-- Latches a request that cannot be masked. -/
def raiseNmi (inputs : InterruptInputs γ) : InterruptInputs γ :=
  { inputs with nmi := true }

/-- Clears the latch, and says whether it was set. -/
def takeNmi (inputs : InterruptInputs γ) : Bool × InterruptInputs γ :=
  (inputs.nmi, { inputs with nmi := false })

end InterruptInputs

end Microprocessor
