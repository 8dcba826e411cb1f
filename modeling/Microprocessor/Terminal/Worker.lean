import Microprocessor.Pipeline.Event

/-! # The worker

    The command line lets a worker run the machine, while others tell it what is
    typed.  The worker makes one move after another and looks at a limit between
    them; what is told happens between them as well.

      * `limitReached` is what the worker looks at;
      * `execute` is the worker's loop, amid whatever else happens. -/

namespace Microprocessor.Terminal

open Pipeline

variable {κ ι δ γ : Type}

/-- Whether as many instructions have been executed as may be, if there is a
    limit. -/
def limitReached (limit : Option UInt64) (pipeline : Pipeline κ ι δ γ) : Bool :=
  match limit with
  | some limit => limit ≤ pipeline.executed
  | none => false

variable [Core κ ι] [Decoded ι] [PortDevice δ] [InterruptController γ]

/-- Makes a move wherever one is among the events, until the limit is reached or
    something other than the execution of an instruction happens.  Nothing comes of
    it if the events are over before. -/
def execute (limit : Option UInt64) : List (Event κ δ γ) → Pipeline κ ι δ γ →
    Option (Ended κ ι δ γ)
  | [], pipeline =>
    if limitReached limit pipeline then some ⟨pipeline, .ok .executed, [], []⟩ else none
  | .move :: later, pipeline =>
    if limitReached limit pipeline then some ⟨pipeline, .ok .executed, [], .move :: later⟩
    else
      match pipeline.tick with
      | (next, .ok .executed) => (execute limit later next).map (.since [pipeline])
      | (next, .ok .waiting) => (execute limit later next).map (.since [pipeline])
      | (next, result) => some ⟨next, result, [pipeline], later⟩
  | event :: later, pipeline =>
    if limitReached limit pipeline then some ⟨pipeline, .ok .executed, [], event :: later⟩
    else execute limit later (pipeline.after event)

end Microprocessor.Terminal
