import Microprocessor.Pipeline.Report

/-! # Summaries of runs

    What is to be said of a machine when its run has ended: how it ended, how
    much it did, its registers, and the faults it met. -/

namespace Microprocessor.Terminal

/-- The end of a run. -/
structure RunSummary where
  architecture : String
  outcome : String
  instructions : UInt64
  cycles : UInt64
  simulatedSeconds : Binary64
  registers : RegisterSnapshot
  /-- The kinds of which a fault was recorded. -/
  faults : List FaultStatus
  error : Option String

/-- The name of the way a run ended. -/
def outcomeName : Except Fault TickOutcome → String
  | .ok .executed => "instruction-limit"
  | .ok .halted => "halted"
  | .ok .endOfStream => "end-of-stream"
  | .ok .stopped => "stopped"
  | .ok .waiting => "waiting"
  | .error _ => "fault"

/-- The report for the fault that ended a run. -/
def faultMessage? : Except Fault TickOutcome → Option String
  | .ok _ => none
  | .error fault => some fault.message

namespace RunSummary

/-- The summary of a run that ended in some way. -/
def of {κ ι δ γ : Type} [Core κ ι] (pipeline : Pipeline κ ι δ γ)
    (result : Except Fault TickOutcome) : RunSummary where
  architecture := pipeline.architecture.name
  outcome := outcomeName result
  instructions := pipeline.executed
  cycles := pipeline.clock.cycles
  simulatedSeconds := pipeline.clock.elapsed.toSeconds
  registers := pipeline.snapshot
  faults := pipeline.faults.statuses.filter fun status => status.active.isSome
  error := faultMessage? result

/-! ## Text -/

/-- The summary as lines of text. -/
def text (summary : RunSummary) : String :=
  let head :=
    summary.architecture ++ " " ++ summary.outcome ++ " after " ++ toString summary.instructions
      ++ " instructions (" ++ summary.simulatedSeconds.fixed 6 ++ "s simulated)"
  let faults := summary.faults.map fun status =>
    "fault " ++ status.kind.name ++ ": " ++ status.message
  String.join
    (([head] ++ summary.error.toList ++ [summary.registers.text] ++ faults).map (· ++ "\n"))

/-! ## JSON -/

/-- The summary as a JSON document. -/
def json (summary : RunSummary) : Json :=
  .object
    [("architecture", summary.architecture),
      ("outcome", summary.outcome),
      ("instructions", summary.instructions),
      ("cycles", summary.cycles),
      ("simulated_seconds", summary.simulatedSeconds),
      ("registers", summary.registers),
      ("faults", summary.faults),
      ("error", summary.error)]

end RunSummary

end Microprocessor.Terminal
