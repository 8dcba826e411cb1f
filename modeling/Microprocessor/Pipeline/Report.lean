import Microprocessor.Pipeline.Execution
import Microprocessor.Text.Json

/-! # Reports on a pipeline

    What is said of a pipeline and its parts in JSON: times, faults,
    registers, where it stands and how its moves end. -/

namespace Microprocessor

/-! ## Time -/

instance : JsonForm Binary64 := ⟨fun x => .number x.text⟩

/-- Whole seconds, and nanoseconds beyond them. -/
instance : JsonForm Duration := ⟨fun time => [time.seconds, time.subsecond]⟩

/-! ## Faults -/

instance : JsonForm FaultKind where
  form
    | .undefinedInstruction => "UndefinedInstruction"
    | .unattachedPort => "UnattachedPort"
    | .queue => "Queue"
    | .bug => "Bug"

instance : JsonForm Fault where
  form fault :=
    .object
      [("error", fault.kind.name), ("address", fault.address), ("message", fault.message)]

/-- The report for the recorded fault, if there is one. -/
def FaultStatus.message (status : FaultStatus) : String :=
  (status.active.map Fault.message).getD ""

instance : JsonForm FaultStatus where
  form status :=
    .object
      [("name", status.kind.name),
        ("maskable", status.kind.maskable),
        ("masked", status.masked),
        ("active", status.active.isSome),
        ("message", status.message)]

/-! ## Registers -/

instance : JsonForm NamedValue where
  form register := .object [("name", register.name), ("value", register.value)]

instance : JsonForm RegisterSnapshot where
  form snapshot :=
    .object
      [("architecture", snapshot.architecture),
        ("program_counter", snapshot.programCounter),
        ("registers", snapshot.registers),
        ("flags", snapshot.flags)]

/-! ## Moves -/

instance : JsonForm Stage where
  form
    | .fetching => "Fetching"
    | .decoding => "Decoding"
    | .stepWait => "StepWait"
    | .executing => "Executing"
    | .halted => "Halted"

instance : JsonForm TickOutcome where
  form
    | .executed => "Continue"
    | .halted => "Halted"
    | .endOfStream => "EndOfStream"
    | .stopped => "Stopped"
    | .waiting => "Waiting"

instance : JsonForm Wake where
  form
    | .resumed => "Resumed"
    | .stopped => "Stopped"

instance : JsonForm StepEvent where
  form event :=
    .object
      [("address", event.address),
        ("length", event.length),
        ("disassembly", event.disassembly),
        ("snapshot", event.snapshot.text)]

/-! ## Architectures -/

instance {ι : Type} : JsonForm (Architecture ι) where
  form architecture :=
    .object
      [("name", architecture.name),
        ("prefetch_capacity", architecture.prefetchCapacity),
        ("fetch_chunk", architecture.fetchChunk),
        ("decoded_queue_depth", architecture.decodedDepth),
        ("registers", architecture.registers),
        ("clock_hz", architecture.clockFrequency)]

end Microprocessor
