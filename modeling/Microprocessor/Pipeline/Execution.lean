import Microprocessor.Control.StepControl
import Microprocessor.Pipeline.Architecture
import Microprocessor.Time.Clock

/-! # The pipeline

    The pipeline fetches, decodes and executes one instruction at a time.
    Before it decodes it lets the core take interrupts; before it executes,
    in step mode, it waits for the controlling party.

      * `Pipeline.prepare` decodes the next instruction, unless one that a
        stop held back is still waiting;
      * `Pipeline.executeNext` executes it;
      * `Pipeline.tick` is one move of the pipeline: it ends when an
        instruction has been executed, when there is none, or when the
        pipeline waits;
      * `Pipeline.runFor` makes moves until a number of instructions have been
        executed or something else happens. -/

namespace Microprocessor

/-- Where the pipeline stands. -/
inductive Stage
  | fetching
  | decoding
  /-- A decoded instruction waits for the controlling party. -/
  | stepWait
  | executing
  | halted
  deriving DecidableEq

/-- How a move of the pipeline ends. -/
inductive TickOutcome
  /-- An instruction was executed. -/
  | executed
  /-- The core waits for an interrupt. -/
  | halted
  /-- Memory ends within the next instruction. -/
  | endOfStream
  /-- The controlling party asked to stop. -/
  | stopped
  /-- The controlling party has not let the next instruction through. -/
  | waiting
  deriving DecidableEq

/-- What the controlling party is shown of an instruction before it is
    executed.  The snapshot's program counter is already past it. -/
structure StepEvent where
  address : UInt32
  length : Nat
  disassembly : String
  snapshot : RegisterSnapshot
  deriving DecidableEq

/-- A core of type `κ` with instructions of type `ι`, on a bus with devices of
    type `δ`, and a controller of type `γ` for its interrupts. -/
structure Pipeline (κ ι δ γ : Type) where
  architecture : Architecture ι
  core : κ
  bus : Bus δ
  faults : FaultUnit
  interrupts : InterruptInputs γ
  /-- The decoded instructions, each with its linear address. -/
  decoded : DecodedQueue (UInt32 × ι)
  clock : Clock
  step : StepControl
  stage : Stage
  /-- How many instructions have been executed. -/
  executed : UInt64

namespace Pipeline

variable {κ ι δ γ : Type} [Core κ ι] [Decoded ι] [PortDevice δ] [InterruptController γ]

/-- A pipeline that has not begun. -/
def of (architecture : Architecture ι) (core : κ) (memory : Memory) (ports : PortMap δ) :
    Pipeline κ ι δ γ where
  architecture := architecture
  core := core
  bus := .of memory ports architecture.prefetchCapacity architecture.fetchChunk
  faults := .initial
  interrupts := .initial
  decoded := .ofDepth architecture.decodedDepth
  clock := .ofFrequency architecture.clockFrequency
  step := .initial
  stage := .fetching
  executed := 0

/-- Where the next instruction is decoded from. -/
def fetchAddress (pipeline : Pipeline κ ι δ γ) : UInt32 :=
  Core.fetchAddress pipeline.core

/-- The visible registers. -/
def snapshot (pipeline : Pipeline κ ι δ γ) : RegisterSnapshot :=
  pipeline.architecture.snapshot pipeline.core

/-- What there is to show of the next decoded instruction. -/
def pendingStep? (pipeline : Pipeline κ ι δ γ) : Option StepEvent :=
  pipeline.decoded.front?.map fun (address, instruction) =>
    ⟨address, Decoded.length instruction, Decoded.text instruction, pipeline.snapshot⟩

/-! ## Decoding -/

/-- Reports a queue used wrongly, which stops the run. -/
def queueFault (pipeline : Pipeline κ ι δ γ) (address : UInt32) (failure : QueueError)
    (activity : String) : Pipeline κ ι δ γ × Except Fault TickOutcome :=
  let (faults, fault) := pipeline.faults.fireAlways ⟨some address, .queue failure activity⟩
  ({ pipeline with faults }, .error fault)

/-- Lets the core take an interrupt. -/
def serviceInterrupts (pipeline : Pipeline κ ι δ γ) : Pipeline κ ι δ γ :=
  let serviced := Core.serviceInterrupts pipeline.core pipeline.bus pipeline.interrupts
  { pipeline with core := serviced.core, bus := serviced.bus, interrupts := serviced.inputs }

/-- Decodes the instruction at the head of the stream and moves on past it. -/
def decodeNext (pipeline : Pipeline κ ι δ γ) :
    Pipeline κ ι δ γ × Option (Except Fault TickOutcome) :=
  let address := pipeline.fetchAddress
  match pipeline.architecture.decode pipeline.bus.byteAt 0 with
  | .error _ => ({ pipeline with stage := .fetching }, some (.ok .endOfStream))
  | .ok instruction =>
    match pipeline.decoded.push (address, instruction) with
    | .error failure =>
      let (pipeline, result) :=
        queueFault { pipeline with stage := .decoding } address failure "decode"
      (pipeline, some result)
    | .ok decoded =>
      let length := Decoded.length instruction
      ({ pipeline with
          stage := .decoding
          decoded
          bus := pipeline.bus.consume length
          core := Core.advance pipeline.core length },
        none)

/-- Fetches and decodes the next instruction.  A result means that there is
    nothing to execute. -/
def fetchNext (pipeline : Pipeline κ ι δ γ) :
    Pipeline κ ι δ γ × Option (Except Fault TickOutcome) :=
  let pipeline := pipeline.serviceInterrupts
  if Core.isHalted pipeline.core then
    ({ pipeline with stage := .halted }, some (.ok .halted))
  else
    let place := Core.codeAddress pipeline.core
    match pipeline.bus.fetch place with
    | .ok bus => decodeNext { pipeline with bus }
    | .error failure =>
      let (pipeline, result) :=
        queueFault { pipeline with stage := .fetching } place.address failure "prefetch"
      (pipeline, some result)

/-- Sees to it that an instruction is decoded.  One that has been decoded
    before is executed before any interrupt is taken. -/
def prepare (pipeline : Pipeline κ ι δ γ) :
    Pipeline κ ι δ γ × Option (Except Fault TickOutcome) :=
  if pipeline.decoded.isEmpty then pipeline.fetchNext else (pipeline, none)

/-! ## Execution -/

/-- Executes a decoded instruction and counts it.  If it did not go on to what
    follows it, the bytes fetched ahead are stale. -/
def execute (pipeline : Pipeline κ ι δ γ) (address : UInt32) (instruction : ι) :
    Pipeline κ ι δ γ × Option Fault :=
  let executed :=
    Core.execute pipeline.core instruction address pipeline.bus pipeline.faults
  let following := address + UInt32.ofNat (min (Decoded.length instruction) 0xFFFFFFFF)
  let bus :=
    if Core.fetchAddress executed.core = following then executed.bus else executed.bus.resetQueue
  ({ pipeline with
      core := executed.core
      bus
      faults := executed.faults
      clock := (pipeline.clock.consumeCycles (UInt64.ofNat (Decoded.clocks instruction))).1
      stage := .executing
      executed := pipeline.executed + 1 },
    executed.fault)

/-- Executes the oldest decoded instruction. -/
def executeNext (pipeline : Pipeline κ ι δ γ) : Pipeline κ ι δ γ × Except Fault TickOutcome :=
  match pipeline.decoded.pop with
  | .error failure =>
    queueFault { pipeline with stage := .executing } pipeline.fetchAddress failure "execute"
  | .ok ((address, instruction), decoded) =>
    match execute { pipeline with decoded } address instruction with
    | (pipeline, some fault) => (pipeline, .error fault)
    | (pipeline, none) =>
      if Core.isHalted pipeline.core then ({ pipeline with stage := .halted }, .ok .halted)
      else ({ pipeline with stage := .fetching }, .ok .executed)

/-! ## Moves -/

/-- Begins to wait for the controlling party. -/
def beginWait (pipeline : Pipeline κ ι δ γ) : Pipeline κ ι δ γ × Except Fault TickOutcome :=
  ({ pipeline with stage := .stepWait, step := pipeline.step.beginWait }, .ok .waiting)

/-- Goes on from a wait, if it can end.  After a stop the instruction stays
    decoded. -/
def endWait (pipeline : Pipeline κ ι δ γ) : Pipeline κ ι δ γ × Except Fault TickOutcome :=
  match pipeline.step.settle with
  | none => (pipeline, .ok .waiting)
  | some (.stopped, step) => ({ pipeline with step }, .ok .stopped)
  | some (.resumed, step) => executeNext { pipeline with step }

/-- Makes one move. -/
def tick (pipeline : Pipeline κ ι δ γ) : Pipeline κ ι δ γ × Except Fault TickOutcome :=
  if pipeline.step.waiting then pipeline.endWait
  else if pipeline.step.stop then (pipeline, .ok .stopped)
  else
    match pipeline.prepare with
    | (pipeline, some result) => (pipeline, result)
    | (pipeline, none) =>
      if pipeline.step.armed then pipeline.beginWait else pipeline.executeNext

/-- Makes moves until `count` instructions have been executed, or until
    something else happens. -/
def runMoves : Nat → Pipeline κ ι δ γ → Pipeline κ ι δ γ × Except Fault TickOutcome
  | 0, pipeline => (pipeline, .ok .executed)
  | count + 1, pipeline =>
    match pipeline.tick with
    | (pipeline, .ok .executed) => runMoves count pipeline
    | (pipeline, result) => (pipeline, result)

/-- The greatest count of executed instructions. -/
def greatestCount : UInt64 := 0xFFFFFFFFFFFFFFFF

/-- Runs until the count of executed instructions reaches `target`, or until
    something else happens. -/
def runUntil (pipeline : Pipeline κ ι δ γ) (target : UInt64) :
    Pipeline κ ι δ γ × Except Fault TickOutcome :=
  runMoves (target.toNat - pipeline.executed.toNat) pipeline

/-- The count of executed instructions that a run of `limit` more ends at. -/
def target (pipeline : Pipeline κ ι δ γ) (limit : UInt64) : UInt64 :=
  if pipeline.executed.toNat + limit.toNat < UInt64.size then pipeline.executed + limit
  else greatestCount

/-- Runs at most `limit` instructions. -/
def runFor (pipeline : Pipeline κ ι δ γ) (limit : UInt64) :
    Pipeline κ ι δ γ × Except Fault TickOutcome :=
  pipeline.runUntil (pipeline.target limit)

/-- Runs until something other than the execution of an instruction happens. -/
def run (pipeline : Pipeline κ ι δ γ) : Pipeline κ ι δ γ × Except Fault TickOutcome :=
  pipeline.runUntil greatestCount

end Pipeline

end Microprocessor
