import Microprocessor.Pipeline.Execution

/-! # Events

    Between the moves of a pipeline its surroundings act on it: they set
    registers, fill memory, attach devices, request interrupts, mask faults and
    control single stepping.

      * `Pipeline.Event` lists what can happen, a move among it;
      * `Pipeline.after` is what becomes of the pipeline;
      * `Pipeline.runForAmid` and `Pipeline.runAmid` are runs in the midst of
        events: the runs of a pipeline that is not left alone. -/

namespace Microprocessor.Pipeline

/-- What can happen to a pipeline with cores of type `κ`, devices of type `δ`
    and a controller of type `γ`. -/
inductive Event (κ δ γ : Type)
  /-- The pipeline makes a move. -/
  | move
  | setCore (core : κ)
  | store (address : UInt32) (value : UInt8)
  /-- An image is loaded, if it fits. -/
  | load (base : UInt32) (image : List UInt8)
  /-- A device is attached, if its ports are free. -/
  | attach (range : PortRange) (device : δ)
  | resetQueue
  | raiseNmi
  /-- A controller is connected, or the one there is comes to another state. -/
  | setController (controller : Option γ)
  | mask (kind : FaultKind)
  | unmask (kind : FaultKind)
  | clearFaults
  | setArmed (armed : Bool)
  | toggle
  | resume
  | requestStop
  | clearStop

variable {κ ι δ γ : Type} [Core κ ι] [Decoded ι] [PortDevice δ] [InterruptController γ]

/-- The pipeline after an event. -/
def after (pipeline : Pipeline κ ι δ γ) : Event κ δ γ → Pipeline κ ι δ γ
  | .move => pipeline.tick.1
  | .setCore core => { pipeline with core }
  | .store address value =>
    { pipeline with bus := pipeline.bus.mapMemory fun memory => memory.write address value }
  | .load base image =>
    match pipeline.bus.memory.load base image with
    | .ok memory => { pipeline with bus := pipeline.bus.mapMemory fun _ => memory }
    | .error _ => pipeline
  | .attach range device =>
    match pipeline.bus.ports.attach range device with
    | .ok ports => { pipeline with bus := { pipeline.bus with ports } }
    | .error _ => pipeline
  | .resetQueue => { pipeline with bus := pipeline.bus.resetQueue }
  | .raiseNmi => { pipeline with interrupts := pipeline.interrupts.raiseNmi }
  | .setController controller =>
    { pipeline with interrupts := { pipeline.interrupts with controller } }
  | .mask kind => { pipeline with faults := (pipeline.faults.mask kind).1 }
  | .unmask kind => { pipeline with faults := pipeline.faults.unmask kind }
  | .clearFaults => { pipeline with faults := pipeline.faults.clearAll }
  | .setArmed armed => { pipeline with step := pipeline.step.setArmed armed }
  | .toggle => { pipeline with step := pipeline.step.toggle.2 }
  | .resume => { pipeline with step := pipeline.step.resume }
  | .requestStop => { pipeline with step := pipeline.step.requestStop }
  | .clearStop => { pipeline with step := pipeline.step.clearStop }

/-! ## Runs amid events -/

/-- Where a run has ended. -/
structure Ended (κ ι δ γ : Type) where
  pipeline : Pipeline κ ι δ γ
  result : Except Fault TickOutcome
  /-- The pipelines that its moves were made from, in order. -/
  moved : List (Pipeline κ ι δ γ)
  /-- What has not happened yet. -/
  later : List (Event κ δ γ)

/-- The end of a run that made moves before. -/
def Ended.since {κ ι δ γ : Type} (earlier : List (Pipeline κ ι δ γ)) (ended : Ended κ ι δ γ) :
    Ended κ ι δ γ :=
  { ended with moved := earlier ++ ended.moved }

/-- Whether a run goes on after what a move reports: a wait ends sooner or
    later. -/
def goesOn : Except Fault TickOutcome → Bool
  | .ok .executed | .ok .waiting => true
  | _ => false

/-- A run until it is done, or until something other than the execution of an
    instruction happens.  Its moves are among the events; the others happen
    between them.  Nothing comes of it if the events are over before. -/
def runUntilAmid (done : Pipeline κ ι δ γ → Bool) :
    List (Event κ δ γ) → Pipeline κ ι δ γ → Option (Ended κ ι δ γ)
  | [], pipeline => if done pipeline then some ⟨pipeline, .ok .executed, [], []⟩ else none
  | .move :: later, pipeline =>
    if done pipeline then some ⟨pipeline, .ok .executed, [], .move :: later⟩
    else if goesOn pipeline.tick.2 then
      (runUntilAmid done later pipeline.tick.1).map (.since [pipeline])
    else some ⟨pipeline.tick.1, pipeline.tick.2, [pipeline], later⟩
  | event :: later, pipeline =>
    if done pipeline then some ⟨pipeline, .ok .executed, [], event :: later⟩
    else runUntilAmid done later (pipeline.after event)

/-- Whether the count of executed instructions has got as far as `target`. -/
def hasReached (target : UInt64) (pipeline : Pipeline κ ι δ γ) : Bool :=
  target ≤ pipeline.executed

/-- A run of at most `limit` instructions amid events. -/
def runForAmid (limit : UInt64) (events : List (Event κ δ γ)) (pipeline : Pipeline κ ι δ γ) :
    Option (Ended κ ι δ γ) :=
  runUntilAmid (hasReached (pipeline.target limit)) events pipeline

/-- A run amid events that nothing but what happens ends. -/
def runAmid (events : List (Event κ δ γ)) (pipeline : Pipeline κ ι δ γ) :
    Option (Ended κ ι δ γ) :=
  runUntilAmid (fun _ => false) events pipeline

end Microprocessor.Pipeline
