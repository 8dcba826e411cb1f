import Microprocessor.Arm.A32
import Microprocessor.Terminal.Options
import Microprocessor.Terminal.Session
import Microprocessor.X86.RealMode

/-! # Launching a program

    An image is loaded into memory, a console is attached, and the processor
    is set to the program's beginning.

      * `launchX86` and `launchArm` set up a session, or say why there is
        none;
      * `conclude` is what is shown of a session that has ended. -/

namespace Microprocessor.Terminal

/-- Why a program cannot be launched. -/
inductive LaunchError
  | noSuchFile
  /-- The image cannot be read for another reason, which the system gives. -/
  | unreadable (reason : String)
  | ports (cause : AttachError)
  | image (cause : ImageTooLarge)
  | stackPointer
  | faultName (cause : UnknownFaultName)
  deriving DecidableEq

/-- The report for a program that cannot be launched. -/
def LaunchError.message : LaunchError → String
  | .noSuchFile => "No such file or directory (os error 2)"
  | .unreadable reason => reason
  | .ports cause => cause.message
  | .image cause => cause.message
  | .stackPointer => NumeralError.tooLarge.message
  | .faultName cause => cause.message

/-! ## Setting up -/

/-- The ports, with the console alone. -/
def attachConsole (options : Options) : Except LaunchError (PortMap Console) :=
  match PortMap.empty.attach ⟨options.consolePort, options.consolePort⟩ Console.initial with
  | .ok ports => .ok ports
  | .error cause => .error (.ports cause)

/-- Memory with the image at an address. -/
def loadImage (options : Options) (address : UInt32) (image : List UInt8) :
    Except LaunchError Memory :=
  match (Memory.ofConfiguration ⟨options.memorySize, options.romStart⟩).load address image with
  | .ok memory => .ok memory
  | .error cause => .error (.image cause)

/-- Unmasks the kinds of fault with the given names. -/
def unmaskAll (faults : FaultUnit) : List String → Except LaunchError FaultUnit
  | [] => .ok faults
  | name :: rest =>
    match FaultKind.ofName name with
    | .ok kind => unmaskAll (faults.unmask kind) rest
    | .error cause => .error (.faultName cause)

/-- A session with a core that stands at the program's beginning. -/
def sessionOf {κ ι : Type} [Core κ ι] [Decoded ι] (options : Options)
    (architecture : Architecture ι) (core : κ) (memory : Memory) (ports : PortMap Console) :
    Except LaunchError (Session κ ι) := do
  let pipeline : Pipeline κ ι Console InterruptLine := .of architecture core memory ports
  let faults ← unmaskAll pipeline.faults options.unmask
  let step := pipeline.step.setArmed options.step
  return .of { pipeline with faults, step } options.maxInstructions

/-- The stack pointer that 8086 programs begin with unless told otherwise. -/
def defaultStackPointer : UInt32 := 0xFFFE

/-- An 8086 program begins at CS:IP, with all segments alike. -/
def launchX86 (options : Options) (image : List UInt8) :
    Except LaunchError (Session X86.ExecutionUnit X86.Instruction) := do
  let ports ← attachConsole options
  let start : MemoryLocator := ⟨options.cs, options.ip⟩
  let memory ← loadImage options (options.loadAddress.getD start.address) image
  let sp := options.sp.getD defaultStackPointer
  if 0xFFFF < sp then throw .stackPointer
  let unit := X86.ExecutionUnit.initial.setEntryPoint options.cs options.ip
  let unit := (unit.setDataSegments options.cs).setStack options.cs sp.toUInt16
  sessionOf options X86.realMode unit memory ports

/-- An ARM program begins where it is loaded. -/
def launchArm (options : Options) (image : List UInt8) :
    Except LaunchError (Session Arm.Processor Arm.Instruction) := do
  let ports ← attachConsole options
  let start := options.loadAddress.getD 0
  let memory ← loadImage options start image
  let processor := Arm.Processor.initial.setEntryPoint start
  let processor := match options.sp with
    | some sp => processor.setRegister .sp sp
    | none => processor
  sessionOf options Arm.a32 processor memory ports

/-! ## Ends -/

/-- What is left of a run: the status it ends with, and what it has shown. -/
structure Ending where
  exitCode : Nat
  screen : Screen
  deriving DecidableEq

/-- The end of a run that a report explains. -/
def failing (screen : Screen) (report : String) : Ending :=
  ⟨1, screen.complain report⟩

/-- Shows the summary, if it is asked for. -/
def showSummary (dump : Option DumpFormat) (summary : RunSummary) (screen : Screen) : Screen :=
  match dump with
  | none => screen
  | some .text => screen.print summary.text
  | some .json => screen.print (summary.json.pretty ++ "\n")

/-- The end of a session with a result. -/
def conclude {κ ι : Type} [Core κ ι] (options : Options) (session : Session κ ι)
    (result : Except Fault TickOutcome) : Ending :=
  let screen := showSummary options.dump (.of session.pipeline result) session.screen
  match faultMessage? result with
  | none => ⟨0, screen⟩
  | some report => failing screen report

/-- A whole run, with the image and the lines of input at hand. -/
def runImage (options : Options) (image : List UInt8) (lines : List String) : Ending :=
  let ended {κ ι : Type} [Core κ ι] [Decoded ι] (session : Session κ ι) : Ending :=
    let (session, result) := session.playAll lines
    conclude options session result
  match options.processor with
  | .x86 =>
    match launchX86 options image with
    | .ok session => ended session
    | .error failure => failing .blank failure.message
  | .arm =>
    match launchArm options image with
    | .ok session => ended session
    | .error failure => failing .blank failure.message

/-- A whole run from its arguments, where `files` gives the contents of a file
    or says why it cannot be read. -/
def runArguments (arguments : List String)
    (files : String → Except LaunchError (List UInt8)) (lines : List String) :
    Except UsageError Ending := do
  let options ← Options.ofArguments arguments
  match files options.image with
  | .ok image => return runImage options image lines
  | .error failure => return failing .blank failure.message

end Microprocessor.Terminal
