import Microprocessor.Storage.Memory
import Microprocessor.Terminal.Argument
import Microprocessor.Terminal.Console

/-! # The command line

    An argument is the name of the image, a switch, or an option with a value,
    which follows its name after an equals sign or as the next argument.
    After the argument `--` only the image is left.

      * `Item.scan` tells the three apart;
      * `Options.ofArguments` collects them: one image, and every option at
        most once, except those that may be repeated. -/

namespace Microprocessor.Terminal

/-- The options that take a value. -/
inductive ValueOption
  | arch
  | loadAddress
  | cs
  | ip
  | sp
  | memorySize
  | romStart
  | maxInstructions
  | unmask
  | consolePort
  | speedMultiplier
  | dump
  deriving DecidableEq

namespace ValueOption

/-- The option with a name. -/
def ofName? : String → Option ValueOption
  | "arch" => some .arch
  | "load-address" => some .loadAddress
  | "cs" => some .cs
  | "ip" => some .ip
  | "sp" => some .sp
  | "memory-size" => some .memorySize
  | "rom-start" => some .romStart
  | "max-instructions" => some .maxInstructions
  | "unmask" => some .unmask
  | "console-port" => some .consolePort
  | "speed-multiplier" => some .speedMultiplier
  | "dump" => some .dump
  | _ => none

/-- The option's name. -/
def name : ValueOption → String
  | .arch => "arch"
  | .loadAddress => "load-address"
  | .cs => "cs"
  | .ip => "ip"
  | .sp => "sp"
  | .memorySize => "memory-size"
  | .romStart => "rom-start"
  | .maxInstructions => "max-instructions"
  | .unmask => "unmask"
  | .consolePort => "console-port"
  | .speedMultiplier => "speed-multiplier"
  | .dump => "dump"

end ValueOption

/-- The options that take no value. -/
inductive Switch
  /-- All memory can be written to. -/
  | noRom
  /-- Step mode is on from the start. -/
  | step
  deriving DecidableEq

namespace Switch

/-- The switch with a name. -/
def ofName? : String → Option Switch
  | "no-rom" => some .noRom
  | "step" => some .step
  | _ => none

/-- The switch's name. -/
def name : Switch → String
  | .noRom => "no-rom"
  | .step => "step"

end Switch

/-- Why the arguments make no sense. -/
inductive UsageError
  | unknownArgument (argument : String)
  | missingValue (name : String)
  | unexpectedValue (name : String)
  | repeated (name : String)
  | invalidValue (name : String) (cause : ArgumentError)
  | conflict (first second : String)
  | missingImage
  deriving DecidableEq

/-- The report for arguments that make no sense. -/
def UsageError.message : UsageError → String
  | .unknownArgument argument => "unexpected argument '" ++ argument ++ "'"
  | .missingValue name => "option --" ++ name ++ " needs a value"
  | .unexpectedValue name => "option --" ++ name ++ " takes no value"
  | .repeated name => "option --" ++ name ++ " can be given once only"
  | .invalidValue name cause => "invalid value for --" ++ name ++ ": " ++ cause.message
  | .conflict first second => "--" ++ first ++ " cannot be used together with --" ++ second
  | .missingImage => "no image is named"

/-! ## Telling arguments apart -/

/-- A part of the command line. -/
inductive Item
  | positional (text : String)
  | switch (switch : Switch)
  | option (option : ValueOption) (value : String)
  deriving DecidableEq

/-- What an argument looks like by itself. -/
inductive Shape
  | plain
  /-- An argument with two dashes, its name, and its value if it has one. -/
  | long (name : String) (value : Option String)
  /-- An argument with one dash and more. -/
  | short
  /-- The two dashes alone. -/
  | separator
  deriving DecidableEq

namespace Shape

/-- Parts a long argument at its first equals sign. -/
def longOf (characters : List Char) : Shape :=
  let name := String.ofList (characters.takeWhile (· != '='))
  match characters.dropWhile (· != '=') with
  | [] => .long name none
  | _ :: value => .long name (some (String.ofList value))

/-- The shape of an argument. -/
def of (argument : String) : Shape :=
  match argument.toList with
  | ['-', '-'] => .separator
  | '-' :: '-' :: rest => longOf rest
  | '-' :: _ :: _ => .short
  | _ => .plain

end Shape

namespace Item

/-- Tells arguments apart, where an option may be waiting for its value.  A
    value must not look like an option itself. -/
def scanAfter : Option ValueOption → List String → Except UsageError (List Item)
  | none, [] => .ok []
  | some awaiting, [] => .error (.missingValue awaiting.name)
  | some awaiting, argument :: rest =>
    if Shape.of argument = .plain then (scanAfter none rest).map (.option awaiting argument :: ·)
    else .error (.missingValue awaiting.name)
  | none, argument :: rest =>
    match Shape.of argument with
    | .plain => (scanAfter none rest).map (.positional argument :: ·)
    | .separator => .ok (rest.map .positional)
    | .short => .error (.unknownArgument argument)
    | .long name value =>
      match Switch.ofName? name, ValueOption.ofName? name, value with
      | some found, _, none => (scanAfter none rest).map (.switch found :: ·)
      | some _, _, some _ => .error (.unexpectedValue name)
      | none, some found, some value => (scanAfter none rest).map (.option found value :: ·)
      | none, some found, none => scanAfter (some found) rest
      | none, none, _ => .error (.unknownArgument argument)

/-- Tells the arguments of a command line apart. -/
def scan (arguments : List String) : Except UsageError (List Item) :=
  scanAfter none arguments

/-- The text of a positional item. -/
def positional? : Item → Option String
  | .positional text => some text
  | _ => none

/-- The value that an item gives to an option. -/
def valueOf? (wanted : ValueOption) : Item → Option String
  | .option found value => if found = wanted then some value else none
  | _ => none

end Item

/-! ## Options -/

/-- What a run is asked to be. -/
structure Options where
  /-- The name of the file with the image. -/
  image : String
  processor : ProcessorChoice
  /-- Where the image goes, unless where the program begins. -/
  loadAddress : Option UInt32
  cs : UInt16
  ip : UInt16
  sp : Option UInt32
  memorySize : Nat
  /-- The first read-only address, if any. -/
  romStart : Option UInt32
  step : Bool
  maxInstructions : Option UInt64
  /-- The names of the kinds of fault that stop the run. -/
  unmask : List String
  consolePort : UInt16
  speed : Speed
  dump : Option DumpFormat
  deriving DecidableEq

namespace Options

/-- The values given to an option. -/
def values (items : List Item) (option : ValueOption) : List String :=
  items.filterMap (Item.valueOf? option)

/-- The value of an option that is given at most once. -/
def single? {α : Type} (items : List Item) (option : ValueOption)
    (read : String → Except ArgumentError α) : Except UsageError (Option α) :=
  match values items option with
  | [] => .ok none
  | [text] =>
    match read text with
    | .ok value => .ok (some value)
    | .error cause => .error (.invalidValue option.name cause)
  | _ => .error (.repeated option.name)

/-- Whether a switch is given, which it is at most once. -/
def isOn (items : List Item) (switch : Switch) : Except UsageError Bool :=
  match items.count (.switch switch) with
  | 0 => .ok false
  | 1 => .ok true
  | _ => .error (.repeated switch.name)

/-- The one image that is named. -/
def imageOf (items : List Item) : Except UsageError String :=
  match items.filterMap Item.positional? with
  | [] => .error .missingImage
  | [image] => .ok image
  | _ :: extra :: _ => .error (.unknownArgument extra)

/-- The first read-only address, from the option and the switch that exclude
    each other. -/
def romStartOf (romStart : Option UInt32) (noRom : Bool) : Except UsageError (Option UInt32) :=
  match romStart, noRom with
  | some _, true => .error (.conflict ValueOption.romStart.name Switch.noRom.name)
  | none, true => .ok none
  | some start, false => .ok (some start)
  | none, false => .ok (some MemoryConfiguration.defaultRomStart)

/-- The instruction pointer that programs begin at unless told otherwise. -/
def defaultIp : UInt16 := 0x100

/-- The speed of the clock itself. -/
def realTime : Speed :=
  .times ((Binary64.nearest? 1 1).getD .zero)

/-- The options that items ask for. -/
def ofItems (items : List Item) : Except UsageError Options := do
  let image ← imageOf items
  let processor ← single? items .arch readProcessor
  let loadAddress ← single? items .loadAddress readDouble
  let cs ← single? items .cs readWord
  let ip ← single? items .ip readWord
  let sp ← single? items .sp readDouble
  let memorySize ← single? items .memorySize readMemorySize
  let romStart ← single? items .romStart readDouble
  let noRom ← isOn items .noRom
  let romStart ← romStartOf romStart noRom
  let step ← isOn items .step
  let maxInstructions ← single? items .maxInstructions readCount
  let consolePort ← single? items .consolePort readWord
  let speed ← single? items .speedMultiplier readSpeed
  let dump ← single? items .dump readDumpFormat
  return {
    image, loadAddress, sp, romStart, step, dump
    processor := processor.getD .x86
    cs := cs.getD 0
    ip := ip.getD defaultIp
    memorySize := memorySize.getD addressSpace
    maxInstructions := maxInstructions.map UInt64.ofNat
    unmask := values items .unmask
    consolePort := consolePort.getD Console.defaultPort
    speed := speed.getD realTime }

/-- The options that arguments ask for. -/
def ofArguments (arguments : List String) : Except UsageError Options := do
  ofItems (← Item.scan arguments)

end Options

end Microprocessor.Terminal
