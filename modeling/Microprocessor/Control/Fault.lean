import Microprocessor.Storage.Queue
import Microprocessor.Word.Hexadecimal

/-! # Faults

    A fault is a condition, met while running a program, that may stop the
    run.  Faults come in four kinds, two of which can be masked; each knows
    the address of the instruction that caused it, if there is one. -/

namespace Microprocessor

/-- The kinds of fault. -/
inductive FaultKind
  | undefinedInstruction
  | unattachedPort
  | queue
  | bug
  deriving DecidableEq

/-- A text that names no kind of fault. -/
structure UnknownFaultName where
  name : String
  deriving DecidableEq

/-- The report for a text that names no kind of fault. -/
def UnknownFaultName.message (failure : UnknownFaultName) : String :=
  "unknown fault name '" ++ failure.name ++ "'"

namespace FaultKind

/-- Every kind, in the order in which statuses are reported. -/
def all : List FaultKind :=
  [.undefinedInstruction, .unattachedPort, .queue, .bug]

/-- The kind's name. -/
def name : FaultKind → String
  | .undefinedInstruction => "undefined-instruction"
  | .unattachedPort => "unattached-port"
  | .queue => "queue"
  | .bug => "bug"

/-- The kind with a name. -/
def ofName (name : String) : Except UnknownFaultName FaultKind :=
  match all.find? fun kind => kind.name == name with
  | some kind => .ok kind
  | none => .error ⟨name⟩

/-- Whether faults of the kind can be masked. -/
def maskable : FaultKind → Bool
  | .undefinedInstruction | .unattachedPort => true
  | .queue | .bug => false

end FaultKind

/-- What went wrong. -/
inductive FaultCause
  /-- The instruction is not recognised, or recognised and not modelled. -/
  | undefinedInstruction (opcode : UInt32) (disassembly : String)
  /-- No device answers on the port; the value is the one being written. -/
  | unattachedPort (port : UInt16) (value : Option UInt16)
  /-- A queue of the pipeline was used wrongly. -/
  | queue (error : QueueError) (activity : String)
  /-- The machine itself is wrong. -/
  | bug (message : String)
  deriving DecidableEq

namespace FaultCause

/-- The kind of fault. -/
def kind : FaultCause → FaultKind
  | .undefinedInstruction .. => .undefinedInstruction
  | .unattachedPort .. => .unattachedPort
  | .queue .. => .queue
  | .bug .. => .bug

/-- The report for the cause. -/
def message : FaultCause → String
  | .undefinedInstruction opcode disassembly =>
    "unrecognized opcode " ++ markedHex 2 opcode.toNat ++ " (" ++ disassembly ++ ")"
  | .unattachedPort port (some value) =>
    "write of " ++ markedHex 4 value.toNat ++ " to port " ++ markedHex 4 port.toNat
      ++ ", which has no device attached"
  | .unattachedPort port none =>
    "read from port " ++ markedHex 4 port.toNat ++ ", which has no device attached"
  | .queue error activity => error.message ++ " during " ++ activity
  | .bug text => "emulator bug: " ++ text

end FaultCause

/-- A cause and the address of the instruction it arose from. -/
structure Fault where
  address : Option UInt32
  cause : FaultCause
  deriving DecidableEq

namespace Fault

/-- The kind of fault. -/
def kind (fault : Fault) : FaultKind :=
  fault.cause.kind

/-- The machine itself is wrong, nowhere in particular. -/
def bug (message : String) : Fault :=
  ⟨none, .bug message⟩

/-- The report for the fault. -/
def message (fault : Fault) : String :=
  match fault.address with
  | some address => fault.cause.message ++ " at address " ++ markedHex 5 address.toNat
  | none => fault.cause.message

end Fault

end Microprocessor
