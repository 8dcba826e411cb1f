import Microprocessor.X86.Arithmetic
import Microprocessor.X86.Branch
import Microprocessor.X86.StringOperation

/-! # Execution of 8086 instructions

    An instruction acts on the execution unit and the bus, and may fault: if
    it is not recognised, or addresses a port on which nothing answers.

      * `Machine.perform` is the effect of every operation that cannot fault;
      * `Machine.execute` is a whole instruction, which also opens the
        interrupt shadow and leaves the single-step trap pending;
      * `Machine.serviceInterrupts` takes what is pending at a boundary, by
        priority: an exception, the single-step trap, the interrupt that
        cannot be masked, the maskable line. -/

namespace Microprocessor.X86

/-- Whether an operation would write to an immediate. -/
def Operation.hasImmediateDestination : Operation → Bool
  | .arith op _ dst _ => op.writesResult && dst.isImmediate
  | .incDec _ _ target => target.isImmediate
  | .unary _ _ target => target.isImmediate
  | .shift _ _ target _ => target.isImmediate
  | .mov _ dst _ => dst.isImmediate
  | .xchg _ a b => a.isImmediate || b.isImmediate
  | .pop operand => operand.isImmediate
  | _ => false

namespace Machine

variable {δ γ : Type}

/-- An operation on a single flag.  Enabling interrupts casts a shadow over
    the maskable line for one boundary. -/
def flag (machine : Machine δ) (op : FlagOp) : Machine δ :=
  let flags := machine.regs.flags
  match op with
  | .clc => machine.setFlags (flags.set .carry false)
  | .stc => machine.setFlags (flags.set .carry true)
  | .cmc => machine.setFlags (flags.set .carry !(flags.get .carry))
  | .cli => machine.setFlags (flags.set .interruptEnable false)
  | .sti =>
    (machine.setFlags (flags.set .interruptEnable true)).mapUnit fun unit =>
      { unit with shadow := true }
  | .cld => machine.setFlags (flags.set .direction false)
  | .std => machine.setFlags (flags.set .direction true)

/-- The effect of an operation that cannot fault. -/
def perform (machine : Machine δ) (instruction : Instruction) : Operation → Machine δ
  | .arith op width dst src => machine.arith instruction op width dst src
  | .test width dst src => machine.test instruction width dst src
  | .incDec op width target => machine.incDec instruction op width target
  | .unary op width target => machine.unary instruction op width target
  | .mulDiv op width source => machine.mulDiv instruction op width source
  | .shift op width target count => machine.shift instruction op width target count
  | .adjust op => machine.adjust op
  | .asciiAdjustMultiply base => machine.asciiAdjustMultiply base
  | .asciiAdjustDivide base => machine.asciiAdjustDivide base
  | .mov width dst src => machine.mov instruction width dst src
  | .xchg width a b => machine.xchg instruction width a b
  | .lea dst address => machine.lea dst address
  | .loadFarPointer segment dst address => machine.loadFarPointer instruction segment dst address
  | .push operand => machine.pushOperand instruction operand
  | .pop operand => machine.popOperand instruction operand
  | .pushFlags => machine.pushFlags
  | .popFlags => machine.popFlags
  | .storeAhIntoFlags => machine.storeAhIntoFlags
  | .loadAhFromFlags => machine.loadAhFromFlags
  | .convertByteToWord => machine.convertByteToWord
  | .convertWordToDouble => machine.convertWordToDouble
  | .translate => machine.translate instruction
  | .jumpConditional condition displacement => machine.jumpConditional condition displacement
  | .jumpRelative displacement => machine.mapUnit fun unit => unit.addToIp displacement
  | .jumpFar segment offset => machine.mapUnit fun unit => unit.farJump segment offset
  | .jumpIndirect target => machine.jumpIndirect instruction target
  | .jumpFarIndirect address => machine.jumpFarIndirect instruction address
  | .callRelative displacement => machine.callRelative displacement
  | .callFar segment offset => machine.callFar segment offset
  | .callIndirect target => machine.callIndirect instruction target
  | .callFarIndirect address => machine.callFarIndirect instruction address
  | .ret count => machine.ret count
  | .retFar count => machine.retFar count
  | .loop op displacement => machine.loop op displacement
  | .interrupt vector => machine.enterInterrupt vector
  | .interruptOnOverflow => machine.interruptOnOverflow
  | .interruptReturn => machine.interruptReturn
  | .string op width => machine.string instruction op width
  | .flag op => machine.flag op
  | .halt => machine.mapUnit fun unit => { unit with halted := true }
  | .wait | .escape .. | .unknown | .input .. | .output .. => machine

/-- The end of an instruction that went through: executed with TF set, it
    leaves the single-step trap pending. -/
def complete (machine : Machine δ) (armed : Bool) (faults : FaultUnit) :
    Executed ExecutionUnit δ :=
  (machine.mapUnit fun unit => { unit with trapPending := armed || unit.trapPending }).finished
    faults

/-- The number of a port. -/
def portNumber (machine : Machine δ) : Port → UInt16
  | .immediate number => number.toUInt16
  | .dx => machine.regs.word .dx

/-- Reads a port into the accumulator.  If nothing answers and that may pass,
    the bus is idle and reads as ones. -/
def input [PortDevice δ] (machine : Machine δ) (armed : Bool) (address : UInt32)
    (faults : FaultUnit) (width : Width) (port : Port) : Executed ExecutionUnit δ :=
  match machine.bus.portInput width (machine.portNumber port) with
  | .ok (value, bus) =>
    complete ⟨machine.unit.setAccumulator width value, bus⟩ armed faults
  | .error ⟨number⟩ =>
    match faults.fire ⟨some address, .unattachedPort number none⟩ with
    | (faults, none) =>
      (machine.mapUnit fun unit => unit.setAccumulator width width.mask).complete armed faults
    | (faults, some fault) => machine.stopped faults fault

/-- Writes the accumulator to a port.  If nothing answers and that may pass,
    the value is lost. -/
def output [PortDevice δ] (machine : Machine δ) (armed : Bool) (address : UInt32)
    (faults : FaultUnit) (width : Width) (port : Port) : Executed ExecutionUnit δ :=
  let value := machine.unit.accumulator width
  match machine.bus.portOutput width (machine.portNumber port) value with
  | .ok bus => complete ⟨machine.unit, bus⟩ armed faults
  | .error ⟨number⟩ =>
    match faults.fire ⟨some address, .unattachedPort number (some value)⟩ with
    | (faults, none) => machine.complete armed faults
    | (faults, some fault) => machine.stopped faults fault

/-- An instruction that is not recognised. -/
def undefined (machine : Machine δ) (armed : Bool) (instruction : Instruction) (address : UInt32)
    (faults : FaultUnit) : Executed ExecutionUnit δ :=
  let cause := FaultCause.undefinedInstruction instruction.opcode.toUInt32 instruction.text
  match faults.fire ⟨some address, cause⟩ with
  | (faults, none) => machine.complete armed faults
  | (faults, some fault) => machine.stopped faults fault

/-- Executes an instruction decoded at a linear address. -/
def execute [PortDevice δ] (machine : Machine δ) (instruction : Instruction) (address : UInt32)
    (faults : FaultUnit) : Executed ExecutionUnit δ :=
  let armed := machine.regs.flags.get .trap
  let machine := machine.mapUnit fun unit => { unit with shadow := false }
  match instruction.operation with
  | .unknown => machine.undefined armed instruction address faults
  | .input width port => machine.input armed address faults width port
  | .output width port => machine.output armed address faults width port
  | operation =>
    if operation.hasImmediateDestination then
      machine.stopped faults
        (.bug ("instruction " ++ instruction.text ++ " has an immediate destination"))
    else (machine.perform instruction operation).complete armed faults

/-- Enters a handler at a boundary. -/
def entering (machine : Machine δ) (vector : UInt8) (inputs : InterruptInputs γ) :
    Serviced ExecutionUnit δ γ :=
  let machine := machine.enterInterrupt vector
  ⟨machine.unit, machine.bus, inputs, true⟩

/-- Takes the maskable request, if one is waiting and may reach the unit. -/
def serviceLine [InterruptController γ] (machine : Machine δ) (inputs : InterruptInputs γ) :
    Serviced ExecutionUnit δ γ :=
  if machine.regs.flags.get .interruptEnable && !machine.unit.shadow then
    match inputs.acknowledge with
    | (some vector, inputs) => machine.entering vector inputs
    | (none, inputs) => ⟨machine.unit, machine.bus, inputs, false⟩
  else ⟨machine.unit, machine.bus, inputs, false⟩

/-- Takes the first of what is pending, and leaves the rest pending. -/
def serviceInterrupts [InterruptController γ] (machine : Machine δ) (inputs : InterruptInputs γ) :
    Serviced ExecutionUnit δ γ :=
  match machine.unit.exception with
  | some vector =>
    (machine.mapUnit fun unit => { unit with exception := none }).entering vector inputs
  | none =>
    if machine.unit.trapPending then
      (machine.mapUnit fun unit => { unit with trapPending := false }).entering
        Vector.singleStep inputs
    else if inputs.nmi then machine.entering Vector.nmi inputs.takeNmi.2
    else machine.serviceLine inputs

end Machine

namespace ExecutionUnit

/-- The value of the register with a name. -/
def registerValue? (unit : ExecutionUnit) (name : String) : Option UInt32 :=
  let regs := unit.regs
  let value : Option UInt16 := match name with
    | "AX" => some (regs.word .ax)
    | "BX" => some (regs.word .bx)
    | "CX" => some (regs.word .cx)
    | "DX" => some (regs.word .dx)
    | "SP" => some (regs.word .sp)
    | "BP" => some (regs.word .bp)
    | "SI" => some (regs.word .si)
    | "DI" => some (regs.word .di)
    | "CS" => some (regs.segment .cs)
    | "DS" => some (regs.segment .ds)
    | "ES" => some (regs.segment .es)
    | "SS" => some (regs.segment .ss)
    | "IP" => some regs.ip
    | "FLAGS" => some regs.flags.word
    | _ => none
  value.map UInt16.toUInt32

end ExecutionUnit

instance : Core ExecutionUnit Instruction where
  codeAddress := ExecutionUnit.codeAddress
  advance := ExecutionUnit.advance
  execute unit instruction address bus faults :=
    Machine.execute ⟨unit, bus⟩ instruction address faults
  serviceInterrupts unit bus inputs := Machine.serviceInterrupts ⟨unit, bus⟩ inputs
  registerValue? := ExecutionUnit.registerValue?
  flagsText unit := unit.regs.flags.text
  isHalted := ExecutionUnit.halted

end Microprocessor.X86
