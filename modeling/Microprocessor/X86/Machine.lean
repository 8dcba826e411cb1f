import Microprocessor.Pipeline.Core
import Microprocessor.X86.Instruction
import Microprocessor.X86.RegisterFile

/-! # The 8086 execution unit and its surroundings

    The execution unit holds the registers and what is pending at the next
    instruction boundary.  Instructions act on the unit together with the
    bus, which is a `Machine`.

      * `Machine.push` and `Machine.pop` work on the stack at SS:SP;
      * `Machine.readOperand` and `Machine.writeOperand` reach registers and
        memory alike;
      * `Machine.enterInterrupt` is the one way into every handler. -/

namespace Microprocessor.X86

/-! ## Vectors -/

namespace Vector

/-- A division that is not defined. -/
def divideError : UInt8 := 0

/-- The trap after an instruction executed with TF set. -/
def singleStep : UInt8 := 1

/-- The interrupt that cannot be masked. -/
def nmi : UInt8 := 2

/-- The interrupt on overflow. -/
def overflow : UInt8 := 4

end Vector

/-! ## The execution unit -/

/-- The registers, and what is pending. -/
structure ExecutionUnit where
  regs : RegisterFile
  /-- The unit waits for an interrupt. -/
  halted : Bool
  /-- The maskable line is ignored at the next boundary. -/
  shadow : Bool
  /-- An exception to be taken at the next boundary. -/
  exception : Option UInt8
  /-- The previous instruction was executed with TF set. -/
  trapPending : Bool
  deriving DecidableEq

namespace ExecutionUnit

/-- Every register zero, nothing pending. -/
def initial : ExecutionUnit where
  regs := .zero
  halted := false
  shadow := false
  exception := none
  trapPending := false

/-- Applies a function to the registers. -/
def mapRegs (unit : ExecutionUnit) (f : RegisterFile → RegisterFile) : ExecutionUnit :=
  { unit with regs := f unit.regs }

/-- Sets CS:IP and ends a halt. -/
def setEntryPoint (unit : ExecutionUnit) (cs ip : UInt16) : ExecutionUnit :=
  { unit with regs := (unit.regs.setSegment .cs cs).setIp ip, halted := false }

/-- Sets SS:SP. -/
def setStack (unit : ExecutionUnit) (ss sp : UInt16) : ExecutionUnit :=
  unit.mapRegs fun regs => (regs.setSegment .ss ss).setWord .sp sp

/-- Points DS and ES at a segment. -/
def setDataSegments (unit : ExecutionUnit) (segment : UInt16) : ExecutionUnit :=
  unit.mapRegs fun regs => (regs.setSegment .ds segment).setSegment .es segment

/-- Where the top of the stack is. -/
def stack (unit : ExecutionUnit) : MemoryLocator :=
  ⟨unit.regs.segment .ss, unit.regs.word .sp⟩

/-- Where the next instruction is. -/
def codeAddress (unit : ExecutionUnit) : CodeAddress :=
  .segmented ⟨unit.regs.segment .cs, unit.regs.ip⟩

/-- Moves IP on past an instruction. -/
def advance (unit : ExecutionUnit) (length : Nat) : ExecutionUnit :=
  unit.mapRegs fun regs => regs.setIp (regs.ip + UInt16.ofNat (min length 0xFFFF))

/-- Adds a displacement to IP. -/
def addToIp (unit : ExecutionUnit) (displacement : Int16) : ExecutionUnit :=
  unit.mapRegs fun regs => regs.setIp (regs.ip + displacement.toUInt16)

/-- Sets CS:IP. -/
def farJump (unit : ExecutionUnit) (segment offset : UInt16) : ExecutionUnit :=
  unit.mapRegs fun regs => (regs.setSegment .cs segment).setIp offset

/-- Leaves an exception to be taken at the next boundary. -/
def raiseException (unit : ExecutionUnit) (vector : UInt8) : ExecutionUnit :=
  { unit with exception := some vector }

/-- The offset of a memory operand. -/
def effectiveOffset (unit : ExecutionUnit) (address : EffectiveAddress) : UInt16 :=
  let value (register : Option WordRegister) : UInt16 :=
    match register with
    | some register => unit.regs.word register
    | none => 0
  let (base, index) := address.base.registers
  value base + value index + address.displacement

/-- The place of a memory operand. -/
def locate (unit : ExecutionUnit) (instruction : Instruction) (address : EffectiveAddress) :
    MemoryLocator :=
  ⟨unit.regs.segment (instruction.segmentFor address), unit.effectiveOffset address⟩

/-- The value of AL or AX. -/
def accumulator (unit : ExecutionUnit) (width : Width) : UInt16 :=
  unit.regs.read (.accumulator width)

/-- Replaces the value of AL or AX. -/
def setAccumulator (unit : ExecutionUnit) (width : Width) (value : UInt16) : ExecutionUnit :=
  unit.mapRegs fun regs => regs.write (.accumulator width) value

end ExecutionUnit

/-! ## The machine -/

/-- An execution unit and the bus it works on. -/
structure Machine (δ : Type) where
  unit : ExecutionUnit
  bus : Bus δ

namespace Machine

variable {δ : Type}

/-- The registers of the unit. -/
def regs (machine : Machine δ) : RegisterFile :=
  machine.unit.regs

/-- Applies a function to the unit. -/
def mapUnit (machine : Machine δ) (f : ExecutionUnit → ExecutionUnit) : Machine δ :=
  { machine with unit := f machine.unit }

/-- Applies a function to the registers. -/
def mapRegs (machine : Machine δ) (f : RegisterFile → RegisterFile) : Machine δ :=
  machine.mapUnit fun unit => unit.mapRegs f

/-- Replaces the flags. -/
def setFlags (machine : Machine δ) (flags : Flags) : Machine δ :=
  machine.mapRegs fun regs => regs.setFlags flags

/-- Pushes a word. -/
def push (machine : Machine δ) (value : UInt16) : Machine δ :=
  match machine with
  | ⟨unit, bus⟩ =>
    let (stack, bus) := bus.push unit.stack value
    ⟨unit.mapRegs fun regs => regs.setWord .sp stack.offset, bus⟩

/-- Pops a word. -/
def pop (machine : Machine δ) : UInt16 × Machine δ :=
  let (value, stack) := machine.bus.pop machine.unit.stack
  (value, machine.mapRegs fun regs => regs.setWord .sp stack.offset)

/-- The value of an operand. -/
def readOperand (machine : Machine δ) (instruction : Instruction) (width : Width) :
    Operand → UInt16
  | .register register => machine.regs.read register
  | .segment register => machine.regs.segment register
  | .memory address => machine.bus.read width (machine.unit.locate instruction address)
  | .immediate value => value &&& width.mask

/-- Replaces the value of an operand.  Loading SS casts a shadow over the
    maskable line for one boundary; an immediate has no place to write to. -/
def writeOperand (machine : Machine δ) (instruction : Instruction) (width : Width)
    (operand : Operand) (value : UInt16) : Machine δ :=
  match operand with
  | .register register => machine.mapRegs fun regs => regs.write register value
  | .segment register =>
    machine.mapUnit fun unit =>
      { unit.mapRegs fun regs => regs.setSegment register value with
        shadow := unit.shadow || register = .ss }
  | .memory address =>
    let place := machine.unit.locate instruction address
    { machine with bus := machine.bus.write width place (value &&& width.mask) }
  | .immediate _ => machine

/-- The segment and the offset in two words of memory, offset first. -/
def readFarPointer (machine : Machine δ) (instruction : Instruction)
    (address : EffectiveAddress) : UInt16 × UInt16 :=
  let place := machine.unit.locate instruction address
  (machine.bus.read .word (place.advance 2), machine.bus.read .word place)

/-- Saves the flags, CS and IP on the stack and enters the handler of a
    vector, with interrupts and traps off. -/
def enterInterrupt (machine : Machine δ) (vector : UInt8) : Machine δ :=
  let machine := machine.push machine.regs.flags.word
  let machine := machine.setFlags
    ((machine.regs.flags.set .interruptEnable false).set .trap false)
  let machine := machine.push (machine.regs.segment .cs)
  let machine := machine.push machine.regs.ip
  let entry := vector.toUInt32 * 4
  let offset := machine.bus.memory.readWidth .word entry
  let segment := machine.bus.memory.readWidth .word (entry + 2)
  machine.mapUnit fun unit => { unit.farJump segment offset with halted := false }

/-- What an instruction leaves behind that went through. -/
def finished (machine : Machine δ) (faults : FaultUnit) : Executed ExecutionUnit δ :=
  ⟨machine.unit, machine.bus, faults, none⟩

/-- What an instruction leaves behind that a fault stopped. -/
def stopped (machine : Machine δ) (faults : FaultUnit) (fault : Fault) :
    Executed ExecutionUnit δ :=
  ⟨machine.unit, machine.bus, faults, some fault⟩

end Machine

end Microprocessor.X86
