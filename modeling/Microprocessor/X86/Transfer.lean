import Microprocessor.X86.Machine

/-! # Data transfer instructions

    Moves between registers, memory, the stack and the flags. -/

namespace Microprocessor.X86.Machine

variable {δ : Type}

/-- A move. -/
def mov (machine : Machine δ) (instruction : Instruction) (width : Width) (dst src : Operand) :
    Machine δ :=
  let value := machine.readOperand instruction width src
  machine.writeOperand instruction width dst value

/-- An exchange: both operands are read, then both are written. -/
def xchg (machine : Machine δ) (instruction : Instruction) (width : Width) (a b : Operand) :
    Machine δ :=
  let va := machine.readOperand instruction width a
  let vb := machine.readOperand instruction width b
  (machine.writeOperand instruction width a vb).writeOperand instruction width b va

/-- The offset of a memory operand into a register. -/
def lea (machine : Machine δ) (dst : WordRegister) (address : EffectiveAddress) : Machine δ :=
  let offset := machine.unit.effectiveOffset address
  machine.mapRegs fun regs => regs.setWord dst offset

/-- An offset into a register and a segment into a segment register. -/
def loadFarPointer (machine : Machine δ) (instruction : Instruction) (segment : SegmentRegister)
    (dst : WordRegister) (address : EffectiveAddress) : Machine δ :=
  let (base, offset) := machine.readFarPointer instruction address
  machine.mapRegs fun regs => (regs.setWord dst offset).setSegment segment base

/-- An operand onto the stack.  SP itself is pushed with the value it has
    afterwards. -/
def pushOperand (machine : Machine δ) (instruction : Instruction) (operand : Operand) :
    Machine δ :=
  let value := match operand with
    | .register (.word .sp) => machine.regs.word .sp - 2
    | _ => machine.readOperand instruction .word operand
  machine.push value

/-- The top of the stack into an operand. -/
def popOperand (machine : Machine δ) (instruction : Instruction) (operand : Operand) :
    Machine δ :=
  let (value, machine) := machine.pop
  machine.writeOperand instruction .word operand value

/-- The flags onto the stack. -/
def pushFlags (machine : Machine δ) : Machine δ :=
  machine.push machine.regs.flags.word

/-- The top of the stack into the flags. -/
def popFlags (machine : Machine δ) : Machine δ :=
  let (value, machine) := machine.pop
  machine.setFlags (.restore value)

/-- AH into the low flags. -/
def storeAhIntoFlags (machine : Machine δ) : Machine δ :=
  machine.setFlags (machine.regs.flags.restoreLowByte (machine.regs.byte .ah))

/-- The low flags into AH. -/
def loadAhFromFlags (machine : Machine δ) : Machine δ :=
  machine.mapRegs fun regs => regs.setByte .ah regs.flags.lowByte

/-- AL into AX, with its sign. -/
def convertByteToWord (machine : Machine δ) : Machine δ :=
  machine.mapRegs fun regs => regs.setWord .ax (signExtendByte (regs.byte .al))

/-- AX into DX:AX, with its sign. -/
def convertWordToDouble (machine : Machine δ) : Machine δ :=
  machine.mapRegs fun regs =>
    regs.setWord .dx (if Width.word.isNegative (regs.word .ax) then 0xFFFF else 0)

/-- The segment of a source that is in the data segment unless overridden. -/
def sourceSegment (instruction : Instruction) : SegmentRegister :=
  instruction.prefixes.segment.getD .ds

/-- AL is replaced by the byte at BX + AL. -/
def translate (machine : Machine δ) (instruction : Instruction) : Machine δ :=
  let regs := machine.regs
  let place : MemoryLocator :=
    ⟨regs.segment (sourceSegment instruction), regs.word .bx + (regs.byte .al).toUInt16⟩
  let value := machine.bus.read .byte place
  machine.mapRegs fun regs => regs.write (.byte .al) value

end Microprocessor.X86.Machine
