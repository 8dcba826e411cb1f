import Microprocessor.X86.Machine

/-! # Control transfer instructions

    Relative displacements are added to IP after it has moved past the
    instruction, so they count from the following instruction. -/

namespace Microprocessor.X86

/-- What a condition and its negation have in common. -/
def Condition.base (flags : Flags) : Condition → Bool
  | .overflow | .notOverflow => flags.get .overflow
  | .below | .aboveOrEqual => flags.get .carry
  | .equal | .notEqual => flags.get .zero
  | .belowOrEqual | .above => flags.get .carry || flags.get .zero
  | .sign | .notSign => flags.get .sign
  | .parity | .notParity => flags.get .parity
  | .less | .greaterOrEqual => flags.get .sign != flags.get .overflow
  | .lessOrEqual | .greater => flags.get .zero || flags.get .sign != flags.get .overflow

/-- Whether a condition holds of the flags. -/
def Condition.holds (condition : Condition) (flags : Flags) : Bool :=
  condition.base flags != condition.isNegated

namespace Machine

variable {δ : Type}

/-- A jump if a condition holds. -/
def jumpConditional (machine : Machine δ) (condition : Condition) (displacement : Int8) :
    Machine δ :=
  if condition.holds machine.regs.flags then
    machine.mapUnit fun unit => unit.addToIp displacement.toInt16
  else machine

/-- A near jump to an operand. -/
def jumpIndirect (machine : Machine δ) (instruction : Instruction) (target : Operand) :
    Machine δ :=
  let offset := machine.readOperand instruction .word target
  machine.mapRegs fun regs => regs.setIp offset

/-- A far jump to a place in memory. -/
def jumpFarIndirect (machine : Machine δ) (instruction : Instruction)
    (address : EffectiveAddress) : Machine δ :=
  let (segment, offset) := machine.readFarPointer instruction address
  machine.mapUnit fun unit => unit.farJump segment offset

/-- A near call by a displacement. -/
def callRelative (machine : Machine δ) (displacement : Int16) : Machine δ :=
  (machine.push machine.regs.ip).mapUnit fun unit => unit.addToIp displacement

/-- A near call to an operand, which is read before the return address is
    pushed. -/
def callIndirect (machine : Machine δ) (instruction : Instruction) (target : Operand) :
    Machine δ :=
  let offset := machine.readOperand instruction .word target
  (machine.push machine.regs.ip).mapRegs fun regs => regs.setIp offset

/-- A far call. -/
def callFar (machine : Machine δ) (segment offset : UInt16) : Machine δ :=
  let machine := machine.push (machine.regs.segment .cs)
  (machine.push machine.regs.ip).mapUnit fun unit => unit.farJump segment offset

/-- A far call to a place in memory. -/
def callFarIndirect (machine : Machine δ) (instruction : Instruction)
    (address : EffectiveAddress) : Machine δ :=
  let (segment, offset) := machine.readFarPointer instruction address
  machine.callFar segment offset

/-- Drops bytes off the stack. -/
def releaseStack (machine : Machine δ) (count : UInt16) : Machine δ :=
  machine.mapRegs fun regs => regs.setWord .sp (regs.word .sp + count)

/-- A near return. -/
def ret (machine : Machine δ) (count : UInt16) : Machine δ :=
  let (offset, machine) := machine.pop
  (machine.mapRegs fun regs => regs.setIp offset).releaseStack count

/-- A far return. -/
def retFar (machine : Machine δ) (count : UInt16) : Machine δ :=
  let (offset, machine) := machine.pop
  let (segment, machine) := machine.pop
  (machine.mapUnit fun unit => unit.farJump segment offset).releaseStack count

/-- A return from an interrupt handler. -/
def interruptReturn (machine : Machine δ) : Machine δ :=
  let (offset, machine) := machine.pop
  let (segment, machine) := machine.pop
  let (flags, machine) := machine.pop
  (machine.mapUnit fun unit => unit.farJump segment offset).setFlags (.restore flags)

/-- An interrupt if the overflow flag is set. -/
def interruptOnOverflow (machine : Machine δ) : Machine δ :=
  if machine.regs.flags.get .overflow then machine.enterInterrupt Vector.overflow else machine

/-- A branch on CX, which all but the last kind count down first. -/
def loop (machine : Machine δ) (op : LoopOp) (displacement : Int8) : Machine δ :=
  let zero := machine.regs.flags.get .zero
  let count := machine.regs.word .cx
  let left := if op = .jcxz then count else count - 1
  let taken := match op with
    | .loop => left != 0
    | .loope => left != 0 && zero
    | .loopne => left != 0 && !zero
    | .jcxz => left == 0
  let machine := machine.mapRegs fun regs => regs.setWord .cx left
  if taken then machine.mapUnit fun unit => unit.addToIp displacement.toInt16 else machine

end Machine

end Microprocessor.X86
