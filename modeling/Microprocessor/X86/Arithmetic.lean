import Microprocessor.X86.Alu
import Microprocessor.X86.Machine

/-! # Arithmetic and logic instructions

    Each instruction reads its operands, lets the arithmetic unit compute, and
    writes back the result and the flags.

      * products and dividends of bytes are in AX, those of words in DX:AX;
      * a division that is not defined leaves the registers alone and raises
        an exception. -/

namespace Microprocessor.X86.Machine

variable {δ : Type}

/-- The arithmetic of a two-operand instruction. -/
def compute (flags : Flags) (op : ArithOp) (width : Width) (a b : UInt16) : UInt16 × Flags :=
  match op with
  | .add => Alu.add flags width a b
  | .or => Alu.or flags width a b
  | .adc => Alu.adc flags width a b
  | .sbb => Alu.sbb flags width a b
  | .and => Alu.and flags width a b
  | .sub | .cmp => Alu.sub flags width a b
  | .xor => Alu.xor flags width a b

/-- A two-operand operation; a comparison drops its result. -/
def arith (machine : Machine δ) (instruction : Instruction) (op : ArithOp) (width : Width)
    (dst src : Operand) : Machine δ :=
  let a := machine.readOperand instruction width dst
  let b := machine.readOperand instruction width src
  let (result, flags) := compute machine.regs.flags op width a b
  let machine := machine.setFlags flags
  if op.writesResult then machine.writeOperand instruction width dst result else machine

/-- A test of two operands. -/
def test (machine : Machine δ) (instruction : Instruction) (width : Width) (dst src : Operand) :
    Machine δ :=
  let a := machine.readOperand instruction width dst
  let b := machine.readOperand instruction width src
  machine.setFlags (Alu.test machine.regs.flags width a b)

/-- One more or one less. -/
def incDec (machine : Machine δ) (instruction : Instruction) (op : IncDecOp) (width : Width)
    (target : Operand) : Machine δ :=
  let a := machine.readOperand instruction width target
  let (result, flags) := match op with
    | .inc => Alu.inc machine.regs.flags width a
    | .dec => Alu.dec machine.regs.flags width a
  (machine.setFlags flags).writeOperand instruction width target result

/-- Complement or negation. -/
def unary (machine : Machine δ) (instruction : Instruction) (op : UnaryOp) (width : Width)
    (target : Operand) : Machine δ :=
  let a := machine.readOperand instruction width target
  let (result, flags) := match op with
    | .not => (Alu.not width a, machine.regs.flags)
    | .neg => Alu.neg machine.regs.flags width a
  (machine.setFlags flags).writeOperand instruction width target result

/-- Stores a product: in AX, or in DX:AX. -/
def setProduct (regs : RegisterFile) (width : Width) (value : UInt32) : RegisterFile :=
  match width with
  | .byte => regs.setWord .ax (lowWord value)
  | .word => (regs.setWord .ax (lowWord value)).setWord .dx (highWord value)

/-- The dividend: AX, or DX:AX. -/
def dividend (regs : RegisterFile) : Width → UInt32
  | .byte => (regs.word .ax).toUInt32
  | .word => doubleOfWords (regs.word .ax) (regs.word .dx)

/-- Stores a quotient and a remainder: in AL and AH, or in AX and DX. -/
def setQuotient (regs : RegisterFile) (width : Width) (quotient remainder : UInt16) :
    RegisterFile :=
  match width with
  | .byte => (regs.setByte .al (lowByte quotient)).setByte .ah (lowByte remainder)
  | .word => (regs.setWord .ax quotient).setWord .dx remainder

/-- A multiplication of the accumulator. -/
def multiply (machine : Machine δ) (instruction : Instruction) (signed : Bool) (width : Width)
    (source : Operand) : Machine δ :=
  let b := machine.readOperand instruction width source
  let (value, flags) :=
    Alu.multiply machine.regs.flags width signed (machine.unit.accumulator width) b
  (machine.setFlags flags).mapRegs fun regs => setProduct regs width value

/-- A division of the accumulator. -/
def divide (machine : Machine δ) (instruction : Instruction) (signed : Bool) (width : Width)
    (source : Operand) : Machine δ :=
  let divisor := machine.readOperand instruction width source
  match Alu.divide width signed (dividend machine.regs width) divisor with
  | .ok (quotient, remainder) =>
    machine.mapRegs fun regs => setQuotient regs width quotient remainder
  | .error _ => machine.mapUnit fun unit => unit.raiseException Vector.divideError

/-- A multiplication or a division. -/
def mulDiv (machine : Machine δ) (instruction : Instruction) (op : MulDivOp) (width : Width)
    (source : Operand) : Machine δ :=
  match op with
  | .mul => machine.multiply instruction false width source
  | .imul => machine.multiply instruction true width source
  | .div => machine.divide instruction false width source
  | .idiv => machine.divide instruction true width source

/-- A shift or rotate by one or by CL. -/
def shift (machine : Machine δ) (instruction : Instruction) (op : ShiftOp) (width : Width)
    (target : Operand) (count : ShiftCount) : Machine δ :=
  let places : UInt8 := match count with
    | .one => 1
    | .cl => machine.regs.byte .cl
  let value := machine.readOperand instruction width target
  let (result, flags) := Alu.shift machine.regs.flags op width value places
  (machine.setFlags flags).writeOperand instruction width target result

/-- An adjustment of AL or AX. -/
def adjust (machine : Machine δ) (op : AdjustOp) : Machine δ :=
  let flags := machine.regs.flags
  let byte (result : UInt8 × Flags) : Machine δ :=
    machine.mapRegs fun regs => (regs.setByte .al result.1).setFlags result.2
  let word (result : UInt16 × Flags) : Machine δ :=
    machine.mapRegs fun regs => (regs.setWord .ax result.1).setFlags result.2
  match op with
  | .daa => byte (Alu.daa flags (machine.regs.byte .al))
  | .das => byte (Alu.das flags (machine.regs.byte .al))
  | .aaa => word (Alu.aaa flags (machine.regs.word .ax))
  | .aas => word (Alu.aas flags (machine.regs.word .ax))

/-- The adjustment after a multiplication; base zero is a divide error. -/
def asciiAdjustMultiply (machine : Machine δ) (base : UInt8) : Machine δ :=
  match Alu.aam machine.regs.flags (machine.regs.byte .al) base with
  | .ok (ax, flags) => machine.mapRegs fun regs => (regs.setWord .ax ax).setFlags flags
  | .error _ => machine.mapUnit fun unit => unit.raiseException Vector.divideError

/-- The adjustment before a division. -/
def asciiAdjustDivide (machine : Machine δ) (base : UInt8) : Machine δ :=
  let (ax, flags) := Alu.aad machine.regs.flags (machine.regs.word .ax) base
  machine.mapRegs fun regs => (regs.setWord .ax ax).setFlags flags

end Microprocessor.X86.Machine
