import Microprocessor.X86.Alu
import Microprocessor.X86.Transfer

/-! # String instructions

    The source is DS:SI, of which the segment can be overridden, and the
    destination ES:DI, of which it cannot.  SI and DI move by the size of an
    element, down if DF is set.

      * `Machine.stringStep` works on one element;
      * `Machine.repeatString` works on as many as CX says; a comparison also
        ends the repetition, as ZF says.  The repetition is one instruction
        and is not interrupted. -/

namespace Microprocessor.X86.Machine

variable {δ : Type}

/-- The place of the source element. -/
def stringSource (machine : Machine δ) (instruction : Instruction) : MemoryLocator :=
  ⟨machine.regs.segment (sourceSegment instruction), machine.regs.word .si⟩

/-- The place of the destination element. -/
def stringDestination (machine : Machine δ) : MemoryLocator :=
  ⟨machine.regs.segment .es, machine.regs.word .di⟩

/-- Moves an index register on by one element. -/
def stepIndex (register : WordRegister) (width : Width) (regs : RegisterFile) : RegisterFile :=
  let value := regs.word register
  regs.setWord register
    (if regs.flags.get .direction then value - width.bytes else value + width.bytes)

/-- Works on one element. -/
def stringStep (machine : Machine δ) (instruction : Instruction) (op : StringOp)
    (width : Width) : Machine δ :=
  let source := machine.stringSource instruction
  let destination := machine.stringDestination
  match op with
  | .movs =>
    let value := machine.bus.read width source
    let machine := { machine with bus := machine.bus.write width destination value }
    machine.mapRegs fun regs => stepIndex .di width (stepIndex .si width regs)
  | .cmps =>
    let a := machine.bus.read width source
    let b := machine.bus.read width destination
    let machine := machine.setFlags (Alu.cmp machine.regs.flags width a b)
    machine.mapRegs fun regs => stepIndex .di width (stepIndex .si width regs)
  | .stos =>
    let value := machine.unit.accumulator width
    let machine := { machine with bus := machine.bus.write width destination value }
    machine.mapRegs (stepIndex .di width)
  | .lods =>
    let value := machine.bus.read width source
    let machine := machine.mapUnit fun unit => unit.setAccumulator width value
    machine.mapRegs (stepIndex .si width)
  | .scas =>
    let a := machine.unit.accumulator width
    let b := machine.bus.read width destination
    let machine := machine.setFlags (Alu.cmp machine.regs.flags width a b)
    machine.mapRegs (stepIndex .di width)

/-- Whether ZF ends a repeated comparison. -/
def endsRepetition (repetition : Repeat) (zero : Bool) : Bool :=
  match repetition with
  | .equal => !zero
  | .notEqual => zero

/-- Works on up to `count` elements, leaving in CX how many are left. -/
def repeatString (machine : Machine δ) (instruction : Instruction) (op : StringOp)
    (width : Width) (repetition : Repeat) : Nat → Machine δ
  | 0 => machine
  | count + 1 =>
    let machine := machine.stringStep instruction op width
    let machine := machine.mapRegs fun regs => regs.setWord .cx (UInt16.ofNat count)
    if op.compares && endsRepetition repetition (machine.regs.flags.get .zero) then machine
    else machine.repeatString instruction op width repetition count

/-- A string instruction, repeated or not. -/
def string (machine : Machine δ) (instruction : Instruction) (op : StringOp) (width : Width) :
    Machine δ :=
  match instruction.prefixes.repetition with
  | none => machine.stringStep instruction op width
  | some repetition =>
    machine.repeatString instruction op width repetition (machine.regs.word .cx).toNat

end Microprocessor.X86.Machine
