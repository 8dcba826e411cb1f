import Microprocessor.Arm.DataProcessing
import Microprocessor.Arm.Instruction
import Microprocessor.Arm.Multiplication
import Microprocessor.Arm.Transfer
import Microprocessor.Text.Numeral

/-! # Execution of A32 instructions

    An instruction whose condition fails does nothing.  Any other acts on the
    processor and memory, and may fault: if its word is not assigned or not
    modelled, or if it would leave the A32 instruction set.

      * `Machine.perform` is the effect of every operation that cannot fault;
      * `Machine.execute` is a whole instruction;
      * `Processor.serviceInterrupts` takes a fast interrupt from the latch
        that cannot be masked elsewhere, or an interrupt from the line. -/

namespace Microprocessor.Arm

namespace Processor

/-- The address of the next instruction into the link register, if asked. -/
def linkTo (processor : Processor) (link : Bool) (next : UInt32) : Processor :=
  if link then processor.put .lr next else processor

/-- Goes on at the address in a register. -/
def branchExchange (processor : Processor) (pc next : UInt32) (link : Bool) (rm : Register) :
    Processor :=
  (processor.linkTo link next).write .pc (processor.operand pc rm)

end Processor

namespace Machine

variable {δ : Type}

/-- The effect of an operation that cannot fault, at an address. -/
def perform (machine : Machine δ) (here : UInt32) (operation : Operation) : Machine δ :=
  let pc := here + 8
  let next := here + 4
  match operation with
  | .dataProcessing op setFlags rn rd operand =>
    machine.mapProcessor fun processor => processor.process pc op setFlags rn rd operand
  | .moveWide top rd imm16 =>
    machine.mapProcessor fun processor => processor.moveWide pc top rd imm16
  | .multiply accumulate setFlags rd rn rs rm =>
    machine.mapProcessor fun processor => processor.multiply pc accumulate setFlags rd rn rs rm
  | .multiplyLong signed accumulate setFlags rdHi rdLo rs rm =>
    machine.mapProcessor fun processor =>
      processor.multiplyLong pc signed accumulate setFlags rdHi rdLo rs rm
  | .swap byte rn rd rm => machine.swap pc byte rn rd rm
  | .statusToRegister saved rd =>
    machine.mapProcessor fun processor => processor.statusToRegister saved rd
  | .registerToStatus saved mask operand =>
    machine.mapProcessor fun processor => processor.registerToStatus pc saved mask operand
  | .branchExchange link rm =>
    machine.mapProcessor fun processor => processor.branchExchange pc next link rm
  | .countLeadingZeros rd rm =>
    machine.mapProcessor fun processor => processor.countLeadingZeros pc rd rm
  | .singleTransfer load byte indexing rn rd offset =>
    machine.singleTransfer pc load byte indexing rn rd offset
  | .halfwordTransfer load kind indexing rn rd offset =>
    machine.halfwordTransfer pc load kind indexing rn rd offset
  | .blockTransfer load indexing userBank rn registers =>
    machine.blockTransfer pc load indexing userBank rn registers
  | .branch link offset =>
    machine.mapProcessor fun processor =>
      (processor.linkTo link next).write .pc (pc + offset.toUInt32)
  | .supervisorCall _ =>
    machine.mapProcessor fun processor => processor.enter .supervisorCall next
  | .breakpoint _ => machine.mapProcessor fun processor => { processor with halted := true }
  | .branchLinkExchange _ | .coprocessor _ | .media _ | .unconditional _ | .undefined _ => machine

/-- Whether an operation is one that the processor does not model: an
    unassigned word, a coprocessor or media instruction, or a branch to the
    other instruction set. -/
def isUnmodelled (machine : Machine δ) (here : UInt32) : Operation → Bool
  | .branchExchange _ rm => bit (machine.processor.operand (here + 8) rm) 0
  | .branchLinkExchange _ | .coprocessor _ | .media _ | .unconditional _ | .undefined _ => true
  | _ => false

/-- Executes an instruction decoded at an address.  If an operation that is not
    modelled may pass, it has the effect that it can have. -/
def execute (machine : Machine δ) (instruction : Instruction) (here : UInt32)
    (faults : FaultUnit) : Executed Processor δ :=
  let operation := instruction.operation
  if !machine.processor.status.satisfies instruction.condition then machine.finished faults
  else if machine.isUnmodelled here operation then
    let cause := FaultCause.undefinedInstruction instruction.word instruction.text
    match faults.fire ⟨some here, cause⟩ with
    | (faults, none) => (machine.perform here operation).finished faults
    | (faults, some fault) => machine.stopped faults fault
  else (machine.perform here operation).finished faults

end Machine

namespace Processor

/-- Takes what is waiting and not masked: a fast interrupt first.  A handler is
    to return 4 bytes before the address in its link register. -/
def serviceInterrupts {δ γ : Type} [InterruptController γ] (processor : Processor) (bus : Bus δ)
    (inputs : InterruptInputs γ) : Serviced Processor δ γ :=
  let returnAddress := processor.get .pc + 4
  let serviceLine : Serviced Processor δ γ :=
    if processor.status.get .irqMask then ⟨processor, bus, inputs, false⟩
    else
      match inputs.acknowledge with
      | (some _, inputs) => ⟨processor.enter .irq returnAddress, bus, inputs, true⟩
      | (none, inputs) => ⟨processor, bus, inputs, false⟩
  if inputs.nmi && !processor.status.get .fiqMask then
    ⟨processor.enter .fiq returnAddress, bus, inputs.takeNmi.2, true⟩
  else serviceLine

/-- The value of a numbered register below the stack pointer. -/
def numbered? (processor : Processor) (digits : List Char) : Option UInt32 :=
  match Numeral.read 10 UInt64.size digits with
  | .ok n => if n < 13 then some (processor.get (.ofNumber n)) else none
  | .error _ => none

/-- The value of the register with a name. -/
def registerValue? (processor : Processor) (name : String) : Option UInt32 :=
  match name with
  | "SP" => some (processor.get .sp)
  | "LR" => some (processor.get .lr)
  | "PC" => some (processor.get .pc)
  | "CPSR" => some processor.status.word
  | _ =>
    match name.toList with
    | 'R' :: digits => processor.numbered? digits
    | _ => none

end Processor

instance : Core Processor Instruction where
  codeAddress processor := .flat (processor.get .pc)
  advance := Processor.advance
  execute processor instruction here bus faults :=
    Machine.execute ⟨processor, bus⟩ instruction here faults
  serviceInterrupts := Processor.serviceInterrupts
  registerValue? := Processor.registerValue?
  flagsText processor := processor.status.text
  isHalted := Processor.halted

end Microprocessor.Arm
