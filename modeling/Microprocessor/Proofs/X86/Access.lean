import Microprocessor.Proofs.Storage.Access
import Microprocessor.Proofs.X86.Execution

/-! # What 8086 instructions do to the bus

    Every operation, every whole instruction and every interrupt boundary of
    the 8086 touches the bus by accesses alone: stores of single bytes and port
    transfers.

      * `Machine.perform_accessed`: the operations that cannot fault;
      * `Machine.execute_accessed`: whole instructions;
      * `Machine.serviceInterrupts_accessed`: interrupt boundaries. -/

namespace Microprocessor.X86.Machine

variable {δ : Type}

/-! ## Registers and the stack -/

@[simp] theorem bus_mapUnit (machine : Machine δ) (f : ExecutionUnit → ExecutionUnit) :
    (machine.mapUnit f).bus = machine.bus := rfl

@[simp] theorem bus_mapRegs (machine : Machine δ) (f : RegisterFile → RegisterFile) :
    (machine.mapRegs f).bus = machine.bus := rfl

@[simp] theorem bus_setFlags (machine : Machine δ) (flags : Flags) :
    (machine.setFlags flags).bus = machine.bus := rfl

@[simp] theorem bus_pop (machine : Machine δ) : machine.pop.2.bus = machine.bus := rfl

theorem push_accessed (machine : Machine δ) (value : UInt16) :
    machine.bus.Accessed (machine.push value).bus :=
  .push machine.bus machine.unit.stack value

theorem writeOperand_accessed (machine : Machine δ) (instruction : Instruction) (width : Width)
    (operand : Operand) (value : UInt16) :
    machine.bus.Accessed (machine.writeOperand instruction width operand value).bus := by
  cases operand with
  | register register => exact .refl machine.bus
  | segment register => exact .refl machine.bus
  | memory address => exact .write machine.bus width _ _
  | immediate immediate => exact .refl machine.bus

/-- The same after the flags have been set. -/
theorem setFlags_writeOperand_accessed (machine : Machine δ) (flags : Flags)
    (instruction : Instruction) (width : Width) (operand : Operand) (value : UInt16) :
    machine.bus.Accessed
      ((machine.setFlags flags).writeOperand instruction width operand value).bus :=
  writeOperand_accessed (machine.setFlags flags) instruction width operand value

theorem enterInterrupt_accessed (machine : Machine δ) (vector : UInt8) :
    machine.bus.Accessed (machine.enterInterrupt vector).bus := by
  let flagged := machine.push machine.regs.flags.word
  let masked := flagged.setFlags
    ((flagged.regs.flags.set .interruptEnable false).set .trap false)
  let saved := masked.push (masked.regs.segment .cs)
  have hflags : machine.bus.Accessed flagged.bus := push_accessed machine _
  have hsegment : masked.bus.Accessed saved.bus := push_accessed masked _
  have hoffset : saved.bus.Accessed (saved.push saved.regs.ip).bus := push_accessed saved _
  exact (hflags.trans hsegment).trans hoffset

/-! ## Operations -/

theorem arith_accessed (machine : Machine δ) (instruction : Instruction) (op : ArithOp)
    (width : Width) (dst src : Operand) :
    machine.bus.Accessed (machine.arith instruction op width dst src).bus := by
  rw [arith]
  simp only
  split
  · exact setFlags_writeOperand_accessed machine _ instruction width dst _
  · exact .refl machine.bus

theorem incDec_accessed (machine : Machine δ) (instruction : Instruction) (op : IncDecOp)
    (width : Width) (target : Operand) :
    machine.bus.Accessed (machine.incDec instruction op width target).bus :=
  setFlags_writeOperand_accessed machine _ instruction width target _

theorem unary_accessed (machine : Machine δ) (instruction : Instruction) (op : UnaryOp)
    (width : Width) (target : Operand) :
    machine.bus.Accessed (machine.unary instruction op width target).bus :=
  setFlags_writeOperand_accessed machine _ instruction width target _

theorem shift_accessed (machine : Machine δ) (instruction : Instruction) (op : ShiftOp)
    (width : Width) (target : Operand) (count : ShiftCount) :
    machine.bus.Accessed (machine.shift instruction op width target count).bus :=
  setFlags_writeOperand_accessed machine _ instruction width target _

theorem mulDiv_accessed (machine : Machine δ) (instruction : Instruction) (op : MulDivOp)
    (width : Width) (source : Operand) :
    machine.bus.Accessed (machine.mulDiv instruction op width source).bus := by
  have hdivide : ∀ signed, machine.bus.Accessed
      (machine.divide instruction signed width source).bus := by
    intro signed
    unfold divide
    simp only
    split
    · exact .refl machine.bus
    · exact .refl machine.bus
  cases op with
  | mul => exact .refl machine.bus
  | imul => exact .refl machine.bus
  | div => exact hdivide false
  | idiv => exact hdivide true

theorem adjust_accessed (machine : Machine δ) (op : AdjustOp) :
    machine.bus.Accessed (machine.adjust op).bus := by
  cases op <;> exact .refl machine.bus

theorem asciiAdjustMultiply_accessed (machine : Machine δ) (base : UInt8) :
    machine.bus.Accessed (machine.asciiAdjustMultiply base).bus := by
  rw [asciiAdjustMultiply]
  split
  · exact .refl machine.bus
  · exact .refl machine.bus

theorem xchg_accessed (machine : Machine δ) (instruction : Instruction) (width : Width)
    (a b : Operand) : machine.bus.Accessed (machine.xchg instruction width a b).bus :=
  (writeOperand_accessed machine instruction width a _).trans
    (writeOperand_accessed _ instruction width b _)

/-! ## Control transfer -/

theorem jumpConditional_accessed (machine : Machine δ) (condition : Condition)
    (displacement : Int8) :
    machine.bus.Accessed (machine.jumpConditional condition displacement).bus := by
  rw [jumpConditional]
  split
  · exact .refl machine.bus
  · exact .refl machine.bus

theorem callFar_accessed (machine : Machine δ) (segment offset : UInt16) :
    machine.bus.Accessed (machine.callFar segment offset).bus :=
  (push_accessed machine _).trans (push_accessed (machine.push (machine.regs.segment .cs)) _)

theorem interruptOnOverflow_accessed (machine : Machine δ) :
    machine.bus.Accessed machine.interruptOnOverflow.bus := by
  rw [interruptOnOverflow]
  split
  · exact enterInterrupt_accessed machine Vector.overflow
  · exact .refl machine.bus

theorem loop_accessed (machine : Machine δ) (op : LoopOp) (displacement : Int8) :
    machine.bus.Accessed (machine.loop op displacement).bus := by
  have hbus : (machine.loop op displacement).bus = machine.bus :=
    (apply_ite Machine.bus _ _ _).trans (ite_self machine.bus)
  rw [hbus]
  exact .refl machine.bus

/-- A far return, pop by pop. -/
theorem retFar_eq (machine : Machine δ) (count : UInt16) :
    machine.retFar count
      = (machine.pop.2.pop.2.mapUnit fun unit =>
          unit.farJump machine.pop.2.pop.1 machine.pop.1).releaseStack count := rfl

/-- A return from an interrupt handler, pop by pop. -/
theorem interruptReturn_eq (machine : Machine δ) :
    machine.interruptReturn
      = (machine.pop.2.pop.2.pop.2.mapUnit fun unit =>
          unit.farJump machine.pop.2.pop.1 machine.pop.1).setFlags
        (.restore machine.pop.2.pop.2.pop.1) := rfl

theorem retFar_accessed (machine : Machine δ) (count : UInt16) :
    machine.bus.Accessed (machine.retFar count).bus := by
  rw [retFar_eq, releaseStack, bus_mapRegs, bus_mapUnit, bus_pop, bus_pop]
  exact .refl machine.bus

theorem interruptReturn_accessed (machine : Machine δ) :
    machine.bus.Accessed machine.interruptReturn.bus := by
  rw [interruptReturn_eq, bus_setFlags, bus_mapUnit, bus_pop, bus_pop, bus_pop]
  exact .refl machine.bus

/-! ## Strings -/

theorem stringStep_accessed (machine : Machine δ) (instruction : Instruction) (op : StringOp)
    (width : Width) : machine.bus.Accessed (machine.stringStep instruction op width).bus := by
  cases op with
  | movs => exact .write machine.bus width _ _
  | cmps => exact .refl machine.bus
  | stos => exact .write machine.bus width _ _
  | lods => exact .refl machine.bus
  | scas => exact .refl machine.bus

theorem string_accessed (machine : Machine δ) (instruction : Instruction) (op : StringOp)
    (width : Width) : machine.bus.Accessed (machine.string instruction op width).bus := by
  let kept (after : Machine δ) : Prop := machine.bus.Accessed after.bus
  have hstep : ∀ after, kept after → kept (after.stringStep instruction op width) := by
    intro after h
    exact h.trans (stringStep_accessed after instruction op width)
  exact string_kept hstep (fun _ _ h => h) (.refl machine.bus)

/-! ## Whole instructions -/

/-- An operation that cannot fault touches the bus by accesses alone. -/
theorem perform_accessed (machine : Machine δ) (instruction : Instruction)
    (operation : Operation) :
    machine.bus.Accessed (machine.perform instruction operation).bus := by
  cases operation with
  | arith op width dst src => exact arith_accessed machine instruction op width dst src
  | incDec op width target => exact incDec_accessed machine instruction op width target
  | unary op width target => exact unary_accessed machine instruction op width target
  | mulDiv op width source => exact mulDiv_accessed machine instruction op width source
  | shift op width target count => exact shift_accessed machine instruction op width target count
  | mov width dst src => exact writeOperand_accessed machine instruction width dst _
  | xchg width a b => exact xchg_accessed machine instruction width a b
  | push operand => exact push_accessed machine _
  | pop operand => exact writeOperand_accessed machine.pop.2 instruction .word operand _
  | pushFlags => exact push_accessed machine _
  | adjust op => exact adjust_accessed machine op
  | asciiAdjustMultiply base => exact asciiAdjustMultiply_accessed machine base
  | jumpConditional condition displacement =>
      exact jumpConditional_accessed machine condition displacement
  | callRelative displacement => exact push_accessed machine _
  | callFar segment offset => exact callFar_accessed machine segment offset
  | callIndirect target => exact push_accessed machine _
  | callFarIndirect address => exact callFar_accessed machine _ _
  | retFar count => exact retFar_accessed machine count
  | interruptReturn => exact interruptReturn_accessed machine
  | loop op displacement => exact loop_accessed machine op displacement
  | interrupt vector => exact enterInterrupt_accessed machine vector
  | interruptOnOverflow => exact interruptOnOverflow_accessed machine
  | string op width => exact string_accessed machine instruction op width
  | flag op => cases op <;> exact .refl machine.bus
  | _ => exact .refl machine.bus

/-- An interrupt boundary touches the bus by accesses alone. -/
theorem serviceInterrupts_accessed {γ : Type} [InterruptController γ] (machine : Machine δ)
    (inputs : InterruptInputs γ) :
    machine.bus.Accessed (machine.serviceInterrupts inputs).bus := by
  rw [serviceInterrupts]
  split
  · rename_i vector _
    exact enterInterrupt_accessed (machine.mapUnit _) vector
  · split
    · exact enterInterrupt_accessed (machine.mapUnit _) Vector.singleStep
    · split
      · exact enterInterrupt_accessed machine Vector.nmi
      · rw [serviceLine]
        split
        · split
          · rename_i vector _ _
            exact enterInterrupt_accessed machine vector
          · exact .refl machine.bus
        · exact .refl machine.bus

/-- An instruction touches the bus by accesses alone, whether or not it
    faults. -/
theorem execute_accessed [PortDevice δ] (machine : Machine δ) (instruction : Instruction)
    (address : UInt32) (faults : FaultUnit) :
    machine.bus.Accessed (machine.execute instruction address faults).bus := by
  have hends := machine.execute_ends instruction address faults
  generalize machine.execute instruction address faults = executed at hends ⊢
  cases hends with
  | stops _ _ _ => exact .refl machine.bus
  | performs _ => exact perform_accessed machine.begun instruction instruction.operation
  | reads _ _ hread => exact .portInput hread
  | readsIdle _ _ _ => exact .refl machine.bus
  | writes _ _ hwritten => exact .portOutput hwritten

end Microprocessor.X86.Machine
