import Microprocessor.Proofs.X86.Destination
import Microprocessor.Proofs.X86.Execution
import Microprocessor.Terminal.Console

/-! # Where 8086 instructions go on

    When an instruction is executed, IP has moved on past it.  What is not a
    control transfer leaves CS:IP there, with one exception: a move into CS is not
    among the control transfers and replaces CS.

      * `ExecutionUnit.place` is CS:IP;
      * `Machine.place_perform`: what an operation does to CS:IP that is no control
        transfer;
      * `Machine.place_execute`: a whole instruction does to CS:IP what its operation
        does;
      * `unclassified_moves_on_unless_loading_cs` is the result for decoded
        instructions. -/

namespace Microprocessor.X86

/-- The move into CS.  It is not among the control transfers, and replaces CS. -/
def Operation.loadsCodeSegment : Operation → Bool
  | .mov _ (.segment .cs) _ => true
  | _ => false

/-! ## CS:IP -/

/-- CS:IP. -/
def RegisterFile.place (regs : RegisterFile) : MemoryLocator :=
  ⟨regs.segment .cs, regs.ip⟩

/-- CS:IP, where the unit goes on. -/
def ExecutionUnit.place (unit : ExecutionUnit) : MemoryLocator :=
  unit.regs.place

namespace RegisterFile

variable (regs : RegisterFile)

@[simp] theorem place_setWord (register : WordRegister) (value : UInt16) :
    (regs.setWord register value).place = regs.place := by
  cases register <;> rfl

@[simp] theorem place_setByte (register : ByteRegister) (value : UInt8) :
    (regs.setByte register value).place = regs.place := by
  cases register <;> rfl

@[simp] theorem place_write (register : Register) (value : UInt16) :
    (regs.write register value).place = regs.place := by
  cases register with
  | byte register => exact regs.place_setByte register _
  | word register => exact regs.place_setWord register _

/-- Only CS is part of CS:IP. -/
theorem place_setSegment {register : SegmentRegister} (h : register ≠ .cs) (value : UInt16) :
    (regs.setSegment register value).place = regs.place := by
  cases register with
  | cs => exact absurd rfl h
  | es | ss | ds => rfl

end RegisterFile

namespace Machine

variable {δ : Type} {width : Width} {operand : Operand} {operation : Operation}

/-! ## Operands and the stack -/

theorem place_setAccumulator (unit : ExecutionUnit) (width : Width) (value : UInt16) :
    (unit.setAccumulator width value).place = unit.place :=
  unit.regs.place_write (.accumulator width) value

theorem place_pop (machine : Machine δ) : machine.pop.2.unit.place = machine.unit.place := rfl

/-- Writing to a general register or to memory leaves CS:IP alone. -/
theorem place_writeOperand (machine : Machine δ) (instruction : Instruction)
    (hplace : operand.IsPlace width) (value : UInt16) :
    (machine.writeOperand instruction width operand value).unit.place = machine.unit.place := by
  cases operand with
  | register register => exact machine.regs.place_write register value
  | memory address => rfl
  | segment register => exact hplace.elim
  | immediate immediate => rfl

/-- So does writing to any segment register but CS. -/
theorem place_writeSegment (machine : Machine δ) (instruction : Instruction) (width : Width)
    {register : SegmentRegister} (h : register ≠ .cs) (value : UInt16) :
    (machine.writeOperand instruction width (.segment register) value).unit.place
      = machine.unit.place :=
  machine.regs.place_setSegment h value

/-! ## Arithmetic and strings -/

theorem place_arith (machine : Machine δ) (instruction : Instruction) (op : ArithOp)
    (hplace : operand.IsPlace width) (source : Operand) :
    (machine.arith instruction op width operand source).unit.place = machine.unit.place := by
  rw [arith]
  simp only
  split
  · exact place_writeOperand (machine.setFlags _) instruction hplace _
  · rfl

theorem place_divide (machine : Machine δ) (instruction : Instruction) (signed : Bool)
    (width : Width) (source : Operand) :
    (machine.divide instruction signed width source).unit.place = machine.unit.place := by
  unfold divide
  simp only
  split
  · cases width <;> rfl
  · rfl

theorem place_mulDiv (machine : Machine δ) (instruction : Instruction) (op : MulDivOp)
    (width : Width) (source : Operand) :
    (machine.mulDiv instruction op width source).unit.place = machine.unit.place := by
  cases op with
  | mul | imul => cases width <;> rfl
  | div | idiv => exact place_divide machine instruction _ width source

theorem place_asciiAdjustMultiply (machine : Machine δ) (base : UInt8) :
    (machine.asciiAdjustMultiply base).unit.place = machine.unit.place := by
  rw [asciiAdjustMultiply]
  split
  · rfl
  · rfl

theorem place_stringStep (machine : Machine δ) (instruction : Instruction) (op : StringOp)
    (width : Width) : (machine.stringStep instruction op width).unit.place = machine.unit.place := by
  cases op with
  | lods => exact place_setAccumulator machine.unit width _
  | movs | cmps | stos | scas => rfl

theorem place_string (machine : Machine δ) (instruction : Instruction) (op : StringOp)
    (width : Width) : (machine.string instruction op width).unit.place = machine.unit.place := by
  let kept (after : Machine δ) : Prop := after.unit.place = machine.unit.place
  have hstep : ∀ after, kept after → kept (after.stringStep instruction op width) := by
    intro after h
    exact (place_stringStep after instruction op width).trans h
  exact string_kept hstep (fun _ _ h => h) rfl

/-! ## Operations that are no control transfers -/

/-- An operation that is no control transfer and does not load CS leaves CS:IP
    alone. -/
theorem place_perform (machine : Machine δ) (instruction : Instruction)
    (hplaced : operation.Placed) (hunclassified : operation.writesProgramCounter = false)
    (hother : operation.loadsCodeSegment = false) :
    (machine.perform instruction operation).unit.place = machine.unit.place := by
  cases operation with
  | mov width target source =>
      obtain hplace | ⟨register, rfl⟩ := hplaced
      · exact place_writeOperand machine instruction hplace _
      · refine place_writeSegment machine instruction width ?_ _
        rintro rfl
        cases hother
  | arith op width target source => exact place_arith machine instruction op hplaced source
  | incDec op width target =>
      exact place_writeOperand (machine.setFlags _) instruction hplaced _
  | unary op width target =>
      exact place_writeOperand (machine.setFlags _) instruction hplaced _
  | shift op width target count =>
      exact place_writeOperand (machine.setFlags _) instruction hplaced _
  | mulDiv op width source => exact place_mulDiv machine instruction op width source
  | xchg width a b =>
      exact (place_writeOperand _ instruction hplaced.2 _).trans
        (place_writeOperand machine instruction hplaced.1.2 _)
  | lea dst address => exact machine.regs.place_setWord dst _
  | loadFarPointer segment dst address =>
      exact (RegisterFile.place_setSegment _ hplaced _).trans (machine.regs.place_setWord dst _)
  | pop target =>
      obtain hplace | ⟨register, hregister, rfl⟩ := hplaced
      · exact (place_writeOperand machine.pop.2 instruction hplace _).trans machine.place_pop
      · exact (place_writeSegment machine.pop.2 instruction .word hregister _).trans
          machine.place_pop
  | adjust op => cases op <;> rfl
  | asciiAdjustMultiply base => exact machine.place_asciiAdjustMultiply base
  | string op width => exact machine.place_string instruction op width
  | flag op => cases op <;> rfl
  | jumpConditional _ _ | jumpRelative _ | jumpFar _ _ | jumpIndirect _ | jumpFarIndirect _
  | callRelative _ | callFar _ _ | callIndirect _ | callFarIndirect _ | ret _ | retFar _
  | loop _ _ | interrupt _ | interruptOnOverflow | interruptReturn => cases hunclassified
  | _ => rfl

/-! ## Whole instructions -/

/-- A whole instruction does to CS:IP what its operation does. -/
theorem place_execute [PortDevice δ] (machine : Machine δ) {instruction : Instruction}
    (hwritable : instruction.operation.Writable) (address : UInt32) (faults : FaultUnit) :
    (machine.execute instruction address faults).core.place
      = (machine.begun.perform instruction instruction.operation).unit.place := by
  have hends := machine.execute_ends instruction address faults
  generalize machine.execute instruction address faults = executed at hends ⊢
  cases hends with
  | stops _ _ hidle =>
      rw [hidle hwritable]
      rfl
  | performs _ => rfl
  | reads _ hidle _ =>
      rw [hidle]
      exact place_setAccumulator machine.begun.unit _ _
  | readsIdle width _ hidle =>
      rw [hidle]
      exact place_setAccumulator machine.begun.unit width _
  | writes _ hidle _ =>
      rw [hidle]
      rfl

end Machine

/-- What is decoded and is no control transfer goes on with the following
    instruction, wherever it is executed and however it ends, unless it is a move
    into CS.  That goes on in the segment that its source names. -/
theorem unclassified_moves_on_unless_loading_cs {δ : Type} [PortDevice δ] {source : ByteSource}
    {start : Nat} {instruction : Instruction} (hdecode : decode source start = .ok instruction)
    (hunclassified : instruction.operation.writesProgramCounter = false) (machine : Machine δ)
    (address : UInt32) (faults : FaultUnit) :
    (instruction.operation.loadsCodeSegment = false →
        (machine.execute instruction address faults).core.place = machine.unit.place)
      ∧ ∀ width source, instruction.operation = .mov width (.segment .cs) source →
          (machine.execute instruction address faults).core.place
            = ⟨machine.readOperand instruction width source, machine.regs.ip⟩ := by
  rw [machine.place_execute (decode_writable hdecode)]
  constructor
  · intro hother
    exact Machine.place_perform _ instruction (decode_placed hdecode) hunclassified hother
  · intro width source hload
    rw [hload]
    cases source <;> rfl

/-- An 8086 that has moved on past an instruction of two bytes. -/
def movedOn : Machine Terminal.Console where
  unit := ExecutionUnit.initial.mapRegs fun regs => (regs.setWord .ax 0x1234).setIp 2
  bus := .of ⟨#[], none⟩ .empty 6 2

/-- ADD AX,CX goes on with the following instruction, MOV CS,AX in another
    segment. -/
theorem unclassified_moves_on_unless_loading_cs_moving :
    (∃ add, decode (.ofList [0x03, 0xC1]) 0 = .ok add
        ∧ (movedOn.execute add 0 .initial).core.place = ⟨0, 2⟩)
      ∧ ∃ mov, decode (.ofList [0x8E, 0xC8]) 0 = .ok mov
          ∧ mov.operation.writesProgramCounter = false
          ∧ (movedOn.execute mov 0 .initial).core.place = ⟨0x1234, 2⟩ := by
  constructor
  · have hadd := @unclassified_moves_on_unless_loading_cs Terminal.Console _
      (.ofList [0x03, 0xC1]) 0 _ rfl rfl movedOn 0 .initial
    exact ⟨_, rfl, hadd.1 rfl⟩
  · have hmov := @unclassified_moves_on_unless_loading_cs Terminal.Console _
      (.ofList [0x8E, 0xC8]) 0 _ rfl rfl movedOn 0 .initial
    exact ⟨_, rfl, rfl, hmov.2 .word (.register (.word .ax)) rfl⟩

end Microprocessor.X86
