import Microprocessor.Proofs.Arm.ProgramCounter
import Microprocessor.Proofs.X86.CodeAddress

/-! # Static targets

    Some control transfers have their target in the encoding: given where the
    instruction is, nothing in the registers, in memory or among the devices has
    a say in where they lead, only in whether they are made.

      * `X86.Operation.staticTarget?` and `Arm.Operation.staticTarget?` are the
        targets that the encodings spell out;
      * `X86.Machine.place_execute_static` and `Arm.Machine.get_pc_execute_static`:
        such an instruction goes there, or on to what follows;
      * `static_targets_static` is what that says of two executions. -/

namespace Microprocessor

/-! ## The 8086 -/

namespace X86

/-- The target that an encoding spells out, where IP has moved on to a place. -/
def Operation.staticTarget? (following : MemoryLocator) : Operation → Option MemoryLocator
  | .jumpConditional _ displacement | .loop _ displacement =>
    some ⟨following.base, following.offset + displacement.toInt16.toUInt16⟩
  | .jumpRelative displacement | .callRelative displacement =>
    some ⟨following.base, following.offset + displacement.toUInt16⟩
  | .jumpFar segment offset | .callFar segment offset => some ⟨segment, offset⟩
  | _ => none

namespace Machine

variable {δ : Type}

/-- A relative jump is made or not. -/
theorem place_relative (machine : Machine δ) (taken : Bool) (displacement : Int16) :
    (if taken then machine.mapUnit fun unit => unit.addToIp displacement
        else machine).unit.place = machine.unit.place
      ∨ some ⟨machine.regs.segment .cs, machine.regs.ip + displacement.toUInt16⟩
        = some (if taken then machine.mapUnit fun unit => unit.addToIp displacement
            else machine).unit.place := by
  cases taken with
  | true => exact .inr rfl
  | false => exact .inl rfl

/-- An operation with a static target goes there, or on to what follows. -/
theorem place_perform_static (machine : Machine δ) (instruction : Instruction)
    {operation : Operation} (hstatic : operation.hasStaticTarget = true) :
    (machine.perform instruction operation).unit.place = machine.unit.place
      ∨ operation.staticTarget? machine.unit.place
        = some (machine.perform instruction operation).unit.place := by
  cases operation with
  | jumpConditional condition displacement =>
      exact machine.place_relative _ displacement.toInt16
  | loop op displacement =>
      -- To count CX down leaves CS:IP alone.
      exact place_relative (machine.mapRegs fun regs => regs.setWord .cx _) _ displacement.toInt16
  | jumpRelative _ | callRelative _ | jumpFar _ _ | callFar _ _ => exact .inr rfl
  | _ => cases hstatic

/-- A whole instruction with a static target does so. -/
theorem place_execute_static [PortDevice δ] (machine : Machine δ) {instruction : Instruction}
    (hwritable : instruction.operation.Writable)
    (hstatic : instruction.operation.hasStaticTarget = true) (address : UInt32)
    (faults : FaultUnit) :
    (machine.execute instruction address faults).core.place = machine.unit.place
      ∨ instruction.operation.staticTarget? machine.unit.place
        = some (machine.execute instruction address faults).core.place := by
  rw [machine.place_execute hwritable]
  exact place_perform_static (machine.mapUnit _) instruction hstatic

end Machine

end X86

/-! ## The ARM -/

namespace Arm

/-- The target that a word spells out at an address.  The branch that changes the
    instruction set has none: it is not modelled, and nothing ever goes there. -/
def Operation.staticTarget? (here : UInt32) : Operation → Option UInt32
  | .branch _ offset => some (Processor.wordAddress (here + 8 + offset.toUInt32))
  | _ => none

namespace Machine

variable {δ : Type}

/-- An operation with a static target goes there, or on to what follows. -/
theorem get_pc_perform_static (machine : Machine δ) (here : UInt32) {operation : Operation}
    (hstatic : operation.hasStaticTarget = true) :
    (machine.perform here operation).processor.get .pc = machine.processor.get .pc
      ∨ operation.staticTarget? here = some ((machine.perform here operation).processor.get .pc) := by
  cases operation with
  | branch link offset =>
      exact .inr (congrArg some (Processor.get_pc_write_pc _ (here + 8 + offset.toUInt32)).symm)
  | branchLinkExchange offset => exact .inl rfl
  | _ => cases hstatic

/-- An instruction has its operation's effect on the processor, or none. -/
theorem core_execute (machine : Machine δ) (instruction : Instruction) (here : UInt32)
    (faults : FaultUnit) :
    (machine.execute instruction here faults).core = machine.processor
      ∨ (machine.execute instruction here faults).core
        = (machine.perform here instruction.operation).processor := by
  rw [execute]
  simp only
  split
  · exact .inl rfl
  · split
    · split
      · exact .inr rfl
      · exact .inl rfl
    · exact .inr rfl

/-- A whole instruction with a static target goes there, or on to what follows. -/
theorem get_pc_execute_static (machine : Machine δ) {instruction : Instruction}
    (hstatic : instruction.operation.hasStaticTarget = true) (here : UInt32)
    (faults : FaultUnit) :
    (machine.execute instruction here faults).core.get .pc = machine.processor.get .pc
      ∨ instruction.operation.staticTarget? here
        = some ((machine.execute instruction here faults).core.get .pc) := by
  obtain hcore | hcore := machine.core_execute instruction here faults
  · exact .inl (congrArg (Processor.get · .pc) hcore)
  · rw [hcore]
    exact machine.get_pc_perform_static here hstatic

end Machine

end Arm

/-! ## Two executions -/

/-- If two machines, however different, execute an instruction with a static target
    at the same place, and neither goes on to what follows, then both go to the same
    place, the one that the encoding spells out.  The 8086 is where IP has moved on
    to, past the instruction; the ARM is told the address. -/
theorem static_targets_static {δ₁ δ₂ : Type} [PortDevice δ₁] [PortDevice δ₂] :
    (∀ (source : ByteSource) (start : Nat) (instruction : X86.Instruction),
        X86.decode source start = .ok instruction →
        instruction.operation.hasStaticTarget = true →
        ∀ (first : X86.Machine δ₁) (second : X86.Machine δ₂) (address₁ address₂ : UInt32)
          (faults₁ faults₂ : FaultUnit), first.unit.place = second.unit.place →
          (first.execute instruction address₁ faults₁).core.place ≠ first.unit.place →
          (second.execute instruction address₂ faults₂).core.place ≠ second.unit.place →
          (first.execute instruction address₁ faults₁).core.place
              = (second.execute instruction address₂ faults₂).core.place
            ∧ instruction.operation.staticTarget? first.unit.place
              = some (first.execute instruction address₁ faults₁).core.place)
      ∧ ∀ word : UInt32, (Arm.Instruction.ofWord word).operation.hasStaticTarget = true →
          ∀ (first : Arm.Machine δ₁) (second : Arm.Machine δ₂) (here : UInt32)
            (faults₁ faults₂ : FaultUnit),
            (first.execute (.ofWord word) here faults₁).core.get .pc ≠ first.processor.get .pc →
            (second.execute (.ofWord word) here faults₂).core.get .pc
              ≠ second.processor.get .pc →
            (first.execute (.ofWord word) here faults₁).core.get .pc
                = (second.execute (.ofWord word) here faults₂).core.get .pc
              ∧ (Arm.Instruction.ofWord word).operation.staticTarget? here
                = some ((first.execute (.ofWord word) here faults₁).core.get .pc) := by
  constructor
  · intro source start instruction hdecode hstatic first second address₁ address₂ faults₁ faults₂
      hplace hleft₁ hleft₂
    have hwritable := X86.decode_writable hdecode
    have htarget₁ := (first.place_execute_static hwritable hstatic address₁ faults₁).resolve_left
      hleft₁
    have htarget₂ := (second.place_execute_static hwritable hstatic address₂ faults₂).resolve_left
      hleft₂
    rw [← hplace] at htarget₂
    exact ⟨Option.some.inj (htarget₁.symm.trans htarget₂), htarget₁⟩
  · intro word hstatic first second here faults₁ faults₂ hleft₁ hleft₂
    have htarget₁ := (first.get_pc_execute_static hstatic here faults₁).resolve_left hleft₁
    have htarget₂ := (second.get_pc_execute_static hstatic here faults₂).resolve_left hleft₂
    exact ⟨Option.some.inj (htarget₁.symm.trans htarget₂), htarget₁⟩

/-- An 8086 past an instruction of two bytes, with a number to count down. -/
def countingMachine (count : UInt16) : X86.Machine Terminal.Console where
  unit := X86.ExecutionUnit.initial.mapRegs fun regs => (regs.setWord .cx count).setIp 2
  bus := .of ⟨#[], none⟩ .empty 6 2

/-- An ARM past a word, with a number in R0. -/
def numberedMachine (number : UInt32) : Arm.Machine Terminal.Console where
  processor := (Arm.Processor.initial.put .pc 4).put (.ofNumber 0) number
  bus := .of ⟨#[], none⟩ .empty 4 4

/-- LOOP leads to one place whatever is left to count, and BL whatever R0 holds. -/
theorem static_targets_static_counting :
    (∃ instruction, X86.decode (.ofList [0xE2, 0x05]) 0 = .ok instruction
        ∧ ((countingMachine 2).execute instruction 0 .initial).core.place
          = ((countingMachine 9).execute instruction 0 .initial).core.place)
      ∧ ((numberedMachine 2).execute (.ofWord 0xEB000002) 0 .initial).core.get .pc
        = ((numberedMachine 9).execute (.ofWord 0xEB000002) 0 .initial).core.get .pc := by
  obtain ⟨hx86, harm⟩ := @static_targets_static Terminal.Console Terminal.Console _ _
  constructor
  · refine ⟨_, rfl, ?_⟩
    exact (hx86 (.ofList [0xE2, 0x05]) 0 _ rfl rfl (countingMachine 2) (countingMachine 9) 0 0
      .initial .initial rfl (by decide +kernel) (by decide +kernel)).1
  · exact (harm 0xEB000002 rfl (numberedMachine 2) (numberedMachine 9) 0 .initial .initial
      (by decide +kernel) (by decide +kernel)).1

end Microprocessor
