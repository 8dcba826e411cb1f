import Microprocessor.Arm.Execution
import Microprocessor.Proofs.Storage.ReadOnly

/-! # What A32 instructions do to the bus

    Of the bus an A32 instruction touches memory alone, by stores of single
    bytes; an interrupt boundary does not touch it at all.

      * `Machine.perform_accessed`: the operations that cannot fault;
      * `Machine.execute_accessed`: whole instructions;
      * `Processor.serviceInterrupts_bus`: interrupt boundaries. -/

namespace Microprocessor.Arm

namespace Machine

variable {δ : Type}

/-- Stores to memory and a change of the processor are an access. -/
theorem mapMemory_mapProcessor_accessed (machine : Machine δ) {f : Memory → Memory}
    (g : Processor → Processor) (h : machine.memory.Stores (f machine.memory)) :
    machine.bus.Accessed ((machine.mapMemory f).mapProcessor g).bus :=
  ⟨rfl, rfl, rfl, h⟩

theorem singleTransfer_accessed (machine : Machine δ) (pc : UInt32) (load byte : Bool)
    (indexing : Indexing) (rn rd : Register) (offset : TransferOffset) :
    machine.bus.Accessed (machine.singleTransfer pc load byte indexing rn rd offset).bus := by
  cases load with
  | true => exact .refl machine.bus
  | false =>
      refine mapMemory_mapProcessor_accessed machine _ ?_
      cases byte with
      | true => exact .write machine.memory _ _
      | false => exact .writeDouble machine.memory _ _

theorem halfwordTransfer_accessed (machine : Machine δ) (pc : UInt32) (load : Bool)
    (kind : HalfwordKind) (indexing : Indexing) (rn rd : Register) (offset : HalfwordOffset) :
    machine.bus.Accessed
      (machine.halfwordTransfer pc load kind indexing rn rd offset).bus := by
  cases load with
  | true => cases kind <;> exact .refl machine.bus
  | false =>
      cases kind with
      | unsignedHalf =>
          exact mapMemory_mapProcessor_accessed machine _ (.writeWidth machine.memory .word _ _)
      | double =>
          exact mapMemory_mapProcessor_accessed machine _
            ((Memory.Stores.writeDouble machine.memory _ _).trans (.writeDouble _ _ _))
      | signedByte => exact .refl machine.bus
      | signedHalf => exact .refl machine.bus

/-- A block of words is stored byte by byte. -/
theorem stores_writeBlock (values : List UInt32) :
    ∀ (address : UInt32) (memory : Memory), memory.Stores (writeBlock address values memory) := by
  induction values with
  | nil => intro _ memory; exact .refl
  | cons value rest ih =>
      intro address memory
      exact (Memory.Stores.writeDouble memory address value).trans (ih _ _)

/-- A block of words is a run of bytes. -/
theorem writeBlock_eq_writeBytes (values : List UInt32) :
    ∀ (address : UInt32) (memory : Memory),
      writeBlock address values memory
        = memory.writeBytes address (values.flatMap bytesOfDouble) := by
  induction values with
  | nil => exact fun _ _ => rfl
  | cons value rest ih =>
      intro address memory
      rw [List.flatMap_cons, Memory.writeBytes_append]
      exact ih (address + 4) (memory.writeDouble address value)

/-- A block of words has four bytes a word. -/
theorem length_flatMap_bytesOfDouble (values : List UInt32) :
    (values.flatMap bytesOfDouble).length = 4 * values.length := by
  induction values with
  | nil => rfl
  | cons value rest ih =>
      rw [List.flatMap_cons, List.length_append, ih, List.length_cons]
      show 4 + 4 * rest.length = 4 * (rest.length + 1)
      omega

theorem blockTransfer_accessed (machine : Machine δ) (pc : UInt32) (load : Bool)
    (indexing : Indexing) (userBank : Bool) (rn : Register) (registers : UInt16) :
    machine.bus.Accessed
      (machine.blockTransfer pc load indexing userBank rn registers).bus := by
  unfold blockTransfer
  simp only
  split
  · exact .refl machine.bus
  · split
    · exact .refl machine.bus
    · exact mapMemory_mapProcessor_accessed machine _ (stores_writeBlock _ _ machine.memory)

theorem swap_accessed (machine : Machine δ) (pc : UInt32) (byte : Bool) (rn rd rm : Register) :
    machine.bus.Accessed (machine.swap pc byte rn rd rm).bus := by
  refine mapMemory_mapProcessor_accessed machine _ ?_
  cases byte with
  | true => exact .write machine.memory _ _
  | false => exact .writeDouble machine.memory _ _

/-- An operation that cannot fault touches the bus by accesses alone. -/
theorem perform_accessed (machine : Machine δ) (here : UInt32) (operation : Operation) :
    machine.bus.Accessed (machine.perform here operation).bus := by
  cases operation with
  | swap byte rn rd rm => exact swap_accessed machine _ byte rn rd rm
  | singleTransfer load byte indexing rn rd offset =>
      exact singleTransfer_accessed machine _ load byte indexing rn rd offset
  | halfwordTransfer load kind indexing rn rd offset =>
      exact halfwordTransfer_accessed machine _ load kind indexing rn rd offset
  | blockTransfer load indexing userBank rn registers =>
      exact blockTransfer_accessed machine _ load indexing userBank rn registers
  | _ => exact .refl machine.bus

/-- An instruction touches the bus by accesses alone, whether or not it
    faults. -/
theorem execute_accessed (machine : Machine δ) (instruction : Instruction) (here : UInt32)
    (faults : FaultUnit) :
    machine.bus.Accessed (machine.execute instruction here faults).bus := by
  rw [execute]
  simp only
  split
  · exact .refl machine.bus
  · split
    · split
      · exact perform_accessed machine here instruction.operation
      · exact .refl machine.bus
    · exact perform_accessed machine here instruction.operation

end Machine

/-- An interrupt boundary leaves the bus alone. -/
theorem Processor.serviceInterrupts_bus {δ γ : Type} [InterruptController γ] (processor : Processor)
    (bus : Bus δ) (inputs : InterruptInputs γ) :
    (processor.serviceInterrupts bus inputs).bus = bus := by
  unfold serviceInterrupts
  simp only
  split
  · rfl
  · split
    · rfl
    · split <;> rfl

end Microprocessor.Arm
