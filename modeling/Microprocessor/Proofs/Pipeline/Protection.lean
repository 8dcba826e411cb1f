import Microprocessor.Arm.A32
import Microprocessor.Proofs.Pipeline.Transparency
import Microprocessor.Proofs.Storage.ReadOnly

/-! # No program changes read-only memory

    A move changes memory by the stores of the interrupt that is taken and of the
    instruction that is executed, which are stores of single bytes on either
    core.

      * `Pipeline.stores_tick`: one move, from any pipeline;
      * `Pipeline.stores_of_run`: a run into which no image is loaded;
      * `Arm.Machine.memory_singleTransfer` and
        `Arm.Machine.memory_blockTransfer`: the words that are stored are runs of
        bytes;
      * `readOnly_protected` puts it together, for runs of both cores and for
        words that lie across the start of read-only memory. -/

namespace Microprocessor

namespace Pipeline

variable {κ ι δ γ : Type} [Core κ ι] [Decoded ι] [PortDevice δ] [InterruptController γ]
  [AccessingCore κ ι]

/-! ## One move -/

omit [AccessingCore κ ι] [PortDevice δ] [InterruptController γ] in
/-- Decoding does not store. -/
theorem memory_decodeNext (pipeline : Pipeline κ ι δ γ) :
    pipeline.decodeNext.1.bus.memory = pipeline.bus.memory := by
  rw [decodeNext]
  split
  · rfl
  · split <;> rfl

omit [AccessingCore κ ι] [PortDevice δ] in
/-- Before it executes, a move leaves memory as the boundary does. -/
theorem memory_prepare (pipeline : Pipeline κ ι δ γ) :
    pipeline.prepare.1.bus.memory
      = if pipeline.decoded.isEmpty then pipeline.serviceInterrupts.bus.memory
        else pipeline.bus.memory := by
  rw [prepare]
  split
  · rw [fetchNext]
    dsimp only
    split
    · rfl
    · obtain ⟨queue, hfetch, -, -⟩ := pipeline.serviceInterrupts.bus.fetch_byteAt
        (Core.codeAddress pipeline.serviceInterrupts.core)
      rw [hfetch]
      dsimp only
      rw [memory_decodeNext]
  · rfl

omit [PortDevice δ] in
/-- Before it executes, a move stores what an interrupt pushes. -/
theorem stores_prepare (pipeline : Pipeline κ ι δ γ) :
    pipeline.bus.memory.Stores pipeline.prepare.1.bus.memory := by
  have hserved : pipeline.bus.memory.Stores pipeline.serviceInterrupts.bus.memory :=
    (AccessingCore.serviceInterrupts_accessed _ _ _).memory
  rw [memory_prepare]
  split
  · exact hserved
  · exact .refl

omit [InterruptController γ] in
/-- To execute is to store what the instruction stores. -/
theorem stores_executeNext (ready : Pipeline κ ι δ γ) :
    ready.bus.memory.Stores ready.executeNext.1.bus.memory := by
  cases hpop : ready.decoded.pop with
  | error failure =>
      rw [executeNext, hpop]
      exact .refl
  | ok popped =>
      obtain ⟨⟨address, instruction⟩, rest⟩ := popped
      obtain ⟨stage, hexecute⟩ := executeNext_of_pop hpop
      have haccessed : ready.bus.Accessed
          (Core.execute ready.core instruction address ready.bus ready.faults).bus :=
        AccessingCore.execute_accessed ready.core instruction address ready.bus ready.faults
      rw [hexecute]
      -- Dropping the queue leaves memory alone.
      show ready.bus.memory.Stores
        (execute { ready with decoded := rest } address instruction).1.bus.memory
      rw [execute]
      dsimp only
      split
      · exact haccessed.memory
      · exact haccessed.memory

/-- A move changes memory by stores alone. -/
theorem stores_tick (pipeline : Pipeline κ ι δ γ) :
    pipeline.bus.memory.Stores pipeline.tick.1.bus.memory := by
  have hprepare := stores_prepare pipeline
  have hmove := tick_move pipeline
  generalize pipeline.tick = result at hmove
  cases hmove with
  | waits _ _ => exact .refl
  | leaves _ _ => exact .refl
  | @proceeds step _ _ => exact stores_executeNext { pipeline with step }
  | stops _ _ => exact .refl
  | idles _ _ hprepared =>
      rw [hprepared] at hprepare
      exact hprepare
  | holds _ _ hprepared _ =>
      rw [hprepared] at hprepare
      exact hprepare
  | @executes prepared _ _ hprepared _ =>
      rw [hprepared] at hprepare
      exact hprepare.trans (stores_executeNext prepared)

/-! ## Runs -/

/-- No image is loaded; every other event may happen. -/
def LoadsNoImage (_ : Pipeline κ ι δ γ) : Event κ δ γ → Prop
  | .load _ _ => False
  | _ => True

/-- What is no image changes memory by stores alone. -/
theorem stores_after {pipeline : Pipeline κ ι δ γ} {event : Event κ δ γ}
    (h : pipeline.LoadsNoImage event) :
    pipeline.bus.memory.Stores (pipeline.after event).bus.memory := by
  cases event with
  | move => exact stores_tick pipeline
  | store address value => exact .write pipeline.bus.memory address value
  | load base image => exact absurd h id
  | attach range device =>
      rw [after]
      split
      · exact .refl
      · exact .refl
  | _ => exact .refl

/-- A run into which no image is loaded changes memory by stores alone. -/
theorem stores_of_run {start pipeline : Pipeline κ ι δ γ}
    (hrun : Run LoadsNoImage start pipeline) :
    start.bus.memory.Stores pipeline.bus.memory := by
  have hevent : ∀ (pipeline : Pipeline κ ι δ γ) event, pipeline.LoadsNoImage event →
      start.bus.memory.Stores pipeline.bus.memory →
      start.bus.memory.Stores (pipeline.after event).bus.memory := fun _ _ hloads h =>
    h.trans (stores_after hloads)
  exact hrun.invariant .refl hevent

end Pipeline

/-! ## Words of the ARM -/

namespace Arm.Machine

variable {δ : Type}

/-- The word that a store of a single word stores. -/
def storedWord (machine : Machine δ) (pc : UInt32) (indexing : Indexing) (rn rd : Register)
    (offset : TransferOffset) : List (UInt32 × UInt8) :=
  let processor := machine.processor
  let address := indexing.address (processor.operand pc rn) (processor.transferOffset pc offset)
  Memory.consecutive (Processor.wordAddress address) (bytesOfDouble (processor.operand pc rd))

/-- The words that a block transfer stores. -/
def blockValues (machine : Machine δ) (pc : UInt32) (userBank : Bool) (registers : UInt16) :
    List UInt32 :=
  ((listedRegisters registers).map Register.ofNumber).map fun register =>
    if userBank then machine.processor.userOperand pc register
    else machine.processor.operand pc register

/-- The block that a block transfer stores. -/
def storedBlock (machine : Machine δ) (pc : UInt32) (indexing : Indexing) (userBank : Bool)
    (rn : Register) (registers : UInt16) : List (UInt32 × UInt8) :=
  let values := machine.blockValues pc userBank registers
  Memory.consecutive (blockStart indexing (machine.processor.operand pc rn) values.length)
    (values.flatMap bytesOfDouble)

/-- A block transfer stores a run of bytes, if it stores any. -/
theorem memory_blockTransfer (machine : Machine δ) (pc : UInt32) (indexing : Indexing)
    (userBank : Bool) (rn : Register) (registers : UInt16) :
    (machine.blockTransfer pc false indexing userBank rn registers).memory
      = machine.memory.writeBytes
          (blockStart indexing (machine.processor.operand pc rn)
            (machine.blockValues pc userBank registers).length)
          ((machine.blockValues pc userBank registers).flatMap bytesOfDouble) := by
  rw [blockTransfer]
  split
  · rename_i hempty
    rw [blockValues, List.isEmpty_iff.mp hempty]
    rfl
  · have hlength : (machine.blockValues pc userBank registers).length
        = ((listedRegisters registers).map Register.ofNumber).length := List.length_map _
    rw [hlength, ← writeBlock_eq_writeBytes, if_neg Bool.false_ne_true]
    rfl

/-- Of a word that is stored those bytes are written that can be. -/
theorem overwritten_singleTransfer (machine : Machine δ) (pc : UInt32) (indexing : Indexing)
    (rn rd : Register) (offset : TransferOffset) :
    machine.memory.Overwritten (machine.storedWord pc indexing rn rd offset)
      (machine.singleTransfer pc false false indexing rn rd offset).memory :=
  machine.memory.overwritten_writeBytes _ (show 4 ≤ UInt32.size by decide)

/-- Of a block that is stored those bytes are written that can be. -/
theorem overwritten_blockTransfer (machine : Machine δ) (pc : UInt32) (indexing : Indexing)
    (userBank : Bool) (rn : Register) (registers : UInt16) :
    machine.memory.Overwritten (machine.storedBlock pc indexing userBank rn registers)
      (machine.blockTransfer pc false indexing userBank rn registers).memory := by
  have hlength : (machine.blockValues pc userBank registers).length ≤ 16 := by
    rw [blockValues, List.length_map, List.length_map]
    exact List.length_filter_le _ _
  rw [memory_blockTransfer]
  refine machine.memory.overwritten_writeBytes _ ?_
  rw [length_flatMap_bytesOfDouble, UInt32.size]
  omega

end Arm.Machine

/-! ## Protection -/

open Pipeline

/-- In every run of either core into which no image is loaded, however long and
    with whatever interrupts and devices, memory keeps its size and every
    read-only byte.  Of a word in a segment, a word that is pushed, a word of the
    ARM and a block of them exactly those bytes are written that memory has and
    that are not read-only, and nothing else changes. -/
theorem readOnly_protected :
    (∀ {δ γ : Type} [PortDevice δ] [InterruptController γ]
        (start pipeline : Pipeline X86.ExecutionUnit X86.Instruction δ γ),
        Run LoadsNoImage start pipeline →
        start.bus.memory.ReadOnlyKept pipeline.bus.memory)
    ∧ (∀ {δ γ : Type} [PortDevice δ] [InterruptController γ]
        (start pipeline : Pipeline Arm.Processor Arm.Instruction δ γ),
        Run LoadsNoImage start pipeline →
        start.bus.memory.ReadOnlyKept pipeline.bus.memory)
    ∧ (∀ {δ : Type} (bus : Bus δ) (place : MemoryLocator) (value : UInt16),
        bus.memory.Overwritten (Bus.wordAt place value) (bus.write .word place value).memory
          ∧ bus.memory.Overwritten (Bus.wordAt (place.retreat 2) value)
            (bus.push place value).2.memory)
    ∧ ∀ {δ : Type} (machine : Arm.Machine δ) (pc : UInt32) (indexing : Arm.Indexing)
        (rn : Arm.Register),
        (∀ rd offset, machine.memory.Overwritten (machine.storedWord pc indexing rn rd offset)
          (machine.singleTransfer pc false false indexing rn rd offset).memory)
        ∧ ∀ userBank registers,
          machine.memory.Overwritten (machine.storedBlock pc indexing userBank rn registers)
            (machine.blockTransfer pc false indexing userBank rn registers).memory := by
  refine ⟨?_, ?_, ?_, ?_⟩
  · intro δ γ _ _ start pipeline hrun
    exact (stores_of_run hrun).readOnlyKept
  · intro δ γ _ _ start pipeline hrun
    exact (stores_of_run hrun).readOnlyKept
  · intro δ bus place value
    exact ⟨bus.overwritten_write place value, bus.overwritten_write (place.retreat 2) value⟩
  · intro δ machine pc indexing rn
    exact ⟨machine.overwritten_singleTransfer pc indexing rn,
      fun userBank => machine.overwritten_blockTransfer pc indexing userBank rn⟩

/-- An 8086 at the start of a program that stores 1234 across the start of
    read-only memory at 4. -/
def straddlingStart : Pipeline X86.ExecutionUnit X86.Instruction Terminal.Console InterruptLine :=
  .of X86.realMode
    (X86.ExecutionUnit.initial.mapRegs fun regs => (regs.setWord .ax 0x1234).setWord .di 3)
    ⟨#[0xAB, 0x90, 0x90, 0x90, 0x90], some 4⟩ .empty

/-- An ARM at the start of a program that stores a word at 4, where memory is
    read-only from 6 on. -/
def straddlingWordStart : Pipeline Arm.Processor Arm.Instruction Terminal.Console InterruptLine :=
  .of Arm.a32
    ((Arm.Processor.initial.setRegister (.ofNumber 0) 0x44332211).setRegister (.ofNumber 1) 4)
    ⟨#[0x00, 0x00, 0x81, 0xE5, 0, 0, 0, 0], some 6⟩ .empty

/-- The low bytes are stored, and the high ones are not. -/
theorem readOnly_protected_straddling :
    (straddlingStart.after .move).bus.memory.fetch? 3 = some 0x34
      ∧ (straddlingStart.after .move).bus.memory.fetch? 4 = some 0x90
      ∧ (straddlingWordStart.after .move).bus.memory.fetch? 5 = some 0x22
      ∧ (straddlingWordStart.after .move).bus.memory.fetch? 6 = some 0 := by
  have hword := readOnly_protected.1 straddlingStart _ (.event .refl .move trivial)
  have hdouble := readOnly_protected.2.1 straddlingWordStart _ (.event .refl .move trivial)
  exact ⟨by decide +kernel, hword.bytes 4 (by decide), by decide +kernel,
    hdouble.bytes 6 (by decide)⟩

end Microprocessor
