import Microprocessor.Proofs.Arm.ProgramCounter

/-! # What A32 operations touch of memory

    Which bytes an operation loads and stores, and what it stores, follows from the
    processor alone.

      * `Processor.loads` and `Processor.stores` list the accesses of every operation;
      * `Machine.memory_perform`: memory changes by these stores and by nothing else;
      * `Machine.processor_perform_congr`: of memory, the processor depends on the bytes of
        these loads and on nothing else. -/

namespace Microprocessor

/-- Stores runs of bytes one after another, each from an address on. -/
def Memory.storeRuns (memory : Memory) (runs : List (UInt32 × List UInt8)) : Memory :=
  runs.foldl (fun memory (address, bytes) => memory.writeBytes address bytes) memory

namespace Arm

/-! ## Accesses -/

/-- An access to memory: its first address, and how many bytes it has. -/
structure Access where
  address : UInt32
  size : Nat
  deriving DecidableEq

namespace Access

/-- The address of a byte of an access. -/
def byte (access : Access) (i : Nat) : UInt32 :=
  access.address + UInt32.ofNat i

/-- Two memories have the same bytes at an access. -/
def Agree (access : Access) (memory other : Memory) : Prop :=
  ∀ i, i < access.size → other.read (access.byte i) = memory.read (access.byte i)

/-- The access of a transfer of a byte or a word: a word is that of the address. -/
def ofTransfer (byte : Bool) (address : UInt32) : Access :=
  if byte then ⟨address, 1⟩ else ⟨Processor.wordAddress address, 4⟩

/-- The accesses of a halfword transfer. -/
def ofHalfword (kind : HalfwordKind) (address : UInt32) : List Access :=
  match kind with
  | .unsignedHalf | .signedHalf => [⟨halfwordAddress address, 2⟩]
  | .signedByte => [⟨address, 1⟩]
  | .double => [⟨Processor.wordAddress address, 4⟩, ⟨Processor.wordAddress address + 4, 4⟩]

/-- The accesses of a block of words. -/
def ofBlock (address : UInt32) : Nat → List Access
  | 0 => []
  | count + 1 => ⟨address, 4⟩ :: ofBlock (address + 4) count

section

variable {memory other : Memory} {address : UInt32}

theorem Agree.read (h : Agree ⟨address, 1⟩ memory other) :
    other.read address = memory.read address := by
  have hbyte := h 0 (show 0 < 1 by decide)
  rw [show byte ⟨address, 1⟩ 0 = address from UInt32.add_zero address] at hbyte
  exact hbyte

theorem Agree.readWord (h : Agree ⟨address, 2⟩ memory other) :
    other.readWidth .word address = memory.readWidth .word address := by
  have hlow := h 0 (show 0 < 2 by decide)
  have hhigh : other.read (address + 1) = memory.read (address + 1) := h 1 (show 1 < 2 by decide)
  rw [show byte ⟨address, 2⟩ 0 = address from UInt32.add_zero address] at hlow
  rw [Memory.readWidth, Memory.readWidth, hlow, hhigh]

/-- A double word is its two halves. -/
theorem Agree.readDouble (h : Agree ⟨address, 4⟩ memory other) :
    other.readDouble address = memory.readDouble address := by
  have hlow : Agree ⟨address, 2⟩ memory other :=
    fun i hi => h i (show i < 4 from Nat.lt_of_lt_of_le hi (show 2 ≤ 4 by decide))
  have hhigh : Agree ⟨address + 2, 2⟩ memory other := by
    intro i hi
    have hbyte : byte ⟨address + 2, 2⟩ i = byte ⟨address, 4⟩ (2 + i) := by
      rw [byte, byte, UInt32.ofNat_add, UInt32.add_assoc]
      rfl
    have hi : i < 2 := hi
    rw [hbyte]
    exact h (2 + i) (show 2 + i < 4 by omega)
  rw [Memory.readDouble, Memory.readDouble, hlow.readWord, hhigh.readWord]

end

end Access

/-! ## What is loaded -/

namespace Processor

/-- The address of a transfer of a word or a byte. -/
def transferAddress (processor : Processor) (pc : UInt32) (indexing : Indexing) (rn : Register)
    (offset : TransferOffset) : UInt32 :=
  indexing.address (processor.operand pc rn) (processor.transferOffset pc offset)

/-- The address of a transfer of a halfword, a signed byte or a pair of words. -/
def halfwordTransferAddress (processor : Processor) (pc : UInt32) (indexing : Indexing)
    (rn : Register) (offset : HalfwordOffset) : UInt32 :=
  indexing.address (processor.operand pc rn) (processor.halfwordOffset pc offset)

/-- The accesses by which an operation loads. -/
def loads (processor : Processor) (here : UInt32) : Operation → List Access
  | .swap byte rn _ _ => [.ofTransfer byte (processor.operand (here + 8) rn)]
  | .singleTransfer true byte indexing rn _ offset =>
    [.ofTransfer byte (processor.transferAddress (here + 8) indexing rn offset)]
  | .halfwordTransfer load kind indexing rn _ offset =>
    if kind.loads load then
      Access.ofHalfword kind (processor.halfwordTransferAddress (here + 8) indexing rn offset)
    else []
  | .blockTransfer true indexing _ rn registers =>
    let count := (listedRegisters registers).length
    Access.ofBlock (Machine.blockStart indexing (processor.operand (here + 8) rn) count) count
  | _ => []

end Processor

/-! ## What is stored -/

/-- What a transfer of a byte or a word stores. -/
def runOfTransfer (byte : Bool) (address value : UInt32) : UInt32 × List UInt8 :=
  if byte then (address, [value.toUInt8])
  else (Processor.wordAddress address, bytesOfDouble value)

/-- What a block of words stores. -/
def runsOfBlock (address : UInt32) : List UInt32 → List (UInt32 × List UInt8)
  | [] => []
  | value :: rest => (address, bytesOfDouble value) :: runsOfBlock (address + 4) rest

namespace Processor

/-- What an operation stores, and from which addresses on. -/
def stores (processor : Processor) (here : UInt32) : Operation → List (UInt32 × List UInt8)
  | .swap byte rn _ rm =>
    [runOfTransfer byte (processor.operand (here + 8) rn) (processor.operand (here + 8) rm)]
  | .singleTransfer false byte indexing rn rd offset =>
    [runOfTransfer byte (processor.transferAddress (here + 8) indexing rn offset)
      (processor.operand (here + 8) rd)]
  | .halfwordTransfer false .unsignedHalf indexing rn rd offset =>
    let address := processor.halfwordTransferAddress (here + 8) indexing rn offset
    let value := (processor.operand (here + 8) rd).toUInt16
    [(halfwordAddress address, [lowByte value, highByte value])]
  | .halfwordTransfer false .double indexing rn rd offset =>
    let aligned := wordAddress (processor.halfwordTransferAddress (here + 8) indexing rn offset)
    [(aligned, bytesOfDouble (processor.operand (here + 8) rd)),
      (aligned + 4, bytesOfDouble (processor.operand (here + 8) rd.partner))]
  | .blockTransfer false indexing userBank rn registers =>
    let listed := (listedRegisters registers).map Register.ofNumber
    let value (register : Register) : UInt32 :=
      if userBank then processor.userOperand (here + 8) register
      else processor.operand (here + 8) register
    runsOfBlock (Machine.blockStart indexing (processor.operand (here + 8) rn) listed.length)
      (listed.map value)
  | _ => []

/-- All accesses of an operation. -/
def accesses (processor : Processor) (here : UInt32) (operation : Operation) : List Access :=
  processor.loads here operation
    ++ (processor.stores here operation).map fun run => ⟨run.1, run.2.length⟩

end Processor

namespace Machine

variable {δ : Type}

/-! ## Stores -/

/-- What a transfer stores is a run of bytes. -/
theorem store_eq_writeBytes (memory : Memory) (byte : Bool) (address value : UInt32) :
    (if byte then memory.write address value.toUInt8
      else memory.writeDouble (Processor.wordAddress address) value)
      = memory.storeRuns [runOfTransfer byte address value] := by
  cases byte <;> rfl

/-- A block is stored word by word. -/
theorem writeBlock_eq_storeRuns (values : List UInt32) :
    ∀ (address : UInt32) (memory : Memory),
      writeBlock address values memory = memory.storeRuns (runsOfBlock address values) := by
  induction values with
  | nil => exact fun _ _ => rfl
  | cons value rest ih =>
      exact fun address memory => ih (address + 4) (memory.writeDouble address value)

/-- Memory changes by the stores of an operation and by nothing else. -/
theorem memory_perform (machine : Machine δ) (here : UInt32) (operation : Operation) :
    (machine.perform here operation).memory
      = machine.memory.storeRuns (machine.processor.stores here operation) := by
  cases operation with
  | swap byte rn rd rm => exact store_eq_writeBytes machine.memory byte _ _
  | singleTransfer load byte indexing rn rd offset =>
      cases load with
      | true => rfl
      | false => exact store_eq_writeBytes machine.memory byte _ _
  | halfwordTransfer load kind indexing rn rd offset => cases kind <;> cases load <;> rfl
  | blockTransfer load indexing userBank rn registers =>
      rw [perform, blockTransfer]
      split
      · -- An empty list is a block of no words.
        rename_i hempty
        cases load with
        | true => rfl
        | false =>
            rw [Processor.stores, List.isEmpty_iff.mp hempty]
            rfl
      · cases load with
        | true => rfl
        | false => exact writeBlock_eq_storeRuns _ _ machine.memory
  | _ => rfl

/-! ## Loads -/

/-- What a transfer loads depends on the bytes of its access. -/
theorem loaded_congr {memory other : Memory} {byte : Bool} {address : UInt32}
    (h : (Access.ofTransfer byte address).Agree memory other) :
    (if byte then (other.read address).toUInt32 else loadRotated other address)
      = if byte then (memory.read address).toUInt32 else loadRotated memory address := by
  cases byte with
  | true => exact congrArg UInt8.toUInt32 h.read
  | false => exact congrArg (rotateRight · _) h.readDouble

/-- So does what a halfword transfer loads. -/
theorem halfwordLoads_congr {memory other : Memory} {kind : HalfwordKind} {address : UInt32}
    (h : ∀ access ∈ Access.ofHalfword kind address, access.Agree memory other) (rd : Register) :
    halfwordLoads other kind rd address = halfwordLoads memory kind rd address := by
  cases kind with
  | unsignedHalf => rw [halfwordLoads, halfwordLoads, (h _ List.mem_cons_self).readWord]
  | signedHalf => rw [halfwordLoads, halfwordLoads, (h _ List.mem_cons_self).readWord]
  | signedByte => rw [halfwordLoads, halfwordLoads, (h _ List.mem_cons_self).read]
  | double =>
      have hsecond := h _ (List.mem_cons_of_mem _ List.mem_cons_self)
      rw [halfwordLoads, halfwordLoads, (h _ List.mem_cons_self).readDouble, hsecond.readDouble]

/-- So does what a block transfer loads. -/
theorem readBlock_congr {memory other : Memory} (listed : List Register) :
    ∀ {address : UInt32},
      (∀ access ∈ Access.ofBlock address listed.length, access.Agree memory other) →
      readBlock other address listed = readBlock memory address listed := by
  induction listed with
  | nil => exact fun _ => rfl
  | cons register rest ih =>
      intro address h
      rw [List.length_cons, Access.ofBlock, List.forall_mem_cons] at h
      rw [readBlock, readBlock, h.1.readDouble, ih h.2]

/-- Of memory, the processor depends on what an operation loads and on nothing else. -/
theorem processor_perform_congr {machine other : Machine δ} {here : UInt32}
    {operation : Operation} (hprocessor : other.processor = machine.processor)
    (h : ∀ access ∈ machine.processor.loads here operation,
      access.Agree machine.memory other.memory) :
    (other.perform here operation).processor = (machine.perform here operation).processor := by
  -- The machines differ in their buses only.
  obtain ⟨processor, bus⟩ := machine
  obtain ⟨_, otherBus⟩ := other
  cases hprocessor
  cases operation with
  | swap byte rn rd rm =>
      exact congrArg (processor.write rd) (loaded_congr (h _ List.mem_cons_self))
  | singleTransfer load byte indexing rn rd offset =>
      cases load with
      | true => exact congrArg (Processor.write _ rd) (loaded_congr (h _ List.mem_cons_self))
      | false => rfl
  | halfwordTransfer load kind indexing rn rd offset =>
      cases kind <;> cases load
      case unsignedHalf.false => rfl
      case double.false => rfl
      all_goals exact congrArg (Processor.writeAll _) (halfwordLoads_congr (by exact h) rd)
  | blockTransfer load indexing userBank rn registers =>
      rw [perform, perform, blockTransfer, blockTransfer]
      split
      · rfl
      · cases load with
        | false => rfl
        | true =>
            rw [Processor.loads, ← List.length_map Register.ofNumber] at h
            rw [if_pos rfl, if_pos rfl, loadBlock, loadBlock, readBlock_congr _ h]
            rfl
  | _ => rfl

end Machine

end Arm

end Microprocessor
