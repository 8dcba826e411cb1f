import Microprocessor.Proofs.Storage.Words
import Microprocessor.Proofs.X86.Destination

/-! # The bytes that operands consist of

    A byte register is one half of a word register, and a place in memory holds one
    byte or two.  Taken by the byte, operands overlap where they have a byte in
    common and nowhere else.

      * `Location` is where an operand lies, `Location.cells` are the bytes there, and
        `Machine.cell` says what each of them is;
      * `Machine.map_cell_location`: the value of an operand is made of its bytes;
      * `Machine.map_cell_writeOperand`, `Machine.cell_writeOperand_of_not_mem` and
        `Machine.writeOperand_others` are all that writing one does. -/

namespace Microprocessor

/-- The bytes of a value of a width, low byte first. -/
def Width.bytesOf : Width → UInt16 → List UInt8
  | .byte, value => [lowByte value]
  | .word, value => bytesOfWord value

/-- The bits beyond the width do not matter. -/
theorem Width.bytesOf_and_mask (width : Width) (value : UInt16) :
    width.bytesOf (value &&& width.mask) = width.bytesOf value := by
  cases width with
  | byte =>
      refine congrArg (fun byte => [byte]) ?_
      rw [← toUInt16_lowByte]
      exact UInt8.toUInt8_toUInt16 (lowByte value)
  | word => exact congrArg bytesOfWord UInt16.and_neg_one

namespace X86

/-! ## Halves of registers -/

namespace DividableRegister

/-- The low byte is replaced and the high byte kept. -/
theorem word_setLow (register : DividableRegister) (value : UInt8) :
    (register.setLow value).word = wordOfBytes value register.high := by
  have hupper : register.word &&& (0xFF00 : UInt16) = register.high.toUInt16 <<< 8 := by
    have hmask : ∀ i : Fin 16, (0xFF00#16).getLsbD i = decide (8 ≤ i.val) := by decide
    apply UInt16.toBitVec_inj.mp
    apply BitVec.eq_of_getLsbD_eq
    intro i hi
    have hbit := hmask ⟨i, hi⟩
    show (register.word.toBitVec &&& 0xFF00#16).getLsbD i
      = ((((register.word.toBitVec >>> 8).setWidth 8).setWidth 16) <<< 8).getLsbD i
    rw [BitVec.getLsbD_and, hbit]
    by_cases h : 8 ≤ i
    · simp [h, hi, show ¬i < 8 by omega, show i - 8 < 8 by omega, show 8 + (i - 8) = i by omega]
    · simp [h, show i < 8 by omega]
  show (register.word &&& (0xFF00 : UInt16)) ||| value.toUInt16 = _
  rw [hupper, wordOfBytes, UInt16.or_comm]

/-- The high byte is replaced and the low byte kept. -/
theorem word_setHigh (register : DividableRegister) (value : UInt8) :
    (register.setHigh value).word = wordOfBytes register.low value := by
  have hlower : register.word &&& (0x00FF : UInt16) = register.low.toUInt16 :=
    (toUInt16_lowByte register.word).symm
  show (register.word &&& (0x00FF : UInt16)) ||| (value.toUInt16 <<< 8) = _
  rw [hlower, wordOfBytes]

end DividableRegister

/-- The word register that a general register is or is part of. -/
def Register.container : Register → WordRegister
  | .byte r => r.container.1
  | .word r => r

/-- The halves of word registers that a general register consists of, the low one first. -/
def Register.halves : Register → List (WordRegister × Bool)
  | .byte r => [r.container]
  | .word r => [(r, false), (r, true)]

namespace RegisterFile

variable (regs : RegisterFile)

/-- The low or the high byte of a word register. -/
def half : WordRegister × Bool → UInt8
  | (register, false) => lowByte (regs.word register)
  | (register, true) => highByte (regs.word register)

/-- A word register consists of its two halves. -/
theorem word_eq_wordOfBytes (register : WordRegister) :
    regs.word register = wordOfBytes (regs.half (register, false)) (regs.half (register, true)) :=
  (wordOfBytes_lowByte_highByte _).symm

/-- A byte register is the half that it is said to be. -/
theorem byte_eq_half (register : ByteRegister) :
    regs.byte register = regs.half register.container := by
  cases register <;> rfl

theorem half_setWord (register : WordRegister) (value : UInt16) (half : WordRegister × Bool) :
    (regs.setWord register value).half half
      = if register = half.1 then (if half.2 then highByte value else lowByte value)
        else regs.half half := by
  obtain ⟨other, high⟩ := half
  cases register <;> cases other <;> cases high <;> rfl

/-- A byte register that is replaced leaves the other half of its word alone. -/
theorem word_setByte (register : ByteRegister) (value : UInt8) (other : WordRegister) :
    (regs.setByte register value).word other
      = if register.container.1 = other then
          if register.container.2 then wordOfBytes (regs.half (other, false)) value
          else wordOfBytes value (regs.half (other, true))
        else regs.word other := by
  cases register <;> cases other
  all_goals first
    | rfl
    | exact DividableRegister.word_setLow _ value
    | exact DividableRegister.word_setHigh _ value

theorem half_setByte (register : ByteRegister) (value : UInt8) (half : WordRegister × Bool) :
    (regs.setByte register value).half half
      = if register.container = half then value else regs.half half := by
  obtain ⟨other, high⟩ := half
  rcases hcontainer : register.container with ⟨word, upper⟩
  by_cases hword : word = other
  · subst hword
    cases upper <;> cases high
    all_goals simp [RegisterFile.half, word_setByte, hcontainer, lowByte_wordOfBytes,
      highByte_wordOfBytes]
  · have hne : ¬(word, upper) = (other, high) := fun h => hword (congrArg Prod.fst h)
    rw [if_neg hne]
    cases high
    all_goals simp [RegisterFile.half, word_setByte, hcontainer, hword]

/-- A general register holds the value written to it. -/
theorem map_half_write (register : Register) (value : UInt16) :
    register.halves.map (regs.write register value).half = register.width.bytesOf value := by
  cases register with
  | byte r =>
      show [(regs.setByte r (lowByte value)).half r.container] = [lowByte value]
      rw [half_setByte, if_pos rfl]
  | word r =>
      show [(regs.setWord r value).half (r, false), (regs.setWord r value).half (r, true)] = _
      rw [half_setWord, half_setWord, if_pos rfl, if_pos rfl]
      rfl

/-- The halves that it does not consist of are as before. -/
theorem half_write_of_not_mem {register : Register} {half : WordRegister × Bool}
    (h : half ∉ register.halves) (value : UInt16) :
    (regs.write register value).half half = regs.half half := by
  cases register with
  | byte r =>
      have hne : r.container ≠ half := fun heq => h (List.mem_singleton.mpr heq.symm)
      show (regs.setByte r (lowByte value)).half half = _
      rw [half_setByte, if_neg hne]
  | word r =>
      have hne : r ≠ half.1 := by
        rintro rfl
        obtain ⟨other, high⟩ := half
        cases high with
        | false => exact h List.mem_cons_self
        | true => exact h (List.mem_cons_of_mem _ List.mem_cons_self)
      show (regs.setWord r value).half half = _
      rw [half_setWord, if_neg hne]

/-- The value of a general register is made of its halves. -/
theorem map_half_read (register : Register) :
    register.halves.map regs.half = register.width.bytesOf (regs.read register) := by
  cases register with
  | byte r =>
      show [regs.half r.container] = [lowByte (regs.byte r).toUInt16]
      rw [byte_eq_half]
      exact congrArg (fun byte => [byte]) (UInt8.toUInt8_toUInt16 _).symm
  | word r => rfl

/-- What is no general register is as before. -/
theorem write_others (register : Register) (value : UInt16) :
    (∀ segment, (regs.write register value).segment segment = regs.segment segment)
      ∧ (regs.write register value).ip = regs.ip
      ∧ (regs.write register value).flags = regs.flags := by
  cases register with
  | byte r => cases r <;> exact ⟨fun segment => by cases segment <;> rfl, rfl, rfl⟩
  | word r => cases r <;> exact ⟨fun segment => by cases segment <;> rfl, rfl, rfl⟩

end RegisterFile

/-! ## Locations -/

/-- Where an operand lies. -/
inductive Location
  | register (register : Register)
  | memory (place : MemoryLocator)
  deriving DecidableEq

/-- A byte that an operand may consist of. -/
inductive Cell
  | register (half : WordRegister × Bool)
  | memory (address : UInt32)
  deriving DecidableEq

/-- The bytes of a location, low byte first. -/
def Location.cells (width : Width) : Location → List Cell
  | .register r => r.halves.map .register
  | .memory place =>
    match width with
    | .byte => [.memory place.address]
    | .word => [.memory place.address, .memory (place.advance 1).address]

/-- No byte of a register is in memory. -/
theorem Location.memory_notMem_register (width : Width) (register : Register) (address : UInt32) :
    .memory address ∉ (Location.register register).cells width := by
  intro hmem
  obtain ⟨half, -, hcell⟩ := List.mem_map.mp hmem
  cases hcell

/-- No byte in memory is in a register. -/
theorem Location.register_notMem_memory (width : Width) (place : MemoryLocator)
    (half : WordRegister × Bool) : .register half ∉ (Location.memory place).cells width := by
  cases width <;> simp [cells]

/-- A place in memory consists of the bytes of a value there. -/
theorem Location.memory_mem_memory {width : Width} {place : MemoryLocator} {address : UInt32} :
    .memory address ∈ (Location.memory place).cells width ↔ address ∈ place.addresses width := by
  cases width <;> simp [cells, MemoryLocator.addresses]

/-- A register consists of its halves. -/
theorem Location.register_mem_register {width : Width} {register : Register}
    {half : WordRegister × Bool} :
    .register half ∈ (Location.register register).cells width ↔ half ∈ register.halves := by
  constructor
  · intro hmem
    obtain ⟨other, hother, heq⟩ := List.mem_map.mp hmem
    cases heq
    exact hother
  · exact List.mem_map_of_mem

/-- Where an operand lies, if it is a general register or in memory.  The address of a memory
    operand is computed from the registers of the unit. -/
def ExecutionUnit.location? (unit : ExecutionUnit) (instruction : Instruction) :
    Operand → Option Location
  | .register register => some (.register register)
  | .memory address => some (.memory (unit.locate instruction address))
  | .segment _ | .immediate _ => none

/-- A place lies somewhere. -/
theorem ExecutionUnit.exists_location (unit : ExecutionUnit) (instruction : Instruction)
    {operand : Operand} {width : Width} (hplace : operand.IsPlace width) :
    ∃ location, unit.location? instruction operand = some location := by
  cases operand with
  | register register => exact ⟨_, rfl⟩
  | memory address => exact ⟨_, rfl⟩
  | segment register => exact hplace.elim
  | immediate value => exact hplace.elim

namespace Machine

variable {δ : Type}

/-- The value of a byte. -/
def cell (machine : Machine δ) : Cell → UInt8
  | .register half => machine.regs.half half
  | .memory address => machine.bus.memory.read address

/-- Every byte of the location can be written: what lies in memory is populated and not
    read-only. -/
def CanWrite (machine : Machine δ) (width : Width) (location : Location) : Prop :=
  ∀ address, .memory address ∈ location.cells width → machine.bus.memory.Writable address

variable (machine : Machine δ) (instruction : Instruction) {width : Width} {operand : Operand}
  {location : Location}

/-- Registers can always be written. -/
theorem canWrite_register (register : Register) : machine.CanWrite width (.register register) := by
  intro address hmem
  exact absurd hmem (Location.memory_notMem_register width register address)

/-- A value in memory is made of the bytes there. -/
theorem map_cell_memory (place : MemoryLocator) :
    ((Location.memory place).cells width).map machine.cell
      = width.bytesOf (machine.bus.read width place) := by
  cases width with
  | byte => exact congrArg (fun byte => [byte]) (UInt8.toUInt8_toUInt16 _).symm
  | word => exact (bytesOfWord_wordOfBytes _ _).symm

/-- The value of an operand is made of its bytes. -/
theorem map_cell_location (hplace : operand.IsPlace width)
    (hlocation : machine.unit.location? instruction operand = some location) :
    (location.cells width).map machine.cell
      = width.bytesOf (machine.readOperand instruction width operand) := by
  cases operand with
  | register register =>
      cases hlocation
      obtain rfl : register.width = width := hplace
      rw [Location.cells, List.map_map]
      exact machine.regs.map_half_read register
  | memory address =>
      cases hlocation
      exact machine.map_cell_memory _
  | segment register => exact hplace.elim
  | immediate value => exact hplace.elim

/-- A place that can be written has the value afterwards. -/
theorem map_cell_write (bus : Bus δ) {place : MemoryLocator}
    (hwritable : CanWrite ⟨machine.unit, bus⟩ width (.memory place)) (value : UInt16) :
    ((Location.memory place).cells width).map
        (cell ⟨machine.unit, bus.write width place value⟩)
      = width.bytesOf value := by
  have hread := bus.read_write value fun address hmem =>
    hwritable address (Location.memory_mem_memory.mpr hmem)
  rw [map_cell_memory, hread, Width.bytesOf_and_mask]

/-- The bytes beside a place are as before. -/
theorem cell_write_of_not_mem (bus : Bus δ) {place : MemoryLocator} (value : UInt16) {cell : Cell}
    (h : cell ∉ (Location.memory place).cells width) :
    Machine.cell ⟨machine.unit, bus.write width place value⟩ cell
      = Machine.cell ⟨machine.unit, bus⟩ cell := by
  cases cell with
  | register half => rfl
  | memory other =>
      have hother : other ∉ place.addresses width := fun hmem =>
        h (Location.memory_mem_memory.mpr hmem)
      exact congrArg (Option.getD · Memory.unpopulated) (bus.fetch?_write_of_notMem value hother)

/-- An operand that can be written has the value afterwards. -/
theorem map_cell_writeOperand (hplace : operand.IsPlace width)
    (hlocation : machine.unit.location? instruction operand = some location)
    (hwritable : machine.CanWrite width location) (value : UInt16) :
    (location.cells width).map (machine.writeOperand instruction width operand value).cell
      = width.bytesOf value := by
  cases operand with
  | register register =>
      cases hlocation
      obtain rfl : register.width = width := hplace
      rw [Location.cells, List.map_map]
      exact machine.regs.map_half_write register value
  | memory address =>
      cases hlocation
      rw [← width.bytesOf_and_mask value]
      exact machine.map_cell_write machine.bus hwritable _
  | segment register => exact hplace.elim
  | immediate value => exact hplace.elim

/-- The other bytes are as before. -/
theorem cell_writeOperand_of_not_mem (hplace : operand.IsPlace width)
    (hlocation : machine.unit.location? instruction operand = some location) (value : UInt16)
    {cell : Cell} (h : cell ∉ location.cells width) :
    (machine.writeOperand instruction width operand value).cell cell = machine.cell cell := by
  cases operand with
  | register register =>
      cases hlocation
      cases cell with
      | register half =>
          refine machine.regs.half_write_of_not_mem ?_ value
          exact fun hhalf => h (Location.register_mem_register.mpr hhalf)
      | memory address => rfl
  | memory address =>
      cases hlocation
      exact machine.cell_write_of_not_mem machine.bus _ h
  | segment register => exact hplace.elim
  | immediate value => exact hplace.elim

/-- What is neither a general register nor memory is as before. -/
theorem writeOperand_others (hplace : operand.IsPlace width) (value : UInt16) :
    (∀ segment, (machine.writeOperand instruction width operand value).regs.segment segment
        = machine.regs.segment segment)
      ∧ (machine.writeOperand instruction width operand value).regs.ip = machine.regs.ip
      ∧ (machine.writeOperand instruction width operand value).regs.flags = machine.regs.flags := by
  cases operand with
  | register register => exact machine.regs.write_others register value
  | memory address => exact ⟨fun _ => rfl, rfl, rfl⟩
  | segment register => exact hplace.elim
  | immediate value => exact hplace.elim

end Machine

end X86

end Microprocessor
