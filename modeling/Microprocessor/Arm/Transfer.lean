import Microprocessor.Arm.BarrelShifter
import Microprocessor.Arm.Machine
import Microprocessor.Arm.Operation

/-! # Loads and stores

    A transfer moves bytes, halfwords or words between registers and memory.
    Words lie at multiples of 4 and halfwords at multiples of 2: the low bits
    of an address are ignored, except that a loaded word is rotated so that
    the addressed byte comes lowest.  Blocks of words lie where their base
    says, low bits and all.

      * `Machine.singleTransfer` moves a word or a byte;
      * `Machine.halfwordTransfer` moves a halfword, a signed byte or a pair
        of words;
      * `Machine.blockTransfer` moves a list of registers, the lowest number
        at the lowest address;
      * `Machine.swap` loads and stores at one address. -/

namespace Microprocessor.Arm

namespace Indexing

/-- The base moved by the offset. -/
def moved (indexing : Indexing) (base offset : UInt32) : UInt32 :=
  if indexing.add then base + offset else base - offset

/-- The address of the transfer. -/
def address (indexing : Indexing) (base offset : UInt32) : UInt32 :=
  if indexing.preIndex then indexing.moved base offset else base

end Indexing

/-- The word that an address is loaded from, with the addressed byte lowest. -/
def loadRotated (memory : Memory) (address : UInt32) : UInt32 :=
  rotateRight (memory.readDouble (Processor.wordAddress address)) (8 * (address.toNat % 4))

/-- The address of a halfword: the low bit cleared. -/
def halfwordAddress (address : UInt32) : UInt32 :=
  address &&& ~~~1

/-- The other register of a pair. -/
def Register.partner (register : Register) : Register :=
  .ofNumber (register.number.val ||| 1)

namespace Processor

/-- Puts the moved base back, except into the program counter. -/
def writeBack (processor : Processor) (rn : Register) (address : UInt32) : Processor :=
  if rn.isPc then processor else processor.write rn address

/-- Writes values to registers, in order. -/
def writeAll (processor : Processor) (values : List (Register × UInt32)) : Processor :=
  values.foldl (fun processor (register, value) => processor.write register value) processor

/-- Whether a register is set aside for User mode while another bank is in
    use. -/
def isSetAside (processor : Processor) (register : Register) : Bool :=
  processor.status.bank != .user && (register = .sp || register = .lr)

/-- The value of a register of User mode. -/
def userOperand (processor : Processor) (pc : UInt32) (register : Register) : UInt32 :=
  if processor.isSetAside register then
    if register = .sp then processor.banks.user.sp else processor.banks.user.lr
  else processor.operand pc register

/-- Writes a register of User mode. -/
def userWrite (processor : Processor) (register : Register) (value : UInt32) : Processor :=
  if processor.isSetAside register then
    let user := processor.banks.user
    let user := if register = .sp then { user with sp := value } else { user with lr := value }
    { processor with banks := processor.banks.set .user user }
  else processor.write register value

/-- The offset of a word or byte transfer. -/
def transferOffset (processor : Processor) (pc : UInt32) : TransferOffset → UInt32
  | .immediate offset => offset.toUInt32
  | .register rm kind amount =>
    (shiftEncoded kind (processor.operand pc rm) amount.toNat (processor.status.get .carry)).value

/-- The offset of a halfword transfer. -/
def halfwordOffset (processor : Processor) (pc : UInt32) : HalfwordOffset → UInt32
  | .immediate offset => offset.toUInt32
  | .register rm => processor.operand pc rm

end Processor

namespace Machine

variable {δ : Type}

/-! ## Single transfers -/

/-- Moves a word or a byte. -/
def singleTransfer (machine : Machine δ) (pc : UInt32) (load byte : Bool) (indexing : Indexing)
    (rn rd : Register) (offset : TransferOffset) : Machine δ :=
  let processor := machine.processor
  let base := processor.operand pc rn
  let offset := processor.transferOffset pc offset
  let address := indexing.address base offset
  let finish (processor : Processor) : Processor :=
    if indexing.writesBack then processor.writeBack rn (indexing.moved base offset) else processor
  if load then
    let value :=
      if byte then (machine.memory.read address).toUInt32 else loadRotated machine.memory address
    machine.mapProcessor fun processor => (finish processor).write rd value
  else
    let value := processor.operand pc rd
    let store (memory : Memory) : Memory :=
      if byte then memory.write address value.toUInt8
      else memory.writeDouble (Processor.wordAddress address) value
    (machine.mapMemory store).mapProcessor finish

/-! ## Halfword transfers -/

/-- The registers that a halfword transfer loads, with their values. -/
def halfwordLoads (memory : Memory) (kind : HalfwordKind) (rd : Register) (address : UInt32) :
    List (Register × UInt32) :=
  match kind with
  | .unsignedHalf => [(rd, (memory.readWidth .word (halfwordAddress address)).toUInt32)]
  | .signedHalf =>
    [(rd, (memory.readWidth .word (halfwordAddress address)).toInt16.toInt32.toUInt32)]
  | .signedByte => [(rd, (memory.read address).toInt8.toInt32.toUInt32)]
  | .double =>
    let aligned := Processor.wordAddress address
    [(rd, memory.readDouble aligned), (rd.partner, memory.readDouble (aligned + 4))]

/-- Moves a halfword, a signed byte or a pair of words.  The signed kinds only
    load. -/
def halfwordTransfer (machine : Machine δ) (pc : UInt32) (load : Bool) (kind : HalfwordKind)
    (indexing : Indexing) (rn rd : Register) (offset : HalfwordOffset) : Machine δ :=
  let processor := machine.processor
  let base := processor.operand pc rn
  let offset := processor.halfwordOffset pc offset
  let address := indexing.address base offset
  let finish (processor : Processor) : Processor :=
    if indexing.writesBack then processor.writeBack rn (indexing.moved base offset) else processor
  match kind, load with
  | .unsignedHalf, false =>
    let value := (processor.operand pc rd).toUInt16
    (machine.mapMemory fun memory =>
      memory.writeWidth .word (halfwordAddress address) value).mapProcessor finish
  | .double, false =>
    let first := processor.operand pc rd
    let second := processor.operand pc rd.partner
    let aligned := Processor.wordAddress address
    (machine.mapMemory fun memory =>
      (memory.writeDouble aligned first).writeDouble (aligned + 4) second).mapProcessor finish
  | kind, _ =>
    let values := halfwordLoads machine.memory kind rd address
    machine.mapProcessor fun processor => (finish processor).writeAll values

/-! ## Block transfers -/

/-- The lowest address of a block of `count` words. -/
def blockStart (indexing : Indexing) (base : UInt32) (count : Nat) : UInt32 :=
  let span := UInt32.ofNat (4 * count)
  match indexing.add, indexing.preIndex with
  | true, false => base
  | true, true => base + 4
  | false, false => base - span + 4
  | false, true => base - span

/-- The words from an address on, one for each register. -/
def readBlock (memory : Memory) : UInt32 → List Register → List (Register × UInt32)
  | _, [] => []
  | address, register :: rest =>
    (register, memory.readDouble address) :: readBlock memory (address + 4) rest

/-- Stores words from an address on. -/
def writeBlock : UInt32 → List UInt32 → Memory → Memory
  | _, [], memory => memory
  | address, value :: rest, memory =>
    writeBlock (address + 4) rest (memory.writeDouble address value)

/-- Loads a list of registers.  The base is put back first, unless it is
    loaded; a list with the program counter, for User mode, returns from an
    exception. -/
def loadBlock (machine : Machine δ) (indexing : Indexing) (userBank : Bool) (rn : Register)
    (registers : UInt16) (listed : List Register) (start moved : UInt32) : Machine δ :=
  let includesPc := isListed registers 15
  let values := readBlock machine.memory start listed
  machine.mapProcessor fun processor =>
    let processor :=
      if indexing.writeBack && !isListed registers rn.number then processor.writeBack rn moved
      else processor
    if userBank && !includesPc then
      values.foldl (fun processor (register, value) => processor.userWrite register value) processor
    else
      let processor := processor.writeAll values
      if userBank then processor.leaveException else processor

/-- Stores a list of registers, and then puts the base back. -/
def storeBlock (machine : Machine δ) (pc : UInt32) (indexing : Indexing) (userBank : Bool)
    (rn : Register) (listed : List Register) (start moved : UInt32) : Machine δ :=
  let processor := machine.processor
  let values := listed.map fun register =>
    if userBank then processor.userOperand pc register else processor.operand pc register
  (machine.mapMemory (writeBlock start values)).mapProcessor fun processor =>
    if indexing.writeBack then processor.writeBack rn moved else processor

/-- Moves a list of registers; an empty list does nothing. -/
def blockTransfer (machine : Machine δ) (pc : UInt32) (load : Bool) (indexing : Indexing)
    (userBank : Bool) (rn : Register) (registers : UInt16) : Machine δ :=
  let listed := (listedRegisters registers).map Register.ofNumber
  let base := machine.processor.operand pc rn
  let start := blockStart indexing base listed.length
  let moved := indexing.moved base (UInt32.ofNat (4 * listed.length))
  if listed.isEmpty then machine
  else if load then machine.loadBlock indexing userBank rn registers listed start moved
  else machine.storeBlock pc indexing userBank rn listed start moved

/-! ## Swaps -/

/-- Loads a register from memory and stores another in its place. -/
def swap (machine : Machine δ) (pc : UInt32) (byte : Bool) (rn rd rm : Register) : Machine δ :=
  let address := machine.processor.operand pc rn
  let incoming := machine.processor.operand pc rm
  let old :=
    if byte then (machine.memory.read address).toUInt32 else loadRotated machine.memory address
  let store (memory : Memory) : Memory :=
    if byte then memory.write address incoming.toUInt8
    else memory.writeDouble (Processor.wordAddress address) incoming
  (machine.mapMemory store).mapProcessor fun processor => processor.write rd old

end Machine

end Microprocessor.Arm
