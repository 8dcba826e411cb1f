import Microprocessor.Arm.Status

/-! # The ARM processor

    Sixteen registers, the current status, the registers set aside for every
    bank, and whether the processor waits for an interrupt.  R15, the program
    counter, is the address of the next instruction and a multiple of 4.

      * `Processor.setStatus` keeps the stack pointer and the link register of
        each bank apart when the mode changes;
      * `Processor.operand` and `Processor.write` are how an instruction sees
        the registers: the program counter reads as its own address plus 8,
        and writing it is a branch;
      * `Processor.enter` and `Processor.leaveException` are the way into a
        handler and out of it. -/

namespace Microprocessor.Arm

/-- What is set aside for a bank. -/
structure BankedRegisters where
  sp : UInt32
  lr : UInt32
  /-- The status that the exception interrupted. -/
  status : Status
  deriving DecidableEq

/-- What is set aside for every bank. -/
structure BankTable where
  user : BankedRegisters
  fiq : BankedRegisters
  irq : BankedRegisters
  supervisor : BankedRegisters
  abort : BankedRegisters
  undefined : BankedRegisters
  deriving DecidableEq

namespace BankTable

/-- The same in every bank. -/
def uniform (saved : BankedRegisters) : BankTable :=
  ⟨saved, saved, saved, saved, saved, saved⟩

/-- What is set aside for a bank. -/
def get (table : BankTable) : Bank → BankedRegisters
  | .user => table.user
  | .fiq => table.fiq
  | .irq => table.irq
  | .supervisor => table.supervisor
  | .abort => table.abort
  | .undefined => table.undefined

/-- Replaces what is set aside for a bank. -/
def set (table : BankTable) (bank : Bank) (saved : BankedRegisters) : BankTable :=
  match bank with
  | .user => { table with user := saved }
  | .fiq => { table with fiq := saved }
  | .irq => { table with irq := saved }
  | .supervisor => { table with supervisor := saved }
  | .abort => { table with abort := saved }
  | .undefined => { table with undefined := saved }

end BankTable

/-- The state of the processor. -/
structure Processor where
  registers : Vector UInt32 16
  status : Status
  banks : BankTable
  /-- The processor waits for an interrupt. -/
  halted : Bool
  deriving DecidableEq

namespace Processor

/-- After reset: Supervisor mode with interrupts masked, and zeros. -/
def initial : Processor where
  registers := Vector.replicate 16 0
  status := ⟨0xD3⟩
  banks := .uniform ⟨0, 0, ⟨0⟩⟩
  halted := false

/-- The address of a word: the low two bits cleared. -/
def wordAddress (address : UInt32) : UInt32 :=
  address &&& ~~~3

/-! ## Registers -/

/-- What a register holds. -/
def get (processor : Processor) (register : Register) : UInt32 :=
  processor.registers[register.number]

/-- Replaces what a register holds. -/
def put (processor : Processor) (register : Register) (value : UInt32) : Processor :=
  { processor with registers := processor.registers.set register.number value }

/-- The value of an operand, for an instruction that reads the program counter
    as `pc`. -/
def operand (processor : Processor) (pc : UInt32) (register : Register) : UInt32 :=
  if register.isPc then pc else processor.get register

/-- Writes a result; writing the program counter is a branch. -/
def write (processor : Processor) (register : Register) (value : UInt32) : Processor :=
  processor.put register (if register.isPc then wordAddress value else value)

/-- Sets where to go on, and ends a halt. -/
def setEntryPoint (processor : Processor) (address : UInt32) : Processor :=
  { processor.write .pc address with halted := false }

/-- Sets a register from outside; to set the program counter is to set where
    to go on. -/
def setRegister (processor : Processor) (register : Register) (value : UInt32) : Processor :=
  if register.isPc then processor.setEntryPoint value else processor.put register value

/-- Moves on past an instruction. -/
def advance (processor : Processor) (length : Nat) : Processor :=
  processor.put .pc (processor.get .pc + UInt32.ofNat (min length 0xFFFFFFFF))

/-! ## Status and banks -/

/-- Sets the stack pointer and the link register aside for one bank, and takes
    out those of another. -/
def switchBank (processor : Processor) (old new : Bank) : Processor :=
  let saved := { processor.banks.get old with sp := processor.get .sp, lr := processor.get .lr }
  let restored := processor.banks.get new
  let processor := { processor with banks := processor.banks.set old saved }
  (processor.put .sp restored.sp).put .lr restored.lr

/-- Replaces the status; a change of bank exchanges the banked registers. -/
def setStatus (processor : Processor) (status : Status) : Processor :=
  let old := processor.status.bank
  let new := status.bank
  let processor := if old = new then processor else processor.switchBank old new
  { processor with status }

/-- The status that the current exception interrupted.  The shared bank has
    none, and the current status stands in for it. -/
def savedStatus (processor : Processor) : Status :=
  match processor.status.bank with
  | .user => processor.status
  | bank => (processor.banks.get bank).status

/-- Replaces the status that the current exception interrupted, if there is
    one. -/
def setSavedStatus (processor : Processor) (status : Status) : Processor :=
  match processor.status.bank with
  | .user => processor
  | bank =>
    let saved := { processor.banks.get bank with status }
    { processor with banks := processor.banks.set bank saved }

/-! ## Exceptions -/

/-- Enters the handler of an exception, which is to return to an address. -/
def enter (processor : Processor) (exception : Exception) (returnAddress : UInt32) : Processor :=
  let interrupted := processor.status
  let processor :=
    (processor.setStatus (exception.handlerStatus interrupted)).setSavedStatus interrupted
  let processor := (processor.put .lr returnAddress).put .pc exception.vector
  { processor with halted := false }

/-- Goes back to the status that the current exception interrupted. -/
def leaveException (processor : Processor) : Processor :=
  processor.setStatus processor.savedStatus

end Processor

end Microprocessor.Arm
