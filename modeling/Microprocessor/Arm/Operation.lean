import Microprocessor.Arm.Operand

/-! # A32 operations

    Every instruction word has exactly one operation.  The words that are
    recognised and not executed keep the whole word and nothing else. -/

namespace Microprocessor.Arm

/-- What an instruction does. -/
inductive Operation
  | dataProcessing (op : DataOp) (setFlags : Bool) (rn rd : Register) (operand : ShifterOperand)
  /-- A 16-bit immediate into the low half, or into the top half alone. -/
  | moveWide (top : Bool) (rd : Register) (imm16 : UInt16)
  | multiply (accumulate setFlags : Bool) (rd rn rs rm : Register)
  | multiplyLong (signed accumulate setFlags : Bool) (rdHi rdLo rs rm : Register)
  | swap (byte : Bool) (rn rd rm : Register)
  | statusToRegister (saved : Bool) (rd : Register)
  | registerToStatus (saved : Bool) (mask : UInt8) (operand : ShifterOperand)
  | branchExchange (link : Bool) (rm : Register)
  | countLeadingZeros (rd rm : Register)
  | singleTransfer (load byte : Bool) (indexing : Indexing) (rn rd : Register)
      (offset : TransferOffset)
  | halfwordTransfer (load : Bool) (kind : HalfwordKind) (indexing : Indexing)
      (rn rd : Register) (offset : HalfwordOffset)
  | blockTransfer (load : Bool) (indexing : Indexing) (userBank : Bool) (rn : Register)
      (registers : UInt16)
  /-- A branch by an offset from the instruction's address plus 8. -/
  | branch (link : Bool) (offset : Int32)
  /-- A branch that would change the instruction set. -/
  | branchLinkExchange (offset : Int32)
  | supervisorCall (comment : UInt32)
  | breakpoint (comment : UInt16)
  | coprocessor (word : UInt32)
  | media (word : UInt32)
  | unconditional (word : UInt32)
  | undefined (word : UInt32)
  deriving DecidableEq

/-- Whether register `n` is in a register list. -/
def isListed (registers : UInt16) (n : Nat) : Bool :=
  registers.toNat.testBit n

/-- The registers of a list, by number. -/
def listedRegisters (registers : UInt16) : List Nat :=
  (List.range 16).filter (isListed registers)

namespace Operation

/-- Whether execution sets the program counter other than by moving on. -/
def writesProgramCounter : Operation → Bool
  | .dataProcessing op _ _ rd _ => rd.isPc && !op.isComparison
  | .moveWide _ rd _ => rd.isPc
  | .singleTransfer load _ _ _ rd _ => load && rd.isPc
  | .blockTransfer load _ _ _ registers => load && isListed registers 15
  | .branch .. | .branchLinkExchange .. | .branchExchange .. | .supervisorCall .. => true
  | _ => false

/-- Whether the target of the transfer is part of the encoding. -/
def hasStaticTarget : Operation → Bool
  | .branch .. | .branchLinkExchange .. => true
  | _ => false

/-- Whether the word is not assigned. -/
def isUndefined : Operation → Bool
  | .undefined _ => true
  | _ => false

/-- The cycles it takes to fill the pipeline again after a branch. -/
def refill : Nat := 2

/-- A rough count of cycles: one for most data processing, more for shifts by
    a register, for memory, and for filling the pipeline again. -/
def clocks : Operation → Nat
  | .dataProcessing op _ _ rd operand =>
    let shift := match operand with
      | .register _ _ (.register _) => 1
      | _ => 0
    1 + shift + (if rd.isPc && !op.isComparison then refill else 0)
  | .multiply accumulate .. => 2 + accumulate.toNat
  | .multiplyLong _ accumulate .. => 3 + accumulate.toNat
  | .swap .. => 4
  | .singleTransfer load _ _ _ rd _ =>
    if load then 3 + (if rd.isPc then refill else 0) else 2
  | .halfwordTransfer load .. => if load then 3 else 2
  | .blockTransfer load _ _ _ registers =>
    let count := (listedRegisters registers).length
    if load then count + 2 + (if isListed registers 15 then refill else 0) else count + 1
  | .branch .. | .branchLinkExchange .. | .branchExchange .. | .supervisorCall .. | .breakpoint ..
  | .undefined .. | .coprocessor .. | .media .. | .unconditional .. => 1 + refill
  | .moveWide .. | .statusToRegister .. | .registerToStatus .. | .countLeadingZeros .. => 1

end Operation

end Microprocessor.Arm
