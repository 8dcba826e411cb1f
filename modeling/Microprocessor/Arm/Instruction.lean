import Microprocessor.Arm.Classification
import Microprocessor.Arm.Disassembly
import Microprocessor.Encoding.ByteSource
import Microprocessor.Encoding.Decoded

/-! # Decoding of A32 instructions

    Every instruction is one little-endian word of four bytes.  Any word
    decodes; decoding fails only where the source has no byte. -/

namespace Microprocessor.Arm

/-- The number of bytes of an instruction. -/
def instructionLength : Nat := 4

/-- A decoded instruction. -/
structure Instruction where
  word : UInt32
  condition : Condition
  operation : Operation
  /-- An estimate of the clock cycles taken to execute. -/
  clocks : Nat
  deriving DecidableEq

namespace Instruction

/-- The instruction that a word encodes. -/
def ofWord (word : UInt32) : Instruction :=
  let (condition, operation) := Classification.classify word
  ⟨word, condition, operation, operation.clocks⟩

/-- The instruction as assembly text. -/
def text (instruction : Instruction) : String :=
  Disassembly.operation instruction.condition instruction.operation

end Instruction

instance : Decoded Instruction where
  opcodeNumber instruction := (field instruction.word 27 20).toNat
  length _ := instructionLength
  clocks := Instruction.clocks
  writesProgramCounter instruction := instruction.operation.writesProgramCounter
  hasStaticTarget instruction := instruction.operation.hasStaticTarget
  isUnknown instruction := instruction.operation.isUndefined
  text := Instruction.text

/-- Decodes the instruction that begins at index `start`. -/
def decode (source : ByteSource) (start : Nat) : Except EndOfStream Instruction :=
  match ByteReader.nextDouble source start with
  | .ok (word, _) => .ok (.ofWord word)
  | .error failure => .error failure

end Microprocessor.Arm
