/-! # What the pipeline knows of an instruction

    Each instruction set has its own type of decoded instructions.  The
    pipeline needs only how long the encoding was, roughly how long it takes,
    whether it transfers control, and how it reads as text. -/

namespace Microprocessor

/-- Decoded instructions of some instruction set. -/
class Decoded (ι : Type) where
  /-- The numeric opcode. -/
  opcodeNumber : ι → Nat
  /-- The number of bytes of the encoding. -/
  length : ι → Nat
  /-- An estimate of the clock cycles taken to execute. -/
  clocks : ι → Nat
  /-- Whether execution sets the program counter. -/
  writesProgramCounter : ι → Bool
  /-- Whether the target of the transfer is part of the encoding. -/
  hasStaticTarget : ι → Bool
  /-- Whether the encoding was not recognised. -/
  isUnknown : ι → Bool
  /-- The instruction as assembly text. -/
  text : ι → String

end Microprocessor
