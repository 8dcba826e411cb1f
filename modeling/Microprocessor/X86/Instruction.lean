import Microprocessor.Encoding.Decoded
import Microprocessor.X86.Disassembly
import Microprocessor.X86.Extension
import Microprocessor.X86.Template
import Microprocessor.X86.Timing

/-! # Decoding of 8086 instructions

    An encoding is up to four modifier bytes, an opcode byte, and what its
    template or extension reads after it.  Decoding fails only where the
    source has no byte; an opcode that nothing recognises decodes as
    `unknown`.

      * `decode` reads the instruction at an index of a source;
      * `Instruction.length` counts every byte it consumed. -/

namespace Microprocessor.X86

/-- A decoded instruction. -/
structure Instruction where
  /-- The first byte after the modifiers. -/
  opcode : UInt8
  prefixes : Prefixes
  operation : Operation
  /-- The number of bytes of the encoding, modifiers included. -/
  length : Nat
  /-- An estimate of the clock cycles taken to execute. -/
  clocks : Nat
  deriving DecidableEq

namespace Instruction

/-- The segment through which a memory operand is reached. -/
def segmentFor (instruction : Instruction) (address : EffectiveAddress) : SegmentRegister :=
  instruction.prefixes.segment.getD address.defaultSegment

/-- The instruction as assembly text. -/
def text (instruction : Instruction) : String :=
  (if instruction.prefixes.lock then "LOCK " else "")
    ++ Disassembly.operation instruction.opcode instruction.prefixes instruction.length
      instruction.operation

/-- Whether the encoding was not recognised. -/
def isUnknown (instruction : Instruction) : Bool :=
  match instruction.operation with
  | .unknown => true
  | _ => false

end Instruction

instance : Decoded Instruction where
  opcodeNumber instruction := instruction.opcode.toNat
  length := Instruction.length
  clocks := Instruction.clocks
  writesProgramCounter instruction := instruction.operation.writesProgramCounter
  hasStaticTarget instruction := instruction.operation.hasStaticTarget
  isUnknown := Instruction.isUnknown
  text := Instruction.text

/-- Reads what follows an opcode. -/
def readOperation (opcode : UInt8) : ByteReader Operation :=
  match findTemplate opcode with
  | some template => template.parse opcode
  | none =>
    match Extension.reader? opcode with
    | some reader => reader
    | none => pure .unknown

/-- Reads the modifiers, the opcode and the operation. -/
def readEncoding : ByteReader (Prefixes × UInt8 × Operation) := do
  let prefixes ← Prefixes.read
  let opcode ← ByteReader.nextByte
  let operation ← readOperation opcode
  return (prefixes, opcode, operation)

/-- Decodes the instruction that begins at index `start`. -/
def decode (source : ByteSource) (start : Nat) : Except EndOfStream Instruction :=
  match readEncoding source start with
  | .ok ((prefixes, opcode, operation), stop) =>
    .ok ⟨opcode, prefixes, operation, stop - start, Timing.estimate operation prefixes⟩
  | .error failure => .error failure

end Microprocessor.X86
