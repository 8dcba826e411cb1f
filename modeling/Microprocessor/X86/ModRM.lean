import Microprocessor.Encoding.ByteSource
import Microprocessor.Word.Field
import Microprocessor.X86.Operand

/-! # The ModRM byte

    The byte after many opcodes names two operands: bits 7 and 6 are the
    mode, bits 5 to 3 a register (or an extension of the opcode), bits 2 to 0
    a register or the registers of a memory operand.

      * mode 11 is a register operand;
      * mode 00 is a memory operand without displacement, except that `r/m`
        110 is a fixed 16-bit offset;
      * modes 01 and 10 add a sign-extended 8-bit or a 16-bit displacement. -/

namespace Microprocessor.X86

/-- The fields of a ModRM byte. -/
structure ModRM where
  mode : UInt8
  reg : UInt8
  rm : UInt8
  deriving DecidableEq

namespace ModRM

/-- The fields of `byte`. -/
def ofByte (byte : UInt8) : ModRM :=
  ⟨byte >>> 6, (byte >>> 3) &&& 7, byte &&& 7⟩

/-- Whether `r/m` names a register. -/
def isRegister (modrm : ModRM) : Bool :=
  modrm.mode == 0b11

/-- The number of displacement bytes that follow. -/
def displacementLength (modrm : ModRM) : Nat :=
  if modrm.mode = 0b00 then
    if modrm.rm = 0b110 then 2 else 0
  else if modrm.mode = 0b01 then 1
  else if modrm.mode = 0b11 then 0
  else 2

/-- Reads the byte. -/
def read : ByteReader ModRM := do
  return ofByte (← ByteReader.nextByte)

/-- Reads the displacement and gives the memory operand.  It makes sense only
    of the modes that are not registers. -/
def readAddress (modrm : ModRM) : ByteReader EffectiveAddress := do
  if modrm.mode = 0b00 then
    if modrm.rm = 0b110 then
      return .direct (← ByteReader.nextWord)
    else
      return ⟨.ofRm modrm.rm, 0, 0⟩
  else if modrm.mode = 0b01 then
    return ⟨.ofRm modrm.rm, signExtendByte (← ByteReader.nextByte), 1⟩
  else
    return ⟨.ofRm modrm.rm, ← ByteReader.nextWord, 2⟩

/-- Reads the operand that `r/m` names. -/
def readOperand (modrm : ModRM) (width : Width) : ByteReader Operand := do
  if modrm.isRegister then
    return .register (.ofIndex width modrm.rm)
  else
    return .memory (← modrm.readAddress)

/-- The register that the `reg` field names. -/
def regOperand (modrm : ModRM) (width : Width) : Operand :=
  .register (.ofIndex width modrm.reg)

end ModRM

/-- Reads an immediate value of a width. -/
def readImmediate : Width → ByteReader UInt16
  | .byte => do return (← ByteReader.nextByte).toUInt16
  | .word => ByteReader.nextWord

end Microprocessor.X86
