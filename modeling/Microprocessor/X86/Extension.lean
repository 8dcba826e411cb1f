import Microprocessor.X86.ModRM
import Microprocessor.X86.Operation

/-! # Extension opcodes

    For some opcodes the `reg` field of the ModRM byte selects the operation.
    The slots left unassigned read the whole encoding and then give `unknown`,
    so that the length of the instruction is right all the same. -/

namespace Microprocessor.X86.Extension

/-- `100000sw`: arithmetic with an immediate.  Opcode 83 sign-extends a byte
    to a word; opcode 82 is another spelling of 80. -/
def immediate (opcode : UInt8) : ByteReader Operation := do
  let width := Width.ofOpcode opcode
  let modrm ← ModRM.read
  let dst ← modrm.readOperand width
  let value ← if opcode = 0x83 then signExtendByte <$> ByteReader.nextByte else readImmediate width
  return .arith (.ofIndex modrm.reg) width dst (.immediate value)

/-- The shift that the `reg` field selects. -/
def shiftOp? (reg : UInt8) : Option ShiftOp :=
  match reg.toNat with
  | 0 => some .rol
  | 1 => some .ror
  | 2 => some .rcl
  | 3 => some .rcr
  | 4 => some .shl
  | 5 => some .shr
  | 6 => none
  | _ => some .sar

/-- `110100cw`: shifts and rotates by one or by CL. -/
def shift (opcode : UInt8) : ByteReader Operation := do
  let width := Width.ofOpcode opcode
  let modrm ← ModRM.read
  let target ← modrm.readOperand width
  match shiftOp? modrm.reg with
  | some op => return .shift op width target (if opcode &&& 0b10 = 0 then .one else .cl)
  | none => return .unknown

/-- `1111011w`: test with an immediate in slots 0 and 1, complement,
    negation, multiplication and division. -/
def unary (opcode : UInt8) : ByteReader Operation := do
  let width := Width.ofOpcode opcode
  let modrm ← ModRM.read
  let target ← modrm.readOperand width
  match modrm.reg.toNat with
  | 0 | 1 => return .test width target (.immediate (← readImmediate width))
  | 2 => return .unary .not width target
  | 3 => return .unary .neg width target
  | 4 => return .mulDiv .mul width target
  | 5 => return .mulDiv .imul width target
  | 6 => return .mulDiv .div width target
  | _ => return .mulDiv .idiv width target

/-- `11111110`: a byte plus or minus one. -/
def incDecByte : ByteReader Operation := do
  let modrm ← ModRM.read
  let target ← modrm.readOperand .byte
  match modrm.reg.toNat with
  | 0 => return .incDec .inc .byte target
  | 1 => return .incDec .dec .byte target
  | _ => return .unknown

/-- `11111111`: a word plus or minus one, calls and jumps to a computed
    target, and push.  The far forms take their target from memory only. -/
def word : ByteReader Operation := do
  let modrm ← ModRM.read
  let target ← modrm.readOperand .word
  match modrm.reg.toNat, target with
  | 0, _ => return .incDec .inc .word target
  | 1, _ => return .incDec .dec .word target
  | 2, _ => return .callIndirect target
  | 3, .memory address => return .callFarIndirect address
  | 4, _ => return .jumpIndirect target
  | 5, .memory address => return .jumpFarIndirect address
  | 6, _ => return .push target
  | _, _ => return .unknown

/-- The reader of what follows an extension opcode; none for other opcodes. -/
def reader? (opcode : UInt8) : Option (ByteReader Operation) :=
  match opcode.toNat with
  | 0x80 | 0x81 | 0x82 | 0x83 => some (immediate opcode)
  | 0xD0 | 0xD1 | 0xD2 | 0xD3 => some (shift opcode)
  | 0xF6 | 0xF7 => some (unary opcode)
  | 0xFE => some incDecByte
  | 0xFF => some word
  | _ => none

end Microprocessor.X86.Extension
