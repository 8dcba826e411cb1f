import Microprocessor.X86.ModRM
import Microprocessor.X86.Operation

/-! # Opcode templates

    A template recognises one family of opcodes by the opcode byte alone, and
    reads the rest of the encoding: ModRM byte, displacement, immediate.  The
    first template of `templates` that recognises an opcode has it.  The
    opcodes whose ModRM byte selects the operation have no template.

    ## How the readers are laid out

    Each family has a test of the opcode byte, given as a bit pattern in its
    comment, and a reader that gets the opcode byte and starts after it. -/

namespace Microprocessor.X86

/-- One family of opcodes. -/
structure Template where
  name : String
  /-- Whether the family has the opcode. -/
  recognises : UInt8 → Bool
  /-- Reads what follows the opcode. -/
  parse : UInt8 → ByteReader Operation

namespace Template

/-! ## Arithmetic -/

/-- Orders the operands by the direction bit: set, the register is written. -/
def directed (opcode : UInt8) (rm reg : Operand) : Operand × Operand :=
  if opcode &&& 0b10 = 0 then (rm, reg) else (reg, rm)

/-- `00xxx0dw`: an operation between a register and `r/m`. -/
def arithRm : Template where
  name := "arith r/m,reg"
  recognises opcode := opcode &&& 0b11000100 == 0
  parse opcode := do
    let width := Width.ofOpcode opcode
    let modrm ← ModRM.read
    let rm ← modrm.readOperand width
    let (dst, src) := directed opcode rm (modrm.regOperand width)
    return .arith (.ofIndex (opcode >>> 3)) width dst src

/-- `00xxx10w`: an operation on the accumulator with an immediate. -/
def arithAccumulator : Template where
  name := "arith acc,imm"
  recognises opcode := opcode &&& 0b11000110 == 0b00000100
  parse opcode := do
    let width := Width.ofOpcode opcode
    let value ← readImmediate width
    let dst := Operand.register (.accumulator width)
    return .arith (.ofIndex (opcode >>> 3)) width dst (.immediate value)

/-- `00100111` to `00111111` in steps of eight: decimal adjustment. -/
def decimalAdjust : Template where
  name := "decimal adjust"
  recognises opcode := opcode &&& 0b11100111 == 0b00100111
  parse opcode := pure <| .adjust <|
    match (opcode >>> 3).toNat % 4 with
    | 0 => .daa
    | 1 => .das
    | 2 => .aaa
    | _ => .aas

/-- `0100drrr`: a word register plus or minus one. -/
def incDecRegister : Template where
  name := "inc/dec reg16"
  recognises opcode := opcode &&& 0xF0 == 0x40
  parse opcode :=
    return .incDec (if opcode &&& 0x08 = 0 then .inc else .dec) .word
      (.register (.word (.ofIndex opcode)))

/-- `1000010w` tests and `1000011w` exchanges a register and `r/m`. -/
def testXchgRm : Template where
  name := "test/xchg r/m,reg"
  recognises opcode := opcode &&& 0xFC == 0x84
  parse opcode := do
    let width := Width.ofOpcode opcode
    let modrm ← ModRM.read
    let rm ← modrm.readOperand width
    let reg := modrm.regOperand width
    return if opcode &&& 0b10 = 0 then .test width rm reg else .xchg width reg rm

/-- `1010100w`: a test of the accumulator with an immediate. -/
def testAccumulator : Template where
  name := "test acc,imm"
  recognises opcode := opcode == 0xA8 || opcode == 0xA9
  parse opcode := do
    let width := Width.ofOpcode opcode
    return .test width (.register (.accumulator width)) (.immediate (← readImmediate width))

/-- `1101010x`: adjustment around a multiplication or division, in a base. -/
def asciiAdjust : Template where
  name := "aam/aad"
  recognises opcode := opcode == 0xD4 || opcode == 0xD5
  parse opcode := do
    let base ← ByteReader.nextByte
    return if opcode = 0xD4 then .asciiAdjustMultiply base else .asciiAdjustDivide base

/-- `1001100x`: sign extension of the accumulator. -/
def convert : Template where
  name := "cbw/cwd"
  recognises opcode := opcode == 0x98 || opcode == 0x99
  parse opcode := return if opcode = 0x98 then .convertByteToWord else .convertWordToDouble

/-! ## Data transfer -/

/-- `000ss110`: a segment register onto the stack. -/
def pushSegment : Template where
  name := "push sreg"
  recognises opcode := opcode &&& 0b11100111 == 0b00000110
  parse opcode := return .push (.segment (.ofIndex (opcode >>> 3)))

/-- `000ss111`: a segment register off the stack.  The slot of CS is not
    assigned. -/
def popSegment : Template where
  name := "pop sreg"
  recognises opcode := opcode &&& 0b11100111 == 0b00000111 && opcode != 0x0F
  parse opcode := return .pop (.segment (.ofIndex (opcode >>> 3)))

/-- `0101drrr`: a word register onto or off the stack. -/
def pushPopRegister : Template where
  name := "push/pop reg16"
  recognises opcode := opcode &&& 0xF0 == 0x50
  parse opcode :=
    let operand : Operand := .register (.word (.ofIndex opcode))
    return if opcode &&& 0x08 = 0 then .push operand else .pop operand

/-- `100010dw`: a move between a register and `r/m`. -/
def movRm : Template where
  name := "mov r/m,reg"
  recognises opcode := opcode &&& 0xFC == 0x88
  parse opcode := do
    let width := Width.ofOpcode opcode
    let modrm ← ModRM.read
    let rm ← modrm.readOperand width
    let (dst, src) := directed opcode rm (modrm.regOperand width)
    return .mov width dst src

/-- `100011d0`: a move between a segment register and `r/m`.  Numbers above
    three name no segment register. -/
def movSegment : Template where
  name := "mov sreg"
  recognises opcode := opcode &&& 0xFD == 0x8C
  parse opcode := do
    let modrm ← ModRM.read
    let rm ← modrm.readOperand .word
    if 3 < modrm.reg then
      return .unknown
    else
      let (dst, src) := directed opcode rm (.segment (.ofIndex modrm.reg))
      return .mov .word dst src

/-- `10001101`: the offset of a memory operand. -/
def lea : Template where
  name := "lea"
  recognises opcode := opcode == 0x8D
  parse _ := do
    let modrm ← ModRM.read
    if modrm.isRegister then
      return .unknown
    else
      return .lea (.ofIndex modrm.reg) (← modrm.readAddress)

/-- `10001111`: the top of the stack into `r/m`. -/
def popRm : Template where
  name := "pop r/m16"
  recognises opcode := opcode == 0x8F
  parse _ := do
    let modrm ← ModRM.read
    let target ← modrm.readOperand .word
    return if modrm.reg = 0 then .pop target else .unknown

/-- `10010rrr`: an exchange with AX. -/
def xchgAccumulator : Template where
  name := "xchg ax,reg16"
  recognises opcode := opcode &&& 0xF8 == 0x90
  parse opcode := return .xchg .word (.register (.word .ax)) (.register (.word (.ofIndex opcode)))

/-- `100111xx`: the flags to and from the stack and AH. -/
def flagsTransfer : Template where
  name := "flags transfer"
  recognises opcode := opcode &&& 0xFC == 0x9C
  parse opcode := pure <|
    match opcode.toNat with
    | 0x9C => .pushFlags
    | 0x9D => .popFlags
    | 0x9E => .storeAhIntoFlags
    | _ => .loadAhFromFlags

/-- `101000dw`: a move between the accumulator and a fixed offset. -/
def movAccumulatorMemory : Template where
  name := "mov acc,moffs"
  recognises opcode := opcode &&& 0xFC == 0xA0
  parse opcode := do
    let width := Width.ofOpcode opcode
    let memory := Operand.memory (.direct (← ByteReader.nextWord))
    let accumulator := Operand.register (.accumulator width)
    return if opcode &&& 0b10 = 0 then .mov width accumulator memory
      else .mov width memory accumulator

/-- `1011wrrr`: an immediate into a register. -/
def movRegisterImmediate : Template where
  name := "mov reg,imm"
  recognises opcode := opcode &&& 0xF0 == 0xB0
  parse opcode := do
    let width : Width := if opcode &&& 0x08 = 0 then .byte else .word
    return .mov width (.register (.ofIndex width opcode)) (.immediate (← readImmediate width))

/-- `1100010x`: an offset and a segment from memory. -/
def loadFarPointer : Template where
  name := "les/lds"
  recognises opcode := opcode == 0xC4 || opcode == 0xC5
  parse opcode := do
    let modrm ← ModRM.read
    if modrm.isRegister then
      return .unknown
    else
      return .loadFarPointer (if opcode = 0xC4 then .es else .ds) (.ofIndex modrm.reg)
        (← modrm.readAddress)

/-- `1100011w`: an immediate into `r/m`. -/
def movRmImmediate : Template where
  name := "mov r/m,imm"
  recognises opcode := opcode == 0xC6 || opcode == 0xC7
  parse opcode := do
    let width := Width.ofOpcode opcode
    let modrm ← ModRM.read
    let dst ← modrm.readOperand width
    let value ← readImmediate width
    return if modrm.reg = 0 then .mov width dst (.immediate value) else .unknown

/-- `11010111`: a look-up of AL in a table. -/
def translate : Template where
  name := "xlat"
  recognises opcode := opcode == 0xD7
  parse _ := return .translate

/-- `1110x1dw`: a transfer between the accumulator and a port. -/
def portTransfer : Template where
  name := "in/out"
  recognises opcode := opcode &&& 0xF4 == 0xE4
  parse opcode := do
    let width := Width.ofOpcode opcode
    let port ← if opcode &&& 0x08 = 0 then Port.immediate <$> ByteReader.nextByte else pure Port.dx
    return if opcode &&& 0b10 = 0 then .input width port else .output width port

/-! ## Control transfer -/

/-- `0111cccc`: a conditional jump. -/
def conditionalJump : Template where
  name := "jcc"
  recognises opcode := opcode &&& 0xF0 == 0x70
  parse opcode := do
    return .jumpConditional (.ofIndex opcode) (← ByteReader.nextByte).toInt8

/-- `10011010`: a call to a segment and an offset. -/
def callFar : Template where
  name := "call far"
  recognises opcode := opcode == 0x9A
  parse _ := do
    let offset ← ByteReader.nextWord
    let segment ← ByteReader.nextWord
    return .callFar segment offset

/-- `1100f01x`: a near or far return, with or without a count of bytes. -/
def ret : Template where
  name := "ret"
  recognises opcode := opcode &&& 0xF6 == 0xC2
  parse opcode := do
    let pop ← if opcode &&& 1 = 0 then ByteReader.nextWord else pure 0
    return if opcode &&& 0x08 = 0 then .ret pop else .retFar pop

/-- `110011xx`: software interrupts, and the return from an interrupt. -/
def interrupt : Template where
  name := "int/into/iret"
  recognises opcode := opcode &&& 0xFC == 0xCC
  parse opcode :=
    match opcode.toNat with
    | 0xCC => return .interrupt 3
    | 0xCD => do return .interrupt (← ByteReader.nextByte)
    | 0xCE => return .interruptOnOverflow
    | _ => return .interruptReturn

/-- `111000xx`: the branches on CX. -/
def loop : Template where
  name := "loop/jcxz"
  recognises opcode := opcode &&& 0xFC == 0xE0
  parse opcode := do
    let op : LoopOp := match opcode.toNat with
      | 0xE0 => .loopne
      | 0xE1 => .loope
      | 0xE2 => .loop
      | _ => .jcxz
    return .loop op (← ByteReader.nextByte).toInt8

/-- `111010xx`: calls and jumps to an encoded target. -/
def callJump : Template where
  name := "call/jmp"
  recognises opcode := opcode &&& 0xFC == 0xE8
  parse opcode :=
    match opcode.toNat with
    | 0xE8 => do return .callRelative (← ByteReader.nextWord).toInt16
    | 0xE9 => do return .jumpRelative (← ByteReader.nextWord).toInt16
    | 0xEA => do
      let offset ← ByteReader.nextWord
      let segment ← ByteReader.nextWord
      return .jumpFar segment offset
    | _ => do return .jumpRelative (← ByteReader.nextByte).toInt8.toInt16

/-! ## Strings and processor control -/

/-- `10011011`: a wait for the coprocessor. -/
def wait : Template where
  name := "wait"
  recognises opcode := opcode == 0x9B
  parse _ := return .wait

/-- `101001xx` and `1010101x` to `1010111x`: the string operations. -/
def string : Template where
  name := "string"
  recognises opcode := opcode &&& 0xFC == 0xA4 || (0xAA ≤ opcode && opcode ≤ 0xAF)
  parse opcode :=
    let op : StringOp := match (opcode &&& 0xFE).toNat with
      | 0xA4 => .movs
      | 0xA6 => .cmps
      | 0xAA => .stos
      | 0xAC => .lods
      | _ => .scas
    return .string op (Width.ofOpcode opcode)

/-- `11011xxx`: an instruction for the coprocessor. -/
def escape : Template where
  name := "esc"
  recognises opcode := opcode &&& 0xF8 == 0xD8
  parse opcode := do
    let modrm ← ModRM.read
    let operand ← modrm.readOperand .word
    return .escape (((opcode &&& 7) <<< 3) ||| modrm.reg) operand

/-- `11110100`: a halt until the next interrupt. -/
def halt : Template where
  name := "hlt"
  recognises opcode := opcode == 0xF4
  parse _ := return .halt

/-- `11110101` and `11111000` to `11111101`: operations on one flag. -/
def flagOperation : Template where
  name := "flag operation"
  recognises opcode := opcode == 0xF5 || (0xF8 ≤ opcode && opcode ≤ 0xFD)
  parse opcode := pure <| .flag <|
    match opcode.toNat with
    | 0xF5 => .cmc
    | 0xF8 => .clc
    | 0xF9 => .stc
    | 0xFA => .cli
    | 0xFB => .sti
    | 0xFC => .cld
    | _ => .std

end Template

/-! ## The table -/

/-- The templates, in order of priority. -/
def templates : List Template :=
  [ .arithRm, .arithAccumulator, .pushSegment, .popSegment, .decimalAdjust, .incDecRegister,
    .pushPopRegister, .conditionalJump, .testXchgRm, .movRm, .movSegment, .lea, .popRm,
    .xchgAccumulator, .convert, .callFar, .wait, .flagsTransfer, .movAccumulatorMemory, .string,
    .testAccumulator, .movRegisterImmediate, .ret, .loadFarPointer, .movRmImmediate,
    .interrupt, .asciiAdjust, .translate, .escape, .loop, .portTransfer, .callJump, .halt,
    .flagOperation ]

/-- The template that has an opcode, if any. -/
def findTemplate (opcode : UInt8) : Option Template :=
  templates.find? fun template => template.recognises opcode

/-- The names of the templates, in order of priority. -/
def templateNames : List String :=
  templates.map Template.name

end Microprocessor.X86
