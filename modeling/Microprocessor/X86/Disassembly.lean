import Microprocessor.Word.Hexadecimal
import Microprocessor.X86.Operation
import Microprocessor.X86.Prefixes

/-! # 8086 disassembly

    An instruction as assembly text: destination first, hexadecimal numbers
    marked `0x`, memory operands in brackets.

      * a memory operand shows its size where no register does;
      * an override of the segment stands before the brackets;
      * a relative transfer shows the distance of its target from its own
        first byte, after `$`. -/

namespace Microprocessor.X86

/-- The memory operand in brackets: a displacement of one byte as a signed
    number of at least two digits, one of two bytes as four digits. -/
def EffectiveAddress.text (address : EffectiveAddress) : String :=
  match address.base, address.displacementBytes with
  | .direct, _ => "[0x" ++ hex 4 address.displacement.toNat ++ "]"
  | base, 0 => "[" ++ base.text ++ "]"
  | base, 1 =>
    let displacement := address.displacement.toInt16.toInt
    let sign := if displacement < 0 then "-0x" else "+0x"
    "[" ++ base.text ++ sign ++ hex 2 displacement.natAbs ++ "]"
  | base, _ => "[" ++ base.text ++ "+0x" ++ hex 4 address.displacement.toNat ++ "]"

namespace Disassembly

/-- What an operand's text depends on beside the operand. -/
structure Style where
  /-- The segment named by an override. -/
  segment : Option SegmentRegister
  width : Width
  /-- Whether a memory operand shows its size. -/
  sized : Bool

/-- An operand as text. -/
def operand (style : Style) : Operand → String
  | .register register => register.name
  | .segment register => register.name
  | .immediate value =>
    match style.width with
    | .byte => "0x" ++ hex 2 (value &&& 0xFF).toNat
    | .word => "0x" ++ hex 4 value.toNat
  | .memory address =>
    (if style.sized then style.width.text ++ " PTR " else "")
      ++ (match style.segment with
        | some register => register.name ++ ":"
        | none => "")
      ++ address.text

/-- A relative transfer of an encoding `length` bytes long. -/
def relative (mnemonic : String) (length : Nat) (displacement : Int) : String :=
  let distance := displacement + length
  let sign := if distance < 0 then " $-0x" else " $+0x"
  mnemonic ++ sign ++ hex 1 distance.natAbs

/-- The accumulator of a width. -/
def accumulator (width : Width) : String :=
  (Register.accumulator width).name

/-- A port as text. -/
def port : Port → String
  | .immediate number => "0x" ++ hex 2 number.toNat
  | .dx => "DX"

/-- A count of bytes to release, if there are any. -/
def release (mnemonic : String) (pop : UInt16) : String :=
  if pop = 0 then mnemonic else mnemonic ++ " 0x" ++ hex 4 pop.toNat

/-- A number base, unless it is ten. -/
def inBase (mnemonic : String) (base : UInt8) : String :=
  if base = 10 then mnemonic else mnemonic ++ " 0x" ++ hex 2 base.toNat

/-- A far target. -/
def far (mnemonic : String) (segment offset : UInt16) : String :=
  mnemonic ++ " FAR 0x" ++ hex 4 segment.toNat ++ ":0x" ++ hex 4 offset.toNat

/-- The word before a repeated string operation. -/
def repetition (op : StringOp) : Option Repeat → String
  | some .equal => if op.compares then "REPE " else "REP "
  | some .notEqual => "REPNE "
  | none => ""

/-- The operation of an instruction as text. -/
def operation (opcode : UInt8) (prefixes : Prefixes) (length : Nat) (op : Operation) : String :=
  let plain (width : Width) := operand ⟨prefixes.segment, width, false⟩
  let sized (width : Width) := operand ⟨prefixes.segment, width, true⟩
  let two (mnemonic : String) (width : Width) (dst src : Operand) (showSize : Bool) :=
    mnemonic ++ " " ++ operand ⟨prefixes.segment, width, showSize⟩ dst ++ ", " ++ plain width src
  match op with
  | .arith op width dst src => two op.mnemonic width dst src (!src.isRegister && !dst.isRegister)
  | .test width dst src => two "TEST" width dst src (!src.isRegister && !dst.isRegister)
  | .incDec op width target => op.mnemonic ++ " " ++ sized width target
  | .unary op width target => op.mnemonic ++ " " ++ sized width target
  | .mulDiv op width source => op.mnemonic ++ " " ++ sized width source
  | .shift op width target count =>
    op.mnemonic ++ " " ++ sized width target ++
      (match count with
      | .one => ", 1"
      | .cl => ", CL")
  | .mov width dst src => two "MOV" width dst src (src.isImmediate && dst.isMemory)
  | .xchg width a b => if opcode = 0x90 then "NOP" else two "XCHG" width a b false
  | .lea dst address => "LEA " ++ dst.name ++ ", " ++ address.text
  | .loadFarPointer segment dst address =>
    (if segment = .es then "LES " else "LDS ") ++ dst.name ++ ", " ++ plain .word (.memory address)
  | .push target => "PUSH " ++ sized .word target
  | .pop target => "POP " ++ sized .word target
  | .pushFlags => "PUSHF"
  | .popFlags => "POPF"
  | .storeAhIntoFlags => "SAHF"
  | .loadAhFromFlags => "LAHF"
  | .convertByteToWord => "CBW"
  | .convertWordToDouble => "CWD"
  | .translate => "XLAT"
  | .adjust op => op.mnemonic
  | .asciiAdjustMultiply base => inBase "AAM" base
  | .asciiAdjustDivide base => inBase "AAD" base
  | .jumpConditional condition displacement =>
    relative condition.mnemonic length displacement.toInt
  | .jumpRelative displacement => relative "JMP" length displacement.toInt
  | .jumpFar segment offset => far "JMP" segment offset
  | .jumpIndirect target => "JMP " ++ sized .word target
  | .jumpFarIndirect address => "JMP FAR " ++ plain .word (.memory address)
  | .callRelative displacement => relative "CALL" length displacement.toInt
  | .callFar segment offset => far "CALL" segment offset
  | .callIndirect target => "CALL " ++ sized .word target
  | .callFarIndirect address => "CALL FAR " ++ plain .word (.memory address)
  | .ret pop => release "RET" pop
  | .retFar pop => release "RETF" pop
  | .loop op displacement => relative op.mnemonic length displacement.toInt
  | .interrupt vector =>
    if opcode = 0xCC && vector = 3 then "INT3" else "INT 0x" ++ hex 2 vector.toNat
  | .interruptOnOverflow => "INTO"
  | .interruptReturn => "IRET"
  | .string op width =>
    repetition op prefixes.repetition ++ op.mnemonic width ++
      (match prefixes.segment with
      | some register => if op.readsSource then " " ++ register.name ++ ":[SI]" else ""
      | none => "")
  | .input width source => "IN " ++ accumulator width ++ ", " ++ port source
  | .output width target => "OUT " ++ port target ++ ", " ++ accumulator width
  | .flag op => op.mnemonic
  | .halt => "HLT"
  | .wait => "WAIT"
  | .escape number target => "ESC 0x" ++ hex 2 number.toNat ++ ", " ++ plain .word target
  | .unknown => "(bad) 0x" ++ hex 2 opcode.toNat

end Disassembly

end Microprocessor.X86
