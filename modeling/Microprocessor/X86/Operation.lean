import Microprocessor.X86.Operand

/-! # 8086 operations

    Every recognised encoding decodes to one operation with just the operands
    it needs; every other encoding is the operation `unknown`. -/

namespace Microprocessor.X86

/-- The two-operand arithmetic and logic operations, in encoding order. -/
inductive ArithOp
  | add | or | adc | sbb | and | sub | xor | cmp
  deriving DecidableEq

namespace ArithOp

/-- The operation with a number, of which the low three bits count. -/
def ofIndex (n : UInt8) : ArithOp :=
  match n.toNat % 8 with
  | 0 => .add
  | 1 => .or
  | 2 => .adc
  | 3 => .sbb
  | 4 => .and
  | 5 => .sub
  | 6 => .xor
  | _ => .cmp

/-- A comparison sets the flags and drops the result. -/
def writesResult : ArithOp → Bool
  | .cmp => false
  | .add | .or | .adc | .sbb | .and | .sub | .xor => true

/-- The operation's name in assembly text. -/
def mnemonic : ArithOp → String
  | .add => "ADD"
  | .or => "OR"
  | .adc => "ADC"
  | .sbb => "SBB"
  | .and => "AND"
  | .sub => "SUB"
  | .xor => "XOR"
  | .cmp => "CMP"

end ArithOp

/-- Adding one, or taking one away. -/
inductive IncDecOp
  | inc | dec
  deriving DecidableEq

/-- The operation's name in assembly text. -/
def IncDecOp.mnemonic : IncDecOp → String
  | .inc => "INC"
  | .dec => "DEC"

/-- Complement, and negation. -/
inductive UnaryOp
  | not | neg
  deriving DecidableEq

/-- The operation's name in assembly text. -/
def UnaryOp.mnemonic : UnaryOp → String
  | .not => "NOT"
  | .neg => "NEG"

/-- Multiplication and division, unsigned and signed. -/
inductive MulDivOp
  | mul | imul | div | idiv
  deriving DecidableEq

/-- The operation's name in assembly text. -/
def MulDivOp.mnemonic : MulDivOp → String
  | .mul => "MUL"
  | .imul => "IMUL"
  | .div => "DIV"
  | .idiv => "IDIV"

/-- Rotates and shifts. -/
inductive ShiftOp
  | rol | ror | rcl | rcr | shl | shr | sar
  deriving DecidableEq

/-- The operation's name in assembly text. -/
def ShiftOp.mnemonic : ShiftOp → String
  | .rol => "ROL"
  | .ror => "ROR"
  | .rcl => "RCL"
  | .rcr => "RCR"
  | .shl => "SHL"
  | .shr => "SHR"
  | .sar => "SAR"

/-- By how many places a shift instruction shifts. -/
inductive ShiftCount
  | one
  /-- By as many places as CL says. -/
  | cl
  deriving DecidableEq

/-- The string operations. -/
inductive StringOp
  | movs | cmps | stos | lods | scas
  deriving DecidableEq

namespace StringOp

/-- The comparing operations end a repetition early, as ZF says. -/
def compares : StringOp → Bool
  | .cmps | .scas => true
  | .movs | .stos | .lods => false

/-- Whether the operation reads from the source string. -/
def readsSource : StringOp → Bool
  | .movs | .cmps | .lods => true
  | .stos | .scas => false

/-- The operation's name in assembly text. -/
def mnemonic : StringOp → Width → String
  | .movs, .byte => "MOVSB"
  | .movs, .word => "MOVSW"
  | .cmps, .byte => "CMPSB"
  | .cmps, .word => "CMPSW"
  | .stos, .byte => "STOSB"
  | .stos, .word => "STOSW"
  | .lods, .byte => "LODSB"
  | .lods, .word => "LODSW"
  | .scas, .byte => "SCASB"
  | .scas, .word => "SCASW"

end StringOp

/-- The decimal and ASCII adjustments without an operand. -/
inductive AdjustOp
  | daa | das | aaa | aas
  deriving DecidableEq

/-- The operation's name in assembly text. -/
def AdjustOp.mnemonic : AdjustOp → String
  | .daa => "DAA"
  | .das => "DAS"
  | .aaa => "AAA"
  | .aas => "AAS"

/-- The operations on a single flag. -/
inductive FlagOp
  | clc | stc | cmc | cli | sti | cld | std
  deriving DecidableEq

/-- The operation's name in assembly text. -/
def FlagOp.mnemonic : FlagOp → String
  | .clc => "CLC"
  | .stc => "STC"
  | .cmc => "CMC"
  | .cli => "CLI"
  | .sti => "STI"
  | .cld => "CLD"
  | .std => "STD"

/-- The branches on CX. -/
inductive LoopOp
  | loopne | loope | loop | jcxz
  deriving DecidableEq

/-- The operation's name in assembly text. -/
def LoopOp.mnemonic : LoopOp → String
  | .loopne => "LOOPNE"
  | .loope => "LOOPE"
  | .loop => "LOOP"
  | .jcxz => "JCXZ"

/-- The branch conditions, in encoding order. -/
inductive Condition
  | overflow
  | notOverflow
  | below
  | aboveOrEqual
  | equal
  | notEqual
  | belowOrEqual
  | above
  | sign
  | notSign
  | parity
  | notParity
  | less
  | greaterOrEqual
  | lessOrEqual
  | greater
  deriving DecidableEq

namespace Condition

/-- The condition with a number, of which the low four bits count. -/
def ofIndex (n : UInt8) : Condition :=
  match n.toNat % 16 with
  | 0 => .overflow
  | 1 => .notOverflow
  | 2 => .below
  | 3 => .aboveOrEqual
  | 4 => .equal
  | 5 => .notEqual
  | 6 => .belowOrEqual
  | 7 => .above
  | 8 => .sign
  | 9 => .notSign
  | 10 => .parity
  | 11 => .notParity
  | 12 => .less
  | 13 => .greaterOrEqual
  | 14 => .lessOrEqual
  | _ => .greater

/-- The conditions of odd number are the negations of those before them. -/
def isNegated : Condition → Bool
  | .overflow | .below | .equal | .belowOrEqual | .sign | .parity | .less | .lessOrEqual => false
  | .notOverflow | .aboveOrEqual | .notEqual | .above | .notSign | .notParity
  | .greaterOrEqual | .greater => true

/-- The name of the jump in assembly text. -/
def mnemonic : Condition → String
  | .overflow => "JO"
  | .notOverflow => "JNO"
  | .below => "JB"
  | .aboveOrEqual => "JAE"
  | .equal => "JE"
  | .notEqual => "JNE"
  | .belowOrEqual => "JBE"
  | .above => "JA"
  | .sign => "JS"
  | .notSign => "JNS"
  | .parity => "JP"
  | .notParity => "JNP"
  | .less => "JL"
  | .greaterOrEqual => "JGE"
  | .lessOrEqual => "JLE"
  | .greater => "JG"

end Condition

/-- What an instruction does. -/
inductive Operation
  | arith (op : ArithOp) (width : Width) (dst src : Operand)
  | test (width : Width) (dst src : Operand)
  | incDec (op : IncDecOp) (width : Width) (target : Operand)
  | unary (op : UnaryOp) (width : Width) (target : Operand)
  | mulDiv (op : MulDivOp) (width : Width) (source : Operand)
  | shift (op : ShiftOp) (width : Width) (target : Operand) (count : ShiftCount)
  | mov (width : Width) (dst src : Operand)
  | xchg (width : Width) (a b : Operand)
  | lea (dst : WordRegister) (address : EffectiveAddress)
  /-- LES and LDS. -/
  | loadFarPointer (segment : SegmentRegister) (dst : WordRegister) (address : EffectiveAddress)
  | push (operand : Operand)
  | pop (operand : Operand)
  | pushFlags
  | popFlags
  | storeAhIntoFlags
  | loadAhFromFlags
  | convertByteToWord
  | convertWordToDouble
  | translate
  | adjust (op : AdjustOp)
  | asciiAdjustMultiply (base : UInt8)
  | asciiAdjustDivide (base : UInt8)
  | jumpConditional (condition : Condition) (displacement : Int8)
  | jumpRelative (displacement : Int16)
  | jumpFar (segment offset : UInt16)
  | jumpIndirect (target : Operand)
  | jumpFarIndirect (address : EffectiveAddress)
  | callRelative (displacement : Int16)
  | callFar (segment offset : UInt16)
  | callIndirect (target : Operand)
  | callFarIndirect (address : EffectiveAddress)
  /-- A near return that releases `pop` more bytes of the stack. -/
  | ret (pop : UInt16)
  /-- A far return that releases `pop` more bytes of the stack. -/
  | retFar (pop : UInt16)
  | loop (op : LoopOp) (displacement : Int8)
  | interrupt (vector : UInt8)
  | interruptOnOverflow
  | interruptReturn
  | string (op : StringOp) (width : Width)
  | input (width : Width) (port : Port)
  | output (width : Width) (port : Port)
  | flag (op : FlagOp)
  | halt
  | wait
  /-- An instruction for a coprocessor; its operand is decoded and not used. -/
  | escape (opcode : UInt8) (operand : Operand)
  | unknown
  deriving DecidableEq

namespace Operation

/-- Whether execution sets CS:IP other than by moving on. -/
def writesProgramCounter : Operation → Bool
  | .jumpConditional .. | .jumpRelative .. | .jumpFar .. | .jumpIndirect .. | .jumpFarIndirect ..
  | .callRelative .. | .callFar .. | .callIndirect .. | .callFarIndirect ..
  | .ret .. | .retFar .. | .loop .. | .interrupt .. | .interruptOnOverflow
  | .interruptReturn => true
  | _ => false

/-- Whether the target of the transfer is part of the encoding. -/
def hasStaticTarget : Operation → Bool
  | .jumpConditional .. | .jumpRelative .. | .jumpFar .. | .callRelative .. | .callFar ..
  | .loop .. => true
  | _ => false

end Operation

end Microprocessor.X86
