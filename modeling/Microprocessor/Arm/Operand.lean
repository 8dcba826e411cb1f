import Microprocessor.Word.Field
import Microprocessor.Word.Hexadecimal

/-! # A32 operands

    The parts that A32 instruction words are made of: registers, conditions,
    data-processing operations, the flexible second operand, and the offsets
    and indexing of loads and stores. -/

namespace Microprocessor.Arm

/-- One of the sixteen core registers. -/
structure Register where
  number : Fin 16
  deriving DecidableEq

namespace Register

/-- The register with a number, of which the low four bits count. -/
def ofNumber (n : Nat) : Register :=
  ⟨Fin.ofNat 16 n⟩

/-- The register named in bits `low + 3` down to `low` of an instruction. -/
def ofField (word : UInt32) (low : Nat) : Register :=
  ofNumber (field word (low + 3) low).toNat

/-- The stack pointer. -/
def sp : Register := ⟨13⟩

/-- The link register. -/
def lr : Register := ⟨14⟩

/-- The program counter. -/
def pc : Register := ⟨15⟩

/-- Whether the register is the program counter. -/
def isPc (register : Register) : Bool :=
  register.number == 15

/-- The register's name. -/
def name (register : Register) : String :=
  match register.number.val with
  | 13 => "SP"
  | 14 => "LR"
  | 15 => "PC"
  | n => "R" ++ toString n

/-- Every register, in the order of the numbers. -/
def all : List Register :=
  (List.range 16).map ofNumber

/-- The register with a name. -/
def ofName? (name : String) : Option Register :=
  all.find? fun register => register.name == name

end Register

/-- The condition of an instruction, in the order of its field. -/
inductive Condition
  | eq | ne | cs | cc | mi | pl | vs | vc | hi | ls | ge | lt | gt | le
  | always
  /-- The space of instructions without a condition. -/
  | unconditional
  deriving DecidableEq

namespace Condition

/-- The condition with a number, of which the low four bits count. -/
def ofField (n : UInt32) : Condition :=
  match n.toNat % 16 with
  | 0 => .eq
  | 1 => .ne
  | 2 => .cs
  | 3 => .cc
  | 4 => .mi
  | 5 => .pl
  | 6 => .vs
  | 7 => .vc
  | 8 => .hi
  | 9 => .ls
  | 10 => .ge
  | 11 => .lt
  | 12 => .gt
  | 13 => .le
  | 14 => .always
  | _ => .unconditional

/-- The condition's number. -/
def field : Condition → Nat
  | .eq => 0
  | .ne => 1
  | .cs => 2
  | .cc => 3
  | .mi => 4
  | .pl => 5
  | .vs => 6
  | .vc => 7
  | .hi => 8
  | .ls => 9
  | .ge => 10
  | .lt => 11
  | .gt => 12
  | .le => 13
  | .always => 14
  | .unconditional => 15

/-- Whether the condition holds of the flags N, Z, C and V. -/
def holds (n z c v : Bool) : Condition → Bool
  | .eq => z
  | .ne => !z
  | .cs => c
  | .cc => !c
  | .mi => n
  | .pl => !n
  | .vs => v
  | .vc => !v
  | .hi => c && !z
  | .ls => !c || z
  | .ge => n == v
  | .lt => n != v
  | .gt => !z && n == v
  | .le => z || n != v
  | .always | .unconditional => true

/-- The ending of a mnemonic. -/
def suffix : Condition → String
  | .eq => "EQ"
  | .ne => "NE"
  | .cs => "CS"
  | .cc => "CC"
  | .mi => "MI"
  | .pl => "PL"
  | .vs => "VS"
  | .vc => "VC"
  | .hi => "HI"
  | .ls => "LS"
  | .ge => "GE"
  | .lt => "LT"
  | .gt => "GT"
  | .le => "LE"
  | .always | .unconditional => ""

end Condition

/-- The data-processing operations, in the order of their field. -/
inductive DataOp
  | and | eor | sub | rsb | add | adc | sbc | rsc
  | tst | teq | cmp | cmn | orr | mov | bic | mvn
  deriving DecidableEq

namespace DataOp

/-- The operation with a number, of which the low four bits count. -/
def ofField (n : UInt32) : DataOp :=
  match n.toNat % 16 with
  | 0 => .and
  | 1 => .eor
  | 2 => .sub
  | 3 => .rsb
  | 4 => .add
  | 5 => .adc
  | 6 => .sbc
  | 7 => .rsc
  | 8 => .tst
  | 9 => .teq
  | 10 => .cmp
  | 11 => .cmn
  | 12 => .orr
  | 13 => .mov
  | 14 => .bic
  | _ => .mvn

/-- The comparisons only set flags. -/
def isComparison : DataOp → Bool
  | .tst | .teq | .cmp | .cmn => true
  | _ => false

/-- The moves do not use the first operand. -/
def isMove : DataOp → Bool
  | .mov | .mvn => true
  | _ => false

/-- The logical operations take their carry from the shifter. -/
def isLogical : DataOp → Bool
  | .and | .eor | .tst | .teq | .orr | .mov | .bic | .mvn => true
  | .sub | .rsb | .add | .adc | .sbc | .rsc | .cmp | .cmn => false

/-- The operation's name in assembly text. -/
def mnemonic : DataOp → String
  | .and => "AND"
  | .eor => "EOR"
  | .sub => "SUB"
  | .rsb => "RSB"
  | .add => "ADD"
  | .adc => "ADC"
  | .sbc => "SBC"
  | .rsc => "RSC"
  | .tst => "TST"
  | .teq => "TEQ"
  | .cmp => "CMP"
  | .cmn => "CMN"
  | .orr => "ORR"
  | .mov => "MOV"
  | .bic => "BIC"
  | .mvn => "MVN"

end DataOp

/-- The kinds of shift, in the order of their field. -/
inductive ShiftKind
  | lsl | lsr | asr
  /-- A rotation; through the carry if the encoded amount is zero. -/
  | ror
  deriving DecidableEq

namespace ShiftKind

/-- The kind with a number, of which the low two bits count. -/
def ofField (n : UInt32) : ShiftKind :=
  match n.toNat % 4 with
  | 0 => .lsl
  | 1 => .lsr
  | 2 => .asr
  | _ => .ror

/-- The shift's name in assembly text. -/
def name : ShiftKind → String
  | .lsl => "LSL"
  | .lsr => "LSR"
  | .asr => "ASR"
  | .ror => "ROR"

end ShiftKind

/-- By how much a register operand is shifted. -/
inductive ShiftAmount
  | immediate (amount : UInt8)
  | register (rs : Register)
  deriving DecidableEq

/-- `value` rotated right by `amount` places of 32. -/
def rotateRight (value : UInt32) (amount : Nat) : UInt32 :=
  UInt32.ofBitVec (value.toBitVec.rotateRight amount)

/-- The flexible second operand of data processing. -/
inductive ShifterOperand
  /-- A byte rotated right by twice the rotate field. -/
  | immediate (imm8 : UInt8) (rotate : UInt8)
  | register (rm : Register) (shift : ShiftKind) (amount : ShiftAmount)
  deriving DecidableEq

namespace ShifterOperand

/-- The value of an immediate operand. -/
def immediateValue? : ShifterOperand → Option UInt32
  | .immediate imm8 rotate => some (rotateRight imm8.toUInt32 (2 * rotate.toNat))
  | .register .. => none

/-- The operand as assembly text.  An encoded amount of zero stands for no
    shift, a shift by 32, or a rotation through the carry. -/
def text : ShifterOperand → String
  | .immediate imm8 rotate =>
    "#" ++ markedHex 1 (rotateRight imm8.toUInt32 (2 * rotate.toNat)).toNat
  | .register rm shift (.register rs) => rm.name ++ ", " ++ shift.name ++ " " ++ rs.name
  | .register rm shift (.immediate amount) =>
    rm.name ++
      if amount = 0 then
        match shift with
        | .lsl => ""
        | .ror => ", RRX"
        | .lsr | .asr => ", " ++ shift.name ++ " #32"
      else ", " ++ shift.name ++ " #" ++ toString amount.toNat

end ShifterOperand

/-- The offset of a word or byte transfer. -/
inductive TransferOffset
  | immediate (offset : UInt16)
  | register (rm : Register) (shift : ShiftKind) (amount : UInt8)
  deriving DecidableEq

/-- The offset of a halfword, signed or doubleword transfer. -/
inductive HalfwordOffset
  | immediate (offset : UInt8)
  | register (rm : Register)
  deriving DecidableEq

/-- How a transfer uses its base register. -/
structure Indexing where
  /-- The offset is applied before the transfer. -/
  preIndex : Bool
  /-- The offset is added and not subtracted. -/
  add : Bool
  /-- The address goes back to the base register. -/
  writeBack : Bool
  deriving DecidableEq

namespace Indexing

/-- Bits 24, 23 and 21 of an instruction. -/
def ofWord (word : UInt32) : Indexing :=
  ⟨bit word 24, bit word 23, bit word 21⟩

/-- A transfer that applies its offset afterwards always writes back. -/
def writesBack (indexing : Indexing) : Bool :=
  indexing.writeBack || !indexing.preIndex

end Indexing

/-- What a halfword transfer moves. -/
inductive HalfwordKind
  | unsignedHalf
  | signedByte
  | signedHalf
  /-- Two words, in a pair of registers. -/
  | double
  deriving DecidableEq

end Microprocessor.Arm
