import Microprocessor.X86.Register

/-! # 8086 operands

    An operand is a register, a segment register, a memory operand or an
    immediate value.  A memory operand is a sum of registers and a
    displacement, modulo 2^16, within some segment. -/

namespace Microprocessor.X86

/-- The registers summed in a memory operand. -/
inductive AddressBase
  | bxSi
  | bxDi
  | bpSi
  | bpDi
  | si
  | di
  | bp
  | bx
  /-- No register: the displacement is the whole address. -/
  | direct
  deriving DecidableEq

namespace AddressBase

/-- The base that the `r/m` field selects; its low three bits count. -/
def ofRm (rm : UInt8) : AddressBase :=
  match rm.toNat % 8 with
  | 0 => .bxSi
  | 1 => .bxDi
  | 2 => .bpSi
  | 3 => .bpDi
  | 4 => .si
  | 5 => .di
  | 6 => .bp
  | _ => .bx

/-- The base and the index register that are summed. -/
def registers : AddressBase → Option WordRegister × Option WordRegister
  | .bxSi => (some .bx, some .si)
  | .bxDi => (some .bx, some .di)
  | .bpSi => (some .bp, some .si)
  | .bpDi => (some .bp, some .di)
  | .si => (none, some .si)
  | .di => (none, some .di)
  | .bp => (some .bp, none)
  | .bx => (some .bx, none)
  | .direct => (none, none)

/-- Addresses formed from BP lie in the stack segment, others in the data
    segment. -/
def defaultSegment : AddressBase → SegmentRegister
  | .bpSi | .bpDi | .bp => .ss
  | .bxSi | .bxDi | .si | .di | .bx | .direct => .ds

/-- Every base, in the order of the `r/m` field; the last has no number. -/
def all : List AddressBase :=
  [.bxSi, .bxDi, .bpSi, .bpDi, .si, .di, .bp, .bx, .direct]

/-- The name of the base. -/
def name : AddressBase → String
  | .bxSi => "BxSi"
  | .bxDi => "BxDi"
  | .bpSi => "BpSi"
  | .bpDi => "BpDi"
  | .si => "Si"
  | .di => "Di"
  | .bp => "Bp"
  | .bx => "Bx"
  | .direct => "Direct"

/-- The base with a name. -/
def ofName? (name : String) : Option AddressBase :=
  all.find? fun base => base.name == name

/-- The sum as assembly text. -/
def text : AddressBase → String
  | .bxSi => "BX+SI"
  | .bxDi => "BX+DI"
  | .bpSi => "BP+SI"
  | .bpDi => "BP+DI"
  | .si => "SI"
  | .di => "DI"
  | .bp => "BP"
  | .bx => "BX"
  | .direct => ""

end AddressBase

/-- A sum of registers and a displacement. -/
structure EffectiveAddress where
  base : AddressBase
  /-- The displacement; one of 8 bits has been sign-extended. -/
  displacement : UInt16
  /-- The number of displacement bytes in the encoding. -/
  displacementBytes : Nat
  deriving DecidableEq

namespace EffectiveAddress

/-- The memory operand at a fixed offset. -/
def direct (offset : UInt16) : EffectiveAddress :=
  ⟨.direct, offset, 2⟩

/-- The segment through which the operand is reached without an override. -/
def defaultSegment (address : EffectiveAddress) : SegmentRegister :=
  address.base.defaultSegment

end EffectiveAddress

/-- What an operation reads or writes. -/
inductive Operand
  | register (register : Register)
  | segment (register : SegmentRegister)
  | memory (address : EffectiveAddress)
  /-- An immediate value, sign-extended where the encoding says so. -/
  | immediate (value : UInt16)
  deriving DecidableEq

namespace Operand

/-- Whether the operand lies in memory. -/
def isMemory : Operand → Bool
  | .memory _ => true
  | _ => false

/-- Whether the operand is a general register. -/
def isRegister : Operand → Bool
  | .register _ => true
  | _ => false

/-- Whether the operand is an immediate value. -/
def isImmediate : Operand → Bool
  | .immediate _ => true
  | _ => false

/-- Whether the operand is AL or AX. -/
def isAccumulator : Operand → Bool
  | .register r => r = Register.accumulator r.width
  | _ => false

end Operand

/-- How a port instruction names its port. -/
inductive Port
  | immediate (number : UInt8)
  /-- The port whose number is in DX. -/
  | dx
  deriving DecidableEq

end Microprocessor.X86
