import Microprocessor.X86.Operation
import Microprocessor.X86.Prefixes

/-! # 8086 timing estimates

    Base clock counts.  Where the real count depends on run-time data (taken
    branches, shift counts, odd addresses) one representative count stands
    for all. -/

namespace Microprocessor.X86

/-- The clocks taken to form a memory operand's address. -/
def EffectiveAddress.clocks (address : EffectiveAddress) : Nat :=
  let displaced := 0 < address.displacementBytes
  match address.base with
  | .direct => 6
  | .si | .di | .bp | .bx => if displaced then 9 else 5
  | .bpDi | .bxSi => if displaced then 11 else 7
  | .bpSi | .bxDi => if displaced then 12 else 8

/-- The clocks taken to form the operand's address, if it has one. -/
def Operand.addressClocks : Operand → Nat
  | .memory address => address.clocks
  | _ => 0

/-- Whether the operand lies at a fixed offset. -/
def Operand.isDirect : Operand → Bool
  | .memory address => address.base = .direct
  | _ => false

namespace Timing

/-- The clocks of a two-operand arithmetic operation. -/
def arith (op : ArithOp) (dst src : Operand) : Nat :=
  match dst, src with
  | .memory address, .immediate _ => (if op.writesResult then 17 else 10) + address.clocks
  | .memory address, _ => (if op.writesResult then 16 else 9) + address.clocks
  | _, .memory address => 9 + address.clocks
  | _, .immediate _ => 4
  | _, _ => 3

/-- The clocks of a test. -/
def test (dst src : Operand) : Nat :=
  match dst, src with
  | .memory address, .immediate _ => 11 + address.clocks
  | .memory address, _ => 9 + address.clocks
  | _, .immediate _ => if dst.isAccumulator then 4 else 5
  | _, _ => 3

/-- The clocks of a move.  The accumulator has short forms for fixed
    offsets. -/
def mov (dst src : Operand) : Nat :=
  if (dst.isDirect || src.isDirect) && (dst.isAccumulator || src.isAccumulator) then 10
  else
    match dst, src with
    | .memory address, .immediate _ => 10 + address.clocks
    | .memory address, _ => 9 + address.clocks
    | _, .memory address => 8 + address.clocks
    | _, .immediate _ => 4
    | _, _ => 2

/-- The clocks of a multiplication or division, without its operand's
    address. -/
def mulDiv : MulDivOp → Width → Nat
  | .mul, .byte => 77
  | .mul, .word => 133
  | .imul, .byte => 98
  | .imul, .word => 154
  | .div, .byte => 90
  | .div, .word => 162
  | .idiv, .byte => 112
  | .idiv, .word => 184

/-- The clocks of a string operation that is not repeated. -/
def string : StringOp → Nat
  | .movs => 18
  | .cmps => 22
  | .stos => 11
  | .lods => 12
  | .scas => 15

/-- The clocks of an operation without a segment override. -/
def operation (prefixes : Prefixes) : Operation → Nat
  | .arith op _ dst src => arith op dst src
  | .test _ dst src => test dst src
  | .incDec _ width target =>
    match target, width with
    | .memory address, _ => 15 + address.clocks
    | _, .word => 2
    | _, .byte => 3
  | .unary _ _ target =>
    match target with
    | .memory address => 16 + address.clocks
    | _ => 3
  | .mulDiv op width source => mulDiv op width + source.addressClocks
  | .shift _ _ target count =>
    match target, count with
    | .memory address, .one => 15 + address.clocks
    | .memory address, .cl => 20 + address.clocks
    | _, .one => 2
    | _, .cl => 8
  | .mov _ dst src => mov dst src
  | .xchg _ a b =>
    match b with
    | .memory address => 17 + address.clocks
    | _ => if a.isAccumulator then 3 else 4
  | .lea _ address => 2 + address.clocks
  | .loadFarPointer _ _ address => 16 + address.clocks
  | .push operand =>
    match operand with
    | .memory address => 16 + address.clocks
    | .segment _ => 10
    | _ => 11
  | .pop operand =>
    match operand with
    | .memory address => 17 + address.clocks
    | _ => 8
  | .pushFlags => 10
  | .popFlags => 8
  | .storeAhIntoFlags | .loadAhFromFlags => 4
  | .convertByteToWord => 2
  | .convertWordToDouble => 5
  | .translate => 11
  | .adjust .daa | .adjust .das => 4
  | .adjust .aaa | .adjust .aas => 8
  | .asciiAdjustMultiply _ => 83
  | .asciiAdjustDivide _ => 60
  | .jumpConditional .. => 16
  | .jumpRelative _ | .jumpFar .. => 15
  | .jumpIndirect target =>
    match target with
    | .memory address => 18 + address.clocks
    | _ => 11
  | .jumpFarIndirect address => 24 + address.clocks
  | .callRelative _ => 19
  | .callFar .. => 28
  | .callIndirect target =>
    match target with
    | .memory address => 21 + address.clocks
    | _ => 16
  | .callFarIndirect address => 37 + address.clocks
  | .ret pop => if pop = 0 then 8 else 12
  | .retFar pop => if pop = 0 then 18 else 17
  | .loop op _ =>
    match op with
    | .loop => 17
    | .loope | .jcxz => 18
    | .loopne => 19
  | .interrupt vector => if vector = 3 then 52 else 51
  | .interruptOnOverflow => 53
  | .interruptReturn => 24
  | .string op _ => string op + (if prefixes.repetition.isSome then 9 else 0)
  | .input _ port | .output _ port =>
    match port with
    | .immediate _ => 10
    | .dx => 8
  | .flag _ | .halt => 2
  | .wait => 3
  | .escape _ operand =>
    match operand with
    | .memory address => 8 + address.clocks
    | _ => 2
  | .unknown => 2

/-- The clocks of an instruction: an override of the segment takes two. -/
def estimate (operation : Operation) (prefixes : Prefixes) : Nat :=
  Timing.operation prefixes operation + (if prefixes.segment.isSome then 2 else 0)

end Timing

end Microprocessor.X86
