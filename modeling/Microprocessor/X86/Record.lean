import Microprocessor.Encoding.Record
import Microprocessor.X86.Instruction
import Microprocessor.X86.RegisterFile

/-! # Records of 8086 instructions

    The operation of an instruction is shown as the name of its case with its
    fields, as far as it has any.  Registers are shown by name, immediate
    values and addresses as numbers, displacements with their sign. -/

namespace Microprocessor.X86

/-! ## Operands -/

instance : JsonForm ByteRegister := ⟨fun register => register.name⟩

instance : JsonForm WordRegister := ⟨fun register => register.name⟩

instance : JsonForm SegmentRegister := ⟨fun register => register.name⟩

instance : JsonForm Register where
  form
    | .byte register => .tagged "Byte" register
    | .word register => .tagged "Word" register

instance : JsonForm AddressBase := ⟨fun base => base.name⟩

instance : JsonForm EffectiveAddress where
  form address :=
    .object
      [("base", address.base),
        ("displacement", address.displacement),
        ("displacement_bytes", address.displacementBytes)]

instance : JsonForm Operand where
  form
    | .register register => .tagged "Register" register
    | .segment register => .tagged "Segment" register
    | .memory address => .tagged "Memory" address
    | .immediate value => .tagged "Immediate" value

instance : JsonForm Port where
  form
    | .immediate number => .tagged "Immediate" number
    | .dx => "Dx"

instance : JsonForm ShiftCount where
  form
    | .one => "One"
    | .cl => "Cl"

/-! ## Kinds of operations -/

/-- The name of a condition in records. -/
def Condition.name : Condition → String
  | .overflow => "Overflow"
  | .notOverflow => "NotOverflow"
  | .below => "Below"
  | .aboveOrEqual => "AboveOrEqual"
  | .equal => "Equal"
  | .notEqual => "NotEqual"
  | .belowOrEqual => "BelowOrEqual"
  | .above => "Above"
  | .sign => "Sign"
  | .notSign => "NotSign"
  | .parity => "Parity"
  | .notParity => "NotParity"
  | .less => "Less"
  | .greaterOrEqual => "GreaterOrEqual"
  | .lessOrEqual => "LessOrEqual"
  | .greater => "Greater"

instance : JsonForm Condition := ⟨fun condition => condition.name⟩

instance : JsonForm ArithOp := ⟨fun op => capitalised op.mnemonic⟩

instance : JsonForm IncDecOp := ⟨fun op => capitalised op.mnemonic⟩

instance : JsonForm UnaryOp := ⟨fun op => capitalised op.mnemonic⟩

instance : JsonForm MulDivOp := ⟨fun op => capitalised op.mnemonic⟩

instance : JsonForm ShiftOp := ⟨fun op => capitalised op.mnemonic⟩

instance : JsonForm AdjustOp := ⟨fun op => capitalised op.mnemonic⟩

instance : JsonForm LoopOp := ⟨fun op => capitalised op.mnemonic⟩

instance : JsonForm FlagOp := ⟨fun op => capitalised op.mnemonic⟩

instance : JsonForm StringOp where
  form
    | .movs => "Movs"
    | .cmps => "Cmps"
    | .stos => "Stos"
    | .lods => "Lods"
    | .scas => "Scas"

/-! ## Operations -/

/-- The operation as the name of its case and its fields. -/
def Operation.record : Operation → Json
  | .arith op width dst src =>
    .variant "Arith" [("op", op), ("width", width), ("dst", dst), ("src", src)]
  | .test width dst src => .variant "Test" [("width", width), ("dst", dst), ("src", src)]
  | .incDec op width target =>
    .variant "IncDec" [("op", op), ("width", width), ("target", target)]
  | .unary op width target => .variant "Unary" [("op", op), ("width", width), ("target", target)]
  | .mulDiv op width source => .variant "MulDiv" [("op", op), ("width", width), ("source", source)]
  | .shift op width target count =>
    .variant "Shift" [("op", op), ("width", width), ("target", target), ("count", count)]
  | .mov width dst src => .variant "Mov" [("width", width), ("dst", dst), ("src", src)]
  | .xchg width a b => .variant "Xchg" [("width", width), ("a", a), ("b", b)]
  | .lea dst address => .variant "Lea" [("dst", dst), ("address", address)]
  | .loadFarPointer segment dst address =>
    .variant "LoadFarPointer" [("segment", segment), ("dst", dst), ("address", address)]
  | .push operand => .tagged "Push" operand
  | .pop operand => .tagged "Pop" operand
  | .pushFlags => "PushFlags"
  | .popFlags => "PopFlags"
  | .storeAhIntoFlags => "StoreAhIntoFlags"
  | .loadAhFromFlags => "LoadAhFromFlags"
  | .convertByteToWord => "ConvertByteToWord"
  | .convertWordToDouble => "ConvertWordToDouble"
  | .translate => "Translate"
  | .adjust op => .tagged "Adjust" op
  | .asciiAdjustMultiply base => .variant "AsciiAdjustMultiply" [("base", base)]
  | .asciiAdjustDivide base => .variant "AsciiAdjustDivide" [("base", base)]
  | .jumpConditional condition displacement =>
    .variant "JumpConditional"
      [("condition", condition), ("displacement", displacement.toInt)]
  | .jumpRelative displacement => .variant "JumpRelative" [("displacement", displacement.toInt)]
  | .jumpFar segment offset => .variant "JumpFar" [("segment", segment), ("offset", offset)]
  | .jumpIndirect target => .variant "JumpIndirect" [("target", target)]
  | .jumpFarIndirect address => .variant "JumpFarIndirect" [("address", address)]
  | .callRelative displacement => .variant "CallRelative" [("displacement", displacement.toInt)]
  | .callFar segment offset => .variant "CallFar" [("segment", segment), ("offset", offset)]
  | .callIndirect target => .variant "CallIndirect" [("target", target)]
  | .callFarIndirect address => .variant "CallFarIndirect" [("address", address)]
  | .ret released => .variant "Return" [("pop", released)]
  | .retFar released => .variant "ReturnFar" [("pop", released)]
  | .loop op displacement =>
    .variant "Loop" [("op", op), ("displacement", displacement.toInt)]
  | .interrupt vector => .variant "Interrupt" [("vector", vector)]
  | .interruptOnOverflow => "InterruptOnOverflow"
  | .interruptReturn => "InterruptReturn"
  | .string op width => .variant "String" [("op", op), ("width", width)]
  | .input width port => .variant "In" [("width", width), ("port", port)]
  | .output width port => .variant "Out" [("width", width), ("port", port)]
  | .flag op => .tagged "Flag" op
  | .halt => "Halt"
  | .wait => "Wait"
  | .escape opcode operand => .variant "Escape" [("opcode", opcode), ("operand", operand)]
  | .unknown => "Unknown"

instance : JsonForm Operation := ⟨Operation.record⟩

/-! ## Instructions -/

instance : JsonForm Repeat where
  form
    | .equal => "Equal"
    | .notEqual => "NotEqual"

instance : JsonForm Prefixes where
  form prefixes :=
    .object
      [("segment", prefixes.segment),
        ("repeat", prefixes.repetition),
        ("lock", prefixes.lock),
        ("count", prefixes.count)]

instance : JsonForm Instruction where
  form instruction :=
    instructionRecord
      [("opcode", instruction.opcode),
        ("prefixes", instruction.prefixes),
        ("operation", instruction.operation)]
      instruction

/-! ## Registers -/

instance : JsonForm Flags := ⟨fun flags => .object [("bits", flags.stored)]⟩

instance : JsonForm DividableRegister := ⟨fun register => .object [("value", register.word)]⟩

instance : JsonForm RegisterFile where
  form regs :=
    .object
      [("general", [regs.ax, regs.cx, regs.dx, regs.bx]),
        ("pointers", [regs.sp, regs.bp, regs.si, regs.di]),
        ("segments", [regs.es, regs.cs, regs.ss, regs.ds]),
        ("ip", regs.ip),
        ("flags", regs.flags)]

end Microprocessor.X86
