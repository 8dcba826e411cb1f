import Microprocessor.Arm.Instruction
import Microprocessor.Encoding.Record

/-! # Records of A32 instructions

    The operation of an instruction is shown as the name of its case with its
    fields.  Registers are shown by number, branch offsets with their sign. -/

namespace Microprocessor.Arm

/-! ## Operands -/

instance : JsonForm Register := ⟨fun register => register.number.val⟩

/-- The name of a condition in records. -/
def Condition.name : Condition → String
  | .always => "Always"
  | .unconditional => "Unconditional"
  | condition => capitalised condition.suffix

instance : JsonForm Condition := ⟨fun condition => condition.name⟩

instance : JsonForm DataOp := ⟨fun op => capitalised op.mnemonic⟩

instance : JsonForm ShiftKind := ⟨fun kind => capitalised kind.name⟩

instance : JsonForm ShiftAmount where
  form
    | .immediate amount => .tagged "Immediate" amount
    | .register rs => .tagged "Register" rs

instance : JsonForm ShifterOperand where
  form
    | .immediate imm8 rotate => .variant "Immediate" [("imm8", imm8), ("rotate", rotate)]
    | .register rm shift amount =>
      .variant "Register" [("rm", rm), ("shift", shift), ("amount", amount)]

instance : JsonForm TransferOffset where
  form
    | .immediate offset => .tagged "Immediate" offset
    | .register rm shift amount =>
      .variant "Register" [("rm", rm), ("shift", shift), ("amount", amount)]

instance : JsonForm HalfwordOffset where
  form
    | .immediate offset => .tagged "Immediate" offset
    | .register rm => .tagged "Register" rm

instance : JsonForm HalfwordKind where
  form
    | .unsignedHalf => "UnsignedHalf"
    | .signedByte => "SignedByte"
    | .signedHalf => "SignedHalf"
    | .double => "Double"

instance : JsonForm Indexing where
  form indexing :=
    .object
      [("pre_index", indexing.preIndex),
        ("add", indexing.add),
        ("write_back", indexing.writeBack)]

/-! ## Operations -/

/-- The operation as the name of its case and its fields. -/
def Operation.record : Operation → Json
  | .dataProcessing op setFlags rn rd operand =>
    .variant "DataProcessing"
      [("op", op), ("set_flags", setFlags), ("rn", rn), ("rd", rd), ("operand", operand)]
  | .moveWide top rd imm16 => .variant "MoveWide" [("top", top), ("rd", rd), ("imm16", imm16)]
  | .multiply accumulate setFlags rd rn rs rm =>
    .variant "Multiply"
      [("accumulate", accumulate), ("set_flags", setFlags), ("rd", rd), ("rn", rn), ("rs", rs),
        ("rm", rm)]
  | .multiplyLong signed accumulate setFlags rdHi rdLo rs rm =>
    .variant "MultiplyLong"
      [("signed", signed), ("accumulate", accumulate), ("set_flags", setFlags), ("rd_hi", rdHi),
        ("rd_lo", rdLo), ("rs", rs), ("rm", rm)]
  | .swap byte rn rd rm => .variant "Swap" [("byte", byte), ("rn", rn), ("rd", rd), ("rm", rm)]
  | .statusToRegister saved rd => .variant "StatusToRegister" [("saved", saved), ("rd", rd)]
  | .registerToStatus saved mask operand =>
    .variant "RegisterToStatus" [("saved", saved), ("mask", mask), ("operand", operand)]
  | .branchExchange link rm => .variant "BranchExchange" [("link", link), ("rm", rm)]
  | .countLeadingZeros rd rm => .variant "CountLeadingZeros" [("rd", rd), ("rm", rm)]
  | .singleTransfer load byte indexing rn rd offset =>
    .variant "SingleTransfer"
      [("load", load), ("byte", byte), ("indexing", indexing), ("rn", rn), ("rd", rd),
        ("offset", offset)]
  | .halfwordTransfer load kind indexing rn rd offset =>
    .variant "HalfwordTransfer"
      [("load", load), ("kind", kind), ("indexing", indexing), ("rn", rn), ("rd", rd),
        ("offset", offset)]
  | .blockTransfer load indexing userBank rn registers =>
    .variant "BlockTransfer"
      [("load", load), ("indexing", indexing), ("user_bank", userBank), ("rn", rn),
        ("registers", registers)]
  | .branch link offset => .variant "Branch" [("link", link), ("offset", offset.toInt)]
  | .branchLinkExchange offset => .variant "BranchLinkExchange" [("offset", offset.toInt)]
  | .supervisorCall comment => .variant "SupervisorCall" [("comment", comment)]
  | .breakpoint comment => .variant "Breakpoint" [("comment", comment)]
  | .coprocessor word => .variant "Coprocessor" [("word", word)]
  | .media word => .variant "Media" [("word", word)]
  | .unconditional word => .variant "Unconditional" [("word", word)]
  | .undefined word => .variant "Undefined" [("word", word)]

instance : JsonForm Operation := ⟨Operation.record⟩

/-! ## Instructions -/

instance : JsonForm Instruction where
  form instruction :=
    instructionRecord
      [("word", instruction.word),
        ("condition", instruction.condition),
        ("operation", instruction.operation)]
      instruction

end Microprocessor.Arm
