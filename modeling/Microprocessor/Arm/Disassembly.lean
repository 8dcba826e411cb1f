import Microprocessor.Arm.Operation

/-! # A32 disassembly

    An instruction as assembly text.  The condition follows the mnemonic; a
    branch shows the distance of its target from the instruction itself,
    which sees the program counter 8 bytes ahead. -/

namespace Microprocessor.Arm.Disassembly

/-- The sign of an offset: none if it is added. -/
def sign (indexing : Indexing) : String :=
  if indexing.add then "" else "-"

/-- A base register with an offset, which is empty if there is none. -/
def address (rn : Register) (indexing : Indexing) (offset : String) : String :=
  if offset.isEmpty then "[" ++ rn.name ++ "]"
  else if indexing.preIndex then
    "[" ++ rn.name ++ ", " ++ offset ++ "]" ++ (if indexing.writeBack then "!" else "")
  else "[" ++ rn.name ++ "], " ++ offset

/-- The offset of a word or byte transfer; an immediate zero is not shown. -/
def transferOffset (indexing : Indexing) : TransferOffset → String
  | .immediate offset =>
    if offset = 0 then "" else "#" ++ sign indexing ++ markedHex 1 offset.toNat
  | .register rm shift amount =>
    sign indexing ++ (ShifterOperand.register rm shift (.immediate amount)).text

/-- The offset of a halfword transfer; an immediate zero is not shown. -/
def halfwordOffset (indexing : Indexing) : HalfwordOffset → String
  | .immediate offset =>
    if offset = 0 then "" else "#" ++ sign indexing ++ markedHex 1 offset.toNat
  | .register rm => sign indexing ++ rm.name

/-- A register list in braces. -/
def registerList (registers : UInt16) : String :=
  "\x7b" ++ ", ".intercalate ((listedRegisters registers).map fun n => (Register.ofNumber n).name)
    ++ "\x7d"

/-- The letters of the status fields that are written. -/
def statusFields (mask : UInt8) : String :=
  let letter (flag : UInt8) (name : String) := if mask &&& flag = 0 then "" else name
  letter 8 "f" ++ letter 4 "s" ++ letter 2 "x" ++ letter 1 "c"

/-- The name of a status register. -/
def status (saved : Bool) : String :=
  if saved then "SPSR" else "CPSR"

/-- A branch target, as a distance from the instruction. -/
def relative (offset : Int32) : String :=
  let distance := offset.toInt + 8
  (if distance < 0 then "$-" else "$+") ++ markedHex 1 distance.natAbs

/-- The name of a halfword transfer. -/
def halfwordMnemonic (load : Bool) : HalfwordKind → String
  | .unsignedHalf => if load then "LDRH" else "STRH"
  | .signedByte => "LDRSB"
  | .signedHalf => "LDRSH"
  | .double => if load then "LDRD" else "STRD"

/-- The name of a multiply with a 64-bit result. -/
def longMnemonic (signed accumulate : Bool) : String :=
  match signed, accumulate with
  | false, false => "UMULL"
  | false, true => "UMLAL"
  | true, false => "SMULL"
  | true, true => "SMLAL"

/-- The addressing mode of a block transfer. -/
def blockMode (indexing : Indexing) : String :=
  match indexing.add, indexing.preIndex with
  | true, false => "IA"
  | true, true => "IB"
  | false, false => "DA"
  | false, true => "DB"

/-- An operation under a condition as text. -/
def operation (condition : Condition) : Operation → String
  | .dataProcessing op setFlags rn rd operand =>
    let cond := condition.suffix
    if op.isComparison then op.mnemonic ++ cond ++ " " ++ rn.name ++ ", " ++ operand.text
    else
      let head := op.mnemonic ++ (if setFlags then "S" else "") ++ cond ++ " " ++ rd.name ++ ", "
      if op.isMove then head ++ operand.text else head ++ rn.name ++ ", " ++ operand.text
  | .moveWide top rd imm16 =>
    (if top then "MOVT" else "MOVW") ++ condition.suffix ++ " " ++ rd.name ++ ", #"
      ++ markedHex 1 imm16.toNat
  | .multiply accumulate setFlags rd rn rs rm =>
    (if accumulate then "MLA" else "MUL") ++ (if setFlags then "S" else "") ++ condition.suffix
      ++ " " ++ rd.name ++ ", " ++ rm.name ++ ", " ++ rs.name
      ++ (if accumulate then ", " ++ rn.name else "")
  | .multiplyLong signed accumulate setFlags rdHi rdLo rs rm =>
    longMnemonic signed accumulate ++ (if setFlags then "S" else "") ++ condition.suffix
      ++ " " ++ rdLo.name ++ ", " ++ rdHi.name ++ ", " ++ rm.name ++ ", " ++ rs.name
  | .swap byte rn rd rm =>
    "SWP" ++ (if byte then "B" else "") ++ condition.suffix ++ " " ++ rd.name ++ ", " ++ rm.name
      ++ ", [" ++ rn.name ++ "]"
  | .statusToRegister saved rd =>
    "MRS" ++ condition.suffix ++ " " ++ rd.name ++ ", " ++ status saved
  | .registerToStatus saved mask operand =>
    "MSR" ++ condition.suffix ++ " " ++ status saved ++ "_" ++ statusFields mask ++ ", "
      ++ operand.text
  | .branchExchange link rm =>
    (if link then "BLX" else "BX") ++ condition.suffix ++ " " ++ rm.name
  | .countLeadingZeros rd rm => "CLZ" ++ condition.suffix ++ " " ++ rd.name ++ ", " ++ rm.name
  | .singleTransfer load byte indexing rn rd offset =>
    (if load then "LDR" else "STR") ++ (if byte then "B" else "") ++ condition.suffix ++ " "
      ++ rd.name ++ ", " ++ address rn indexing (transferOffset indexing offset)
  | .halfwordTransfer load kind indexing rn rd offset =>
    halfwordMnemonic load kind ++ condition.suffix ++ " " ++ rd.name ++ ", "
      ++ address rn indexing (halfwordOffset indexing offset)
  | .blockTransfer load indexing userBank rn registers =>
    (if load then "LDM" else "STM") ++ blockMode indexing ++ condition.suffix ++ " " ++ rn.name
      ++ (if indexing.writeBack then "!" else "") ++ ", " ++ registerList registers
      ++ (if userBank then "^" else "")
  | .branch link offset =>
    (if link then "BL" else "B") ++ condition.suffix ++ " " ++ relative offset
  | .branchLinkExchange offset => "BLX " ++ relative offset
  | .supervisorCall comment => "SVC" ++ condition.suffix ++ " #" ++ markedHex 1 comment.toNat
  | .breakpoint comment => "BKPT #" ++ markedHex 1 comment.toNat
  | .coprocessor word => "(coprocessor) " ++ markedHex 8 word.toNat
  | .media word => "(media) " ++ markedHex 8 word.toNat
  | .unconditional word | .undefined word => "(undefined) " ++ markedHex 8 word.toNat

end Microprocessor.Arm.Disassembly
