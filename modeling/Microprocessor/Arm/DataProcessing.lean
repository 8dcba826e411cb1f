import Microprocessor.Arm.BarrelShifter
import Microprocessor.Arm.Processor
import Microprocessor.Word.LittleEndian

/-! # Data processing

    An operation takes a register and the shifter's value, and gives a result
    with a carry and an overflow.  The arithmetic operations take all three
    from one adder, to which subtraction is the addition of a complement; the
    logical ones take their carry from the shifter and leave the overflow
    alone. -/

namespace Microprocessor.Arm

/-- A result with the flags that go with it. -/
structure Outcome where
  value : UInt32
  carry : Bool
  overflow : Bool
  deriving DecidableEq

/-- The sum of two words and a carry: the carry out is set if it passes 32
    bits, the overflow if it is out of range as a signed number. -/
def addWithCarry (a b : UInt32) (carry : Bool) : Outcome :=
  let unsigned := a.toNat + b.toNat + carry.toNat
  let signed := a.toInt32.toInt + b.toInt32.toInt + carry.toNat
  let value := UInt32.ofNat unsigned
  ⟨value, UInt32.size ≤ unsigned, signed ≠ value.toInt32.toInt⟩

/-- The outcome of an operation on `a` and the shifter's `b`, where `carry` and
    `overflow` are the flags before it. -/
def DataOp.outcome (op : DataOp) (a : UInt32) (b : Shifted) (carry overflow : Bool) : Outcome :=
  let logical (value : UInt32) : Outcome := ⟨value, b.carry, overflow⟩
  match op with
  | .and | .tst => logical (a &&& b.value)
  | .eor | .teq => logical (a ^^^ b.value)
  | .orr => logical (a ||| b.value)
  | .bic => logical (a &&& ~~~b.value)
  | .mov => logical b.value
  | .mvn => logical (~~~b.value)
  | .add | .cmn => addWithCarry a b.value false
  | .adc => addWithCarry a b.value carry
  | .sub | .cmp => addWithCarry a (~~~b.value) true
  | .sbc => addWithCarry a (~~~b.value) carry
  | .rsb => addWithCarry b.value (~~~a) true
  | .rsc => addWithCarry b.value (~~~a) carry

namespace Status

/-- The status after an operation that sets the flags. -/
def record (status : Status) (outcome : Outcome) : Status :=
  ((status.describe outcome.value).set .carry outcome.carry).set .overflow outcome.overflow

end Status

namespace Processor

/-- The value of a flexible operand, and the shifter's carry.  An immediate
    that is not rotated leaves the carry alone. -/
def shifterOperand (processor : Processor) (pc : UInt32) : ShifterOperand → Shifted
  | .immediate imm8 rotate =>
    let value := rotateRight imm8.toUInt32 (2 * rotate.toNat)
    ⟨value, if rotate = 0 then processor.status.get .carry else bit value 31⟩
  | .register rm kind (.immediate amount) =>
    shiftEncoded kind (processor.operand pc rm) amount.toNat (processor.status.get .carry)
  | .register rm kind (.register rs) =>
    shiftByRegister kind (processor.operand pc rm) (processor.operand pc rs)
      (processor.status.get .carry)

/-- A data-processing instruction.  One that sets flags and writes the program
    counter returns from an exception instead. -/
def process (processor : Processor) (pc : UInt32) (op : DataOp) (setFlags : Bool)
    (rn rd : Register) (operand : ShifterOperand) : Processor :=
  let outcome := op.outcome (processor.operand pc rn) (processor.shifterOperand pc operand)
    (processor.status.get .carry) (processor.status.get .overflow)
  let flagged := { processor with status := processor.status.record outcome }
  if op.isComparison then flagged
  else if !setFlags then processor.write rd outcome.value
  else if rd.isPc then (processor.write rd outcome.value).leaveException
  else flagged.write rd outcome.value

/-- A 16-bit immediate into the low half of a register, clearing the rest, or
    into its top half alone. -/
def moveWide (processor : Processor) (pc : UInt32) (top : Bool) (rd : Register) (imm16 : UInt16) :
    Processor :=
  let low := if top then lowWord (processor.operand pc rd) else imm16
  processor.write rd (doubleOfWords low (if top then imm16 else 0))

/-- The number of zeros above the highest bit set. -/
def leadingZeros (value : UInt32) : Nat :=
  if value = 0 then 32 else 31 - value.toNat.log2

/-- Counts the zeros above the highest bit set. -/
def countLeadingZeros (processor : Processor) (pc : UInt32) (rd rm : Register) : Processor :=
  processor.write rd (UInt32.ofNat (leadingZeros (processor.operand pc rm)))

/-! ## Status transfers -/

/-- The bits of the bytes that a mask of four bits selects. -/
def byteMask (mask : UInt8) : UInt32 :=
  let byte (n : Nat) : UInt32 := if mask.toNat.testBit n then UInt32.ofNat (0xFF <<< (8 * n)) else 0
  byte 0 ||| byte 1 ||| byte 2 ||| byte 3

/-- The bits of the current status that an instruction may replace.  In User
    mode those are the flags; the state bit is never among them. -/
def replaceable (processor : Processor) (mask : UInt32) : UInt32 :=
  let mask :=
    if processor.status.mode? = some .user then mask &&& Status.flagsMask else mask
  mask &&& ~~~StatusBit.thumb.mask

/-- Copies a status into a register. -/
def statusToRegister (processor : Processor) (saved : Bool) (rd : Register) : Processor :=
  let status := if saved then processor.savedStatus else processor.status
  processor.write rd status.word

/-- Copies the selected bytes of an operand into a status. -/
def registerToStatus (processor : Processor) (pc : UInt32) (saved : Bool) (mask : UInt8)
    (operand : ShifterOperand) : Processor :=
  let value := (processor.shifterOperand pc operand).value
  let mask := byteMask mask
  if saved then processor.setSavedStatus (processor.savedStatus.replace mask value)
  else processor.setStatus (processor.status.replace (processor.replaceable mask) value)

end Processor

end Microprocessor.Arm
