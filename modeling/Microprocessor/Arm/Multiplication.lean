import Microprocessor.Arm.Processor

/-! # Multiplication

    Products of two words, of 32 or of 64 bits, to which a register or a pair
    of registers may be added.  If flags are set, they describe the whole
    result; carry and overflow stay as they are. -/

namespace Microprocessor.Arm

/-- The 64-bit product of two words, as signed or as unsigned numbers. -/
def longProduct (signed : Bool) (a b : UInt32) : UInt64 :=
  if signed then UInt64.ofInt (a.toInt32.toInt * b.toInt32.toInt)
  else a.toUInt64 * b.toUInt64

namespace Processor

/-- A product of one word, with or without an addend. -/
def multiply (processor : Processor) (pc : UInt32) (accumulate setFlags : Bool)
    (rd rn rs rm : Register) : Processor :=
  let product := processor.operand pc rm * processor.operand pc rs
  let result := if accumulate then product + processor.operand pc rn else product
  let processor := processor.write rd result
  if setFlags then { processor with status := processor.status.describe result } else processor

/-- A product of two words, with or without an addend. -/
def multiplyLong (processor : Processor) (pc : UInt32) (signed accumulate setFlags : Bool)
    (rdHi rdLo rs rm : Register) : Processor :=
  let product := longProduct signed (processor.operand pc rm) (processor.operand pc rs)
  let addend :=
    if accumulate then
      ((processor.operand pc rdHi).toUInt64 <<< 32) ||| (processor.operand pc rdLo).toUInt64
    else 0
  let result := product + addend
  let high := (result >>> 32).toUInt32
  let processor := (processor.write rdLo result.toUInt32).write rdHi high
  if setFlags then
    let status := (processor.status.set .negative (bit high 31)).set .zero (result = 0)
    { processor with status }
  else processor

end Processor

end Microprocessor.Arm
