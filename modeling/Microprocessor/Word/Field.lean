/-! # Bit fields of instruction words

    An instruction word is read through fixed-position fields.  A field is
    shifted down to bit 0; some are numbers in two's complement. -/

namespace Microprocessor

/-- Bits `high` down to `low` of `word`, shifted down to bit 0. -/
def field (word : UInt32) (high low : Nat) : UInt32 :=
  UInt32.ofNat ((word.toNat >>> low) % Nat.pow 2 (high + 1 - low))

/-- Bit `n` of `word`. -/
def bit (word : UInt32) (n : Nat) : Bool :=
  word.toNat.testBit n

/-- The low `bits` bits of `value` as a two's complement number. -/
def signExtend (value : UInt32) (bits : Nat) : Int :=
  Int.bmod value.toNat (Nat.pow 2 bits)

/-- A byte in two's complement, widened to a 16-bit word. -/
def signExtendByte (value : UInt8) : UInt16 :=
  value.toInt8.toInt16.toUInt16

end Microprocessor
