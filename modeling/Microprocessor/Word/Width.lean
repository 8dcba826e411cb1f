/-! # Operand widths

    The processor works on bytes and on 16-bit words.  A value of either
    width is carried in a 16-bit word; the width says which bits count.

      * `Width.ofOpcode` reads the width off the low bit of an opcode;
      * `Width.truncate` keeps the bits that count;
      * `Width.toSigned` reads those bits as a two's complement number. -/

namespace Microprocessor

/-- How many bits of a 16-bit word an operation looks at. -/
inductive Width
  | byte
  | word
  deriving DecidableEq, Inhabited

namespace Width

/-- The low bit of an opcode selects words over bytes. -/
def ofOpcode (opcode : UInt8) : Width :=
  if opcode &&& 1 = 0 then .byte else .word

/-- The number of bytes of a value. -/
def bytes : Width → UInt16
  | .byte => 1
  | .word => 2

/-- The number of bits of a value. -/
def bits : Width → Nat
  | .byte => 8
  | .word => 16

/-- The value whose bits are all ones. -/
def mask : Width → UInt16
  | .byte => 0x00FF
  | .word => 0xFFFF

/-- The most significant bit alone. -/
def signBit : Width → UInt16
  | .byte => 0x0080
  | .word => 0x8000

/-- The low bits of `value`, as many as the width has. -/
def truncate (width : Width) (value : UInt32) : UInt16 :=
  value.toUInt16 &&& width.mask

/-- Whether the sign bit is set; higher bits do not matter. -/
def isNegative (width : Width) (value : UInt16) : Bool :=
  value &&& width.signBit != 0

/-- The two's complement reading of the low bits of `value`. -/
def toSigned : Width → UInt16 → Int
  | .byte, value => value.toUInt8.toInt8.toInt
  | .word, value => value.toInt16.toInt

/-- The size keyword of assembly text. -/
def text : Width → String
  | .byte => "BYTE"
  | .word => "WORD"

end Width

end Microprocessor
