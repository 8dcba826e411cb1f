import Microprocessor.Word.LittleEndian
import Microprocessor.Word.Width
import Microprocessor.X86.Flags
import Microprocessor.X86.Operation

/-! # The 8086 arithmetic and logic unit

    Every operation is a function of its operands, the width and the flags;
    it gives its result and the flags it leaves.  Operands are 16-bit words
    of which the width says what counts.

      * additions and subtractions take the carry or borrow along and derive
        carry, auxiliary carry and overflow from the bits;
      * shifts and rotates go one place at a time, and the count is not
        masked;
      * products and dividends have twice the width. -/

namespace Microprocessor.X86.Alu

/-- The divisor is zero, or the quotient does not fit. -/
structure DivideError where
  deriving DecidableEq

/-- The report for a division that is not defined. -/
def DivideError.message (_ : DivideError) : String :=
  "divide error"

/-! ## Flags of a result -/

/-- Whether a byte has an even number of bits set. -/
def evenParity (byte : UInt8) : Bool :=
  (List.range 8).countP (byte.toNat.testBit ·) % 2 == 0

/-- Sets sign, zero and parity from a result. -/
def setResultFlags (flags : Flags) (width : Width) (result : UInt16) : Flags :=
  ((flags.set .sign (width.isNegative result)).set .zero (result &&& width.mask == 0)).set
    .parity (evenParity result.toUInt8)

/-! ## Addition and subtraction -/

/-- The sum with a carry. -/
def addCarry (flags : Flags) (width : Width) (a b : UInt16) (carry : Bool) : UInt16 × Flags :=
  let a := a &&& width.mask
  let b := b &&& width.mask
  let wide := a.toUInt32 + b.toUInt32 + carry.toUInt32
  let result := width.truncate wide
  let flags := flags.set .carry (width.mask.toUInt32 < wide)
  let flags := flags.set .auxiliaryCarry ((a ^^^ b ^^^ result) &&& 0x10 != 0)
  let flags := flags.set .overflow ((a ^^^ result) &&& (b ^^^ result) &&& width.signBit != 0)
  (result, setResultFlags flags width result)

/-- The difference with a borrow. -/
def subBorrow (flags : Flags) (width : Width) (a b : UInt16) (borrow : Bool) : UInt16 × Flags :=
  let a := a &&& width.mask
  let b := b &&& width.mask
  let wide := a.toUInt32 - b.toUInt32 - borrow.toUInt32
  let result := width.truncate wide
  let flags := flags.set .carry (a.toUInt32 < b.toUInt32 + borrow.toUInt32)
  let flags := flags.set .auxiliaryCarry ((a ^^^ b ^^^ result) &&& 0x10 != 0)
  let flags := flags.set .overflow ((a ^^^ b) &&& (a ^^^ result) &&& width.signBit != 0)
  (result, setResultFlags flags width result)

/-- The sum. -/
def add (flags : Flags) (width : Width) (a b : UInt16) : UInt16 × Flags :=
  addCarry flags width a b false

/-- The sum with the carry flag. -/
def adc (flags : Flags) (width : Width) (a b : UInt16) : UInt16 × Flags :=
  addCarry flags width a b (flags.get .carry)

/-- The difference. -/
def sub (flags : Flags) (width : Width) (a b : UInt16) : UInt16 × Flags :=
  subBorrow flags width a b false

/-- The difference with the carry flag as borrow. -/
def sbb (flags : Flags) (width : Width) (a b : UInt16) : UInt16 × Flags :=
  subBorrow flags width a b (flags.get .carry)

/-- The flags of the difference. -/
def cmp (flags : Flags) (width : Width) (a b : UInt16) : Flags :=
  (sub flags width a b).2

/-- One more; the carry flag stays as it is. -/
def inc (flags : Flags) (width : Width) (a : UInt16) : UInt16 × Flags :=
  let (result, after) := add flags width a 1
  (result, after.set .carry (flags.get .carry))

/-- One less; the carry flag stays as it is. -/
def dec (flags : Flags) (width : Width) (a : UInt16) : UInt16 × Flags :=
  let (result, after) := sub flags width a 1
  (result, after.set .carry (flags.get .carry))

/-- Zero minus the operand; the carry flag says that the operand was not
    zero. -/
def neg (flags : Flags) (width : Width) (a : UInt16) : UInt16 × Flags :=
  let (result, after) := sub flags width 0 a
  (result, after.set .carry (a &&& width.mask != 0))

/-! ## Logic -/

/-- The complement; no flag changes. -/
def not (width : Width) (a : UInt16) : UInt16 :=
  ~~~a &&& width.mask

/-- The result of a logical operation: carry, overflow and auxiliary carry
    are clear. -/
def logical (flags : Flags) (width : Width) (result : UInt16) : UInt16 × Flags :=
  let result := result &&& width.mask
  let flags := ((flags.set .carry false).set .overflow false).set .auxiliaryCarry false
  (result, setResultFlags flags width result)

/-- The bits set in both. -/
def and (flags : Flags) (width : Width) (a b : UInt16) : UInt16 × Flags :=
  logical flags width (a &&& b)

/-- The bits set in either. -/
def or (flags : Flags) (width : Width) (a b : UInt16) : UInt16 × Flags :=
  logical flags width (a ||| b)

/-- The bits set in just one. -/
def xor (flags : Flags) (width : Width) (a b : UInt16) : UInt16 × Flags :=
  logical flags width (a ^^^ b)

/-- The flags of the bits set in both. -/
def test (flags : Flags) (width : Width) (a b : UInt16) : Flags :=
  (and flags width a b).2

/-! ## Shifts and rotates -/

/-- A value and the carry beside it, one place on. -/
def shiftOnce (op : ShiftOp) (width : Width) (value : UInt16) (carry : Bool) : UInt16 × Bool :=
  let top := value &&& width.signBit != 0
  let bottom := value &&& 1 != 0
  let left := (value <<< 1) &&& width.mask
  let right := value >>> 1
  match op with
  | .rol => (left ||| top.toUInt16, top)
  | .ror => (right ||| (if bottom then width.signBit else 0), bottom)
  | .rcl => (left ||| carry.toUInt16, top)
  | .rcr => (right ||| (if carry then width.signBit else 0), bottom)
  | .shl => (left, top)
  | .shr => (right, bottom)
  | .sar => (right ||| (value &&& width.signBit), bottom)

/-- A value and the carry beside it, `count` places on. -/
def shiftPlaces (op : ShiftOp) (width : Width) : Nat → UInt16 × Bool → UInt16 × Bool
  | 0, state => state
  | count + 1, (value, carry) => shiftPlaces op width count (shiftOnce op width value carry)

/-- The overflow flag of a shift of `value` by `count` places. -/
def shiftOverflow (op : ShiftOp) (width : Width) (value : UInt16) (count : UInt8)
    (result : UInt16) (carry : Bool) : Bool :=
  let top := result &&& width.signBit != 0
  match op with
  | .rol | .rcl | .shl => top != carry
  | .ror | .rcr => top != (result &&& (width.signBit >>> 1) != 0)
  | .shr => value &&& width.signBit != 0 && count == 1
  | .sar => false

/-- Whether the operation is a shift, which sets the flags of its result, and
    not a rotate. -/
def isShift : ShiftOp → Bool
  | .shl | .shr | .sar => true
  | .rol | .ror | .rcl | .rcr => false

/-- Shifts or rotates by `count` places.  A count of zero changes neither the
    value nor a flag. -/
def shift (flags : Flags) (op : ShiftOp) (width : Width) (value : UInt16) (count : UInt8) :
    UInt16 × Flags :=
  let start := value &&& width.mask
  if count = 0 then (start, flags)
  else
    let (result, carry) := shiftPlaces op width count.toNat (start, flags.get .carry)
    let flags := (flags.set .carry carry).set .overflow
      (shiftOverflow op width value count result carry)
    if isShift op then (result, setResultFlags (flags.set .auxiliaryCarry false) width result)
    else (result, flags)

/-! ## Multiplication and division -/

/-- The product of twice the width, and whether its upper half is
    significant. -/
def product (width : Width) (signed : Bool) (a b : UInt16) : UInt32 × Bool :=
  if signed then
    let exact := width.toSigned a * width.toSigned b
    let wide := UInt32.ofInt exact
    (wide, width.toSigned (width.truncate wide) != exact)
  else
    let wide := (a &&& width.mask).toUInt32 * (b &&& width.mask).toUInt32
    (wide, width.mask.toUInt32 < wide)

/-- The bits of a value of twice the width. -/
def doubleMask : Width → UInt32
  | .byte => 0x0000FFFF
  | .word => 0xFFFFFFFF

/-- The product; carry and overflow say whether its upper half is
    significant. -/
def multiply (flags : Flags) (width : Width) (signed : Bool) (a b : UInt16) : UInt32 × Flags :=
  let (wide, significant) := product width signed a b
  let wide := wide &&& doubleMask width
  let flags := (flags.set .carry significant).set .overflow significant
  (wide, setResultFlags flags width (width.truncate wide))

/-- A dividend of twice the width as a two's complement number. -/
def signedDividend : Width → UInt32 → Int
  | .byte, dividend => dividend.toUInt16.toInt16.toInt
  | .word, dividend => dividend.toInt32.toInt

/-- The quotient and the remainder.  A signed quotient goes toward zero, and
    the most negative one counts as not fitting. -/
def divide (width : Width) (signed : Bool) (dividend : UInt32) (divisor : UInt16) :
    Except DivideError (UInt16 × UInt16) :=
  let divisor := divisor &&& width.mask
  if divisor = 0 then .error ⟨⟩
  else if signed then
    let quotient := (signedDividend width dividend).tdiv (width.toSigned divisor)
    let remainder := (signedDividend width dividend).tmod (width.toSigned divisor)
    let limit : Int := width.signBit.toNat
    if limit ≤ quotient ∨ quotient ≤ -limit then .error ⟨⟩
    else .ok (width.truncate (UInt32.ofInt quotient), width.truncate (UInt32.ofInt remainder))
  else
    let quotient := dividend / divisor.toUInt32
    let remainder := dividend % divisor.toUInt32
    if width.mask.toUInt32 < quotient then .error ⟨⟩
    else .ok (quotient.toUInt16, remainder.toUInt16)

/-! ## Decimal and ASCII adjustment -/

/-- Whether the low digit of `al` has to be adjusted. -/
def lowDigitOff (flags : Flags) (al : UInt8) : Bool :=
  9 < al &&& 0x0F || flags.get .auxiliaryCarry

/-- Adjusts AL after an addition of packed decimals. -/
def daa (flags : Flags) (al : UInt8) : UInt8 × Flags :=
  let low := lowDigitOff flags al
  let high := 0x99 < al || flags.get .carry
  let result := al + (if low then 0x06 else 0) + (if high then 0x60 else 0)
  let flags := (flags.set .auxiliaryCarry low).set .carry high
  (result, setResultFlags flags .byte result.toUInt16)

/-- Adjusts AL after a subtraction of packed decimals. -/
def das (flags : Flags) (al : UInt8) : UInt8 × Flags :=
  let low := lowDigitOff flags al
  let high := 0x99 < al || flags.get .carry
  let result := al - (if low then 0x06 else 0) - (if high then 0x60 else 0)
  let flags := (flags.set .auxiliaryCarry low).set .carry high
  (result, setResultFlags flags .byte result.toUInt16)

/-- Adjusts AX after an addition of unpacked decimals. -/
def aaa (flags : Flags) (ax : UInt16) : UInt16 × Flags :=
  let al := lowByte ax
  let ah := highByte ax
  let off := lowDigitOff flags al
  let flags := (flags.set .auxiliaryCarry off).set .carry off
  if off then (wordOfBytes ((al + 6) &&& 0x0F) (ah + 1), flags)
  else (wordOfBytes (al &&& 0x0F) ah, flags)

/-- Adjusts AX after a subtraction of unpacked decimals. -/
def aas (flags : Flags) (ax : UInt16) : UInt16 × Flags :=
  let al := lowByte ax
  let ah := highByte ax
  let off := lowDigitOff flags al
  let flags := (flags.set .auxiliaryCarry off).set .carry off
  if off then (wordOfBytes ((al - 6) &&& 0x0F) (ah - 1), flags)
  else (wordOfBytes (al &&& 0x0F) ah, flags)

/-- Splits AL into its quotient and remainder by `base`. -/
def aam (flags : Flags) (al base : UInt8) : Except DivideError (UInt16 × Flags) :=
  if base = 0 then .error ⟨⟩
  else
    let digit := al % base
    .ok (wordOfBytes digit (al / base), setResultFlags flags .byte digit.toUInt16)

/-- Joins two digits of a number in `base` into AL. -/
def aad (flags : Flags) (ax : UInt16) (base : UInt8) : UInt16 × Flags :=
  let al := highByte ax * base + lowByte ax
  (al.toUInt16, setResultFlags flags .byte al.toUInt16)

end Microprocessor.X86.Alu
