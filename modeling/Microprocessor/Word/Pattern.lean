/-! # Bit patterns

    A pattern such as `10xx0` constrains some bits of a field: `0` and `1`
    fix the bit in their place, `x` leaves it free, and underscores only
    separate.  The last character describes bit 0.

      * `BitPattern.ofString` reads a pattern, byte by byte;
      * `BitPattern.accepts` asks whether a field fits it. -/

namespace Microprocessor

/-- The constrained bits of a field, and what they have to be. -/
structure BitPattern where
  mask : UInt32
  value : UInt32
  deriving DecidableEq

namespace BitPattern

/-- Why a text is not a pattern. -/
inductive Malformed
  | tooLong
  | strangeCharacter
  deriving DecidableEq

/-- The report for a text that is not a pattern. -/
def Malformed.message : Malformed → String
  | .tooLong => "bit patterns may describe at most 32 bits"
  | .strangeCharacter => "bit patterns may only contain 0, 1, x and _"

/-- The pattern with room made for one more bit below it. -/
def shifted (pattern : BitPattern) : BitPattern :=
  ⟨pattern.mask <<< 1, pattern.value <<< 1⟩

/-- Extends a pattern by one described bit, if `c` describes one. -/
def extend (pattern : BitPattern) (c : UInt8) : Option BitPattern :=
  let wider := pattern.shifted
  if c = '0'.toUInt8 then some ⟨wider.mask ||| 1, wider.value⟩
  else if c = '1'.toUInt8 then some ⟨wider.mask ||| 1, wider.value ||| 1⟩
  else if c = 'x'.toUInt8 then some wider
  else none

/-- Reads the rest of a pattern of which `bits` bits are known.  The limit of
    32 bits is tested before the byte itself is looked at. -/
def readFrom (bits : Nat) (pattern : BitPattern) : List UInt8 → Except Malformed BitPattern
  | [] => .ok pattern
  | c :: rest =>
    if c = '_'.toUInt8 then readFrom bits pattern rest
    else if 32 ≤ bits then .error .tooLong
    else
      match pattern.extend c with
      | some wider => readFrom (bits + 1) wider rest
      | none => .error .strangeCharacter

/-- Reads a pattern from the bytes of its text. -/
def ofBytes (bytes : List UInt8) : Except Malformed BitPattern :=
  readFrom 0 ⟨0, 0⟩ bytes

/-- Reads a pattern. -/
def ofString (text : String) : Except Malformed BitPattern :=
  ofBytes text.toUTF8.toList

/-- Whether every constrained bit of `field` is as the pattern says. -/
def accepts (pattern : BitPattern) (field : UInt32) : Bool :=
  field &&& pattern.mask == pattern.value

end BitPattern

end Microprocessor
