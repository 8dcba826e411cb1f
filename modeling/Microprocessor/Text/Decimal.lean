import Microprocessor.Time.Binary64

/-! # Decimal numbers

    A real number is written with decimal digits, of which some may follow a
    point, and possibly an exponent of ten after the letter `e`.  A sign may
    stand before it, and the words `inf`, `infinity` and `nan` are numbers too,
    in capitals or not.

      * `Decimal.read` reads such a text;
      * `Decimal.magnitude?` rounds a number to the nearest double. -/

namespace Microprocessor

/-- Why a text is not a decimal number. -/
inductive DecimalError
  | empty
  | invalid
  deriving DecidableEq

/-- The report for a text that is not a decimal number. -/
def DecimalError.message : DecimalError → String
  | .empty => "cannot parse float from empty string"
  | .invalid => "invalid float literal"

/-- A number as it was written. -/
inductive Decimal
  /-- The number `digits * 10 ^ exponent`, with its sign. -/
  | finite (negative : Bool) (digits : Nat) (exponent : Int)
  | infinite (negative : Bool)
  | notANumber
  deriving DecidableEq

namespace Decimal

/-- The value of a run of decimal digits. -/
def digitsValue (digits : List Char) : Nat :=
  digits.foldl (fun value c => value * 10 + (c.toNat - '0'.toNat)) 0

/-- Takes a sign off a text, and says whether it was a minus. -/
def splitSign : List Char → Bool × List Char
  | '+' :: rest => (false, rest)
  | '-' :: rest => (true, rest)
  | text => (false, text)

/-- Reads the exponent that ends a number. -/
def readExponent? : List Char → Option Int
  | [] => some 0
  | c :: rest =>
    let (negative, digits) := splitSign rest
    if c.toLower = 'e' && !digits.isEmpty && digits.all Char.isDigit then
      some (if negative then -(digitsValue digits : Int) else digitsValue digits)
    else none

/-- Takes the digits after a point off a text that may begin with a point. -/
def splitFraction : List Char → List Char × List Char
  | '.' :: rest => (rest.takeWhile Char.isDigit, rest.dropWhile Char.isDigit)
  | text => ([], text)

/-- Reads a number without its sign. -/
def readUnsigned (negative : Bool) (text : List Char) : Option Decimal :=
  match String.ofList (text.map Char.toLower) with
  | "inf" | "infinity" => some (.infinite negative)
  | "nan" => some .notANumber
  | _ =>
    let whole := text.takeWhile Char.isDigit
    let (fraction, rest) := splitFraction (text.dropWhile Char.isDigit)
    if whole.isEmpty && fraction.isEmpty then none
    else
      (readExponent? rest).map fun exponent =>
        .finite negative (digitsValue (whole ++ fraction)) (exponent - fraction.length)

/-- Reads a number. -/
def read (text : String) : Except DecimalError Decimal :=
  match text.toList with
  | [] => .error .empty
  | characters =>
    let (negative, rest) := splitSign characters
    match readUnsigned negative rest with
    | some number => .ok number
    | none => .error .invalid

/-- Every number from ten to this power on is beyond all doubles, and every
    number below ten to its negative is nearest to zero. -/
def exponentBound : Int := 400

/-- The double nearest to `digits * 10 ^ exponent`, if there is one. -/
def nearest? (digits : Nat) (exponent : Int) : Option Binary64 :=
  let leading := exponent + Binary64.digitCount digits
  if digits = 0 || leading < -exponentBound then some .zero
  else if exponentBound < leading then none
  else if 0 ≤ exponent then Binary64.nearest? (digits * Nat.pow 10 exponent.toNat) 1
  else Binary64.nearest? digits (Nat.pow 10 (-exponent).toNat)

/-- The double nearest to the number without its sign, if there is one. -/
def magnitude? : Decimal → Option Binary64
  | .finite _ digits exponent => nearest? digits exponent
  | .infinite _ | .notANumber => none

/-- Whether the number has a minus sign. -/
def isNegative : Decimal → Bool
  | .finite negative _ _ | .infinite negative => negative
  | .notANumber => false

end Decimal

end Microprocessor
