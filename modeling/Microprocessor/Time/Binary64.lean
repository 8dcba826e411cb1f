/-! # Double-precision numbers

    Simulated time is computed in IEEE double precision.  The numbers here are
    the finite ones from zero up, as a mantissa times a power of two, and all
    arithmetic is exact until the one rounding at its end.

      * `Binary64.nearest?` rounds a fraction to the nearest double;
      * `Binary64.fraction` gives a double back as an exact fraction;
      * `Binary64.text` writes the fewest digits that read back, and
        `Binary64.fixed` a fixed number of decimals. -/

namespace Microprocessor

/-- The integer nearest to `num / den`; a half goes to the even neighbour. -/
def roundHalfEven (num den : Nat) : Nat :=
  let quotient := num / den
  let twice := 2 * (num % den)
  if twice < den then quotient
  else if den < twice then quotient + 1
  else quotient + quotient % 2

/-- The double `mantissa * 2 ^ exponent`.  The mantissa has 53 bits, and fewer
    only with the least exponent. -/
structure Binary64 where
  mantissa : Nat
  exponent : Int
  deriving DecidableEq

namespace Binary64

/-- The least exponent of a double. -/
def leastExponent : Int := -1074

/-- The greatest exponent of a double. -/
def greatestExponent : Int := 971

/-- The mantissa lies below 2 to the 53. -/
def mantissaBound : Nat := 0x20000000000000

/-- The least mantissa of 53 bits, which is 2 to the 52. -/
def leastFullMantissa : Nat := 0x10000000000000

/-- Zero. -/
def zero : Binary64 := ⟨0, leastExponent⟩

/-- The number as an exact fraction. -/
def fraction (x : Binary64) : Nat × Nat :=
  if 0 ≤ x.exponent then (x.mantissa * Nat.pow 2 x.exponent.toNat, 1)
  else (x.mantissa, Nat.pow 2 (-x.exponent).toNat)

/-- The integer nearest to `num / den / 2 ^ exponent`. -/
def scaled (num den : Nat) (exponent : Int) : Nat :=
  if 0 ≤ exponent then roundHalfEven num (den * Nat.pow 2 exponent.toNat)
  else roundHalfEven (num * Nat.pow 2 (-exponent).toNat) den

/-- The double nearest to `num / den`, of which a half goes to the even
    neighbour; none if the fraction is too large for any. -/
def nearest? (num den : Nat) : Option Binary64 :=
  if num = 0 then some zero
  else
    let guess : Int := (Nat.log2 num : Int) - Nat.log2 den - 53
    let low := max guess leastExponent
    let exponent := if scaled num den low < mantissaBound then low else low + 1
    let mantissa := scaled num den exponent
    let (mantissa, exponent) :=
      if mantissa = mantissaBound then (leastFullMantissa, exponent + 1) else (mantissa, exponent)
    if exponent ≤ greatestExponent then some ⟨mantissa, exponent⟩ else none

/-- The greatest double. -/
def greatest : Nat := (mantissaBound - 1) * Nat.pow 2 971

/-! ## Decimal text -/

/-- The number of decimal digits of a number from one up. -/
def digitCount (n : Nat) : Nat :=
  (Nat.toDigits 10 n).length

/-- The exponent of ten of the first digit of `num / den`, which is not
    zero. -/
def decimalExponent (num den : Nat) : Int :=
  if den ≤ num then (digitCount (num / den) : Int) - 1
  else -(digitCount ((den + num - 1) / num - 1) : Int)

/-- The fractions between which the decimals that read back as `x` lie, over
    a common denominator, and `x` itself over it. -/
structure Neighbourhood where
  low : Nat
  value : Nat
  high : Nat
  den : Nat
  /-- Whether the ends read back as `x` too. -/
  closed : Bool

/-- Half way down and half way up to the neighbouring doubles.  Below a power
    of two the neighbour is half as far away. -/
def neighbourhood (x : Binary64) : Neighbourhood :=
  let down := if x.mantissa = leastFullMantissa && leastExponent < x.exponent then 1 else 2
  let unit := if 0 ≤ x.exponent then Nat.pow 2 x.exponent.toNat else 1
  let den := if 0 ≤ x.exponent then 4 else 4 * Nat.pow 2 (-x.exponent).toNat
  ⟨(4 * x.mantissa - down) * unit, 4 * x.mantissa * unit, (4 * x.mantissa + 2) * unit, den,
    x.mantissa % 2 == 0⟩

/-- Whether the decimal `digits * 10 ^ exponent` lies in the neighbourhood. -/
def Neighbourhood.holds (around : Neighbourhood) (digits : Nat) (exponent : Int) : Bool :=
  let value := digits * around.den * (if 0 ≤ exponent then Nat.pow 10 exponent.toNat else 1)
  let scale := if 0 ≤ exponent then 1 else Nat.pow 10 (-exponent).toNat
  if around.closed then around.low * scale ≤ value && value ≤ around.high * scale
  else around.low * scale < value && value < around.high * scale

/-- The decimal nearest to the value among the two around it on the grid of
    `10 ^ exponent`, of those that lie in the neighbourhood. -/
def Neighbourhood.onGrid? (around : Neighbourhood) (exponent : Int) : Option Nat :=
  let num := if 0 ≤ exponent then around.value else around.value * Nat.pow 10 (-exponent).toNat
  let den := if 0 ≤ exponent then around.den * Nat.pow 10 exponent.toNat else around.den
  let below := num / den
  match around.holds below exponent, around.holds (below + 1) exponent with
  | true, true => some (if 2 * (num % den) ≤ den then below else below + 1)
  | true, false => some below
  | false, true => some (below + 1)
  | false, false => none

/-- The first hit on a grid, from the coarsest on: `count` grids with one more
    digit each. -/
def Neighbourhood.shortest (around : Neighbourhood) : Nat → Int → Nat × Int
  | 0, exponent => (roundHalfEven around.value around.den, exponent)
  | count + 1, exponent =>
    match around.onGrid? exponent with
    | some digits => (digits, exponent)
    | none => around.shortest count (exponent - 1)

/-- Moves the zeros at the end of `digits` into the exponent, `fuel` at
    most. -/
def dropZeros : Nat → Nat → Int → Nat × Int
  | 0, digits, exponent => (digits, exponent)
  | fuel + 1, digits, exponent =>
    if digits % 10 = 0 then dropZeros fuel (digits / 10) (exponent + 1) else (digits, exponent)

/-- The fewest decimal digits that read back as `x`, with an exponent of
    ten. -/
def decimal (x : Binary64) : Nat × Int :=
  let around := x.neighbourhood
  let (digits, exponent) := around.shortest 17 (decimalExponent around.value around.den)
  dropZeros 17 digits exponent

/-- How numbers are written. -/
structure DecimalStyle where
  /-- The least exponent of ten that is written out with zeros. -/
  leastPositional : Int
  /-- The least exponent of ten that is not written out any more. -/
  leastScientific : Int

/-- Numbers from 0.00001 on and below 10^16 are written out. -/
def style : DecimalStyle := ⟨-5, 16⟩

/-- Digits with a point after the first `whole` of them, and at least one
    digit on either side. -/
def pointed (digits : String) (whole : Int) : String :=
  if whole ≤ 0 then "0." ++ "".pushn '0' (-whole).toNat ++ digits
  else
    let count := whole.toNat
    if digits.length ≤ count then digits ++ "".pushn '0' (count - digits.length) ++ ".0"
    else String.ofList (digits.toList.take count) ++ "." ++ String.ofList (digits.toList.drop count)

/-- Digits with a point after the first, and an exponent with its sign. -/
def scientific (digits : String) (exponent : Int) : String :=
  let mantissa := match digits.toList with
    | first :: second :: rest => String.ofList (first :: '.' :: second :: rest)
    | _ => digits
  mantissa ++ (if exponent < 0 then "e-" else "e+") ++ toString exponent.natAbs

/-- The number with the fewest digits that read back. -/
def text (x : Binary64) : String :=
  if x.mantissa = 0 then "0.0"
  else
    let (number, exponent) := x.decimal
    let digits := toString number
    let first := exponent + digits.length - 1
    if style.leastPositional ≤ first && first < style.leastScientific then
      pointed digits (first + 1)
    else scientific digits first

/-- The number with `places` decimals; a half goes to the even neighbour. -/
def fixed (x : Binary64) (places : Nat) : String :=
  let (num, den) := x.fraction
  let scale := Nat.pow 10 places
  let rounded := roundHalfEven (num * scale) den
  let decimals := toString (rounded % scale)
  toString (rounded / scale) ++ "." ++ "".pushn '0' (places - decimals.length) ++ decimals

end Binary64

end Microprocessor
