/-! # Hexadecimal text

    Numbers are shown in upper-case hexadecimal, padded with zeros to a
    least number of digits, with or without the mark `0x`. -/

namespace Microprocessor

/-- `digits` preceded by as many zeros as it takes to have `least` digits. -/
def padded (least : Nat) (digits : String) : String :=
  "".pushn '0' (least - digits.length) ++ digits

/-- `n` in upper-case hexadecimal, at least `least` digits long. -/
def hex (least n : Nat) : String :=
  padded least (String.ofList ((Nat.toDigits 16 n).map Char.toUpper))

/-- `n` in upper-case hexadecimal after the mark `0x`. -/
def markedHex (least n : Nat) : String :=
  "0x" ++ hex least n

end Microprocessor
