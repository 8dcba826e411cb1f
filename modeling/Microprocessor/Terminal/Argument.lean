import Microprocessor.Storage.Locator
import Microprocessor.Text.Decimal
import Microprocessor.Text.Numeral
import Microprocessor.Word.Hexadecimal

/-! # Values of command-line options

      * numbers are decimal, or hexadecimal after `0x`;
      * the size of memory is at most the real-mode address space;
      * the speed is a positive multiple of the clock's, or `MAX`. -/

namespace Microprocessor.Terminal

/-- Why a text is not the value of an option. -/
inductive ArgumentError
  | notANumber (text : String) (cause : NumeralError)
  | outOfRange (text : String)
  | memoryTooLarge (text : String)
  | notAMultiplier (text : String) (cause : DecimalError)
  | notPositive (text : String)
  | notAChoice (text : String)
  deriving DecidableEq

/-- The report for a text that is not the value of an option. -/
def ArgumentError.message : ArgumentError → String
  | .notANumber text cause => "'" ++ text ++ "' is not a number: " ++ cause.message
  | .outOfRange text => text ++ " is out of range"
  | .memoryTooLarge text =>
    "memory size " ++ text ++ " is larger than the " ++ markedHex 1 addressSpace
      ++ "-byte address space"
  | .notAMultiplier text cause =>
    "'" ++ text ++ "' is not a valid speed multiplier: " ++ cause.message
  | .notPositive text => "speed multiplier " ++ text ++ " should be positive"
  | .notAChoice text => "'" ++ text ++ "' is not one of the choices"

/-! ## Numbers -/

/-- The bound on every number that can be read. -/
def numberBound : Nat := UInt64.size

/-- Reads the digits of a number, decimal or hexadecimal. -/
def readDigits (text : String) : Except NumeralError Nat :=
  match text.toList with
  | '0' :: 'x' :: digits | '0' :: 'X' :: digits => Numeral.read 16 numberBound digits
  | digits => Numeral.read 10 numberBound digits

/-- Reads a number below `bound`. -/
def readNumber (bound : Nat) (text : String) : Except ArgumentError Nat :=
  match readDigits text with
  | .error cause => .error (.notANumber text cause)
  | .ok n => if n < bound then .ok n else .error (.outOfRange text)

/-- Reads a number of 16 bits. -/
def readWord (text : String) : Except ArgumentError UInt16 :=
  (readNumber UInt16.size text).map UInt16.ofNat

/-- Reads a number of 32 bits. -/
def readDouble (text : String) : Except ArgumentError UInt32 :=
  (readNumber UInt32.size text).map UInt32.ofNat

/-- Reads a count, which has 64 bits. -/
def readCount (text : String) : Except ArgumentError Nat :=
  readNumber numberBound text

/-- Reads a size of memory. -/
def readMemorySize (text : String) : Except ArgumentError Nat :=
  match readNumber UInt32.size text with
  | .error failure => .error failure
  | .ok size => if addressSpace < size then .error (.memoryTooLarge text) else .ok size

/-! ## Speed -/

/-- How fast to run. -/
inductive Speed
  /-- As fast as can be. -/
  | unlimited
  /-- A multiple of the clock's speed. -/
  | times (multiplier : Binary64)
  deriving DecidableEq

/-- Reads a speed. -/
def readSpeed (text : String) : Except ArgumentError Speed :=
  if text = "MAX" then .ok .unlimited
  else
    match Decimal.read text with
    | .error cause => .error (.notAMultiplier text cause)
    | .ok number =>
      match number.magnitude? with
      | none => .error (.notPositive text)
      | some multiplier =>
        if number.isNegative || multiplier.mantissa = 0 then .error (.notPositive text)
        else .ok (.times multiplier)

/-! ## Choices -/

/-- The processors. -/
inductive ProcessorChoice
  | x86
  | arm
  deriving DecidableEq

/-- Reads the name of a processor. -/
def readProcessor : String → Except ArgumentError ProcessorChoice
  | "x86" => .ok .x86
  | "arm" => .ok .arm
  | text => .error (.notAChoice text)

/-- The forms of the final summary. -/
inductive DumpFormat
  | text
  | json
  deriving DecidableEq

/-- Reads the name of a form. -/
def readDumpFormat : String → Except ArgumentError DumpFormat
  | "text" => .ok .text
  | "json" => .ok .json
  | text => .error (.notAChoice text)

end Microprocessor.Terminal
