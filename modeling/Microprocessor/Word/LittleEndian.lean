/-! # Little-endian words

    Words are built from bytes, and taken apart into bytes, low byte first. -/

namespace Microprocessor

/-- The 16-bit word with the given low and high bytes. -/
def wordOfBytes (low high : UInt8) : UInt16 :=
  low.toUInt16 ||| (high.toUInt16 <<< 8)

/-- The low byte of a word. -/
def lowByte (word : UInt16) : UInt8 :=
  word.toUInt8

/-- The high byte of a word. -/
def highByte (word : UInt16) : UInt8 :=
  (word >>> 8).toUInt8

/-- The 32-bit word with the given low and high halves. -/
def doubleOfWords (low high : UInt16) : UInt32 :=
  low.toUInt32 ||| (high.toUInt32 <<< 16)

/-- The low half of a 32-bit word. -/
def lowWord (double : UInt32) : UInt16 :=
  double.toUInt16

/-- The high half of a 32-bit word. -/
def highWord (double : UInt32) : UInt16 :=
  (double >>> 16).toUInt16

/-- The four bytes of a 32-bit word, low byte first. -/
def bytesOfDouble (double : UInt32) : List UInt8 :=
  [double.toUInt8, (double >>> 8).toUInt8, (double >>> 16).toUInt8, (double >>> 24).toUInt8]

end Microprocessor
