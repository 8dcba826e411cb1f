/-! # The 8086 flags

    Nine flags live in a 16-bit word.  Some of its other bits always read as
    ones, and the rest as zeros.

      * `Flags.get` and `Flags.set` work on one flag;
      * `Flags.word` and `Flags.restore` are what goes to and comes from the
        stack;
      * `Flags.lowByte` and `Flags.restoreLowByte` are what goes to and comes
        from AH. -/

namespace Microprocessor.X86

/-- The flags. -/
inductive Flag
  | carry
  | parity
  | auxiliaryCarry
  | zero
  | sign
  | trap
  | interruptEnable
  | direction
  | overflow
  deriving DecidableEq

namespace Flag

/-- Every flag, from the highest bit to the lowest. -/
def all : List Flag :=
  [.overflow, .direction, .interruptEnable, .trap, .sign, .zero, .auxiliaryCarry, .parity, .carry]

/-- The flag's bit. -/
def mask : Flag → UInt16
  | .carry => 0x0001
  | .parity => 0x0004
  | .auxiliaryCarry => 0x0010
  | .zero => 0x0040
  | .sign => 0x0080
  | .trap => 0x0100
  | .interruptEnable => 0x0200
  | .direction => 0x0400
  | .overflow => 0x0800

/-- The flag's name. -/
def name : Flag → String
  | .carry => "Carry"
  | .parity => "Parity"
  | .auxiliaryCarry => "AuxiliaryCarry"
  | .zero => "Zero"
  | .sign => "Sign"
  | .trap => "Trap"
  | .interruptEnable => "InterruptEnable"
  | .direction => "Direction"
  | .overflow => "Overflow"

/-- The flag with a name. -/
def ofName? (name : String) : Option Flag :=
  all.find? fun flag => flag.name == name

/-- The letter that shows the flag. -/
def letter : Flag → Char
  | .carry => 'C'
  | .parity => 'P'
  | .auxiliaryCarry => 'A'
  | .zero => 'Z'
  | .sign => 'S'
  | .trap => 'T'
  | .interruptEnable => 'I'
  | .direction => 'D'
  | .overflow => 'O'

end Flag

/-- The flags, by the bits that are stored. -/
structure Flags where
  stored : UInt16
  deriving DecidableEq

namespace Flags

/-- The bits that always read as ones: bit 1 and bits 12 to 15. -/
def reservedOnes : UInt16 := 0xF002

/-- The bits of the nine flags. -/
def writable : UInt16 := 0x0FD5

/-- The flags that the low byte holds: sign, zero, auxiliary carry, parity and
    carry. -/
def lowWritable : UInt16 := 0x00D5

/-- Every flag clear. -/
def clear : Flags := ⟨0⟩

/-- Whether a flag is set. -/
def get (flags : Flags) (flag : Flag) : Bool :=
  flags.stored &&& flag.mask != 0

/-- Sets or clears one flag. -/
def set (flags : Flags) (flag : Flag) (value : Bool) : Flags :=
  if value then ⟨flags.stored ||| flag.mask⟩ else ⟨flags.stored &&& ~~~flag.mask⟩

/-- The flags as a word, with the reserved bits. -/
def word (flags : Flags) : UInt16 :=
  (flags.stored &&& writable) ||| reservedOnes

/-- The flags that a word holds; its reserved bits are dropped. -/
def restore (value : UInt16) : Flags :=
  ⟨value &&& writable⟩

/-- The low byte of the word. -/
def lowByte (flags : Flags) : UInt8 :=
  flags.word.toUInt8

/-- Takes the flags of the low byte from `value` and keeps the others. -/
def restoreLowByte (flags : Flags) (value : UInt8) : Flags :=
  ⟨(flags.stored &&& ~~~lowWritable) ||| (value.toUInt16 &&& lowWritable)⟩

/-- The letters of the flags that are set, dashes for the others. -/
def text (flags : Flags) : String :=
  String.ofList (Flag.all.map fun flag => if flags.get flag then flag.letter else '-')

end Flags

end Microprocessor.X86
