import Microprocessor.Word.Hexadecimal
import Microprocessor.Word.LittleEndian
import Microprocessor.Word.Width

/-! # Memory

    Memory is an array of bytes from address 0 on.  Addresses past its end
    read as all ones and ignore writes.  Addresses from the start of ROM on
    ignore writes too, and are filled by loading an image.

      * `Memory.fetch?` reads a byte if there is one;
      * `Memory.read`, `Memory.write` work on one byte;
      * words and double words are little-endian runs of bytes, modulo 2^32;
      * `Memory.load` copies an image or refuses it whole. -/

namespace Microprocessor

/-- How much memory there is, and what of it is read-only. -/
structure MemoryConfiguration where
  /-- The number of bytes. -/
  size : Nat
  /-- The first read-only address, if any. -/
  romStart : Option UInt32
  deriving DecidableEq

namespace MemoryConfiguration

/-- The first read-only address unless another is asked for. -/
def defaultRomStart : UInt32 := 0xF6000

/-- The whole real-mode address space, with ROM at its top. -/
def default : MemoryConfiguration :=
  ⟨0x100000, some defaultRomStart⟩

end MemoryConfiguration

/-- An image that does not fit. -/
structure ImageTooLarge where
  base : UInt32
  length : Nat
  size : Nat
  deriving DecidableEq

/-- The report for an image that does not fit. -/
def ImageTooLarge.message (failure : ImageTooLarge) : String :=
  "an image of " ++ toString failure.length ++ " bytes loaded at "
    ++ markedHex 5 failure.base.toNat ++ " does not fit in " ++ toString failure.size
    ++ " bytes of memory"

/-- The bytes of memory. -/
structure Memory where
  bytes : Array UInt8
  /-- The first read-only address, if any. -/
  romStart : Option UInt32

namespace Memory

/-- The byte that an address without memory reads as. -/
def unpopulated : UInt8 := 0xFF

/-- Memory full of zeros. -/
def ofConfiguration (configuration : MemoryConfiguration) : Memory :=
  ⟨Array.replicate configuration.size 0, configuration.romStart⟩

/-- The number of bytes. -/
def size (memory : Memory) : Nat :=
  memory.bytes.size

/-- Whether writes to the address are dropped. -/
def isRom (memory : Memory) (address : UInt32) : Bool :=
  match memory.romStart with
  | some start => start ≤ address
  | none => false

/-- The byte at an address, if there is memory. -/
def fetch? (memory : Memory) (address : UInt32) : Option UInt8 :=
  memory.bytes[address.toNat]?

/-- The byte at an address. -/
def read (memory : Memory) (address : UInt32) : UInt8 :=
  (memory.fetch? address).getD unpopulated

/-- Replaces the byte at an address, where that can be done. -/
def write (memory : Memory) (address : UInt32) (value : UInt8) : Memory :=
  if memory.isRom address then memory
  else { memory with bytes := memory.bytes.setIfInBounds address.toNat value }

/-- The value of a width at an address. -/
def readWidth (memory : Memory) (width : Width) (address : UInt32) : UInt16 :=
  match width with
  | .byte => (memory.read address).toUInt16
  | .word => wordOfBytes (memory.read address) (memory.read (address + 1))

/-- Replaces the value of a width at an address. -/
def writeWidth (memory : Memory) (width : Width) (address : UInt32) (value : UInt16) : Memory :=
  match width with
  | .byte => memory.write address (lowByte value)
  | .word => (memory.write address (lowByte value)).write (address + 1) (highByte value)

/-- The double word at an address. -/
def readDouble (memory : Memory) (address : UInt32) : UInt32 :=
  doubleOfWords (memory.readWidth .word address) (memory.readWidth .word (address + 2))

/-- Replaces bytes from an address on. -/
def writeBytes (memory : Memory) (address : UInt32) : List UInt8 → Memory
  | [] => memory
  | byte :: rest => (memory.write address byte).writeBytes (address + 1) rest

/-- Replaces the double word at an address. -/
def writeDouble (memory : Memory) (address value : UInt32) : Memory :=
  memory.writeBytes address (bytesOfDouble value)

/-- Replaces the bytes from an index on, whether they are read-only or not. -/
def copyFrom (bytes : Array UInt8) (index : Nat) : List UInt8 → Array UInt8
  | [] => bytes
  | byte :: rest => copyFrom (bytes.setIfInBounds index byte) (index + 1) rest

/-- Copies an image to an address, read-only memory included. -/
def load (memory : Memory) (base : UInt32) (image : List UInt8) : Except ImageTooLarge Memory :=
  if base.toNat + image.length ≤ memory.size then
    .ok { memory with bytes := copyFrom memory.bytes base.toNat image }
  else .error ⟨base, image.length, memory.size⟩

/-- The bytes at `count` addresses from one on, modulo 2^32. -/
def dump (memory : Memory) (address : UInt32) (count : Nat) : List UInt8 :=
  (List.range count).map fun i => memory.read (address + UInt32.ofNat i)

end Memory

end Microprocessor
