/-! # Addresses

    Real-mode memory is addressed by a segment and an offset within it; the
    linear address has 20 bits and carries out of bit 19 are lost.  Code is
    found at a segmented or at a flat address.

      * `MemoryLocator` moves within its segment, modulo 2^16;
      * `CodeAddress` moves modulo 2^16 or modulo 2^32, as its kind says. -/

namespace Microprocessor

/-- The size of the real-mode address space. -/
def addressSpace : Nat := 0x100000

/-- The linear address of an offset in a segment. -/
def linearAddress (base offset : UInt16) : UInt32 :=
  ((base.toUInt32 <<< 4) + offset.toUInt32) &&& 0xFFFFF

/-- A segment and an offset within it. -/
structure MemoryLocator where
  base : UInt16
  offset : UInt16
  deriving DecidableEq

namespace MemoryLocator

/-- The linear address. -/
def address (locator : MemoryLocator) : UInt32 :=
  linearAddress locator.base locator.offset

/-- The place `delta` bytes further on in the segment. -/
def advance (locator : MemoryLocator) (delta : UInt16) : MemoryLocator :=
  { locator with offset := locator.offset + delta }

/-- The place `delta` bytes back in the segment. -/
def retreat (locator : MemoryLocator) (delta : UInt16) : MemoryLocator :=
  { locator with offset := locator.offset - delta }

end MemoryLocator

/-- Where instruction bytes come from. -/
inductive CodeAddress
  | flat (address : UInt32)
  | segmented (locator : MemoryLocator)
  deriving DecidableEq

namespace CodeAddress

/-- The start of flat memory. -/
def start : CodeAddress := .flat 0

/-- The linear address. -/
def address : CodeAddress → UInt32
  | .flat address => address
  | .segmented locator => locator.address

/-- The code address `delta` bytes further on. -/
def advance (code : CodeAddress) (delta : Nat) : CodeAddress :=
  match code with
  | .flat address => .flat (address + UInt32.ofNat delta)
  | .segmented locator => .segmented (locator.advance (UInt16.ofNat delta))

end CodeAddress

end Microprocessor
