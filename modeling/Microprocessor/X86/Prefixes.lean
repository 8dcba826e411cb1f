import Microprocessor.Encoding.ByteSource
import Microprocessor.X86.Register

/-! # 8086 instruction prefixes

    Up to four bytes before the opcode override the segment of a memory
    operand, repeat a string operation, or lock the bus.  Of several bytes of
    one kind the last takes effect; a fifth byte is taken for the opcode. -/

namespace Microprocessor.X86

/-- Which value of ZF lets a repeated comparison go on. -/
inductive Repeat
  | equal
  | notEqual
  deriving DecidableEq

/-- What the bytes before an opcode have asked for. -/
structure Prefixes where
  segment : Option SegmentRegister
  repetition : Option Repeat
  lock : Bool
  /-- The number of bytes before the opcode. -/
  count : Nat
  deriving DecidableEq

/-- What one byte before an opcode asks for. -/
inductive Modifier
  | segment (register : SegmentRegister)
  | repetition (kind : Repeat)
  | lock
  deriving DecidableEq

namespace Modifier

/-- The modifier that a byte stands for, if any. -/
def ofByte? (byte : UInt8) : Option Modifier :=
  match byte.toNat with
  | 0x26 => some (.segment .es)
  | 0x2E => some (.segment .cs)
  | 0x36 => some (.segment .ss)
  | 0x3E => some (.segment .ds)
  | 0xF0 => some .lock
  | 0xF2 => some (.repetition .notEqual)
  | 0xF3 => some (.repetition .equal)
  | _ => none

end Modifier

namespace Prefixes

/-- At most this many bytes before an opcode are modifiers. -/
def maximum : Nat := 4

/-- No byte before the opcode. -/
def none : Prefixes :=
  ⟨.none, .none, false, 0⟩

/-- Adds one more byte, overriding an earlier one of its kind. -/
def add (prefixes : Prefixes) : Modifier → Prefixes
  | .segment register => { prefixes with segment := some register, count := prefixes.count + 1 }
  | .repetition kind => { prefixes with repetition := some kind, count := prefixes.count + 1 }
  | .lock => { prefixes with lock := true, count := prefixes.count + 1 }

/-- Reads up to `room` more modifiers. -/
def readUpTo : Nat → Prefixes → ByteReader Prefixes
  | 0, prefixes => pure prefixes
  | room + 1, prefixes => do
    match Modifier.ofByte? (← ByteReader.peek) with
    | some modifier =>
      let _ ← ByteReader.nextByte
      readUpTo room (prefixes.add modifier)
    | .none => pure prefixes

/-- Reads the modifiers before an opcode. -/
def read : ByteReader Prefixes :=
  readUpTo maximum none

end Prefixes

end Microprocessor.X86
