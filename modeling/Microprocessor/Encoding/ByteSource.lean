import Microprocessor.Word.LittleEndian

/-! # Byte sources and readers

    Instructions are read from a source of bytes that may end anywhere.  A
    reader consumes bytes from a position on; it fails only where a byte it
    asks for is missing, and the failure names that position.

      * `ByteReader` is the type of readers, with `peek`, `nextByte`,
        `nextWord` and `nextDouble`;
      * `Cursor` is a source together with a place in it, for reading piece
        by piece. -/

namespace Microprocessor

/-- The byte at each index, up to wherever the source ends. -/
abbrev ByteSource := Nat → Option UInt8

/-- The source of the bytes of a list. -/
def ByteSource.ofList (bytes : List UInt8) : ByteSource :=
  fun index => bytes[index]?

/-- The source of the bytes of an array. -/
def ByteSource.ofArray (bytes : Array UInt8) : ByteSource :=
  fun index => bytes[index]?

/-- The source has no byte at `position`. -/
structure EndOfStream where
  position : Nat
  deriving DecidableEq

/-- The report for a stream that ended. -/
def EndOfStream.message (failure : EndOfStream) : String :=
  "instruction stream ended at position " ++ toString failure.position

/-- Reads a value from a source, moving a position past the bytes consumed. -/
abbrev ByteReader (α : Type) := ReaderT ByteSource (StateT Nat (Except EndOfStream)) α

namespace ByteReader

/-- The byte at the position, which stays where it is. -/
def peek : ByteReader UInt8 := fun source position =>
  match source position with
  | some byte => .ok (byte, position)
  | none => .error ⟨position⟩

/-- The byte at the position. -/
def nextByte : ByteReader UInt8 := fun source position =>
  match source position with
  | some byte => .ok (byte, position + 1)
  | none => .error ⟨position⟩

/-- The little-endian 16-bit word at the position. -/
def nextWord : ByteReader UInt16 := do
  let low ← nextByte
  let high ← nextByte
  return wordOfBytes low high

/-- The little-endian 32-bit word at the position. -/
def nextDouble : ByteReader UInt32 := do
  let low ← nextWord
  let high ← nextWord
  return doubleOfWords low high

end ByteReader

/-- A source and a place in it, reached from `start`. -/
structure Cursor where
  source : ByteSource
  start : Nat
  position : Nat

namespace Cursor

/-- The cursor at index `start` of `source`. -/
def ofSource (source : ByteSource) (start : Nat) : Cursor :=
  ⟨source, start, start⟩

/-- The number of bytes read since the start. -/
def consumed (cursor : Cursor) : Nat :=
  cursor.position - cursor.start

/-- Reads at the cursor.  A read that runs out leaves the cursor at the byte
    that was missing: what came before it has been consumed. -/
def read {α : Type} (reader : ByteReader α) (cursor : Cursor) : Except EndOfStream α × Cursor :=
  match reader cursor.source cursor.position with
  | .ok (value, position) => (.ok value, { cursor with position })
  | .error failure => (.error failure, { cursor with position := failure.position })

end Cursor

end Microprocessor
