import Microprocessor.Encoding.ByteSource
import Microprocessor.Pipeline.Core
import Microprocessor.Pipeline.Snapshot

/-! # Architectures

    What the pipeline has to know of an architecture beside its core: how it
    fetches and decodes, how fast it runs, and which registers it shows. -/

namespace Microprocessor

/-- The description of an architecture with instructions of type `ι`. -/
structure Architecture (ι : Type) where
  name : String
  /-- How many bytes can be fetched ahead. -/
  prefetchCapacity : Nat
  /-- How many bytes are fetched at a time. -/
  fetchChunk : Nat
  /-- How many instructions can be decoded ahead. -/
  decodedDepth : Nat
  /-- The names of the registers, in the order in which they are shown. -/
  registers : List String
  /-- The clock's oscillations per second. -/
  clockFrequency : UInt64
  /-- Decodes the instruction that begins at an index. -/
  decode : ByteSource → Nat → Except EndOfStream ι

namespace Architecture

variable {κ ι : Type} [Core κ ι]

/-- The registers of a core that the architecture names. -/
def snapshot (architecture : Architecture ι) (core : κ) : RegisterSnapshot where
  architecture := architecture.name
  programCounter := Core.fetchAddress core
  registers := architecture.registers.filterMap fun name =>
    (Core.registerValue? core name).map (NamedValue.mk name)
  flags := Core.flagsText core

end Architecture

end Microprocessor
