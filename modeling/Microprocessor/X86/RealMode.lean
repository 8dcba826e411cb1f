import Microprocessor.Pipeline.Architecture
import Microprocessor.X86.Execution

/-! # The 8086 in real mode

    Six bytes are fetched ahead, a word at a time. -/

namespace Microprocessor.X86

/-- The registers shown, in order. -/
def registerNames : List String :=
  ["AX", "BX", "CX", "DX", "SP", "BP", "SI", "DI", "CS", "DS", "ES", "SS", "IP", "FLAGS"]

/-- The 8086 in real mode, at 4.77 MHz. -/
def realMode : Architecture Instruction where
  name := "8086"
  prefetchCapacity := 6
  fetchChunk := 2
  decodedDepth := 1
  registers := registerNames
  clockFrequency := 4770000
  decode := decode

end Microprocessor.X86
