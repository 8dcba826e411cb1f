import Microprocessor.Arm.Execution
import Microprocessor.Pipeline.Architecture

/-! # The A32 architecture

    Two words are fetched ahead, a word at a time. -/

namespace Microprocessor.Arm

/-- The registers shown, in order. -/
def registerNames : List String :=
  ["R0", "R1", "R2", "R3", "R4", "R5", "R6", "R7", "R8", "R9", "R10", "R11", "R12",
    "SP", "LR", "PC", "CPSR"]

/-- A32, at 16 MHz. -/
def a32 : Architecture Instruction where
  name := "arm"
  prefetchCapacity := 8
  fetchChunk := 4
  decodedDepth := 1
  registers := registerNames
  clockFrequency := 16000000
  decode := decode

end Microprocessor.Arm
