import Microprocessor.Control.FaultUnit
import Microprocessor.Control.Interrupt
import Microprocessor.Encoding.Decoded
import Microprocessor.Storage.Bus

/-! # Execution cores

    A core is the part of a processor that is particular to its architecture:
    the registers, and what instructions do to them and to the bus.  The
    pipeline is the same for every core. -/

namespace Microprocessor

/-- What an executed instruction leaves behind. -/
structure Executed (κ δ : Type) where
  core : κ
  bus : Bus δ
  faults : FaultUnit
  /-- The fault that stopped the instruction, if one did. -/
  fault : Option Fault

/-- What an interrupt boundary leaves behind. -/
structure Serviced (κ δ γ : Type) where
  core : κ
  bus : Bus δ
  inputs : InterruptInputs γ
  /-- Whether a handler was entered. -/
  entered : Bool

/-- Cores that execute instructions of type `ι`. -/
class Core (κ : Type) (ι : outParam Type) where
  /-- Where the next instruction is decoded from. -/
  codeAddress : κ → CodeAddress
  /-- Moves on past an instruction of some length. -/
  advance : κ → Nat → κ
  /-- Executes an instruction decoded at a linear address, which the core has
      already moved past. -/
  execute : {δ : Type} → [PortDevice δ] → κ → ι → UInt32 → Bus δ → FaultUnit → Executed κ δ
  /-- Takes at most one interrupt that is waiting. -/
  serviceInterrupts : {δ γ : Type} → [InterruptController γ] → κ → Bus δ → InterruptInputs γ →
    Serviced κ δ γ
  /-- The value of the register with a name. -/
  registerValue? : κ → String → Option UInt32
  /-- The flags as text. -/
  flagsText : κ → String
  /-- Whether the core waits for an interrupt. -/
  isHalted : κ → Bool

/-- The linear address of the next instruction. -/
def Core.fetchAddress {κ ι : Type} [Core κ ι] (core : κ) : UInt32 :=
  (Core.codeAddress core).address

end Microprocessor
