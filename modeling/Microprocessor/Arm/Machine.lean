import Microprocessor.Arm.Processor
import Microprocessor.Pipeline.Core

/-! # The ARM processor and its surroundings

    Instructions act on the processor together with the bus, which is a
    `Machine`.  Of the bus they use memory alone. -/

namespace Microprocessor.Arm

/-- A processor and the bus it works on. -/
structure Machine (δ : Type) where
  processor : Processor
  bus : Bus δ

namespace Machine

variable {δ : Type}

/-- Applies a function to the processor. -/
def mapProcessor (machine : Machine δ) (f : Processor → Processor) : Machine δ :=
  { machine with processor := f machine.processor }

/-- Applies a function to memory. -/
def mapMemory (machine : Machine δ) (f : Memory → Memory) : Machine δ :=
  match machine with
  | ⟨processor, bus⟩ => ⟨processor, bus.mapMemory f⟩

/-- The memory on the bus. -/
def memory (machine : Machine δ) : Memory :=
  machine.bus.memory

/-- What an instruction leaves behind that went through. -/
def finished (machine : Machine δ) (faults : FaultUnit) : Executed Processor δ :=
  ⟨machine.processor, machine.bus, faults, none⟩

/-- What an instruction leaves behind that a fault stopped. -/
def stopped (machine : Machine δ) (faults : FaultUnit) (fault : Fault) : Executed Processor δ :=
  ⟨machine.processor, machine.bus, faults, some fault⟩

end Machine

end Microprocessor.Arm
