import Microprocessor.Proofs.Arm.Effect
import Microprocessor.Proofs.Pipeline.Order
import Microprocessor.Proofs.X86.Arbitration

/-! # Interrupt boundaries and halts

    Where no interrupt is eligible a boundary does nothing at all.  A core
    comes to a halt by an instruction that goes through, and not by moving on
    or by a fault.

      * `InterruptibleCore` asks this of a core, with what it takes for an
        interrupt to be eligible; both processors have it;
      * `Pipeline.Quiet` is a pipeline whose next boundary does nothing. -/

namespace Microprocessor

/-- Cores that leave alone a boundary at which no interrupt is eligible and are woken by
    one at which there is, and halt by executing an instruction only. -/
class InterruptibleCore (κ : Type) (ι : outParam Type) [Core κ ι] where
  /-- An interrupt is eligible at a boundary. -/
  Eligible : {γ : Type} → [InterruptController γ] → κ → InterruptInputs γ → Prop
  serviceInterrupts_of_not_eligible : ∀ {δ γ : Type} [InterruptController γ] {core : κ}
    {inputs : InterruptInputs γ},
    ¬ Eligible core inputs → ∀ bus : Bus δ,
      Core.serviceInterrupts core bus inputs = ⟨core, bus, inputs, false⟩
  entered_of_eligible : ∀ {δ γ : Type} [InterruptController γ] {core : κ}
    {inputs : InterruptInputs γ},
    Eligible core inputs → ∀ bus : Bus δ,
      (Core.serviceInterrupts core bus inputs).entered = true
  isHalted_of_eligible : ∀ {δ γ : Type} [InterruptController γ] {core : κ}
    {inputs : InterruptInputs γ},
    Eligible core inputs → ∀ bus : Bus δ,
      Core.isHalted (Core.serviceInterrupts core bus inputs).core = false
  isHalted_advance : ∀ (core : κ) (length : Nat),
    Core.isHalted (Core.advance core length) = Core.isHalted core
  isHalted_of_fault : ∀ {δ : Type} [PortDevice δ] {core : κ} {instruction : ι}
    {address : UInt32} {bus : Bus δ} {faults : FaultUnit} {fault : Fault},
    (Core.execute core instruction address bus faults).fault = some fault →
      Core.isHalted (Core.execute core instruction address bus faults).core = Core.isHalted core

namespace X86

/-- A fault stops an instruction before it can halt the unit. -/
theorem Machine.halted_of_fault {δ : Type} [PortDevice δ] (machine : Machine δ)
    {instruction : Instruction} {address : UInt32} {faults : FaultUnit} {fault : Fault}
    (h : (machine.execute instruction address faults).fault = some fault) :
    (machine.execute instruction address faults).core.halted = machine.unit.halted := by
  have hends := machine.execute_ends instruction address faults
  generalize machine.execute instruction address faults = executed at hends h
  cases hends with
  | stops _ _ _ => rfl
  | performs _ => cases h
  | reads _ _ _ => cases h
  | readsIdle _ _ _ => cases h
  | writes _ _ _ => cases h

/-- On the 8086 an interrupt is eligible if a source asks and is heard. -/
instance : InterruptibleCore ExecutionUnit Instruction where
  Eligible unit inputs := ∃ source : Source, source.Eligible unit inputs
  serviceInterrupts_of_not_eligible := by
    intro δ γ _ unit inputs hnone bus
    obtain ⟨source, hfirst, -⟩ | ⟨-, hserved⟩ :=
      Machine.serviceInterrupts_arbitrates ⟨unit, bus⟩ inputs
    · exact absurd ⟨source, hfirst.1⟩ hnone
    · exact hserved
  entered_of_eligible := by
    rintro δ γ _ unit inputs ⟨source, heligible⟩ bus
    obtain ⟨first, -, hserved⟩ | ⟨hnone, -⟩ :=
      Machine.serviceInterrupts_arbitrates ⟨unit, bus⟩ inputs
    · exact congrArg Serviced.entered hserved
    · exact absurd heligible (hnone source)
  isHalted_of_eligible := by
    rintro δ γ _ unit inputs ⟨source, heligible⟩ bus
    obtain ⟨first, -, hserved⟩ | ⟨hnone, -⟩ :=
      Machine.serviceInterrupts_arbitrates ⟨unit, bus⟩ inputs
    · exact congrArg (fun serviced => serviced.core.halted) hserved
    · exact absurd heligible (hnone source)
  isHalted_advance := fun _ _ => rfl
  isHalted_of_fault := fun {_ _ unit _ _ bus _ _} h => Machine.halted_of_fault ⟨unit, bus⟩ h

end X86

namespace Arm

/-- A fast interrupt is waiting, or another that reaches the processor, and it is not
    masked. -/
def Processor.Eligible {γ : Type} [InterruptController γ] (processor : Processor)
    (inputs : InterruptInputs γ) : Prop :=
  inputs.nmi = true ∧ processor.status.get .fiqMask = false
    ∨ inputs.requestPending = true ∧ processor.status.get .irqMask = false

/-- An exception is taken exactly if an interrupt is eligible. -/
theorem Processor.interruptTaken?_isSome {γ : Type} [InterruptController γ]
    {processor : Processor} {inputs : InterruptInputs γ} :
    (processor.interruptTaken? inputs).isSome = true ↔ processor.Eligible inputs := by
  rw [interruptTaken?, Eligible]
  cases inputs.nmi <;> cases inputs.requestPending <;>
    cases processor.status.get .fiqMask <;> cases processor.status.get .irqMask <;> decide

/-- A fault stops an instruction before it does anything. -/
theorem Machine.processor_of_fault {δ : Type} (machine : Machine δ) {instruction : Instruction}
    {address : UInt32} {faults : FaultUnit} {fault : Fault}
    (h : (machine.execute instruction address faults).fault = some fault) :
    (machine.execute instruction address faults).core = machine.processor := by
  rw [execute] at h ⊢
  simp only at h ⊢
  split
  · rename_i hcondition
    rw [if_pos hcondition] at h
    cases h
  · rename_i hcondition
    rw [if_neg hcondition] at h
    split
    · rename_i hunmodelled
      rw [if_pos hunmodelled] at h
      split at h
      · cases h
      · rfl
    · rename_i hunmodelled
      rw [if_neg hunmodelled] at h
      cases h

instance : InterruptibleCore Processor Instruction where
  Eligible := Processor.Eligible
  serviceInterrupts_of_not_eligible := by
    intro δ γ _ processor inputs hnone bus
    rw [← Processor.interruptTaken?_isSome, Bool.not_eq_true, Option.isSome_eq_false_iff,
      Option.isNone_iff_eq_none] at hnone
    refine (processor.serviceInterrupts_eq bus inputs).trans ?_
    rw [hnone]
  entered_of_eligible := by
    intro δ γ _ processor inputs heligible bus
    obtain ⟨exception, htaken⟩ :=
      Option.isSome_iff_exists.mp (Processor.interruptTaken?_isSome.mpr heligible)
    refine (congrArg Serviced.entered (processor.serviceInterrupts_eq bus inputs)).trans ?_
    rw [htaken]
  isHalted_of_eligible := by
    intro δ γ _ processor inputs heligible bus
    obtain ⟨exception, htaken⟩ :=
      Option.isSome_iff_exists.mp (Processor.interruptTaken?_isSome.mpr heligible)
    refine (congrArg (fun serviced => serviced.core.halted)
      (processor.serviceInterrupts_eq bus inputs)).trans ?_
    rw [htaken]
    rfl
  isHalted_advance := fun _ _ => rfl
  isHalted_of_fault := fun {_ _ processor _ _ bus _ _} h =>
    congrArg Processor.halted (Machine.processor_of_fault ⟨processor, bus⟩ h)

end Arm

namespace Pipeline

variable {κ ι δ γ : Type} [Core κ ι] [InterruptibleCore κ ι] [InterruptController γ]

/-- No interrupt is eligible at the next boundary. -/
def Quiet (pipeline : Pipeline κ ι δ γ) : Prop :=
  ¬ InterruptibleCore.Eligible pipeline.core pipeline.interrupts

/-- A boundary at which no interrupt is eligible does nothing. -/
theorem serviceInterrupts_of_quiet {pipeline : Pipeline κ ι δ γ} (h : pipeline.Quiet) :
    pipeline.serviceInterrupts = pipeline := by
  rw [serviceInterrupts, InterruptibleCore.serviceInterrupts_of_not_eligible h pipeline.bus]

/-- A core that is not halted, or that an interrupt wakes, is not halted after the
    boundary. -/
theorem isHalted_serviceInterrupts {pipeline : Pipeline κ ι δ γ}
    (h : Core.isHalted pipeline.core = false ∨ ¬ pipeline.Quiet) :
    Core.isHalted pipeline.serviceInterrupts.core = false := by
  by_cases hquiet : pipeline.Quiet
  · rw [serviceInterrupts_of_quiet hquiet]
    exact h.resolve_right (not_not_intro hquiet)
  · exact InterruptibleCore.isHalted_of_eligible (Classical.not_not.mp hquiet) pipeline.bus

end Pipeline

end Microprocessor
