import Microprocessor.Proofs.Arm.Effect
import Microprocessor.Proofs.Pipeline.History

/-! # What a run does to the status

    Of what a pipeline does to an ARM processor, three things touch the mode: an
    interrupt that is taken, a supervisor call and a return from an exception.

      * `Processor.Calls` and `Processor.Returns` say of an instruction that it
        is carried out as a call or as a return, `Pipeline.Interrupts`,
        `Pipeline.CallsSupervisor` and `Pipeline.LeavesException` say so of
        actions;
      * `Pipeline.KeepsStatus` is the permission of runs whose surroundings do
        not touch the status. -/

namespace Microprocessor

namespace Arm

namespace Processor

/-- The instruction is a supervisor call whose condition holds. -/
def Calls (processor : Processor) (instruction : Instruction) : Prop :=
  processor.status.satisfies instruction.condition = true
    ∧ instruction.operation.isSupervisorCall = true

/-- The instruction returns from an exception, and its condition holds. -/
def Returns (processor : Processor) (instruction : Instruction) : Prop :=
  processor.status.satisfies instruction.condition = true
    ∧ instruction.operation.leavesException = true

end Processor

end Arm

namespace Pipeline

open Arm

variable {δ γ : Type} [InterruptController γ]

/-! ## Actions -/

/-- The action is a boundary that takes an interrupt. -/
def Interrupts : Action Processor Instruction δ γ → Prop
  | .serves core bus inputs => (Core.serviceInterrupts core bus inputs).entered = true
  | .decodes _ _ | .executes _ _ _ _ _ => False

/-- The action carries out a supervisor call. -/
def CallsSupervisor : Action Processor Instruction δ γ → Prop
  | .executes core _ _ _ instruction => core.Calls instruction
  | .serves _ _ _ | .decodes _ _ => False

/-- The action returns from an exception. -/
def LeavesException : Action Processor Instruction δ γ → Prop
  | .executes core _ _ _ instruction => core.Returns instruction
  | .serves _ _ _ | .decodes _ _ => False

instance : DecidablePred (@Interrupts δ γ _)
  | .serves core bus inputs =>
    inferInstanceAs (Decidable ((Core.serviceInterrupts core bus inputs).entered = true))
  | .decodes _ _ | .executes _ _ _ _ _ => inferInstanceAs (Decidable False)

instance : DecidablePred (@CallsSupervisor δ γ)
  | .executes _ _ _ _ _ => inferInstanceAs (Decidable (_ ∧ _))
  | .serves _ _ _ | .decodes _ _ => inferInstanceAs (Decidable False)

/-! ## Between moves -/

variable [PortDevice δ]

/-- An event that sets registers leaves alone the status and what is set aside;
    every other event may happen. -/
def KeepsStatus (pipeline : Pipeline Processor Instruction δ γ) : Event Processor δ γ → Prop
  | .setCore core => pipeline.core.RegistersOnly core
  | _ => True

/-- Between moves nothing happens to the status and to what is set aside. -/
theorem registersOnly_after {pipeline : Pipeline Processor Instruction δ γ}
    {event : Event Processor δ γ} (hother : event ≠ .move) (hkeeps : pipeline.KeepsStatus event) :
    pipeline.core.RegistersOnly (pipeline.after event).core := by
  obtain ⟨core, rfl⟩ | hsame := pipeline.core_set_or_kept hother
  · exact hkeeps
  · rw [hsame]
    exact .refl pipeline.core

end Pipeline

end Microprocessor
