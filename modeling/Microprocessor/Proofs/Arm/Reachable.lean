import Microprocessor.Proofs.Arm.Actions

/-! # Processors since reset

    What a processor has become since reset it has become by instructions,
    interrupts and registers set from outside.

      * `Processor.Reachable` lists these;
      * `Processor.Reachable.aligned`: the program counter of such a processor is
        the address of a word;
      * `Pipeline.reachable_of_run`: the processors of pipelines are such. -/

namespace Microprocessor

namespace Arm

/-- An operation keeps the program counter aligned, whatever it can do. -/
theorem Processor.Performed.aligned {before after : Processor} {here : UInt32}
    {operation : Operation} (h : before.Performed here operation after)
    (haligned : before.Aligned) : after.Aligned := by
  cases h with
  | works _ _ h => exact h.aligned haligned
  | leaves _ h => exact (h.aligned haligned).setStatus _
  | calls _ => exact .enter before .supervisorCall _
  | replaces _ _ => exact haligned.setStatus _
  | replacesSaved _ _ => exact haligned.setSavedStatus _

/-- So does every instruction, whether or not it faults. -/
theorem Machine.aligned_execute {δ : Type} {machine : Machine δ}
    (haligned : machine.processor.Aligned) (instruction : Instruction) (here : UInt32)
    (faults : FaultUnit) : (machine.execute instruction here faults).core.Aligned := by
  obtain ⟨-, hperformed⟩ | ⟨hsame, -⟩ := machine.execute_performed instruction here faults
  · exact hperformed.aligned haligned
  · rw [hsame]
    exact haligned

namespace Processor

/-- So does every interrupt boundary. -/
theorem Aligned.serviceInterrupts {δ γ : Type} [InterruptController γ] {processor : Processor}
    (h : processor.Aligned) (bus : Bus δ) (inputs : InterruptInputs γ) :
    (processor.serviceInterrupts bus inputs).core.Aligned := by
  rw [serviceInterrupts_eq]
  cases processor.interruptTaken? inputs with
  | some exception => exact .enter processor exception _
  | none => exact h

/-! ## Since reset -/

/-- What a processor can have become since reset, of any instructions on any bus,
    with registers set from outside in between. -/
inductive Reachable : Processor → Prop
  | reset : Reachable .initial
  | set {processor : Processor} (h : Reachable processor) (register : Register)
      (value : UInt32) : Reachable (processor.setRegister register value)
  | advanced {processor : Processor} (h : Reachable processor) :
      Reachable (processor.advance instructionLength)
  | serviced {processor : Processor} (h : Reachable processor) {δ γ : Type}
      [InterruptController γ] (bus : Bus δ) (inputs : InterruptInputs γ) :
      Reachable (processor.serviceInterrupts bus inputs).core
  | executed {δ : Type} (machine : Machine δ) (h : Reachable machine.processor)
      (instruction : Instruction) (here : UInt32) (faults : FaultUnit) :
      Reachable (machine.execute instruction here faults).core

/-- Since reset the program counter has been aligned. -/
theorem Reachable.aligned {processor : Processor} (h : processor.Reachable) :
    processor.Aligned := by
  induction h with
  | reset => decide
  | set _ register value ih => exact ih.setRegister register value
  | advanced _ ih => exact ih.advance
  | serviced _ bus inputs ih => exact ih.serviceInterrupts bus inputs
  | executed machine _ instruction here faults ih =>
      exact Machine.aligned_execute ih instruction here faults

end Processor

end Arm

namespace Pipeline

open Arm

variable {δ γ : Type} [PortDevice δ] [InterruptController γ]

/-! ## Runs -/

/-- The core is only changed by setting registers; every other event may happen. -/
def SetsRegisters (pipeline : Pipeline Processor Instruction δ γ) : Event Processor δ γ → Prop
  | .setCore core => ∃ register value, core = pipeline.core.setRegister register value
  | _ => True

/-- Every action leads to a reachable processor. -/
theorem reachable_kept :
    Kept fun (_ : List (Action Processor Instruction δ γ)) pipeline => pipeline.core.Reachable where
  control := fun _ _ h => h
  serves := fun {_ pipeline} _ _ _ h => h.serviced pipeline.bus pipeline.interrupts
  decodes := fun _ _ _ _ _ h => h.advanced
  executes := by
    intro history ready address instruction _ h
    exact .executed ⟨ready.core, ready.bus⟩ h instruction address ready.faults

/-- In every run from reset the processor is reachable. -/
theorem reachable_of_run (architecture : Architecture Instruction) (memory : Memory)
    (ports : PortMap δ) {pipeline : Pipeline Processor Instruction δ γ}
    (hrun : Run SetsRegisters (.of architecture Processor.initial memory ports) pipeline) :
    pipeline.core.Reachable := by
  obtain ⟨history, hrecorded⟩ := hrun.recorded
  refine hrecorded.invariant reachable_kept.stages ?_ (orderly_of architecture _ memory ports)
    .reset
  intro history pipeline event hother hsets h
  obtain ⟨core, rfl⟩ | hsame := pipeline.core_set_or_kept hother
  · obtain ⟨register, value, rfl⟩ := hsets
    exact h.set register value
  · rw [hsame]
    exact h

end Pipeline

end Microprocessor
