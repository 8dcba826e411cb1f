import Microprocessor.Arm.A32
import Microprocessor.Proofs.Arm.Actions
import Microprocessor.Proofs.Pipeline.Stepping
import Microprocessor.Terminal.Console

/-! # The state bit

    T selects the 16-bit instruction set, which is not modelled.  No instruction
    writes T into the current status.  A move to the status that is set aside
    does write it there, and a return from the exception then takes it over.

      * `Processor.ThumbFree`: T is clear, and clear in whatever is set aside;
      * `Machine.thumbFree_execute`: an instruction keeps it so unless it plants
        T, `Machine.thumb_execute`: only a return brings T into the current
        status;
      * `thumb_entered_by_planted_return` says so of every moment of a run from
        reset. -/

namespace Microprocessor

namespace Arm

/-! ## One instruction -/

namespace Status

/-- A bit that is neither there nor written is not there afterwards. -/
theorem get_replace_eq_false {status : Status} {mask value : UInt32} {bit : StatusBit}
    (hstatus : status.get bit = false) (hvalue : get ⟨value &&& mask⟩ bit = false) :
    (status.replace mask value).get bit = false := by
  rw [get, bne_eq_false_iff_eq] at hstatus hvalue ⊢
  show ((status.word &&& ~~~mask) ||| (value &&& mask)) &&& bit.mask = 0
  have hkept : (status.word &&& ~~~mask) &&& bit.mask = 0 := by
    rw [UInt32.and_assoc, UInt32.and_comm (~~~mask), ← UInt32.and_assoc, hstatus, UInt32.zero_and]
  rw [or_and, hkept, UInt32.zero_or]
  exact hvalue

end Status

namespace Processor

/-- T is clear in the current status and in every one that is set aside. -/
structure ThumbFree (processor : Processor) : Prop where
  current : processor.status.get .thumb = false
  saved : ∀ bank, (processor.banks.get bank).status.get .thumb = false

/-- An operation writes T into the status that is set aside. -/
def writesSavedThumb (processor : Processor) (pc : UInt32) : Operation → Bool
  | .registerToStatus true mask operand =>
    Status.get ⟨(processor.shifterOperand pc operand).value &&& byteMask mask⟩ .thumb
  | _ => false

/-- The instruction is carried out and writes T into a status that is set
    aside. -/
def PlantsThumb (processor : Processor) (here : UInt32) (instruction : Instruction) : Prop :=
  processor.status.satisfies instruction.condition = true
    ∧ processor.status.bank ≠ .user
    ∧ processor.writesSavedThumb (here + 8) instruction.operation = true

namespace ThumbFree

/-- After reset T is clear. -/
theorem initial : Processor.initial.ThumbFree := by
  refine ⟨by decide, fun bank => ?_⟩
  cases bank <;> decide

/-- Whatever an exception returns to, T is clear in it. -/
theorem savedStatus {processor : Processor} (h : processor.ThumbFree) :
    processor.savedStatus.get .thumb = false := by
  by_cases huser : processor.status.bank = .user
  · rw [savedStatus_of_user huser]
    exact h.current
  · rw [savedStatus_of_ne huser]
    exact h.saved _

/-- Changes of registers leave T clear. -/
theorem registersOnly {before after : Processor} (h : before.ThumbFree)
    (hregisters : before.RegistersOnly after) : after.ThumbFree := by
  refine ⟨?_, fun bank => ?_⟩
  · rw [hregisters.status]
    exact h.current
  · rw [hregisters.banks]
    exact h.saved bank

/-- A status with T clear may be taken over. -/
theorem setStatus {processor : Processor} (h : processor.ThumbFree) {status : Status}
    (hstatus : status.get .thumb = false) : (processor.setStatus status).ThumbFree := by
  refine ⟨?_, fun bank => ?_⟩
  · rw [status_setStatus]
    exact hstatus
  · rw [savedStatus_setStatus]
    exact h.saved bank

/-- A handler starts with T clear, and sets aside what it interrupts. -/
theorem enter {processor : Processor} (h : processor.ThumbFree) (exception : Exception)
    (returnAddress : UInt32) : (processor.enter exception returnAddress).ThumbFree := by
  refine ⟨?_, fun bank => ?_⟩
  · rw [status_enter]
    exact exception.thumb_handlerStatus _
  · rw [savedStatus_enter]
    split
    · exact h.current
    · exact h.saved bank

end ThumbFree

/-- An operation leaves T clear unless it writes it into a status that is set
    aside. -/
theorem Performed.thumbFree {before after : Processor} {here : UInt32} {operation : Operation}
    (h : before.Performed here operation after) (hfree : before.ThumbFree)
    (hplants : before.status.bank ≠ .user →
      before.writesSavedThumb (here + 8) operation = false) : after.ThumbFree := by
  cases h with
  | works _ _ h =>
      refine ⟨?_, fun bank => ?_⟩
      · rw [Status.get_congr (Status.and_of_control h.control (by decide))]
        exact hfree.current
      · rw [h.saved]
        exact hfree.saved bank
  | leaves _ h =>
      have hwritten := hfree.registersOnly h.registersOnly
      exact hwritten.setStatus hwritten.savedStatus
  | calls _ => exact hfree.enter .supervisorCall _
  | replaces mask operand =>
      refine hfree.setStatus ?_
      rw [Status.get_congr (before.status.replace_and _ (before.replaceable_thumb _))]
      exact hfree.current
  | replacesSaved mask operand =>
      by_cases huser : before.status.bank = .user
      · rw [setSavedStatus_of_user huser]
        exact hfree
      · refine ⟨?_, fun bank => ?_⟩
        · rw [status_setSavedStatus]
          exact hfree.current
        · rw [savedStatus_setSavedStatus huser]
          split
          · exact Status.get_replace_eq_false hfree.savedStatus (hplants huser)
          · exact hfree.saved bank

/-- A return takes over the state bit that is set aside, a supervisor call clears
    it, and nothing else changes it. -/
theorem Performed.thumb {before after : Processor} {here : UInt32} {operation : Operation}
    (h : before.Performed here operation after) :
    after.status.get .thumb
      = if operation.leavesException then before.savedStatus.get .thumb
        else if operation.isSupervisorCall then false
        else before.status.get .thumb := by
  cases h with
  | works hleaves hcalls h =>
      rw [hleaves, hcalls, if_neg Bool.false_ne_true, if_neg Bool.false_ne_true]
      exact Status.get_congr (Status.and_of_control h.control (by decide))
  | @leaves _ written hleaves h =>
      have hsaved : written.savedStatus = before.savedStatus := by
        rw [Processor.savedStatus, Processor.savedStatus, h.registersOnly.status,
          h.registersOnly.banks]
      rw [if_pos hleaves, leaveException, status_setStatus, hsaved]
  | calls _ =>
      show (before.enter .supervisorCall (here + 4)).status.get .thumb = false
      rw [status_enter, Exception.thumb_handlerStatus]
  | replaces mask operand =>
      show (before.setStatus _).status.get .thumb = before.status.get .thumb
      rw [status_setStatus]
      exact Status.get_congr (before.status.replace_and _ (before.replaceable_thumb _))
  | replacesSaved mask operand =>
      show (before.setSavedStatus _).status.get .thumb = before.status.get .thumb
      rw [status_setSavedStatus]

end Processor

namespace Machine

variable {δ : Type}

/-- An instruction leaves T clear unless it plants it. -/
theorem thumbFree_execute (machine : Machine δ) (hfree : machine.processor.ThumbFree)
    {instruction : Instruction} {here : UInt32}
    (hplants : ¬ machine.processor.PlantsThumb here instruction) (faults : FaultUnit) :
    (machine.execute instruction here faults).core.ThumbFree := by
  obtain ⟨hsatisfied, hperformed⟩ | ⟨hsame, -⟩ :=
    machine.execute_performed instruction here faults
  · refine hperformed.thumbFree hfree fun hbank => ?_
    exact Bool.eq_false_iff.mpr fun hwrites => hplants ⟨hsatisfied, hbank, hwrites⟩
  · rw [hsame]
    exact hfree

/-- After an instruction T is set if it was a return and T was set aside, or if it
    was neither a return nor a supervisor call and T was set before. -/
theorem thumb_execute (machine : Machine δ) (instruction : Instruction) (here : UInt32)
    (faults : FaultUnit) :
    (machine.execute instruction here faults).core.status.get .thumb = true ↔
      machine.processor.Returns instruction
          ∧ machine.processor.savedStatus.get .thumb = true
        ∨ (¬ machine.processor.Calls instruction ∧ ¬ machine.processor.Returns instruction)
          ∧ machine.processor.status.get .thumb = true := by
  obtain ⟨hsatisfied, hperformed⟩ | ⟨hsame, hnone⟩ :=
    machine.execute_performed instruction here faults
  · rw [hperformed.thumb, Processor.Returns, Processor.Calls, hsatisfied]
    cases hleaves : instruction.operation.leavesException with
    | true => simp
    | false => cases instruction.operation.isSupervisorCall <;> simp
  · have hreturns : ¬ machine.processor.Returns instruction := by
      intro h
      have hleaves := h.2
      rw [(hnone h.1).1] at hleaves
      cases hleaves
    have hcalls : ¬ machine.processor.Calls instruction := by
      intro h
      have hcall := h.2
      rw [(hnone h.1).2] at hcall
      cases hcall
    rw [hsame]
    simp [hreturns, hcalls]

end Machine

/-- At a boundary T is cleared if an interrupt is taken. -/
theorem Processor.thumb_serviceInterrupts {δ γ : Type} [InterruptController γ]
    (processor : Processor) (bus : Bus δ) (inputs : InterruptInputs γ) :
    (processor.serviceInterrupts bus inputs).core.status.get .thumb = true ↔
      ¬ (processor.serviceInterrupts bus inputs).entered = true
        ∧ processor.status.get .thumb = true := by
  rw [serviceInterrupts_eq]
  cases processor.interruptTaken? inputs with
  | some exception =>
      simp only [status_enter, Exception.thumb_handlerStatus]
      simp
  | none => simp

/-- A boundary leaves T clear. -/
theorem Processor.ThumbFree.serviceInterrupts {δ γ : Type} [InterruptController γ]
    {processor : Processor} (hfree : processor.ThumbFree) (bus : Bus δ)
    (inputs : InterruptInputs γ) :
    (processor.serviceInterrupts bus inputs).core.ThumbFree := by
  rw [serviceInterrupts_eq]
  cases processor.interruptTaken? inputs with
  | some exception => exact hfree.enter exception _
  | none => exact hfree

end Arm

namespace Pipeline

open Arm

variable {δ γ : Type} [InterruptController γ]

/-! ## Runs -/

/-- The action writes T into a status that is set aside. -/
def PlantsThumb : Action Processor Instruction δ γ → Prop
  | .executes core _ _ address instruction => core.PlantsThumb address instruction
  | .serves _ _ _ | .decodes _ _ => False

/-- The action returns to a status with T set. -/
def ResumesThumb : Action Processor Instruction δ γ → Prop
  | .executes core _ _ _ instruction =>
    core.Returns instruction ∧ core.savedStatus.get .thumb = true
  | .serves _ _ _ | .decodes _ _ => False

/-- The action neither enters a handler nor returns from an exception. -/
def StaysInHandler (action : Action Processor Instruction δ γ) : Prop :=
  ¬ Interrupts action ∧ ¬ CallsSupervisor action ∧ ¬ LeavesException action

/-- The last change of handlers was a return to a status with T set. -/
def InThumb (history : List (Action Processor Instruction δ γ)) : Prop :=
  Since ResumesThumb StaysInHandler history

/-- A processor is in Thumb state exactly if the history says so, and T is nowhere
    to be found unless it has been planted. -/
structure ThumbPlanted (history : List (Action Processor Instruction δ γ))
    (processor : Processor) : Prop where
  inThumb : processor.status.get .thumb = true ↔ InThumb history
  thumbFree : (∀ action ∈ history, ¬ PlantsThumb action) → processor.ThumbFree

/-- What is asked of a moment: the processor is in Thumb state only as its history
    says. -/
def FindsThumbPlanted (older : List (Action Processor Instruction δ γ)) :
    Action Processor Instruction δ γ → Prop
  | .serves core _ _ | .executes core _ _ _ _ => ThumbPlanted older core
  | .decodes _ _ => True

/-- Every moment is as asked, and so is the present one. -/
structure ThumbAccounted (history : List (Action Processor Instruction δ γ))
    (pipeline : Pipeline Processor Instruction δ γ) : Prop where
  finds : Throughout FindsThumbPlanted history
  planted : ThumbPlanted history pipeline.core

/-- Changes of registers change nothing about it. -/
theorem ThumbPlanted.registersOnly {history : List (Action Processor Instruction δ γ)}
    {before after : Processor} (h : ThumbPlanted history before)
    (hregisters : before.RegistersOnly after) : ThumbPlanted history after := by
  refine ⟨?_, fun hplants => (h.thumbFree hplants).registersOnly hregisters⟩
  rw [hregisters.status]
  exact h.inThumb

variable [PortDevice δ]

/-- Every action keeps account of T. -/
theorem thumbAccounted_kept : Kept (@ThumbAccounted δ γ _) where
  control := fun _ _ h => ⟨h.finds, h.planted⟩
  serves := by
    intro history pipeline bus faults _ h
    refine ⟨throughout_cons.mpr ⟨h.planted, h.finds⟩, ?_, fun hplants => ?_⟩
    · rw [InThumb, since_cons, ← InThumb, ← h.planted.inThumb]
      refine (pipeline.core.thumb_serviceInterrupts pipeline.bus pipeline.interrupts).trans ?_
      constructor
      · rintro ⟨hboundary, hthumb⟩
        exact .inr ⟨⟨hboundary, id, id⟩, hthumb⟩
      · rintro (hresumes | ⟨⟨hboundary, -⟩, hthumb⟩)
        · cases hresumes
        · exact ⟨hboundary, hthumb⟩
    · obtain ⟨-, hplants⟩ := List.forall_mem_cons.mp hplants
      exact (h.planted.thumbFree hplants).serviceInterrupts pipeline.bus pipeline.interrupts
  decodes := by
    intro history served core before inputs bus source instruction _ _ h
    refine ⟨throughout_cons.mpr ⟨trivial, h.finds⟩, ?_⟩
    refine ThumbPlanted.registersOnly ?_ (.put served.core .pc _)
    refine ⟨?_, fun hplants => h.planted.thumbFree (List.forall_mem_cons.mp hplants).2⟩
    rw [InThumb, since_cons, ← InThumb]
    refine h.planted.inThumb.trans ⟨fun hin => .inr ⟨⟨id, id, id⟩, hin⟩, ?_⟩
    rintro (hresumes | ⟨-, hin⟩)
    · cases hresumes
    · exact hin
  executes := by
    intro history ready address instruction _ h
    refine ⟨throughout_cons.mpr ⟨h.planted, h.finds⟩, ?_, fun hplants => ?_⟩
    · rw [InThumb, since_cons, ← InThumb, ← h.planted.inThumb]
      refine (Machine.thumb_execute ⟨ready.core, ready.bus⟩ instruction address
        ready.faults).trans (or_congr_right (and_congr_left' ?_))
      exact ⟨fun hstays => ⟨id, hstays⟩, And.right⟩
    · obtain ⟨hplant, hplants⟩ := List.forall_mem_cons.mp hplants
      exact Machine.thumbFree_execute ⟨ready.core, ready.bus⟩ (h.planted.thumbFree hplants)
        hplant ready.faults

/-- Every run from a processor with T clear keeps account of T. -/
theorem Recorded.thumbAccounted {start pipeline : Pipeline Processor Instruction δ γ}
    {history : List (Action Processor Instruction δ γ)} (horderly : start.Orderly)
    (hfree : start.core.ThumbFree) (h : Recorded KeepsStatus start history pipeline) :
    ThumbAccounted history pipeline := by
  refine h.invariant thumbAccounted_kept.stages ?_ horderly ⟨throughout_nil, ?_, fun _ => hfree⟩
  · intro history pipeline event hother hkeeps haccounted
    exact ⟨haccounted.finds,
      haccounted.planted.registersOnly (registersOnly_after hother hkeeps)⟩
  · rw [hfree.current]
    exact iff_of_false Bool.false_ne_true not_since_nil

end Pipeline

namespace Arm

open Pipeline

/-- In every run from reset, at every moment, the processor is in Thumb state
    exactly if the last change of handlers was a return to a status with T set; and
    as long as no instruction has written T into a status that is set aside, T is
    clear, in the current status and in all that are set aside. -/
theorem thumb_entered_by_planted_return {δ γ : Type} [PortDevice δ] [InterruptController γ]
    (architecture : Architecture Instruction) (memory : Memory) (ports : PortMap δ)
    {history : List (Action Processor Instruction δ γ)}
    {pipeline : Pipeline Processor Instruction δ γ}
    (hrun : Recorded KeepsStatus (.of architecture Processor.initial memory ports) history
      pipeline) :
    Throughout FindsThumbPlanted history ∧ ThumbPlanted history pipeline.core := by
  have haccounted := hrun.thumbAccounted (orderly_of architecture Processor.initial memory ports)
    Processor.ThumbFree.initial
  exact ⟨haccounted.finds, haccounted.planted⟩

/-- A processor after reset at the start of a program that writes 33 to the status
    that is set aside, and returns to it. -/
def plantingStart : Pipeline Processor Instruction Terminal.Console InterruptLine :=
  .of a32 .initial ⟨#[0x33, 0xF0, 0x61, 0xE3, 0x0E, 0xF0, 0xB0, 0xE1], none⟩ .empty

/-- The first instruction plants T, and the second enters Thumb state. -/
theorem thumb_entered_by_planted_return_moved :
    (plantingStart.moves 1).2.core.status.get .thumb = false
      ∧ (plantingStart.moves 2).2.core.status.get .thumb = true
      ∧ InThumb (plantingStart.moves 2).1
      ∧ ∃ action ∈ (plantingStart.moves 2).1, PlantsThumb action := by
  have hrun : Recorded KeepsStatus plantingStart (plantingStart.moves 2).1
      (plantingStart.moves 2).2 := by
    refine recorded_replay plantingStart fun event hevent _ => ?_
    rw [List.eq_of_mem_replicate hevent]
    trivial
  obtain ⟨-, hin, hfree⟩ := thumb_entered_by_planted_return a32 _ .empty hrun
  have hthumb : (plantingStart.moves 2).2.core.status.get .thumb = true := by decide +kernel
  refine ⟨by decide +kernel, hthumb, hin.mp hthumb, ?_⟩
  refine Classical.byContradiction fun hnone => ?_
  have hclear := (hfree fun action haction hplants => hnone ⟨action, haction, hplants⟩).current
  rw [hthumb] at hclear
  cases hclear

end Arm

end Microprocessor
