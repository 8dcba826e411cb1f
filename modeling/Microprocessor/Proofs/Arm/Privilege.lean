import Microprocessor.Arm.A32
import Microprocessor.Proofs.Arm.Actions
import Microprocessor.Proofs.Pipeline.Stepping
import Microprocessor.Terminal.Console

/-! # User mode is confined

    In User mode there is no status to return to, and of the current one an
    instruction can replace flags alone.  So nothing a program does in User mode
    changes the mode, the interrupt masks or what is set aside for other modes,
    until it calls the supervisor.

      * `Processor.Confined` relates processors that differ in registers and
        flags alone;
      * `Machine.execute_confined` is the one instruction, `Pipeline.UserRun`
        the invariant of a run;
      * `user_mode_confined` puts the two together. -/

namespace Microprocessor

namespace Arm

namespace Processor

/-- Of the status only flags differ, and what is set aside for the banks is the
    same. -/
structure Confined (before after : Processor) : Prop where
  control : after.status.control = before.status.control
  banks : after.banks = before.banks

namespace Confined

theorem trans {a b c : Processor} (hab : a.Confined b) (hbc : b.Confined c) : a.Confined c :=
  ⟨hbc.control.trans hab.control, hbc.banks.trans hab.banks⟩

/-- A confined processor stays in its mode. -/
theorem mode? {before after : Processor} (h : before.Confined after) :
    after.status.mode? = before.status.mode? :=
  Status.mode?_of_control h.control

end Confined

/-- Changes of registers are confined. -/
theorem RegistersOnly.confined {before after : Processor} (h : before.RegistersOnly after) :
    before.Confined after :=
  ⟨congrArg Status.control h.status, h.banks⟩

/-- In User mode what an operation can do is confined, unless it calls the
    supervisor. -/
theorem Performed.confined {before after : Processor} {here : UInt32} {operation : Operation}
    (h : before.Performed here operation after) (huser : before.status.mode? = some .user) :
    operation.isSupervisorCall = true ∨ before.Confined after := by
  have hbank : before.status.bank = .user := Status.bank_of_user huser
  cases h with
  | works _ _ h => exact .inr ⟨h.control, h.banks hbank⟩
  | @leaves _ written _ h =>
      -- The current status stands in for the one to return to.
      have hsaved : written.savedStatus = written.status :=
        savedStatus_of_user (by rw [h.registersOnly.status]; exact hbank)
      rw [leaveException, hsaved, setStatus_of_bank_eq rfl]
      exact .inr h.registersOnly.confined
  | calls _ => exact .inl rfl
  | replaces mask operand =>
      have hcontrol : (before.status.replace (before.replaceable (byteMask mask))
          (before.shifterOperand (here + 8) operand).value).control = before.status.control :=
        before.status.replace_and _ (replaceable_user huser _)
      rw [setStatus_of_bank_eq (Status.bank_of_control hcontrol).symm]
      exact .inr ⟨hcontrol, rfl⟩
  | replacesSaved _ _ =>
      rw [setSavedStatus_of_user hbank]
      exact .inr ⟨rfl, rfl⟩

end Processor

/-- In User mode an instruction that is no supervisor call is confined, whether or
    not it faults. -/
theorem Machine.execute_confined {δ : Type} (machine : Machine δ)
    (huser : machine.processor.status.mode? = some .user) (instruction : Instruction)
    (here : UInt32) (faults : FaultUnit) :
    machine.processor.Calls instruction
      ∨ machine.processor.Confined (machine.execute instruction here faults).core := by
  obtain ⟨hsatisfied, hperformed⟩ | ⟨hsame, -⟩ :=
    machine.execute_performed instruction here faults
  · obtain hcalls | hconfined := hperformed.confined huser
    · exact .inl ⟨hsatisfied, hcalls⟩
    · exact .inr hconfined
  · rw [hsame]
    exact .inr ⟨rfl, rfl⟩

/-- The handler of a supervisor call: it runs in Supervisor mode from its vector
    on, and the status that was interrupted is set aside. -/
structure Processor.EntersSupervisor (before after : Processor) : Prop where
  mode? : after.status.mode? = some .supervisor
  pc : after.get .pc = 0x08
  savedStatus : after.savedStatus = before.status

/-- A supervisor call enters its handler. -/
theorem Machine.execute_entersSupervisor {δ : Type} (machine : Machine δ)
    {instruction : Instruction} (hcalls : machine.processor.Calls instruction) (here : UInt32)
    (faults : FaultUnit) :
    machine.processor.EntersSupervisor (machine.execute instruction here faults).core := by
  rw [execute_of_isSupervisorCall hcalls.1 hcalls.2]
  refine ⟨?_, Processor.get_pc_enter _ _ _, Processor.savedStatus_of_enter _ _ _⟩
  rw [Processor.status_enter, Exception.mode?_handlerStatus]
  rfl

end Arm

namespace Pipeline

open Arm

variable {δ γ : Type} [PortDevice δ] [InterruptController γ]

/-! ## Runs -/

/-- What is asked of an action as long as the supervisor has not been called: the
    processor is confined, and a call enters the supervisor. -/
def ConfinedUntilCall (start : Processor) (older : List (Action Processor Instruction δ γ))
    (action : Action Processor Instruction δ γ) : Prop :=
  (∀ earlier ∈ older, ¬ CallsSupervisor earlier) →
    match action with
    | .serves core _ _ => start.Confined core
    | .decodes _ _ => True
    | .executes core bus faults address instruction =>
      start.Confined core
        ∧ (core.Calls instruction →
          core.EntersSupervisor (Core.execute core instruction address bus faults).core)

/-- As long as no interrupt is taken, the processor is confined until it calls the
    supervisor. -/
structure UserRun (start : Processor) (history : List (Action Processor Instruction δ γ))
    (pipeline : Pipeline Processor Instruction δ γ) : Prop where
  confined : (∀ action ∈ history, ¬ Interrupts action) → Throughout (ConfinedUntilCall start) history
  core : (∀ action ∈ history, ¬ Interrupts action) →
    (∀ action ∈ history, ¬ CallsSupervisor action) → start.Confined pipeline.core

/-- Every action keeps it so. -/
theorem userRun_kept {start : Processor} (huser : start.status.mode? = some .user) :
    Kept (@UserRun δ γ _ _ start) where
  control := fun _ _ h => ⟨h.confined, h.core⟩
  serves := by
    intro history pipeline bus faults _ h
    constructor
    · intro hquiet
      obtain ⟨-, hquiet⟩ := List.forall_mem_cons.mp hquiet
      exact throughout_cons.mpr ⟨fun hcalls => h.core hquiet hcalls, h.confined hquiet⟩
    · intro hquiet hcalls
      obtain ⟨hboundary, hquiet⟩ := List.forall_mem_cons.mp hquiet
      obtain ⟨-, hcalls⟩ := List.forall_mem_cons.mp hcalls
      have hsame : pipeline.serviceInterrupts.core = pipeline.core :=
        Processor.core_serviceInterrupts_of_not_entered hboundary
      show start.Confined pipeline.serviceInterrupts.core
      rw [hsame]
      exact h.core hquiet hcalls
  decodes := by
    intro history served core before inputs bus source instruction _ _ h
    constructor
    · intro hquiet
      obtain ⟨-, hquiet⟩ := List.forall_mem_cons.mp hquiet
      exact throughout_cons.mpr ⟨fun _ => trivial, h.confined hquiet⟩
    · intro hquiet hcalls
      obtain ⟨-, hquiet⟩ := List.forall_mem_cons.mp hquiet
      obtain ⟨-, hcalls⟩ := List.forall_mem_cons.mp hcalls
      exact (h.core hquiet hcalls).trans (Processor.RegistersOnly.put _ _ _).confined
  executes := by
    intro history ready address instruction _ h
    constructor
    · intro hquiet
      obtain ⟨-, hquiet⟩ := List.forall_mem_cons.mp hquiet
      refine throughout_cons.mpr ⟨fun hcalls => ?_, h.confined hquiet⟩
      refine ⟨h.core hquiet hcalls, fun hcall => ?_⟩
      exact Machine.execute_entersSupervisor ⟨ready.core, ready.bus⟩ hcall address ready.faults
    · intro hquiet hcalls
      obtain ⟨-, hquiet⟩ := List.forall_mem_cons.mp hquiet
      obtain ⟨hcall, hcalls⟩ := List.forall_mem_cons.mp hcalls
      have hconfined := h.core hquiet hcalls
      have hmode : ready.core.status.mode? = some .user := hconfined.mode?.trans huser
      obtain hcalled | hexecuted :=
        Machine.execute_confined ⟨ready.core, ready.bus⟩ hmode instruction address ready.faults
      · exact absurd hcalled hcall
      · exact hconfined.trans hexecuted

/-- Every run from User mode is like this. -/
theorem Recorded.userRun {start pipeline : Pipeline Processor Instruction δ γ}
    {history : List (Action Processor Instruction δ γ)} (horderly : start.Orderly)
    (huser : start.core.status.mode? = some .user)
    (h : Recorded KeepsStatus start history pipeline) :
    UserRun start.core history pipeline := by
  refine h.invariant (userRun_kept huser).stages ?_ horderly ?_
  · intro history pipeline event hother hkeeps huserRun
    refine ⟨huserRun.confined, fun hquiet hcalls => ?_⟩
    exact (huserRun.core hquiet hcalls).trans (registersOnly_after hother hkeeps).confined
  · exact ⟨fun _ => throughout_nil, fun _ _ => ⟨rfl, rfl⟩⟩

end Pipeline

namespace Arm

open Pipeline

/-- In User mode an instruction that is not a supervisor call whose condition holds
    changes nothing of the status but flags, and nothing that is set aside for any
    mode, whether or not it faults.  So in a run in which no interrupt is taken a
    program stays in User mode, with the masks as they were, until it calls the
    supervisor, which takes it to Supervisor mode at vector 8. -/
theorem user_mode_confined :
    (∀ {δ : Type} (machine : Machine δ) (instruction : Instruction) (here : UInt32)
        (faults : FaultUnit), machine.processor.status.mode? = some .user →
        machine.processor.Calls instruction
          ∨ machine.processor.Confined (machine.execute instruction here faults).core)
    ∧ ∀ {δ γ : Type} [PortDevice δ] [InterruptController γ]
        (architecture : Architecture Instruction) (core : Processor) (memory : Memory)
        (ports : PortMap δ) (start pipeline : Pipeline Processor Instruction δ γ)
        (history : List (Action Processor Instruction δ γ)),
        Run (fun _ _ => True) (.of architecture core memory ports) start →
        start.core.status.mode? = some .user →
        Recorded KeepsStatus start history pipeline →
        (∀ action ∈ history, ¬ Interrupts action) →
        Throughout (ConfinedUntilCall start.core) history
          ∧ ((∀ action ∈ history, ¬ CallsSupervisor action) →
            start.core.Confined pipeline.core
              ∧ pipeline.core.status.mode? = some .user
              ∧ pipeline.core.status.get .irqMask = start.core.status.get .irqMask
              ∧ pipeline.core.status.get .fiqMask = start.core.status.get .fiqMask) := by
  constructor
  · intro δ machine instruction here faults huser
    exact machine.execute_confined huser instruction here faults
  · intro δ γ _ _ architecture core memory ports start pipeline history hstart huser hrun hquiet
    have horderly := (orderly_of architecture core memory ports).run hstart
    have huserRun := hrun.userRun horderly huser
    refine ⟨huserRun.confined hquiet, fun hcalls => ?_⟩
    have hconfined := huserRun.core hquiet hcalls
    exact ⟨hconfined, hconfined.mode?.trans huser,
      Status.get_congr (Status.and_of_control hconfined.control (by decide)),
      Status.get_congr (Status.and_of_control hconfined.control (by decide))⟩

/-- A processor in User mode at the start of a program that tries to move D3 to the
    current status, tries to return from an exception, and calls the supervisor. -/
def userStart : Pipeline Processor Instruction Terminal.Console InterruptLine :=
  .of a32 { Processor.initial.setRegister .lr 8 with status := ⟨0x10⟩ }
    ⟨#[0xD3, 0xF0, 0x21, 0xE3, 0x0E, 0xF0, 0xB0, 0xE1, 0x00, 0x00, 0x00, 0xEF], none⟩ .empty

/-- The two attempts leave it in User mode, and the call takes it to the handler. -/
theorem user_mode_confined_calling :
    userStart.core.Confined
        (Machine.execute ⟨userStart.core, userStart.bus⟩ (.ofWord 0xE321F0D3) 0 .initial).core
      ∧ (userStart.moves 2).2.core.status.mode? = some .user
      ∧ (userStart.moves 3).2.core.status.mode? = some .supervisor
      ∧ (userStart.moves 3).2.core.get .pc = 0x08 := by
  have hstep := user_mode_confined.1 ⟨userStart.core, userStart.bus⟩ (.ofWord 0xE321F0D3) 0 .initial
    (by decide)
  have hrun : Recorded KeepsStatus userStart (userStart.moves 2).1 (userStart.moves 2).2 := by
    refine recorded_replay userStart fun event hevent _ => ?_
    rw [List.eq_of_mem_replicate hevent]
    trivial
  obtain ⟨-, hquiet⟩ := user_mode_confined.2 a32 _ _ .empty userStart _ _ .refl (by decide) hrun
    (by decide +kernel)
  refine ⟨hstep.resolve_left fun hcalls => ?_, (hquiet (by decide +kernel)).2.1, by decide +kernel,
    by decide +kernel⟩
  cases hcalls.2

end Arm

end Microprocessor
