import Microprocessor.Proofs.Pipeline.Stepping
import Microprocessor.Proofs.X86.Pending
import Microprocessor.Terminal.Console
import Microprocessor.X86.RealMode

/-! # The single-step trap

    An instruction that goes through with TF set leaves the trap pending.  At the
    next boundary an exception goes first, and then the trap stays pending
    through the first instruction of the exception's handler, which is executed
    with TF clear.

      * `Pipeline.Owed` says of a history that the trap is owed: some
        instruction went through with TF set, and every boundary since took an
        exception;
      * `Pipeline.Stepped` is the invariant: the trap is pending exactly while it
        is owed, and as long as no boundary found an exception and the trap it is
        owed for the instruction just executed;
      * `trap_follows_step` says so of every boundary of a run. -/

namespace Microprocessor

namespace Pipeline

open X86

variable {δ γ : Type} [PortDevice δ] [InterruptController γ]

/-! ## What is owed -/

/-- The trap is not taken by the action: it is no boundary, or one that takes an
    exception. -/
def Defers : Action ExecutionUnit Instruction δ γ → Prop
  | .serves core _ _ => core.exception.isSome = true
  | .decodes _ _ | .executes _ _ _ _ _ => True

/-- The boundary finds an exception and the trap. -/
def Coincides : Action ExecutionUnit Instruction δ γ → Prop
  | .serves core _ _ => core.exception.isSome = true ∧ core.trapPending = true
  | .decodes _ _ | .executes _ _ _ _ _ => False

/-- The action executes an instruction with TF set, which goes through. -/
def Steps : Action ExecutionUnit Instruction δ γ → Prop
  | .executes core bus faults address instruction =>
    core.regs.flags.get .trap = true
      ∧ (Core.execute core instruction address bus faults).fault = none
  | .serves _ _ _ | .decodes _ _ => False

/-- The trap is owed: an instruction went through with TF set, and no boundary
    since has taken the trap. -/
def Owed (history : List (Action ExecutionUnit Instruction δ γ)) : Prop :=
  ∃ newer stepped older, history = newer ++ stepped :: older ∧ Steps stepped
    ∧ ∀ action ∈ newer, Defers action

omit [InterruptController γ] in
/-- At first nothing is owed. -/
theorem not_owed_nil : ¬ Owed ([] : List (Action ExecutionUnit Instruction δ γ)) :=
  not_since_nil

omit [InterruptController γ] in
/-- The trap is owed for the newest action, or still owed. -/
theorem owed_cons {action : Action ExecutionUnit Instruction δ γ}
    {history : List (Action ExecutionUnit Instruction δ γ)} :
    Owed (action :: history) ↔ Steps action ∨ Defers action ∧ Owed history :=
  since_cons

/-! ## Runs -/

/-- What every boundary finds: the trap is pending exactly if it is owed, and
    then it is owed for the instruction just executed, unless an earlier boundary
    found an exception and the trap. -/
def FindsOwed (older : List (Action ExecutionUnit Instruction δ γ)) :
    Action ExecutionUnit Instruction δ γ → Prop
  | .serves core _ _ =>
    (core.trapPending = true ↔ Owed older)
      ∧ ((∀ action ∈ older, ¬ Coincides action) → core.trapPending = true →
          ∃ stepped before, older = stepped :: before ∧ Steps stepped)
  | .decodes _ _ | .executes _ _ _ _ _ => True

/-- Every boundary has found what is owed, and so will the next one. -/
structure Stepped (history : List (Action ExecutionUnit Instruction δ γ))
    (pipeline : Pipeline ExecutionUnit Instruction δ γ) : Prop where
  finds : Throughout FindsOwed history
  owed : pipeline.core.trapPending = true ↔ Owed history
  follows : (∀ action ∈ history, ¬ Coincides action) → pipeline.core.trapPending = true →
    pipeline.decoded.isEmpty = true
      ∧ ∃ stepped before, history = stepped :: before ∧ Steps stepped

/-- Every action keeps it so. -/
theorem stepped_kept : Kept (@Stepped δ γ _) where
  control := fun _ _ h => ⟨h.finds, h.owed, h.follows⟩
  serves := by
    intro history pipeline bus faults hempty h
    have hserved : pipeline.serviceInterrupts.core.trapPending
        = (pipeline.core.exception.isSome && pipeline.core.trapPending) :=
      congrArg (fun pending => pending.2.1)
        (Machine.pending_serviceInterrupts ⟨pipeline.core, pipeline.bus⟩ pipeline.interrupts)
    refine ⟨throughout_cons.mpr ⟨⟨h.owed, ?_⟩, h.finds⟩, ?_, ?_⟩
    · intro hapart htrap
      exact (h.follows hapart htrap).2
    · rw [owed_cons, ← h.owed]
      show pipeline.serviceInterrupts.core.trapPending = true ↔ False ∨ _ ∧ _
      rw [hserved, Bool.and_eq_true, false_or]
      exact Iff.rfl
    · -- Where no exception was found with the trap, the trap has been taken.
      intro hapart htrap
      have htrap : pipeline.serviceInterrupts.core.trapPending = true := htrap
      rw [hserved, Bool.and_eq_true] at htrap
      exact absurd htrap (hapart _ List.mem_cons_self)
  decodes := by
    intro history served core before inputs bus source instruction _ _ h
    refine ⟨throughout_cons.mpr ⟨trivial, h.finds⟩, ?_, ?_⟩
    · rw [owed_cons]
      exact h.owed.trans ⟨fun howed => .inr ⟨trivial, howed⟩,
        fun howed => howed.elim False.elim And.right⟩
    · intro hapart htrap
      obtain ⟨-, stepped, earlier, hhistory, hsteps⟩ :=
        h.follows (fun action haction => hapart action (List.mem_cons_of_mem _ haction)) htrap
      cases hhistory
      cases hsteps
  executes := by
    intro history ready address instruction hitems h
    have hexecuted :
        (Core.execute ready.core instruction address ready.bus ready.faults).core.trapPending = true
          ↔ Steps (.executes ready.core ready.bus ready.faults address instruction :
              Action ExecutionUnit Instruction δ γ) ∨ ready.core.trapPending = true := by
      have htrap := Machine.trapPending_execute ⟨ready.core, ready.bus⟩ instruction address
        ready.faults
      refine (iff_of_eq (congrArg (· = true) htrap)).trans ?_
      rw [Bool.or_eq_true, Bool.and_eq_true, Option.isNone_iff_eq_none]
      exact Iff.rfl
    refine ⟨throughout_cons.mpr ⟨trivial, h.finds⟩, ?_, ?_⟩
    · rw [owed_cons, ← h.owed]
      exact hexecuted.trans (or_congr_right (iff_of_eq (true_and _)).symm)
    · intro hapart htrap
      refine ⟨rfl, _, _, rfl, (hexecuted.mp htrap).resolve_right fun hpending => ?_⟩
      -- No trap is pending where an instruction waits to be executed.
      obtain ⟨hempty, -⟩ :=
        h.follows (fun action haction => hapart action (List.mem_cons_of_mem _ haction)) hpending
      rw [DecodedQueue.isEmpty, hitems] at hempty
      cases hempty

/-- Every run keeps it so. -/
theorem Recorded.stepped {start pipeline : Pipeline ExecutionUnit Instruction δ γ}
    {history : List (Action ExecutionUnit Instruction δ γ)} (horderly : start.Orderly)
    (htrap : start.core.trapPending = false) (h : Recorded KeepsPending start history pipeline) :
    Stepped history pipeline := by
  refine h.invariant stepped_kept.stages ?_ horderly ⟨throughout_nil, ?_, ?_⟩
  · intro history pipeline event hother hkeeps hstepped
    have hpending : (pipeline.after event).core.trapPending = pipeline.core.trapPending :=
      congrArg (fun pending => pending.2.1) (pending_after hother hkeeps)
    obtain ⟨hdecoded, -⟩ := keeps_of_ne_move pipeline hother
    refine ⟨hstepped.finds, ?_, ?_⟩
    · rw [hpending]
      exact hstepped.owed
    · rw [hpending, hdecoded]
      exact hstepped.follows
  · rw [htrap]
    exact iff_of_false Bool.false_ne_true not_owed_nil
  · intro _ hpending
    rw [htrap] at hpending
    cases hpending

end Pipeline

namespace X86

open Pipeline

/-- In every run of an 8086 without a trap pending at first, the trap is pending
    at a boundary exactly if an instruction went through with TF set and every
    boundary since took an exception.  So, as long as no boundary finds an
    exception and the trap, the trap is pending only right after an instruction
    that was executed with TF set; a boundary that finds both leaves it pending
    through the instruction that follows. -/
theorem trap_follows_step {δ γ : Type} [PortDevice δ] [InterruptController γ]
    (architecture : Architecture Instruction) (core : ExecutionUnit) (memory : Memory)
    (ports : PortMap δ)
    (htrap : core.trapPending = false) {history : List (Action ExecutionUnit Instruction δ γ)}
    {pipeline : Pipeline ExecutionUnit Instruction δ γ}
    (hrun : Recorded KeepsPending (.of architecture core memory ports) history pipeline) :
    Throughout FindsOwed history :=
  (hrun.stepped (orderly_of architecture core memory ports) htrap).finds

/-- An 8086 at the start of a program that divides by BL, which is zero, with TF
    set; the handlers of both exceptions are a row of NOPs. -/
def dividingStart : Pipeline ExecutionUnit Instruction Terminal.Console InterruptLine :=
  .of realMode
    (ExecutionUnit.initial.mapRegs fun regs => (regs.setIp 10).setFlags (.restore 0x100))
    ⟨#[0x0C, 0, 0, 0, 0x0E, 0, 0, 0, 0, 0, 0xF6, 0xF3, 0x90, 0x90, 0x90, 0x90], none⟩ .empty

/-- The boundary after the division finds the exception and the trap.  The first
    NOP of the exception's handler is executed with TF clear, and the trap, still
    owed for the division, is taken after it. -/
theorem trap_follows_step_dividing :
    Throughout FindsOwed (dividingStart.moves 3).1
      ∧ (executions (dividingStart.moves 2).1).map Prod.fst = [0x0C, 0x0A]
      ∧ (dividingStart.moves 2).2.core.regs.flags.get .trap = false
      ∧ (dividingStart.moves 2).2.core.trapPending = true
      ∧ (dividingStart.moves 3).2.core.trapPending = false
      ∧ (dividingStart.moves 3).2.core.regs.ip = 0x0F := by
  have hrun : Recorded KeepsPending dividingStart (dividingStart.moves 3).1
      (dividingStart.moves 3).2 := by
    refine recorded_replay dividingStart fun event hevent _ => ?_
    rw [List.eq_of_mem_replicate hevent]
    trivial
  exact ⟨trap_follows_step realMode _ _ .empty rfl hrun, by decide +kernel, by decide +kernel,
    by decide +kernel, by decide +kernel, by decide +kernel⟩

end X86

end Microprocessor
