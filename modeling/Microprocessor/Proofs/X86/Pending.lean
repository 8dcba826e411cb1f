import Microprocessor.Proofs.Pipeline.History
import Microprocessor.Proofs.X86.Access

/-! # What 8086 instructions leave pending

    Beside the registers the execution unit holds what is pending at the next
    instruction boundary: an exception, the single-step trap and the shadow over
    the maskable line.

      * `Machine.pending_enterInterrupt`: entering a handler leaves all of it
        alone;
      * `Machine.requests_perform`: only a division raises an exception;
      * `Machine.trapPending_execute`: an instruction leaves the trap pending if
        it was executed with TF set and went through, and withdraws it from
        nobody;
      * `Machine.shadow_execute`: STI, MOV SS and POP SS cast the shadow. -/

namespace Microprocessor

namespace X86

/-- What is pending: an exception, the trap, the shadow. -/
def ExecutionUnit.pending (unit : ExecutionUnit) : Option UInt8 × Bool × Bool :=
  (unit.exception, unit.trapPending, unit.shadow)

/-- What the unit asks for on its own behalf: an exception, the trap. -/
def ExecutionUnit.requests (unit : ExecutionUnit) : Option UInt8 × Bool :=
  (unit.exception, unit.trapPending)

/-- The operations that divide: DIV, IDIV and AAM. -/
def Operation.divides : Operation → Bool
  | .mulDiv .div _ _ | .mulDiv .idiv _ _ | .asciiAdjustMultiply _ => true
  | _ => false

/-- The operations after which the maskable line is ignored for one boundary:
    STI, MOV SS and POP SS. -/
def Operation.castsShadow : Operation → Bool
  | .flag .sti | .mov _ (.segment .ss) _ | .pop (.segment .ss) => true
  | _ => false

namespace Machine

variable {δ : Type}

/-! ## Registers, the stack and handlers -/

@[simp] theorem pending_mapRegs (machine : Machine δ) (f : RegisterFile → RegisterFile) :
    (machine.mapRegs f).unit.pending = machine.unit.pending := rfl

@[simp] theorem pending_setFlags (machine : Machine δ) (flags : Flags) :
    (machine.setFlags flags).unit.pending = machine.unit.pending := rfl

@[simp] theorem pending_farJump (machine : Machine δ) (segment offset : UInt16) :
    (machine.mapUnit fun unit => unit.farJump segment offset).unit.pending
      = machine.unit.pending := rfl

@[simp] theorem pending_enter (machine : Machine δ) (segment offset : UInt16) :
    (machine.mapUnit fun unit =>
        { unit.farJump segment offset with halted := false }).unit.pending
      = machine.unit.pending := rfl

@[simp] theorem pending_push (machine : Machine δ) (value : UInt16) :
    (machine.push value).unit.pending = machine.unit.pending := rfl

@[simp] theorem pending_pop (machine : Machine δ) :
    machine.pop.2.unit.pending = machine.unit.pending := rfl

/-- Entering a handler leaves what is pending alone. -/
@[simp] theorem pending_enterInterrupt (machine : Machine δ) (vector : UInt8) :
    (machine.enterInterrupt vector).unit.pending = machine.unit.pending := by
  simp only [enterInterrupt]
  rw [pending_enter, pending_push, pending_push, pending_setFlags, pending_push]

/-- A far call leaves what is pending alone. -/
theorem pending_callFar (machine : Machine δ) (segment offset : UInt16) :
    (machine.callFar segment offset).unit.pending = machine.unit.pending := by
  simp only [callFar]
  rw [pending_farJump, pending_push, pending_push]

/-- A far return leaves what is pending alone. -/
theorem pending_retFar (machine : Machine δ) (count : UInt16) :
    (machine.retFar count).unit.pending = machine.unit.pending := by
  rw [retFar_eq, releaseStack, pending_mapRegs, pending_farJump, pending_pop, pending_pop]

/-- A return from a handler leaves what is pending alone. -/
theorem pending_interruptReturn (machine : Machine δ) :
    machine.interruptReturn.unit.pending = machine.unit.pending := by
  rw [interruptReturn_eq, pending_setFlags, pending_farJump, pending_pop, pending_pop,
    pending_pop]

/-- A boundary takes the exception if there is one, else the trap, and leaves
    the shadow. -/
theorem pending_serviceInterrupts {γ : Type} [InterruptController γ] (machine : Machine δ)
    (inputs : InterruptInputs γ) :
    (machine.serviceInterrupts inputs).core.pending
      = (none, machine.unit.exception.isSome && machine.unit.trapPending,
          machine.unit.shadow) := by
  have hquiet : ∀ machine : Machine δ, machine.unit.exception = none →
      machine.unit.trapPending = false →
      machine.unit.pending = (none, false, machine.unit.shadow) := by
    intro machine hexception htrap
    rw [ExecutionUnit.pending, hexception, htrap]
  rw [serviceInterrupts]
  cases hexception : machine.unit.exception with
  | some vector => exact pending_enterInterrupt (machine.mapUnit _) vector
  | none =>
      simp only
      cases htrap : machine.unit.trapPending with
      | true =>
          refine (pending_enterInterrupt (machine.mapUnit _) Vector.singleStep).trans ?_
          exact hquiet (machine.mapUnit _) hexception rfl
      | false =>
          rw [if_neg Bool.false_ne_true]
          split
          · exact (pending_enterInterrupt machine Vector.nmi).trans
              (hquiet machine hexception htrap)
          · rw [serviceLine]
            split
            · split
              · exact (pending_enterInterrupt machine _).trans (hquiet machine hexception htrap)
              · exact hquiet machine hexception htrap
            · exact hquiet machine hexception htrap

/-! ## What the unit asks for -/

/-- What leaves all that is pending alone leaves alone what the unit asks for. -/
theorem requests_of_pending {before after : ExecutionUnit} (h : after.pending = before.pending) :
    after.requests = before.requests :=
  congrArg (fun pending => (pending.1, pending.2.1)) h

/-- Writing an operand leaves it alone. -/
theorem requests_writeOperand (machine : Machine δ) (instruction : Instruction) (width : Width)
    (operand : Operand) (value : UInt16) :
    (machine.writeOperand instruction width operand value).unit.requests
      = machine.unit.requests := by
  cases operand <;> rfl

/-- A string instruction leaves it alone. -/
theorem requests_string (machine : Machine δ) (instruction : Instruction) (op : StringOp)
    (width : Width) :
    (machine.string instruction op width).unit.requests = machine.unit.requests := by
  let kept (after : Machine δ) : Prop := after.unit.requests = machine.unit.requests
  have hstep : ∀ after, kept after → kept (after.stringStep instruction op width) := by
    intro after h
    refine Eq.trans ?_ h
    cases op <;> rfl
  exact string_kept hstep (fun _ _ h => h) rfl

/-- An operation that does not divide leaves it alone. -/
theorem requests_perform (machine : Machine δ) (instruction : Instruction)
    {operation : Operation} (h : operation.divides = false) :
    (machine.perform instruction operation).unit.requests = machine.unit.requests := by
  cases operation with
  | arith op width dst src =>
      show (arith machine instruction op width dst src).unit.requests = _
      rw [arith]
      simp only
      split
      · exact requests_writeOperand (machine.setFlags _) instruction width dst _
      · rfl
  | incDec op width target =>
      exact requests_writeOperand (machine.setFlags _) instruction width target _
  | unary op width target =>
      exact requests_writeOperand (machine.setFlags _) instruction width target _
  | shift op width target count =>
      exact requests_writeOperand (machine.setFlags _) instruction width target _
  | mulDiv op width source =>
      cases op with
      | mul | imul => rfl
      | div | idiv => cases h
  | mov width dst src => exact requests_writeOperand machine instruction width dst _
  | xchg width a b =>
      exact (requests_writeOperand _ instruction width b _).trans
        (requests_writeOperand machine instruction width a _)
  | pop operand => exact requests_writeOperand machine.pop.2 instruction .word operand _
  | adjust op => cases op <;> rfl
  | asciiAdjustMultiply base => cases h
  | jumpConditional condition displacement =>
      show (jumpConditional machine condition displacement).unit.requests = _
      rw [jumpConditional]
      split
      · rfl
      · rfl
  | interruptOnOverflow =>
      show (interruptOnOverflow machine).unit.requests = _
      rw [interruptOnOverflow]
      split
      · exact requests_of_pending (pending_enterInterrupt machine Vector.overflow)
      · rfl
  | interrupt vector => exact requests_of_pending (pending_enterInterrupt machine vector)
  | loop op displacement =>
      exact (apply_ite (fun after : Machine δ => after.unit.requests) _ _ _).trans
        (ite_self machine.unit.requests)
  | string op width => exact requests_string machine instruction op width
  | flag op => cases op <;> rfl
  | callFar segment offset => exact requests_of_pending (pending_callFar machine segment offset)
  | callFarIndirect address => exact requests_of_pending (pending_callFar machine _ _)
  | retFar count => exact requests_of_pending (pending_retFar machine count)
  | interruptReturn => exact requests_of_pending (pending_interruptReturn machine)
  | _ => rfl

/-! ## The single-step trap -/

/-- Dividing leaves the trap alone. -/
theorem trapPending_divide (machine : Machine δ) (instruction : Instruction) (signed : Bool)
    (width : Width) (source : Operand) :
    (machine.divide instruction signed width source).unit.trapPending
      = machine.unit.trapPending := by
  unfold divide
  simp only
  split
  · rfl
  · rfl

/-- An operation that cannot fault leaves the trap alone. -/
theorem trapPending_perform (machine : Machine δ) (instruction : Instruction)
    (operation : Operation) :
    (machine.perform instruction operation).unit.trapPending = machine.unit.trapPending := by
  cases hdivides : operation.divides with
  | false => exact congrArg Prod.snd (requests_perform machine instruction hdivides)
  | true =>
      unfold Operation.divides at hdivides
      split at hdivides
      · exact trapPending_divide machine instruction false _ _
      · exact trapPending_divide machine instruction true _ _
      · rename_i base
        show (asciiAdjustMultiply machine base).unit.trapPending = _
        rw [asciiAdjustMultiply]
        split
        · rfl
        · rfl
      · cases hdivides

/-- What goes through with TF set leaves the trap pending; what a fault stops, or
    what is done with TF clear, leaves it as it was. -/
def LeavesTrap (before : Bool) (armed : Bool) (executed : Executed ExecutionUnit δ) : Prop :=
  executed.core.trapPending = (armed && executed.fault.isNone || before)

theorem complete_leavesTrap (machine : Machine δ) (armed : Bool) (faults : FaultUnit) :
    LeavesTrap machine.unit.trapPending armed (machine.complete armed faults) :=
  congrArg (· || machine.unit.trapPending) (Bool.and_true armed).symm

theorem stopped_leavesTrap (machine : Machine δ) (armed : Bool) (faults : FaultUnit)
    (fault : Fault) :
    LeavesTrap machine.unit.trapPending armed (machine.stopped faults fault) :=
  congrArg (· || machine.unit.trapPending) (Bool.and_false armed).symm

/-- An instruction executed with TF set leaves the trap pending if it goes
    through; in any case a trap that is pending stays pending. -/
theorem trapPending_execute [PortDevice δ] (machine : Machine δ) (instruction : Instruction)
    (address : UInt32) (faults : FaultUnit) :
    (machine.execute instruction address faults).core.trapPending
      = (machine.regs.flags.get .trap
            && (machine.execute instruction address faults).fault.isNone
          || machine.unit.trapPending) := by
  have hends := machine.execute_ends instruction address faults
  generalize machine.execute instruction address faults = executed at hends ⊢
  show LeavesTrap machine.begun.unit.trapPending (machine.regs.flags.get .trap) executed
  cases hends with
  | stops faults fault _ => exact stopped_leavesTrap machine.begun _ faults fault
  | performs faults =>
      have hcomplete := complete_leavesTrap
        (machine.begun.perform instruction instruction.operation) (machine.regs.flags.get .trap)
        faults
      rw [trapPending_perform] at hcomplete
      exact hcomplete
  | reads faults _ _ => exact complete_leavesTrap ⟨_, _⟩ _ faults
  | readsIdle _ faults _ => exact complete_leavesTrap (machine.begun.mapUnit _) _ faults
  | writes faults _ _ => exact complete_leavesTrap ⟨machine.begun.unit, _⟩ _ faults

/-! ## The shadow -/

/-- STI, MOV SS and POP SS cast the shadow. -/
theorem shadow_execute [PortDevice δ] (machine : Machine δ) {instruction : Instruction}
    (hcasts : instruction.operation.castsShadow = true) (address : UInt32) (faults : FaultUnit) :
    (machine.execute instruction address faults).core.shadow = true := by
  obtain ⟨opcode, prefixes, operation, length, clocks⟩ := instruction
  simp only at hcasts
  unfold Operation.castsShadow at hcasts
  split at hcasts
  · rfl
  · rfl
  · rfl
  · cases hcasts

end Machine

end X86

/-! ## Between moves -/

namespace Pipeline

variable {δ γ : Type} [PortDevice δ] [InterruptController γ]

/-- An event that sets the registers of an 8086 leaves alone what is pending;
    every other event may happen. -/
def KeepsPending (pipeline : Pipeline X86.ExecutionUnit X86.Instruction δ γ) :
    Event X86.ExecutionUnit δ γ → Prop
  | .setCore core => core.pending = pipeline.core.pending
  | _ => True

/-- Between moves nothing happens to what is pending. -/
theorem pending_after {pipeline : Pipeline X86.ExecutionUnit X86.Instruction δ γ}
    {event : Event X86.ExecutionUnit δ γ} (hother : event ≠ .move)
    (hkeeps : pipeline.KeepsPending event) :
    (pipeline.after event).core.pending = pipeline.core.pending := by
  obtain ⟨core, rfl⟩ | hsame := pipeline.core_set_or_kept hother
  · exact hkeeps
  · rw [hsame]

end Pipeline

end Microprocessor
