import Microprocessor.Proofs.Arm.DataProcessing
import Microprocessor.Proofs.Arm.Reachable
import Microprocessor.Terminal.Console

/-! # Exceptions and the way back

    A handler that returns at once undoes all that its exception did, except
    that the link register of its own mode is lost.

      * `Processor.Taken` lists the ways into a handler, each with the address at
        which the interrupted program is to go on;
      * `Exception.returnInstruction` is the return that goes with an exception;
      * `Processor.Restored` is what it gives back;
      * `exceptions_reversible` says so of every processor since reset, and that
        a masked request stays. -/

namespace Microprocessor.Arm

namespace Processor

/-! ## Changes of the program counter alone -/

/-- Only the program counter differs, or whether the processor waits. -/
structure Moved (before after : Processor) : Prop where
  registersOnly : before.RegistersOnly after
  get : ∀ register, register ≠ .pc → after.get register = before.get register

namespace Moved

theorem trans {a b c : Processor} (hab : a.Moved b) (hbc : b.Moved c) : a.Moved c where
  registersOnly := hab.registersOnly.trans hbc.registersOnly
  get := fun register hother => (hbc.get register hother).trans (hab.get register hother)

theorem put (processor : Processor) (value : UInt32) :
    processor.Moved (processor.put .pc value) where
  registersOnly := .put processor .pc value
  get := fun _ hother => get_put_of_ne processor value hother.symm

theorem savedStatus {before after : Processor} (h : before.Moved after) :
    after.savedStatus = before.savedStatus := by
  rw [Processor.savedStatus, Processor.savedStatus, h.registersOnly.status, h.registersOnly.banks]

theorem banked {before after : Processor} (h : before.Moved after) (bank : Bank) :
    after.banked bank = before.banked bank :=
  banked_congr (congrArg Status.bank h.registersOnly.status) (h.get .sp (by decide))
    (h.get .lr (by decide)) h.registersOnly.banks bank

end Moved

/-! ## What a handler finds -/

/-- Writing the link register changes that of the bank in use. -/
theorem banked_put_lr (processor : Processor) (value : UInt32) (bank : Bank) :
    (processor.put .lr value).banked bank
      = if processor.status.bank = bank then { processor.banked bank with lr := value }
        else processor.banked bank := by
  by_cases h : processor.status.bank = bank
  · have hwritten : (processor.put .lr value).status.bank = bank := h
    rw [if_pos h, banked_of_eq h, banked_of_eq hwritten, get_put_self,
      get_put_of_ne processor value (by decide)]
  · have hwritten : (processor.put .lr value).status.bank ≠ bank := h
    rw [if_neg h, banked_of_ne h, banked_of_ne hwritten]
    rfl

/-- The processor in the mode of a handler, with the interrupted status set
    aside. -/
def entering (processor : Processor) (exception : Exception) : Processor :=
  (processor.setStatus (exception.handlerStatus processor.status)).setSavedStatus processor.status

/-- A handler is entered with the return address in the link register. -/
theorem moved_enter (processor : Processor) (exception : Exception) (returnAddress : UInt32) :
    ((processor.entering exception).put .lr returnAddress).Moved
      (processor.enter exception returnAddress) where
  registersOnly := ⟨rfl, rfl⟩
  get := fun _ hother => get_put_of_ne _ exception.vector hother.symm

/-- Entering a handler puts the return address into the link register of the
    handler's bank, and leaves to every bank all else that it has. -/
theorem banked_enter (processor : Processor) (exception : Exception) (returnAddress : UInt32)
    (bank : Bank) :
    (processor.enter exception returnAddress).banked bank
      = if exception.mode.bank = bank then { processor.banked bank with lr := returnAddress }
        else processor.banked bank := by
  have hbank : (processor.entering exception).status.bank = exception.mode.bank := by
    rw [entering, status_setSavedStatus, status_setStatus, exception.bank_handlerStatus]
  have hbanked : (processor.entering exception).banked bank = processor.banked bank :=
    (banked_setSavedStatus _ _ bank).trans (banked_setStatus _ _ bank)
  rw [(processor.moved_enter exception returnAddress).banked, banked_put_lr, hbank, hbanked]

/-- A register below the stack pointer is none of the three above. -/
theorem ne_of_number_lt {register other : Register} (h : register.number.val < 13)
    (hother : 13 ≤ other.number.val) : register ≠ other := by
  rintro rfl
  omega

/-- Entering a handler leaves the registers alone that no bank has. -/
theorem get_enter (processor : Processor) (exception : Exception) (returnAddress : UInt32)
    {register : Register} (h : register.number.val < 13) :
    (processor.enter exception returnAddress).get register = processor.get register := by
  have hsp : register ≠ .sp := ne_of_number_lt h (by decide)
  have hlr : register ≠ .lr := ne_of_number_lt h (by decide)
  have hpc : register ≠ .pc := ne_of_number_lt h (by decide)
  calc (processor.enter exception returnAddress).get register
      = ((processor.entering exception).put .lr returnAddress).get register :=
        (processor.moved_enter exception returnAddress).get register hpc
    _ = (processor.entering exception).get register := get_put_of_ne _ returnAddress hlr.symm
    _ = (processor.setStatus _).get register := get_setSavedStatus _ _ register
    _ = processor.get register := get_setStatus _ _ hsp hlr

/-- The handler finds the return address in its link register. -/
theorem get_lr_enter (processor : Processor) (exception : Exception) (returnAddress : UInt32) :
    (processor.enter exception returnAddress).get .lr = returnAddress :=
  ((processor.moved_enter exception returnAddress).get .lr (by decide)).trans
    (get_put_self _ .lr returnAddress)

/-! ## The way back -/

/-- What an interrupted processor has again: its status, its registers, and what
    is set aside, except in the bank of the handler, where only the stack pointer
    is as it was. -/
structure Restored (before : Processor) (exception : Exception) (resume : UInt32)
    (after : Processor) : Prop where
  status : after.status = before.status
  general : ∀ register : Register, register.number.val < 13 →
    after.get register = before.get register
  sp : after.get .sp = before.get .sp
  lr : after.get .lr = before.get .lr
  pc : after.get .pc = resume
  stackPointers : ∀ bank, (after.banked bank).sp = (before.banked bank).sp
  linkRegisters : ∀ bank, bank ≠ exception.mode.bank →
    (after.banked bank).lr = (before.banked bank).lr
  savedStatuses : ∀ bank, bank ≠ exception.mode.bank →
    (after.banks.get bank).status = (before.banks.get bank).status

/-- Leaving a handler in which only the program counter has been changed gives
    back what entering it took. -/
theorem restored_leaveException {processor : Processor} {exception : Exception}
    (hmode : processor.status.mode? ≠ some exception.mode) {returnAddress : UInt32}
    {written : Processor} (hmoved : (processor.enter exception returnAddress).Moved written) :
    processor.Restored exception (written.get .pc) written.leaveException := by
  have hstatus : written.leaveException.status = processor.status := by
    rw [leaveException, status_setStatus, hmoved.savedStatus, savedStatus_of_enter]
  have hbanked : ∀ bank, written.leaveException.banked bank
      = if exception.mode.bank = bank then { processor.banked bank with lr := returnAddress }
        else processor.banked bank := by
    intro bank
    rw [leaveException, banked_setStatus, hmoved.banked, banked_enter]
  -- The interrupted mode has not lost its link register.
  have hown : written.leaveException.banked processor.status.bank
      = processor.banked processor.status.bank := by
    rw [hbanked, if_neg]
    intro hbank
    exact hmode (Exception.mode?_of_bank hbank.symm)
  rw [banked_of_eq (congrArg Status.bank hstatus), banked_of_eq rfl] at hown
  constructor
  case status => exact hstatus
  case sp => exact congrArg StackRegisters.sp hown
  case lr => exact congrArg StackRegisters.lr hown
  case pc => exact get_setStatus _ _ (by decide) (by decide)
  case general =>
    intro register h
    have hsp : register ≠ .sp := ne_of_number_lt h (by decide)
    have hlr : register ≠ .lr := ne_of_number_lt h (by decide)
    have hpc : register ≠ .pc := ne_of_number_lt h (by decide)
    calc written.leaveException.get register
        = written.get register := get_setStatus _ _ hsp hlr
      _ = (processor.enter exception returnAddress).get register := hmoved.get register hpc
      _ = processor.get register := get_enter processor exception returnAddress h
  case stackPointers =>
    intro bank
    rw [hbanked]
    split <;> rfl
  case linkRegisters =>
    intro bank hother
    rw [hbanked, if_neg hother.symm]
  case savedStatuses =>
    intro bank hother
    rw [leaveException, savedStatus_setStatus, hmoved.registersOnly.banks, savedStatus_enter,
      if_neg hother]

/-- A processor differs from one that has moved on in the program counter alone. -/
theorem Restored.of_moved {before moved : Processor} (hmoved : before.Moved moved)
    {exception : Exception} {resume : UInt32} {after : Processor}
    (h : moved.Restored exception resume after) : before.Restored exception resume after where
  status := h.status.trans hmoved.registersOnly.status
  general := fun register hnumber => (h.general register hnumber).trans
    (hmoved.get register (ne_of_number_lt hnumber (by decide)))
  sp := h.sp.trans (hmoved.get .sp (by decide))
  lr := h.lr.trans (hmoved.get .lr (by decide))
  pc := h.pc
  stackPointers := fun bank =>
    (h.stackPointers bank).trans (congrArg StackRegisters.sp (hmoved.banked bank))
  linkRegisters := fun bank hother =>
    (h.linkRegisters bank hother).trans (congrArg StackRegisters.lr (hmoved.banked bank))
  savedStatuses := fun bank hother => by
    rw [h.savedStatuses bank hother, hmoved.registersOnly.banks]

end Processor

/-! ## The return instructions -/

namespace Exception

/-- The instruction that returns from a handler: `MOVS PC, LR` after a supervisor
    call, `SUBS PC, LR, #4` after an interrupt. -/
def returnInstruction : Exception → Instruction
  | .supervisorCall => .ofWord 0xE1B0F00E
  | .irq | .fiq => .ofWord 0xE25EF004

example : Exception.supervisorCall.returnInstruction.text = "MOVS PC, LR" := by decide +kernel

example : Exception.irq.returnInstruction.text = "SUBS PC, LR, #0x4" := by decide +kernel

/-- Where an exception returns to, by the link register of its handler. -/
def returnTarget : Exception → UInt32 → UInt32
  | .supervisorCall, link => link
  | .irq, link | .fiq, link => link - 4

end Exception

namespace Processor

/-- The processor once it has carried out the instruction at its program
    counter. -/
def carryOut {δ : Type} (processor : Processor) (instruction : Instruction) (bus : Bus δ)
    (faults : FaultUnit) : Processor :=
  (Machine.execute ⟨processor.advance instructionLength, bus⟩ instruction (processor.get .pc)
    faults).core

/-- Data processing that sets flags and writes the program counter goes there and
    leaves the exception. -/
theorem process_returns (processor : Processor) (pc : UInt32) {op : DataOp}
    (hop : op.isComparison = false) (rn : Register) (operand : ShifterOperand) :
    processor.process pc op true rn .pc operand
      = (processor.write .pc
          (op.outcome (processor.operand pc rn) (processor.shifterOperand pc operand)
            (processor.status.get .carry) (processor.status.get .overflow)).value).leaveException := by
  rw [process, hop]
  rfl

/-- The return from an exception goes where it should, and leaves the exception. -/
theorem carryOut_returnInstruction {δ : Type} (processor : Processor) (exception : Exception)
    (bus : Bus δ) (faults : FaultUnit) :
    processor.carryOut exception.returnInstruction bus faults
      = ((processor.advance instructionLength).write .pc
          (exception.returnTarget (processor.get .lr))).leaveException := by
  have hlr : (processor.advance instructionLength).get .lr = processor.get .lr :=
    get_put_of_ne _ _ (by decide)
  have hmove : ∀ pc : UInt32, (processor.advance instructionLength).process pc .mov true ⟨0⟩ .pc
      (.register .lr .lsl (.immediate 0)) = ((processor.advance instructionLength).write .pc
          (processor.get .lr)).leaveException := by
    intro pc
    rw [process_returns _ _ rfl, ← hlr]
    rfl
  have hsub : ∀ pc : UInt32, (processor.advance instructionLength).process pc .sub true .lr .pc
      (.immediate 4 0) = ((processor.advance instructionLength).write .pc
          (processor.get .lr - 4)).leaveException := by
    intro pc
    rw [process_returns _ _ rfl, ← hlr, ← value_addWithCarry_not]
    rfl
  cases exception with
  | supervisorCall => exact hmove _
  | irq => exact hsub _
  | fiq => exact hsub _

/-! ## There and back -/

/-- The ways into a handler, with the address at which the interrupted program is
    to go on: a supervisor call, and at a boundary an interrupt that is not
    masked, a fast one before another. -/
inductive Taken {δ : Type} (before : Processor) (bus : Bus δ) :
    Exception → UInt32 → Processor → Prop
  | call (instruction : Instruction) (faults : FaultUnit) (h : before.Calls instruction) :
      Taken before bus .supervisorCall (before.get .pc + 4)
        (before.carryOut instruction bus faults)
  | irq {γ : Type} [InterruptController γ] (inputs : InterruptInputs γ)
      (hpending : inputs.requestPending = true) (hunmasked : before.status.get .irqMask = false)
      (hfast : inputs.nmi = false ∨ before.status.get .fiqMask = true) :
      Taken before bus .irq (before.get .pc) (before.serviceInterrupts bus inputs).core
  | fiq {γ : Type} [InterruptController γ] (inputs : InterruptInputs γ)
      (hlatched : inputs.nmi = true)
      (hunmasked : before.status.get .fiqMask = false) :
      Taken before bus .fiq (before.get .pc) (before.serviceInterrupts bus inputs).core

/-- However a handler is entered, it has a return address that leads back. -/
theorem Taken.enters {δ : Type} {before : Processor} {bus : Bus δ} {exception : Exception}
    {resume : UInt32} {handler : Processor} (h : before.Taken bus exception resume handler) :
    ∃ moved returnAddress, before.Moved moved
      ∧ handler = moved.enter exception returnAddress
      ∧ exception.returnTarget returnAddress = resume := by
  cases h with
  | call instruction faults hcalls =>
      refine ⟨before.advance instructionLength, before.get .pc + 4, .put before _, ?_, rfl⟩
      have hsatisfied : (Machine.mk (before.advance instructionLength) bus).processor.status.satisfies
          instruction.condition = true := hcalls.1
      exact Machine.execute_of_isSupervisorCall hsatisfied hcalls.2 (before.get .pc) faults
  | irq inputs hpending hunmasked hfast =>
      refine ⟨before, before.get .pc + 4, ⟨.refl before, fun _ _ => rfl⟩, ?_,
        UInt32.add_sub_cancel _ _⟩
      have hslow : (inputs.nmi && !before.status.get .fiqMask) = false := by
        rcases hfast with hnone | hmasked
        · rw [hnone, Bool.false_and]
        · rw [hmasked, Bool.not_true, Bool.and_false]
      rw [serviceInterrupts_eq, interruptTaken?, hslow, hpending, hunmasked]
      rfl
  | fiq inputs hlatched hunmasked =>
      refine ⟨before, before.get .pc + 4, ⟨.refl before, fun _ _ => rfl⟩, ?_,
        UInt32.add_sub_cancel _ _⟩
      rw [serviceInterrupts_eq, interruptTaken?, hlatched, hunmasked]
      rfl

/-- An interrupted program goes on at the address of a word. -/
theorem Taken.isAligned {δ : Type} {before : Processor} {bus : Bus δ} {exception : Exception}
    {resume : UInt32} {handler : Processor} (h : before.Taken bus exception resume handler)
    (haligned : before.Aligned) : IsAligned resume := by
  cases h with
  | call _ _ _ => exact haligned.add_four
  | irq _ _ _ _ => exact haligned
  | fiq _ _ _ => exact haligned

/-- A boundary withdraws no request that is masked. -/
theorem serviceInterrupts_masked {δ γ : Type} [InterruptController γ] (processor : Processor)
    (bus : Bus δ) (inputs : InterruptInputs γ) :
    (processor.status.get .irqMask = true →
        (processor.serviceInterrupts bus inputs).inputs.controller = inputs.controller)
      ∧ (processor.status.get .fiqMask = true →
        (processor.serviceInterrupts bus inputs).inputs.nmi = inputs.nmi) := by
  rw [serviceInterrupts_eq, interruptTaken?]
  constructor
  · intro hmasked
    rw [hmasked, Bool.not_true, Bool.and_false]
    cases inputs.nmi && !processor.status.get .fiqMask <;> rfl
  · intro hmasked
    rw [hmasked, Bool.not_true, Bool.and_false]
    cases inputs.requestPending && !processor.status.get .irqMask <;> rfl

end Processor

/-- An exception that takes a processor out of its mode is undone by the return
    that goes with it, which a handler carries out as its first instruction: the
    interrupted program goes on where it would have gone on, with everything as it
    was but the link register of the handler's mode.  A request that is masked is
    not withdrawn. -/
theorem exceptions_reversible :
    (∀ {δ : Type} {processor handler : Processor} {bus : Bus δ} {exception : Exception}
        {resume : UInt32}, processor.Reachable →
        processor.Taken bus exception resume handler →
        processor.status.mode? ≠ some exception.mode →
        ∀ {δ' : Type} (later : Bus δ') (faults : FaultUnit),
          processor.Restored exception resume
            (handler.carryOut exception.returnInstruction later faults))
    ∧ ∀ {δ γ : Type} [InterruptController γ] (processor : Processor) (bus : Bus δ)
        (inputs : InterruptInputs γ),
        (processor.status.get .irqMask = true →
            (processor.serviceInterrupts bus inputs).inputs.controller = inputs.controller)
          ∧ (processor.status.get .fiqMask = true →
            (processor.serviceInterrupts bus inputs).inputs.nmi = inputs.nmi) := by
  constructor
  · intro δ processor handler bus exception resume hreachable htaken hmode δ' later faults
    have haligned := htaken.isAligned hreachable.aligned
    obtain ⟨moved, returnAddress, hmoved, rfl, rfl⟩ := htaken.enters
    rw [Processor.carryOut_returnInstruction, Processor.get_lr_enter, Processor.write,
      if_pos (show Register.pc.isPc = true from rfl), wordAddress_of_isAligned haligned]
    have hmode : moved.status.mode? ≠ some exception.mode := by
      rw [hmoved.registersOnly.status]
      exact hmode
    have hwritten := (Processor.Moved.put (moved.enter exception returnAddress) _).trans
      (.put ((moved.enter exception returnAddress).advance instructionLength)
        (exception.returnTarget returnAddress))
    have hrestored := Processor.restored_leaveException hmode hwritten
    rw [Processor.get_put_self] at hrestored
    exact hrestored.of_moved hmoved
  · exact Processor.serviceInterrupts_masked

/-- A bus with neither memory nor devices. -/
def emptyBus : Bus Terminal.Console :=
  .of ⟨#[], none⟩ .empty 4 4

/-- A processor after it has gone from reset to User mode, with a link register and
    the fast request masked. -/
def userProcessor : Processor :=
  (Processor.initial.carryOut (.ofWord 0xE321F050) emptyBus .initial).setRegister .lr 0x55

/-- Both requests, the maskable one on a line. -/
def bothRequests : InterruptInputs InterruptLine :=
  ⟨some ⟨some 7⟩, true⟩

/-- It calls the supervisor and is given back what it had; an interrupt is undone
    as well; and after reset, where both requests are masked, both stay. -/
theorem exceptions_reversible_called :
    userProcessor.status.mode? = some .user
      ∧ userProcessor.Restored .supervisorCall 8
        ((userProcessor.carryOut (.ofWord 0xEF000000) emptyBus .initial).carryOut
          (.ofWord 0xE1B0F00E) emptyBus .initial)
      ∧ userProcessor.Restored .irq 4
        ((userProcessor.serviceInterrupts emptyBus bothRequests).core.carryOut
          (.ofWord 0xE25EF004) emptyBus .initial)
      ∧ (Processor.initial.serviceInterrupts emptyBus bothRequests).inputs.controller
        = some ⟨some 7⟩
      ∧ (Processor.initial.serviceInterrupts emptyBus bothRequests).inputs.nmi = true := by
  have hreachable : userProcessor.Reachable :=
    .set (.executed ⟨_, emptyBus⟩ (.advanced .reset) _ _ _) .lr 0x55
  have hmasked := exceptions_reversible.2 Processor.initial emptyBus bothRequests
  refine ⟨by decide +kernel, ?_, ?_, hmasked.1 (by decide), hmasked.2 (by decide)⟩
  · have hcalls : userProcessor.Calls (.ofWord 0xEF000000) := ⟨by decide +kernel, rfl⟩
    exact exceptions_reversible.1 hreachable (.call _ .initial hcalls) (by decide +kernel) emptyBus
      .initial
  · exact exceptions_reversible.1 hreachable
      (.irq bothRequests rfl (by decide +kernel) (.inr (by decide +kernel)))
      (by decide +kernel) emptyBus .initial

end Microprocessor.Arm
