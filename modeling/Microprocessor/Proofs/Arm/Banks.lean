import Microprocessor.Arm.Execution
import Microprocessor.Proofs.Arm.Status

/-! # Registers and banks

    Every bank has a stack pointer and a link register.  Those of the bank in use
    lie in the registers, the others are set aside, and a change of the mode
    exchanges the two places without touching what any bank has.

      * `Processor.banked` is what a bank has, wherever it lies;
      * `Processor.RegistersOnly` relates processors that differ in registers
        alone;
      * `Processor.banked_setStatus`: a change of the status leaves every bank
        alone. -/

namespace Microprocessor.Arm

namespace BankTable

theorem get_set_self (table : BankTable) (bank : Bank) (saved : BankedRegisters) :
    (table.set bank saved).get bank = saved := by
  cases bank <;> rfl

theorem get_set_of_ne (table : BankTable) {bank other : Bank} (saved : BankedRegisters)
    (h : bank ≠ other) : (table.set bank saved).get other = table.get other := by
  cases bank <;> cases other <;> first | rfl | exact absurd rfl h

end BankTable

namespace Processor

/-! ## Registers -/

@[simp] theorem get_put_self (processor : Processor) (register : Register) (value : UInt32) :
    (processor.put register value).get register = value :=
  Vector.getElem_set_self register.number.isLt

theorem get_put_of_ne (processor : Processor) {register other : Register} (value : UInt32)
    (h : register ≠ other) : (processor.put register value).get other = processor.get other := by
  refine Vector.getElem_set_ne register.number.isLt other.number.isLt ?_
  intro hnumber
  exact h (congrArg Register.mk (Fin.eq_of_val_eq hnumber))

/-- Writing a register other than the program counter puts the value there. -/
theorem write_of_not_isPc (processor : Processor) {register : Register} (value : UInt32)
    (h : register.isPc = false) : processor.write register value = processor.put register value := by
  rw [write, h]
  rfl

/-- The program counter is the register that is written as a branch. -/
theorem eq_pc_of_isPc {register : Register} (h : register.isPc = true) : register = .pc :=
  congrArg Register.mk (eq_of_beq h)

/-- A register other than the program counter reads as what it holds. -/
theorem operand_of_ne (processor : Processor) (pc : UInt32) {register : Register}
    (h : register ≠ .pc) : processor.operand pc register = processor.get register :=
  if_neg fun hpc => h (eq_pc_of_isPc hpc)

/-- And is written as it is put. -/
theorem write_of_ne (processor : Processor) {register : Register} (h : register ≠ .pc)
    (value : UInt32) : processor.write register value = processor.put register value :=
  processor.write_of_not_isPc value (Bool.eq_false_iff.mpr fun hpc => h (eq_pc_of_isPc hpc))

/-- A base other than the program counter is put back as it is. -/
theorem writeBack_of_ne (processor : Processor) {rn : Register} (h : rn ≠ .pc)
    (address : UInt32) : processor.writeBack rn address = processor.put rn address :=
  (if_neg fun hpc => h (eq_pc_of_isPc hpc)).trans (processor.write_of_ne h address)

/-! ## Changes of registers alone -/

/-- Only registers differ, or whether the processor waits. -/
structure RegistersOnly (before after : Processor) : Prop where
  status : after.status = before.status
  banks : after.banks = before.banks

namespace RegistersOnly

theorem refl (processor : Processor) : processor.RegistersOnly processor :=
  ⟨rfl, rfl⟩

theorem trans {a b c : Processor} (hab : a.RegistersOnly b) (hbc : b.RegistersOnly c) :
    a.RegistersOnly c :=
  ⟨hbc.status.trans hab.status, hbc.banks.trans hab.banks⟩

theorem put (processor : Processor) (register : Register) (value : UInt32) :
    processor.RegistersOnly (processor.put register value) :=
  ⟨rfl, rfl⟩

end RegistersOnly

/-! ## What a bank has -/

/-- The registers that every bank has of its own. -/
structure StackRegisters where
  sp : UInt32
  lr : UInt32
  deriving DecidableEq

/-- What a bank has: the registers in use if it is in use, and what is set aside
    for it otherwise. -/
def banked (processor : Processor) (bank : Bank) : StackRegisters :=
  if processor.status.bank = bank then ⟨processor.get .sp, processor.get .lr⟩
  else ⟨(processor.banks.get bank).sp, (processor.banks.get bank).lr⟩

/-- The bank in use has the registers in use. -/
theorem banked_of_eq {processor : Processor} {bank : Bank} (h : processor.status.bank = bank) :
    processor.banked bank = ⟨processor.get .sp, processor.get .lr⟩ :=
  if_pos h

/-- Any other bank has what is set aside for it. -/
theorem banked_of_ne {processor : Processor} {bank : Bank} (h : processor.status.bank ≠ bank) :
    processor.banked bank = ⟨(processor.banks.get bank).sp, (processor.banks.get bank).lr⟩ :=
  if_neg h

/-- What a bank has depends on the bank in use, the two registers and what is set
    aside. -/
theorem banked_congr {before after : Processor} (hbank : after.status.bank = before.status.bank)
    (hsp : after.get .sp = before.get .sp) (hlr : after.get .lr = before.get .lr)
    (hbanks : after.banks = before.banks) (bank : Bank) :
    after.banked bank = before.banked bank := by
  rw [banked, banked, hbank, hsp, hlr, hbanks]

/-! ## Changes of the status -/

/-- Within a bank a change of the status changes nothing else. -/
theorem setStatus_of_bank_eq {processor : Processor} {status : Status}
    (h : processor.status.bank = status.bank) :
    processor.setStatus status = { processor with status } := by
  rw [setStatus, if_pos h]

/-- A change of the bank exchanges the banked registers. -/
theorem setStatus_of_bank_ne {processor : Processor} {status : Status}
    (h : processor.status.bank ≠ status.bank) :
    processor.setStatus status
      = { processor.switchBank processor.status.bank status.bank with status } := by
  rw [setStatus, if_neg h]

theorem status_setStatus (processor : Processor) (status : Status) :
    (processor.setStatus status).status = status := by
  by_cases h : processor.status.bank = status.bank
  · rw [setStatus_of_bank_eq h]
  · rw [setStatus_of_bank_ne h]

/-- A change of the status leaves the registers alone that no bank has. -/
theorem get_setStatus (processor : Processor) (status : Status) {register : Register}
    (hsp : register ≠ .sp) (hlr : register ≠ .lr) :
    (processor.setStatus status).get register = processor.get register := by
  by_cases h : processor.status.bank = status.bank
  · rw [setStatus_of_bank_eq h]
    rfl
  · rw [setStatus_of_bank_ne h]
    exact (get_put_of_ne _ _ hlr.symm).trans (get_put_of_ne _ _ hsp.symm)

/-- A change of the bank sets aside the registers of the bank put away. -/
theorem banks_setStatus_of_ne {processor : Processor} {status : Status}
    (h : processor.status.bank ≠ status.bank) :
    (processor.setStatus status).banks
      = processor.banks.set processor.status.bank
          { processor.banks.get processor.status.bank with
            sp := processor.get .sp, lr := processor.get .lr } := by
  rw [setStatus_of_bank_ne h]
  rfl

/-- A change of the bank takes out the new bank's stack pointer. -/
theorem get_sp_setStatus_of_ne {processor : Processor} {status : Status}
    (h : processor.status.bank ≠ status.bank) :
    (processor.setStatus status).get .sp = (processor.banks.get status.bank).sp := by
  rw [setStatus_of_bank_ne h]
  exact (get_put_of_ne _ _ (by decide)).trans (get_put_self _ _ _)

/-- A change of the bank takes out the new bank's link register. -/
theorem get_lr_setStatus_of_ne {processor : Processor} {status : Status}
    (h : processor.status.bank ≠ status.bank) :
    (processor.setStatus status).get .lr = (processor.banks.get status.bank).lr := by
  rw [setStatus_of_bank_ne h]
  exact get_put_self _ _ _

/-- A change of the status leaves the statuses alone that are set aside. -/
theorem savedStatus_setStatus (processor : Processor) (status : Status) (bank : Bank) :
    ((processor.setStatus status).banks.get bank).status = (processor.banks.get bank).status := by
  by_cases h : processor.status.bank = status.bank
  · rw [setStatus_of_bank_eq h]
  · rw [banks_setStatus_of_ne h]
    by_cases hother : processor.status.bank = bank
    · rw [hother, BankTable.get_set_self]
    · rw [BankTable.get_set_of_ne _ _ hother]

/-- A change of the status leaves to every bank what it has. -/
theorem banked_setStatus (processor : Processor) (status : Status) (bank : Bank) :
    (processor.setStatus status).banked bank = processor.banked bank := by
  by_cases h : processor.status.bank = status.bank
  · have hsame := setStatus_of_bank_eq h
    refine banked_congr ?_ ?_ ?_ ?_ bank
    · rw [status_setStatus]
      exact h.symm
    · rw [hsame]
      rfl
    · rw [hsame]
      rfl
    · rw [hsame]
  · have hstatus := status_setStatus processor status
    by_cases hnew : status.bank = bank
    · -- The new bank's registers were set aside.
      subst hnew
      rw [banked_of_eq (congrArg Status.bank hstatus), banked_of_ne h, get_sp_setStatus_of_ne h,
        get_lr_setStatus_of_ne h]
    · rw [banked_of_ne (by rw [hstatus]; exact hnew), banks_setStatus_of_ne h]
      by_cases hold : processor.status.bank = bank
      · -- The old bank's registers were in use.
        subst hold
        rw [banked_of_eq rfl, BankTable.get_set_self]
      · rw [banked_of_ne hold, BankTable.get_set_of_ne _ _ hold]

/-! ## The status that is set aside -/

/-- The shared bank has no status set aside, and the current one stands in. -/
theorem savedStatus_of_user {processor : Processor} (h : processor.status.bank = .user) :
    processor.savedStatus = processor.status := by
  rw [savedStatus, h]

/-- The other banks have one. -/
theorem savedStatus_of_ne {processor : Processor} (h : processor.status.bank ≠ .user) :
    processor.savedStatus = (processor.banks.get processor.status.bank).status := by
  rw [savedStatus]
  split
  · rename_i hbank
    exact absurd hbank h
  · rfl

/-- In the shared bank there is no status to replace. -/
theorem setSavedStatus_of_user {processor : Processor} (h : processor.status.bank = .user)
    (status : Status) : processor.setSavedStatus status = processor := by
  rw [setSavedStatus, h]

/-- In the other banks one is replaced. -/
theorem setSavedStatus_of_ne {processor : Processor} (h : processor.status.bank ≠ .user)
    (status : Status) :
    processor.setSavedStatus status
      = { processor with
          banks := processor.banks.set processor.status.bank
            { processor.banks.get processor.status.bank with status } } := by
  rw [setSavedStatus]
  split
  · rename_i hbank
    exact absurd hbank h
  · rfl

/-- Replacing a status that is set aside leaves the current one alone. -/
theorem status_setSavedStatus (processor : Processor) (status : Status) :
    (processor.setSavedStatus status).status = processor.status := by
  by_cases h : processor.status.bank = .user
  · rw [setSavedStatus_of_user h]
  · rw [setSavedStatus_of_ne h]

/-- Replacing a status that is set aside leaves the registers alone. -/
theorem get_setSavedStatus (processor : Processor) (status : Status) (register : Register) :
    (processor.setSavedStatus status).get register = processor.get register := by
  by_cases h : processor.status.bank = .user
  · rw [setSavedStatus_of_user h]
  · rw [setSavedStatus_of_ne h]
    rfl

/-- Replacing a status that is set aside leaves to every bank what it has. -/
theorem banked_setSavedStatus (processor : Processor) (status : Status) (bank : Bank) :
    (processor.setSavedStatus status).banked bank = processor.banked bank := by
  by_cases h : processor.status.bank = .user
  · rw [setSavedStatus_of_user h]
  · have hstatus := status_setSavedStatus processor status
    by_cases hother : processor.status.bank = bank
    · rw [banked_of_eq (by rw [hstatus]; exact hother), banked_of_eq hother, get_setSavedStatus,
        get_setSavedStatus]
    · rw [banked_of_ne (by rw [hstatus]; exact hother), banked_of_ne hother, setSavedStatus_of_ne h,
        BankTable.get_set_of_ne _ _ hother]

/-- The status that is set aside for a bank once that of the bank in use has been
    replaced. -/
theorem savedStatus_setSavedStatus {processor : Processor} (h : processor.status.bank ≠ .user)
    (status : Status) (bank : Bank) :
    ((processor.setSavedStatus status).banks.get bank).status
      = if bank = processor.status.bank then status else (processor.banks.get bank).status := by
  rw [setSavedStatus_of_ne h]
  by_cases hother : bank = processor.status.bank
  · rw [if_pos hother, hother, BankTable.get_set_self]
  · rw [if_neg hother, BankTable.get_set_of_ne _ _ (Ne.symm hother)]

/-! ## Entering a handler -/

theorem status_enter (processor : Processor) (exception : Exception) (returnAddress : UInt32) :
    (processor.enter exception returnAddress).status
      = exception.handlerStatus processor.status :=
  (status_setSavedStatus _ _).trans (status_setStatus _ _)

/-- A handler begins at its vector. -/
theorem get_pc_enter (processor : Processor) (exception : Exception) (returnAddress : UInt32) :
    (processor.enter exception returnAddress).get .pc = exception.vector :=
  get_put_self _ .pc exception.vector

/-- Entering a handler sets the status aside for the handler's bank, and leaves
    those of the other banks alone. -/
theorem savedStatus_enter (processor : Processor) (exception : Exception)
    (returnAddress : UInt32) (bank : Bank) :
    ((processor.enter exception returnAddress).banks.get bank).status
      = if bank = exception.mode.bank then processor.status
        else (processor.banks.get bank).status := by
  have hbank : (processor.setStatus (exception.handlerStatus processor.status)).status.bank
      = exception.mode.bank := by
    rw [status_setStatus, exception.bank_handlerStatus]
  have hne : (processor.setStatus (exception.handlerStatus processor.status)).status.bank
      ≠ .user := by
    rw [hbank]
    exact exception.bank_ne_user
  refine (savedStatus_setSavedStatus hne processor.status bank).trans ?_
  rw [hbank, savedStatus_setStatus]

/-- The handler finds the interrupted status set aside. -/
theorem savedStatus_of_enter (processor : Processor) (exception : Exception)
    (returnAddress : UInt32) :
    (processor.enter exception returnAddress).savedStatus = processor.status := by
  have hbank : (processor.enter exception returnAddress).status.bank = exception.mode.bank := by
    rw [status_enter, exception.bank_handlerStatus]
  rw [savedStatus_of_ne (by rw [hbank]; exact exception.bank_ne_user), hbank, savedStatus_enter,
    if_pos rfl]

end Processor

end Microprocessor.Arm
