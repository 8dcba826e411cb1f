import Microprocessor.Proofs.Arm.BankWrites
import Microprocessor.Proofs.Arm.Footprint

/-! # The banks are one store

    Whichever bank is in use, every bank keeps its stack pointer and its link register until a
    value is written to them, in a mode of that bank or as a register of User mode.

      * `Processor.SwitchedTo` and `Processor.Entered` are what a change of the status and an
        exception leave alone;
      * `Processor.userOperand_eq` is what a block for User mode stores of a register, and
        `Machine.UserLoaded` what it loads;
      * `lastWritten` is the value last written to a register of a bank, and
        `Processor.Logged` a run with all that it writes (`Processor.Logged.receives`);
      * `banks_are_one_store` puts it together. -/

namespace Microprocessor.Arm

/-! ## The value last written -/

/-- The value last written to a register of a bank. -/
def lastWritten (bank : Bank) (register : Register) : List BankWrite → Option UInt32
  | [] => none
  | write :: rest =>
    (lastWritten bank register rest).or
      (if write.bank = bank ∧ write.register = register then some write.value else none)

section

variable {bank : Bank} {register : Register} {values : List (Register × UInt32)}

/-- Nothing is written to a register that is not among those written. -/
theorem lastWritten_of_not_mem (h : register ∉ values.map Prod.fst) (other : Bank) :
    lastWritten bank register (writesTo other values) = none := by
  induction values with
  | nil => rfl
  | cons first rest ih =>
      have hother : ¬(other = bank ∧ first.1 = register) := fun hsame =>
        List.ne_of_not_mem_cons h hsame.2.symm
      rw [writesTo, List.map_cons, lastWritten, if_neg hother, Option.or_none]
      exact ih (List.not_mem_of_not_mem_cons h)

/-- The value of a register that is written once is the last. -/
theorem lastWritten_of_mem {value : UInt32} (hnodup : (values.map Prod.fst).Nodup)
    (h : (register, value) ∈ values) (bank : Bank) :
    lastWritten bank register (writesTo bank values) = some value := by
  induction values with
  | nil => cases h
  | cons first rest ih =>
      obtain ⟨hfirst, hrest⟩ := List.nodup_cons.mp hnodup
      rw [writesTo, List.map_cons, lastWritten]
      obtain rfl | hmem := List.mem_cons.mp h
      · rw [if_pos ⟨rfl, rfl⟩]
        exact congrArg (·.or (some value)) (lastWritten_of_not_mem hfirst bank)
      · show (lastWritten bank register (writesTo bank rest)).or _ = _
        rw [ih hrest hmem]
        rfl

end

namespace Processor

namespace StackRegisters

/-- What a bank has in a register of its own. -/
def get (registers : StackRegisters) (register : Register) : UInt32 :=
  if register = .sp then registers.sp else registers.lr

variable (registers : StackRegisters) {bank : Bank} {register : Register}

theorem get_put (h : IsBanked register) (other : Register) (value : UInt32) :
    (registers.put other value).get register
      = if other = register then value else registers.get register := by
  rw [put]
  obtain rfl | rfl := h
  · by_cases hsp : other = .sp
    · rw [if_pos hsp, if_pos hsp]
      rfl
    · rw [if_neg hsp, if_neg hsp]
      split <;> rfl
  · by_cases hlr : other = .lr
    · subst hlr
      rfl
    · rw [if_neg hlr, if_neg hlr]
      split <;> rfl

/-- A register of a bank has the value last written to it. -/
theorem get_written (h : IsBanked register) (writes : List BankWrite) :
    (registers.written bank writes).get register
      = (lastWritten bank register writes).getD (registers.get register) := by
  induction writes generalizing registers with
  | nil => rfl
  | cons write rest ih =>
      -- A later write goes before this one.
      rw [lastWritten, Option.getD_or]
      refine (ih _).trans (congrArg (lastWritten bank register rest).getD ?_)
      dsimp only
      by_cases hbank : write.bank = bank
      · rw [if_pos hbank, get_put _ h]
        by_cases hregister : write.register = register
        · rw [if_pos hregister, if_pos ⟨hbank, hregister⟩, Option.getD_some]
        · rw [if_neg hregister, if_neg fun hsame => hregister hsame.2, Option.getD_none]
      · rw [if_neg hbank, if_neg fun hsame => hbank hsame.1, Option.getD_none]

/-- What is written to one bank leaves the others alone. -/
theorem written_of_ne {other : Bank} (h : other ≠ bank) (values : List (Register × UInt32)) :
    registers.written bank (writesTo other values) = registers := by
  induction values with
  | nil => rfl
  | cons value rest ih =>
      rw [writesTo, List.map_cons, written, List.foldl_cons, if_neg h]
      exact ih

end StackRegisters

/-! ## Changes of the mode -/

/-- A change of the status leaves all else alone, apart from where the banks lie. -/
structure SwitchedTo (before : Processor) (status : Status) (after : Processor) : Prop where
  status : after.status = status
  banked : ∀ bank, after.banked bank = before.banked bank
  savedStatus : ∀ bank, (after.banks.get bank).status = (before.banks.get bank).status
  get : ∀ register, ¬IsBanked register → after.get register = before.get register
  halted : after.halted = before.halted

theorem switchedTo_setStatus (processor : Processor) (status : Status) :
    processor.SwitchedTo status (processor.setStatus status) where
  status := processor.status_setStatus status
  banked := processor.banked_setStatus status
  savedStatus := processor.savedStatus_setStatus status
  get := fun _ h => processor.get_setStatus status (fun hsp => h (.inl hsp)) fun hlr => h (.inr hlr)
  halted := by
    rw [setStatus]
    split <;> rfl

/-- An exception changes its own bank's link register and saved status, the status, the program
    counter and whether the processor waits, and leaves all else alone. -/
structure Entered (before : Processor) (exception : Exception) (returnAddress : UInt32)
    (after : Processor) : Prop where
  status : after.status = exception.handlerStatus before.status
  pc : after.get .pc = exception.vector
  halted : after.halted = false
  banked : ∀ bank, after.banked bank
    = if exception.mode.bank = bank then { before.banked bank with lr := returnAddress }
      else before.banked bank
  savedStatus : ∀ bank, (after.banks.get bank).status
    = if bank = exception.mode.bank then before.status else (before.banks.get bank).status
  get : ∀ register : Register, register.number.val < 13 →
    after.get register = before.get register

theorem entered_enter (processor : Processor) (exception : Exception) (returnAddress : UInt32) :
    processor.Entered exception returnAddress (processor.enter exception returnAddress) where
  status := processor.status_enter exception returnAddress
  pc := processor.get_pc_enter exception returnAddress
  halted := rfl
  banked := processor.banked_enter exception returnAddress
  savedStatus := processor.savedStatus_enter exception returnAddress
  get := fun _ => processor.get_enter exception returnAddress

/-! ## Blocks of User mode -/

/-- An operand of User mode is what its bank has, or else the operand that it is in any mode. -/
theorem userOperand_eq (processor : Processor) (pc : UInt32) (register : Register) :
    processor.userOperand pc register
      = if IsBanked register then (processor.banked .user).get register
        else processor.operand pc register := by
  rw [userOperand]
  by_cases haside : processor.isSetAside register = true
  · obtain ⟨hbank, hbanked⟩ := processor.isSetAside_iff.mp haside
    rw [if_pos haside, if_pos hbanked, banked_of_ne hbank]
    rfl
  · rw [if_neg haside]
    by_cases hbanked : IsBanked register
    · -- Its bank is in use.
      have huser : processor.status.bank = .user :=
        Decidable.not_not.mp fun h => haside (processor.isSetAside_iff.mpr ⟨h, hbanked⟩)
      rw [if_pos hbanked, banked_of_eq huser]
      obtain rfl | rfl := hbanked <;> rfl
    · rw [if_neg hbanked]

end Processor

namespace Machine

variable {δ : Type} (machine : Machine δ) (here : UInt32) (indexing : Indexing) (rn : Register)
  (registers : UInt16)

/-- The lowest address of the words of a list. -/
def blockBottom : UInt32 :=
  blockStart indexing (machine.processor.operand (here + 8) rn) (listedRegisters registers).length

/-- The registers of User mode are stored from there on. -/
theorem memory_storeUser :
    (machine.perform here (.blockTransfer false indexing true rn registers)).memory
      = machine.memory.writeBytes (machine.blockBottom here indexing rn registers)
          (blockBytes (machine.processor.userOperand (here + 8)) registers) := by
  rw [memory_perform, Processor.stores, ← writeBlock_eq_storeRuns, writeBlock_eq_writeBytes,
    List.length_map, blockBottom, blockBytes]
  rfl

/-- What a bank has once registers of User mode have been loaded: those listed have their words,
    all else in any bank is as it was, but for the base. -/
structure UserLoaded (loaded : Machine δ) : Prop where
  user : ∀ register, Processor.IsBanked register →
    (loaded.processor.banked .user).get register
      = if isListed registers register.number then
          machine.memory.readDouble
            (wordOf (machine.blockBottom here indexing rn registers) registers register)
        else
          ((machine.processor.banked .user).written .user
            (machine.baseWrites (here + 8) true indexing rn registers)).get register
  others : ∀ bank, bank ≠ .user → loaded.processor.banked bank
    = (machine.processor.banked bank).written bank
        (machine.baseWrites (here + 8) true indexing rn registers)
  bus : loaded.bus = machine.bus

theorem userLoaded_perform (hpc : isListed registers 15 = false) :
    machine.UserLoaded here indexing rn registers
      (machine.perform here (.blockTransfer true indexing true rn registers)) := by
  have hreceives := machine.receives_perform here (.blockTransfer true indexing true rn registers)
  rw [bankWrites, blockWrites, hpc, List.length_map, ← blockBottom] at hreceives
  have hregisters := registers_readBlock machine.memory
    ((listedRegisters registers).map Register.ofNumber)
    (machine.blockBottom here indexing rn registers)
  constructor
  case user =>
    -- The base goes back first, and the words are written over it.
    intro register hbanked
    rw [hreceives .user, Processor.StackRegisters.written_append]
    refine (Processor.StackRegisters.get_written _ hbanked _).trans ?_
    cases hlisted : isListed registers register.number with
    | true =>
        have hword := lastWritten_of_mem (hregisters.symm ▸ nodup_listed registers)
          (mem_readBlock machine.memory (machine.blockBottom here indexing rn registers) hlisted)
          .user
        exact congrArg (Option.getD · _) hword
    | false =>
        have hunlisted : register ∉ (readBlock machine.memory
            (machine.blockBottom here indexing rn registers)
            ((listedRegisters registers).map Register.ofNumber)).map Prod.fst := by
          rw [hregisters, mem_listed_iff, hlisted]
          exact Bool.false_ne_true
        exact congrArg (Option.getD · _) (lastWritten_of_not_mem hunlisted .user)
  case others =>
    intro bank hbank
    rw [hreceives bank, Processor.StackRegisters.written_append]
    exact Processor.StackRegisters.written_of_ne _ hbank.symm _
  case bus =>
    rw [perform, blockTransfer]
    split
    · rfl
    · rfl

end Machine

/-! ## Runs -/

/-- What a processor can become, of any instructions on any bus, with registers set from outside
    in between, and all that has been written to the banks. -/
inductive Processor.Logged (start : Processor) : List BankWrite → Processor → Prop
  | start : Logged start [] start
  | set {log : List BankWrite} {processor : Processor} (h : Logged start log processor)
      (register : Register) (value : UInt32) :
      Logged start (log ++ [⟨processor.status.bank, register, value⟩])
        (processor.setRegister register value)
  | advanced {log : List BankWrite} {processor : Processor} (h : Logged start log processor) :
      Logged start log (processor.advance instructionLength)
  | serviced {log : List BankWrite} {processor : Processor} (h : Logged start log processor)
      {δ γ : Type} [InterruptController γ] (bus : Bus δ) (inputs : InterruptInputs γ) :
      Logged start (log ++ processor.interruptWrites inputs)
        (processor.serviceInterrupts bus inputs).core
  | executed {log : List BankWrite} {δ : Type} (machine : Machine δ)
      (h : Logged start log machine.processor) (instruction : Instruction) (here : UInt32)
      (faults : FaultUnit) :
      Logged start (log ++ machine.executedWrites instruction here faults)
        (machine.execute instruction here faults).core

/-- In every run the banks have what has been written to them. -/
theorem Processor.Logged.receives {start processor : Processor} {log : List BankWrite}
    (h : start.Logged log processor) : start.Receives log processor := by
  induction h with
  | start => exact .refl start
  | set _ register value ih => exact ih.trans (Processor.receives_setRegister _ register value)
  | advanced _ ih => exact ih.kept (Processor.receives_advance _ _)
  | serviced _ bus inputs ih => exact ih.trans (Processor.receives_serviceInterrupts _ bus inputs)
  | executed machine _ instruction here faults ih =>
      exact ih.trans (machine.receives_execute instruction here faults)

/-- Every processor since reset is one of these. -/
theorem Processor.Reachable.logged {processor : Processor} (h : processor.Reachable) :
    ∃ log, Processor.initial.Logged log processor := by
  induction h with
  | reset => exact ⟨[], .start⟩
  | set _ register value ih => exact ih.elim fun _ h => ⟨_, h.set register value⟩
  | advanced _ ih => exact ih.elim fun _ h => ⟨_, h.advanced⟩
  | serviced _ bus inputs ih => exact ih.elim fun _ h => ⟨_, h.serviced bus inputs⟩
  | executed machine _ instruction here faults ih =>
      exact ih.elim fun _ h => ⟨_, .executed machine h instruction here faults⟩

/-- A change of the status leaves alone what every bank has, and an exception changes its own
    bank's link register.  Blocks for User mode are stored of what that bank has and loaded into
    it, whichever bank is in use, unless they return from an exception.  In every run a bank has in
    each of its registers the value last written to it, and what it had at the start if there is
    none. -/
theorem banks_are_one_store {δ : Type} :
    (∀ (processor : Processor) (status : Status),
      processor.SwitchedTo status (processor.setStatus status))
    ∧ (∀ (processor : Processor) (exception : Exception) (returnAddress : UInt32),
      processor.Entered exception returnAddress (processor.enter exception returnAddress))
    ∧ (∀ (machine : Machine δ) (here : UInt32) (instruction : Instruction) (indexing : Indexing)
        (rn : Register) (registers : UInt16),
      instruction.operation = .blockTransfer false indexing true rn registers →
      machine.processor.status.satisfies instruction.condition = true →
      let start := machine.blockBottom here indexing rn registers
      (∀ i < blockSize registers, machine.memory.Writable (start + UInt32.ofNat i)) →
      ∃ stored, machine.CarriesOut instruction here stored
        ∧ ∀ register : Register, isListed registers register.number = true →
          stored.memory.readDouble (Machine.wordOf start registers register)
            = if Processor.IsBanked register then (machine.processor.banked .user).get register
              else machine.processor.operand (here + 8) register)
    ∧ (∀ (machine : Machine δ) (here : UInt32) (instruction : Instruction) (indexing : Indexing)
        (rn : Register) (registers : UInt16),
      instruction.operation = .blockTransfer true indexing true rn registers →
      isListed registers 15 = false →
      machine.processor.status.satisfies instruction.condition = true →
      ∃ loaded, machine.CarriesOut instruction here loaded
        ∧ machine.UserLoaded here indexing rn registers loaded)
    ∧ ∀ (start processor : Processor) (log : List BankWrite), start.Logged log processor →
      ∀ bank register, Processor.IsBanked register →
        (processor.banked bank).get register
          = (lastWritten bank register log).getD ((start.banked bank).get register) := by
  refine ⟨Processor.switchedTo_setStatus, Processor.entered_enter, ?_, ?_, ?_⟩
  · intro machine here instruction indexing rn registers hoperation hsatisfied start hwritable
    have hlength := length_blockBytes (machine.processor.userOperand (here + 8)) registers
    refine ⟨_, (Machine.carriesOut_iff hoperation rfl).mpr ⟨hsatisfied, rfl⟩, ?_⟩
    intro register hlisted
    rw [machine.memory_storeUser, ← machine.processor.userOperand_eq]
    exact Machine.readDouble_wordOf (machine.memory.hasBytes_writeBytes
      (hlength ▸ blockSize_le registers) (hlength ▸ hwritable)) hlisted
  · intro machine here instruction indexing rn registers hoperation hpc hsatisfied
    exact ⟨_, (Machine.carriesOut_iff hoperation rfl).mpr ⟨hsatisfied, rfl⟩,
      machine.userLoaded_perform here indexing rn registers hpc⟩
  · intro start processor log hrun bank register hbanked
    rw [hrun.receives bank]
    exact Processor.StackRegisters.get_written _ hbanked log

/-- An ARM after reset, with 8 in R0 and 0x100 in the stack pointer of Supervisor mode, and a word
    of 0x55 in memory at 8. -/
def inSupervisor : Machine Unit where
  processor := (Processor.initial.setRegister (.ofNumber 0) 8).setRegister .sp 0x100
  bus := .of ⟨#[0, 0, 0, 0, 0, 0, 0, 0, 0x55, 0, 0, 0], none⟩ .empty 4 4

/-- It goes to System mode by MSR CPSR_c,#0x1F, gets 0x40 in the stack pointer, and goes back by
    MSR CPSR_c,#0xD3. -/
def backInSupervisor : Machine Unit :=
  let inSystem := (inSupervisor.execute (.ofWord 0xE321F01F) 0 .initial).core.setRegister .sp 0x40
  ⟨(Machine.execute ⟨inSystem, inSupervisor.bus⟩ (.ofWord 0xE321F0D3) 4 .initial).core,
    inSupervisor.bus⟩

/-- Its stack pointer is 0x100 again, that of User mode 0x40.  STMIA R0,{SP}^ stores 0x40, and
    LDMIA R0,{SP}^ loads 0x55 into the bank of User mode and leaves that in use alone. -/
theorem banks_are_one_store_switched :
    backInSupervisor.processor.status.bank = .supervisor
      ∧ (backInSupervisor.processor.banked .supervisor).sp = 0x100
      ∧ (backInSupervisor.processor.banked .user).sp = 0x40
      ∧ ∃ stored loaded : Machine Unit,
        backInSupervisor.CarriesOut (.ofWord 0xE8C02000) 8 stored
        ∧ stored.memory.readDouble 8 = 0x40
        ∧ backInSupervisor.CarriesOut (.ofWord 0xE8D02000) 8 loaded
        ∧ (loaded.processor.banked .user).sp = 0x55
        ∧ (loaded.processor.banked .supervisor).sp = 0x100 := by
  obtain ⟨-, -, hstores, hloads, hruns⟩ := banks_are_one_store (δ := Unit)
  have hlogged : Processor.initial.Logged _ inSupervisor.processor :=
    (Processor.Logged.start.set (.ofNumber 0) 8).set .sp 0x100
  have hrun := Processor.Logged.executed ⟨_, inSupervisor.bus⟩
    ((Processor.Logged.executed inSupervisor hlogged (.ofWord 0xE321F01F) 0 .initial).set .sp 0x40)
    (.ofWord 0xE321F0D3) 4 .initial
  have hsp := fun bank => hruns _ backInSupervisor.processor _ hrun bank .sp (.inl rfl)
  have hsupervisor : (backInSupervisor.processor.banked .supervisor).sp = 0x100 :=
    (hsp .supervisor).trans (by decide +kernel)
  have huser : (backInSupervisor.processor.banked .user).sp = 0x40 :=
    (hsp .user).trans (by decide +kernel)
  obtain ⟨stored, hstored, hwords⟩ := hstores backInSupervisor 8 (.ofWord 0xE8C02000)
    ⟨false, true, false⟩ (.ofNumber 0) 0x2000 (by decide +kernel) (by decide +kernel)
    (by decide +kernel)
  obtain ⟨loaded, hloaded, hbanks⟩ := hloads backInSupervisor 8 (.ofWord 0xE8D02000)
    ⟨false, true, false⟩ (.ofNumber 0) 0x2000 (by decide +kernel) (by decide +kernel)
    (by decide +kernel)
  refine ⟨by decide +kernel, hsupervisor, huser, stored, loaded, hstored, ?_, hloaded, ?_, ?_⟩
  · exact (hwords .sp (by decide +kernel)).trans huser
  · exact (hbanks.user .sp (.inl rfl)).trans (by decide +kernel)
  · rw [hbanks.others .supervisor (by decide)]
    exact hsupervisor

end Microprocessor.Arm
