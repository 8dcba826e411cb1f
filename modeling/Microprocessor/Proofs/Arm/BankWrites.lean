import Microprocessor.Proofs.Arm.Blocks
import Microprocessor.Proofs.Arm.Exceptions

/-! # What instructions write to the banks

    A bank is changed by what is written to its stack pointer and its link register, wherever
    these lie at the time, and by nothing else: not by a change of the mode, not by an exception
    beyond its link register, and not by a return.

      * `Processor.Receives` says that the banks have become what a list of writes makes of them;
        each way of writing has its lemma, and they compose (`Processor.Receives.trans`);
      * `Machine.bankWrites` are the writes of every operation, and
        `Machine.receives_perform` and `Machine.receives_execute` say that these are all;
      * `Processor.receives_serviceInterrupts` is the same for interrupt boundaries, and
        `Processor.receives_setRegister` for registers that are set from outside. -/

namespace Microprocessor.Arm

/-- A value written to a register of a bank. -/
structure BankWrite where
  bank : Bank
  register : Register
  value : UInt32
  deriving DecidableEq

/-- Values written to registers of one bank. -/
def writesTo (bank : Bank) (values : List (Register × UInt32)) : List BankWrite :=
  values.map fun value => ⟨bank, value.1, value.2⟩

namespace Processor

/-- The registers that every bank has of its own. -/
def IsBanked (register : Register) : Prop :=
  register = .sp ∨ register = .lr

instance (register : Register) : Decidable (IsBanked register) :=
  inferInstanceAs (Decidable (_ ∨ _))

/-- A register is set aside for User mode if it is one of these, and another bank is in use. -/
theorem isSetAside_iff (processor : Processor) {register : Register} :
    processor.isSetAside register = true
      ↔ processor.status.bank ≠ .user ∧ IsBanked register := by
  rw [isSetAside, Bool.and_eq_true, bne_iff_ne, Bool.or_eq_true, decide_eq_true_iff,
    decide_eq_true_iff, IsBanked]

namespace StackRegisters

/-- What a bank has once a register is written; two registers are its own. -/
def put (registers : StackRegisters) (register : Register) (value : UInt32) : StackRegisters :=
  if register = .sp then { registers with sp := value }
  else if register = .lr then { registers with lr := value }
  else registers

/-- What a bank has once values have been written to the banks. -/
def written (registers : StackRegisters) (bank : Bank) (writes : List BankWrite) :
    StackRegisters :=
  writes.foldl (fun registers write =>
    if write.bank = bank then registers.put write.register write.value else registers) registers

theorem written_append (registers : StackRegisters) (bank : Bank) (first second : List BankWrite) :
    registers.written bank (first ++ second)
      = (registers.written bank first).written bank second :=
  List.foldl_append

theorem put_of_not_isBanked {register : Register} (h : ¬IsBanked register)
    (registers : StackRegisters) (value : UInt32) : registers.put register value = registers := by
  rw [put, if_neg fun hsp => h (.inl hsp), if_neg fun hlr => h (.inr hlr)]

end StackRegisters

/-- Every bank has what the writes make of it, and what it had otherwise. -/
def Receives (before : Processor) (writes : List BankWrite) (after : Processor) : Prop :=
  ∀ bank, after.banked bank = (before.banked bank).written bank writes

theorem Receives.trans {a b c : Processor} {first second : List BankWrite}
    (hab : a.Receives first b) (hbc : b.Receives second c) : a.Receives (first ++ second) c := by
  intro bank
  rw [hbc bank, hab bank, StackRegisters.written_append]

/-- Nothing more is written afterwards. -/
theorem Receives.kept {a b c : Processor} {writes : List BankWrite} (hab : a.Receives writes b)
    (hbc : b.Receives [] c) : a.Receives writes c :=
  fun bank => (hbc bank).trans (hab bank)

/-- Flags are in no bank. -/
theorem Receives.flagged {before after : Processor} {writes : List BankWrite}
    (h : before.Receives writes after) {status : Status}
    (hstatus : status.control = after.status.control) :
    before.Receives writes { after with status } := by
  have hbank : ({ after with status } : Processor).status.bank = after.status.bank :=
    Status.bank_of_control hstatus
  exact h.kept fun bank => banked_congr hbank rfl rfl rfl bank

theorem Receives.refl (processor : Processor) : processor.Receives [] processor :=
  fun _ => rfl

/-! ## Registers -/

section

variable (processor : Processor)

/-- A single write reaches one bank. -/
theorem receives_iff {bank : Bank} {register : Register} {value : UInt32} {after : Processor} :
    processor.Receives [⟨bank, register, value⟩] after
      ↔ ∀ other, after.banked other
        = if bank = other then (processor.banked other).put register value
          else processor.banked other :=
  Iff.rfl

/-- A register is written in the bank in use. -/
theorem receives_put (register : Register) (value : UInt32) :
    processor.Receives [⟨processor.status.bank, register, value⟩]
      (processor.put register value) := by
  rw [receives_iff]
  intro bank
  by_cases hbank : processor.status.bank = bank
  · have hafter : (processor.put register value).status.bank = bank := hbank
    rw [if_pos hbank, banked_of_eq hbank, banked_of_eq hafter, StackRegisters.put]
    by_cases hsp : register = .sp
    · subst hsp
      rw [if_pos rfl, get_put_self, get_put_of_ne _ _ (by decide)]
    · by_cases hlr : register = .lr
      · subst hlr
        rw [if_neg hsp, if_pos rfl, get_put_self, get_put_of_ne _ _ (by decide)]
      · rw [if_neg hsp, if_neg hlr, get_put_of_ne _ _ hsp, get_put_of_ne _ _ hlr]
  · have hafter : (processor.put register value).status.bank ≠ bank := hbank
    rw [if_neg hbank, banked_of_ne hbank, banked_of_ne hafter]
    rfl

/-- So it is by a result; the program counter is in no bank. -/
theorem receives_write (register : Register) (value : UInt32) :
    processor.Receives [⟨processor.status.bank, register, value⟩]
      (processor.write register value) := by
  by_cases hpc : register = .pc
  · subst hpc
    exact processor.receives_put .pc _
  · rw [write_of_ne _ hpc]
    exact processor.receives_put register value

/-- A branch writes to no bank. -/
theorem receives_write_pc (address : UInt32) :
    processor.Receives [] (processor.write .pc address) :=
  fun bank => (processor.receives_write .pc address bank).trans (ite_self (processor.banked bank))

/-- A branch with a link writes the link register. -/
theorem receives_linkTo (link : Bool) (next : UInt32) :
    processor.Receives (if link then [⟨processor.status.bank, .lr, next⟩] else [])
      (processor.linkTo link next) := by
  cases link with
  | false => exact .refl processor
  | true => exact processor.receives_put .lr next

/-- So is the base that is put back. -/
theorem receives_based (writesBack : Bool) (rn : Register) (address : UInt32) :
    processor.Receives
      (if writesBack then [⟨processor.status.bank, rn, address⟩] else [])
      (if writesBack then processor.writeBack rn address else processor) := by
  cases writesBack with
  | false => exact .refl processor
  | true =>
      by_cases hpc : rn = .pc
      · subst hpc
        exact fun bank => (ite_self (processor.banked bank)).symm
      · rw [if_pos rfl, if_pos rfl, writeBack_of_ne _ hpc]
        exact processor.receives_put rn address

/-- So are several. -/
theorem receives_writeAll (values : List (Register × UInt32)) :
    processor.Receives (writesTo processor.status.bank values) (processor.writeAll values) := by
  induction values generalizing processor with
  | nil => exact .refl processor
  | cons value rest ih =>
      exact (processor.receives_write value.1 value.2).trans (ih (processor.write value.1 value.2))

/-- What is set aside for User mode is what that bank has, while it is not in use. -/
theorem banked_setAside (h : processor.status.bank ≠ .user) (saved : BankedRegisters)
    (bank : Bank) :
    ({ processor with banks := processor.banks.set .user saved } : Processor).banked bank
      = if Bank.user = bank then ⟨saved.sp, saved.lr⟩ else processor.banked bank := by
  by_cases huser : Bank.user = bank
  · subst huser
    have hafter : ({ processor with banks := processor.banks.set .user saved } :
        Processor).status.bank ≠ .user := h
    rw [if_pos rfl, banked_of_ne hafter, BankTable.get_set_self]
  · rw [if_neg huser, banked, banked, BankTable.get_set_of_ne _ _ huser]
    rfl

/-- So are registers that are loaded once the base has been put back. -/
theorem receives_based_writeAll (writesBack : Bool) (rn : Register) (address : UInt32)
    (values : List (Register × UInt32)) :
    processor.Receives
      ((if writesBack then [⟨processor.status.bank, rn, address⟩] else [])
        ++ writesTo processor.status.bank values)
      ((if writesBack then processor.writeBack rn address else processor).writeAll values) := by
  have hstatus := (Writes.based processor writesBack rn address).registersOnly.status
  have hloaded := receives_writeAll
    (if writesBack then processor.writeBack rn address else processor) values
  rw [hstatus] at hloaded
  exact (processor.receives_based writesBack rn address).trans hloaded

/-- A register of User mode is written in its bank, whether or not that is in use. -/
theorem receives_userWrite (register : Register) (value : UInt32) :
    processor.Receives [⟨.user, register, value⟩] (processor.userWrite register value) := by
  rw [receives_iff]
  intro bank
  rw [userWrite]
  by_cases haside : processor.isSetAside register = true
  · obtain ⟨hbank, hregister⟩ := processor.isSetAside_iff.mp haside
    rw [if_pos haside]
    refine (processor.banked_setAside hbank _ bank).trans ?_
    by_cases huser : Bank.user = bank
    · subst huser
      rw [if_pos rfl, if_pos rfl, banked_of_ne hbank]
      obtain rfl | rfl := hregister
      · rfl
      · rfl
    · rw [if_neg huser, if_neg huser]
  · have hwritten := processor.receives_iff.mp (processor.receives_write register value) bank
    rw [if_neg haside]
    by_cases hbank : processor.status.bank = .user
    · rwa [hbank] at hwritten
    · -- The register is none that the banks have.
      have hregister : ¬IsBanked register := fun h =>
        haside (processor.isSetAside_iff.mpr ⟨hbank, h⟩)
      rw [StackRegisters.put_of_not_isBanked hregister, ite_self] at hwritten ⊢
      exact hwritten

/-- So are several. -/
theorem receives_userWriteAll (values : List (Register × UInt32)) :
    processor.Receives (writesTo .user values)
      (values.foldl (fun processor (register, value) => processor.userWrite register value)
        processor) := by
  induction values generalizing processor with
  | nil => exact .refl processor
  | cons value rest ih => exact (processor.receives_userWrite value.1 value.2).trans (ih _)

/-! ## Statuses -/

/-- A change of the status writes to no bank. -/
theorem receives_setStatus (status : Status) :
    processor.Receives [] (processor.setStatus status) :=
  processor.banked_setStatus status

/-- Nor does a change of the status that is set aside. -/
theorem receives_setSavedStatus (status : Status) :
    processor.Receives [] (processor.setSavedStatus status) :=
  processor.banked_setSavedStatus status

/-- An exception writes the link register of its bank. -/
theorem receives_enter (exception : Exception) (returnAddress : UInt32) :
    processor.Receives [⟨exception.mode.bank, .lr, returnAddress⟩]
      (processor.enter exception returnAddress) :=
  processor.banked_enter exception returnAddress

end

end Processor

/-! ## Operations -/

namespace Machine

variable {δ : Type}

/-- The base of a block transfer is put back, unless it is loaded or nothing is listed. -/
def baseWrites (machine : Machine δ) (pc : UInt32) (load : Bool) (indexing : Indexing)
    (rn : Register) (registers : UInt16) : List BankWrite :=
  let count := (listedRegisters registers).length
  let base := machine.processor.operand pc rn
  if indexing.writeBack && !(load && isListed registers rn.number) && count != 0 then
    [⟨machine.processor.status.bank, rn, indexing.moved base (UInt32.ofNat (4 * count))⟩]
  else []

/-- What a block transfer writes: the base, and the registers that it loads, those of User mode if
    it is asked to and does not return. -/
def blockWrites (machine : Machine δ) (pc : UInt32) (load : Bool) (indexing : Indexing)
    (userBank : Bool) (rn : Register) (registers : UInt16) : List BankWrite :=
  let processor := machine.processor
  let listed := (listedRegisters registers).map Register.ofNumber
  let start := blockStart indexing (processor.operand pc rn) listed.length
  machine.baseWrites pc load indexing rn registers
    ++ if load then
        writesTo (if userBank && !isListed registers 15 then .user else processor.status.bank)
          (readBlock machine.memory start listed)
      else []

/-- What an operation writes to the banks, in order: its results in the bank in use, with the base
    of a transfer first. -/
def bankWrites (machine : Machine δ) (here : UInt32) (operation : Operation) : List BankWrite :=
  let processor := machine.processor
  let pc := here + 8
  let bank := processor.status.bank
  match operation with
  | .dataProcessing op _ rn rd operand =>
    let outcome := op.outcome (processor.operand pc rn) (processor.shifterOperand pc operand)
      (processor.status.get .carry) (processor.status.get .overflow)
    if op.isComparison then [] else [⟨bank, rd, outcome.value⟩]
  | .moveWide top rd imm16 =>
    let low := if top then lowWord (processor.operand pc rd) else imm16
    [⟨bank, rd, doubleOfWords low (if top then imm16 else 0)⟩]
  | .branchExchange link _ | .branch link _ => if link then [⟨bank, .lr, here + 4⟩] else []
  | .supervisorCall _ => [⟨.supervisor, .lr, here + 4⟩]
  | .singleTransfer load byte indexing rn rd offset =>
    let base := processor.operand pc rn
    let offset := processor.transferOffset pc offset
    let address := indexing.address base offset
    (if indexing.writesBack then [⟨bank, rn, indexing.moved base offset⟩] else [])
      ++ if load then
          [⟨bank, rd, if byte then (machine.memory.read address).toUInt32
            else loadRotated machine.memory address⟩]
        else []
  | .halfwordTransfer _ _ indexing rn _ offset =>
    let moved := indexing.moved (processor.operand pc rn) (processor.halfwordOffset pc offset)
    (if indexing.writesBack then [⟨bank, rn, moved⟩] else [])
      ++ writesTo bank (machine.results here operation)
  | .blockTransfer load indexing userBank rn registers =>
    machine.blockWrites pc load indexing userBank rn registers
  | _ => writesTo bank (machine.results here operation)

section

variable (machine : Machine δ) (here : UInt32)

/-- Data processing writes its result, and a return writes nothing more. -/
theorem receives_process (op : DataOp) (setFlags : Bool) (rn rd : Register)
    (operand : ShifterOperand) :
    machine.processor.Receives
      (machine.bankWrites here (.dataProcessing op setFlags rn rd operand))
      (machine.processor.process (here + 8) op setFlags rn rd operand) := by
  have hwrite := machine.processor.receives_write rd
  rw [Processor.process, bankWrites]
  cases hcomparison : op.isComparison with
  | true => exact (Processor.Receives.refl _).flagged (machine.processor.status.control_record _)
  | false =>
      cases setFlags with
      | false => exact hwrite _
      | true =>
          -- A return writes the program counter and goes back to the status set aside.
          cases hpc : rd.isPc with
          | true => exact (hwrite _).kept (Processor.receives_setStatus _ _)
          | false => exact (hwrite _).flagged (machine.processor.status.control_record _)

/-- A block transfer writes what it should, and a return writes nothing more. -/
theorem receives_blockTransfer (load : Bool) (indexing : Indexing) (userBank : Bool)
    (rn : Register) (registers : UInt16) :
    machine.processor.Receives
      (machine.blockWrites (here + 8) load indexing userBank rn registers)
      (machine.blockTransfer (here + 8) load indexing userBank rn registers).processor := by
  rw [blockWrites, blockTransfer, List.isEmpty_map, baseWrites]
  -- An empty list does nothing, not even to the base.
  cases hempty : (listedRegisters registers).isEmpty with
  | true =>
      rw [if_pos rfl, List.isEmpty_iff.mp hempty, List.length_nil, bne_self_eq_false,
        Bool.and_false]
      cases load <;> exact .refl machine.processor
  | false =>
      have hcount : ((listedRegisters registers).length != 0) = true := by
        rw [bne_iff_ne, Ne, List.length_eq_zero_iff]
        exact List.isEmpty_eq_false_iff.mp hempty
      rw [if_neg Bool.false_ne_true, hcount, Bool.and_true, List.length_map]
      cases load with
      | false =>
          rw [if_neg Bool.false_ne_true, if_neg Bool.false_ne_true, List.append_nil,
            Bool.false_and, Bool.not_false, Bool.and_true]
          exact machine.processor.receives_based indexing.writeBack rn _
      | true =>
          rw [if_pos rfl, if_pos rfl, Bool.true_and, loadBlock]
          cases userBank with
          | false => exact machine.processor.receives_based_writeAll _ rn _ _
          | true =>
              cases hpc : isListed registers 15 with
              | false =>
                  exact (machine.processor.receives_based _ rn _).trans
                    (Processor.receives_userWriteAll _ _)
              | true =>
                  exact (machine.processor.receives_based_writeAll _ rn _ _).kept
                    (Processor.receives_setStatus _ _)

/-- Every operation writes what it should, and nothing more. -/
theorem receives_perform (operation : Operation) :
    machine.processor.Receives (machine.bankWrites here operation)
      (machine.perform here operation).processor := by
  have hresults := fun values => machine.processor.receives_writeAll values
  cases operation with
  | dataProcessing op setFlags rn rd operand =>
      exact machine.receives_process here op setFlags rn rd operand
  | moveWide top rd imm16 => exact machine.processor.receives_write rd _
  | multiply accumulate setFlags rd rn rs rm =>
      cases setFlags with
      | false => exact hresults [_]
      | true => exact (hresults [_]).flagged (machine.processor.status.control_describe _)
  | multiplyLong signed accumulate setFlags rdHi rdLo rs rm =>
      cases setFlags with
      | false => exact hresults [_, _]
      | true => exact (hresults [_, _]).flagged (machine.processor.status.control_set_set _ _)
  | swap byte rn rd rm => exact hresults [(rd, _)]
  | statusToRegister saved rd => exact hresults [(rd, _)]
  | countLeadingZeros rd rm => exact hresults [(rd, _)]
  | registerToStatus saved mask operand =>
      cases saved with
      | false => exact machine.processor.receives_setStatus _
      | true => exact machine.processor.receives_setSavedStatus _
  | branchExchange link rm =>
      exact (machine.processor.receives_linkTo link _).kept (Processor.receives_write_pc _ _)
  | branch link offset =>
      exact (machine.processor.receives_linkTo link _).kept (Processor.receives_write_pc _ _)
  | supervisorCall comment => exact machine.processor.receives_enter .supervisorCall _
  | singleTransfer load byte indexing rn rd offset =>
      cases load with
      | false =>
          rw [bankWrites, if_neg Bool.false_ne_true, List.append_nil]
          exact machine.processor.receives_based indexing.writesBack rn _
      | true => exact machine.processor.receives_based_writeAll indexing.writesBack rn _ [(rd, _)]
  | halfwordTransfer load kind indexing rn rd offset =>
      have hloads := machine.processor.receives_based_writeAll indexing.writesBack rn
        (indexing.moved (machine.processor.operand (here + 8) rn)
          (machine.processor.halfwordOffset (here + 8) offset))
      -- Two of the kinds store; whatever is stored is in no bank.
      cases kind <;> cases load
      case unsignedHalf.false => exact hloads []
      case double.false => exact hloads []
      all_goals exact hloads _
  | blockTransfer load indexing userBank rn registers =>
      exact machine.receives_blockTransfer here load indexing userBank rn registers
  | breakpoint _ => exact fun _ => rfl
  | branchLinkExchange _ | coprocessor _ | media _ | unconditional _ | undefined _ =>
      exact .refl machine.processor

end

/-! ## Instructions and interrupts -/

/-- What an instruction writes to the banks: nothing, unless its condition holds and no fault stops
    it. -/
def executedWrites (machine : Machine δ) (instruction : Instruction) (here : UInt32)
    (faults : FaultUnit) : List BankWrite :=
  if machine.processor.status.satisfies instruction.condition
      && (machine.execute instruction here faults).fault.isNone then
    machine.bankWrites here instruction.operation
  else []

theorem receives_execute (machine : Machine δ) (instruction : Instruction) (here : UInt32)
    (faults : FaultUnit) :
    machine.processor.Receives (machine.executedWrites instruction here faults)
      (machine.execute instruction here faults).core := by
  have hperform := machine.receives_perform here instruction.operation
  rw [executedWrites, execute]
  cases machine.processor.status.satisfies instruction.condition with
  | false => exact .refl machine.processor
  | true =>
      rw [Bool.true_and, Bool.not_true, if_neg Bool.false_ne_true]
      cases machine.isUnmodelled here instruction.operation with
      | false => exact hperform
      | true =>
          rw [if_pos rfl]
          cases hfired : faults.fire ⟨some here,
              FaultCause.undefinedInstruction instruction.word instruction.text⟩ with
          | mk after fault =>
              simp only [hfired]
              cases fault with
              | none => exact hperform
              | some fault => exact .refl machine.processor

end Machine

namespace Processor

variable (processor : Processor)

/-- An interrupt that is taken writes the link register of its bank. -/
def interruptWrites {γ : Type} [InterruptController γ] (inputs : InterruptInputs γ) :
    List BankWrite :=
  match processor.interruptTaken? inputs with
  | some exception => [⟨exception.mode.bank, .lr, processor.get .pc + 4⟩]
  | none => []

theorem receives_serviceInterrupts {δ γ : Type} [InterruptController γ] (bus : Bus δ)
    (inputs : InterruptInputs γ) :
    processor.Receives (processor.interruptWrites inputs)
      (processor.serviceInterrupts bus inputs).core := by
  rw [serviceInterrupts_eq, interruptWrites]
  cases processor.interruptTaken? inputs with
  | some exception => exact processor.receives_enter exception _
  | none => exact .refl processor

/-- A register that is set from outside is set in the bank in use. -/
theorem receives_setRegister (register : Register) (value : UInt32) :
    processor.Receives [⟨processor.status.bank, register, value⟩]
      (processor.setRegister register value) := by
  by_cases hpc : register = .pc
  · subst hpc
    exact (processor.receives_write .pc value).kept fun _ => rfl
  · rw [setRegister, if_neg fun h => hpc (eq_pc_of_isPc h)]
    exact processor.receives_put register value

/-- To move on past an instruction writes to no bank. -/
theorem receives_advance (length : Nat) : processor.Receives [] (processor.advance length) :=
  (Moved.put processor _).banked

end Processor

end Microprocessor.Arm
