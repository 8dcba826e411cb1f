import Microprocessor.Proofs.Arm.Alignment
import Microprocessor.Proofs.Control.Acknowledging

/-! # What A32 instructions do to the status

    Most instructions write registers and flags.  The status is replaced in four
    ways beside: by a return from an exception, by a supervisor call, and by the
    two forms of a move to a status register.

      * `Processor.Ordinary` says what most instructions leave alone;
      * `Processor.Performed` lists what an operation can do, and
        `Machine.perform_performed` says that this is all;
      * `Machine.execute_performed` is the same for whole instructions, and
        `Processor.serviceInterrupts_eq` for interrupt boundaries;
      * `Machine.CarriesOut` says of an instruction that it takes effect. -/

namespace Microprocessor.Arm

/-- Whether an operation goes back to the status that an exception interrupted: it
    sets flags and writes the program counter, or it loads the program counter
    among the registers of User mode. -/
def Operation.leavesException : Operation → Bool
  | .dataProcessing op setFlags _ rd _ => setFlags && rd.isPc && !op.isComparison
  | .blockTransfer load _ userBank _ registers => load && userBank && isListed registers 15
  | _ => false

/-- Whether an operation calls the supervisor. -/
def Operation.isSupervisorCall : Operation → Bool
  | .supervisorCall _ => true
  | _ => false

/-- Only one operation calls the supervisor. -/
theorem Operation.eq_supervisorCall {operation : Operation}
    (h : operation.isSupervisorCall = true) : ∃ comment, operation = .supervisorCall comment := by
  cases operation with
  | supervisorCall comment => exact ⟨comment, rfl⟩
  | _ => cases h

namespace Processor

/-! ## Ordinary instructions -/

/-- Beside registers, only flags have changed, and what is set aside for User
    mode while another bank is in use; the program counter stays aligned. -/
structure Ordinary (before after : Processor) : Prop where
  control : after.status.control = before.status.control
  saved : ∀ bank, (after.banks.get bank).status = (before.banks.get bank).status
  banks : before.status.bank = .user → after.banks = before.banks
  aligned : before.Aligned → after.Aligned

theorem Ordinary.trans {a b c : Processor} (hab : a.Ordinary b) (hbc : b.Ordinary c) :
    a.Ordinary c where
  control := hbc.control.trans hab.control
  saved := fun bank => (hbc.saved bank).trans (hab.saved bank)
  banks := by
    intro huser
    have hbank : b.status.bank = .user := (Status.bank_of_control hab.control).trans huser
    exact (hbc.banks hbank).trans (hab.banks huser)
  aligned := fun haligned => hbc.aligned (hab.aligned haligned)

/-- Registers and flags may be written. -/
theorem Writes.flagged {before after : Processor} (h : before.Writes after)
    {status : Status} (hstatus : status.control = before.status.control) :
    before.Ordinary { after with status } where
  control := hstatus
  saved := fun bank => by rw [h.registersOnly.banks]
  banks := fun _ => h.registersOnly.banks
  aligned := h.aligned

theorem Writes.ordinary {before after : Processor} (h : before.Writes after) :
    before.Ordinary after :=
  h.flagged (congrArg Status.control h.registersOnly.status)

/-- Writing a register of User mode is ordinary. -/
theorem userWrite_ordinary (processor : Processor) (register : Register) (value : UInt32) :
    processor.Ordinary (processor.userWrite register value) := by
  rw [userWrite]
  split
  · rename_i haside
    rw [isSetAside, Bool.and_eq_true, bne_iff_ne] at haside
    refine ⟨rfl, fun bank => ?_, fun huser => absurd huser haside.1, id⟩
    by_cases huser : Bank.user = bank
    · subst huser
      rw [BankTable.get_set_self]
      split <;> rfl
    · rw [BankTable.get_set_of_ne _ _ huser]
  · exact (Writes.single processor register value).ordinary

/-- Loading registers of User mode is ordinary. -/
theorem userWriteAll_ordinary (values : List (Register × UInt32)) :
    ∀ processor : Processor, processor.Ordinary
      (values.foldl (fun processor (register, value) => processor.userWrite register value)
        processor) := by
  induction values with
  | nil => exact fun _ => Writes.refl.ordinary
  | cons value rest ih =>
      intro processor
      exact (userWrite_ordinary processor value.1 value.2).trans (ih _)

/-! ## Operations -/

/-- What an operation can do to the status and to what is set aside. -/
inductive Performed (before : Processor) (here : UInt32) : Operation → Processor → Prop
  | works {operation : Operation} {after : Processor}
      (hleaves : operation.leavesException = false)
      (hcalls : operation.isSupervisorCall = false) (h : before.Ordinary after) :
      Performed before here operation after
  /-- It writes registers and goes back to the interrupted status. -/
  | leaves {operation : Operation} {written : Processor}
      (hleaves : operation.leavesException = true) (h : before.Writes written) :
      Performed before here operation written.leaveException
  | calls (comment : UInt32) :
      Performed before here (.supervisorCall comment)
        (before.enter .supervisorCall (here + 4))
  | replaces (mask : UInt8) (operand : ShifterOperand) :
      Performed before here (.registerToStatus false mask operand)
        (before.setStatus (before.status.replace (before.replaceable (byteMask mask))
          (before.shifterOperand (here + 8) operand).value))
  | replacesSaved (mask : UInt8) (operand : ShifterOperand) :
      Performed before here (.registerToStatus true mask operand)
        (before.setSavedStatus (before.savedStatus.replace (byteMask mask)
          (before.shifterOperand (here + 8) operand).value))

/-- Data processing sets flags, or returns if it writes the program counter. -/
theorem process_performed (processor : Processor) (here : UInt32) (op : DataOp)
    (setFlags : Bool) (rn rd : Register) (operand : ShifterOperand) :
    processor.Performed here (.dataProcessing op setFlags rn rd operand)
      (processor.process (here + 8) op setFlags rn rd operand) := by
  have hflagged : ∀ outcome, processor.Ordinary
      { processor with status := processor.status.record outcome } := fun outcome =>
    Writes.refl.flagged (processor.status.control_record outcome)
  rw [process]
  cases hcomparison : op.isComparison with
  | true =>
      refine .works ?_ rfl (hflagged _)
      simp only [Operation.leavesException, hcomparison, Bool.not_true, Bool.and_false]
  | false =>
      cases setFlags with
      | false => exact .works rfl rfl (Writes.single processor rd _).ordinary
      | true =>
          cases hpc : rd.isPc with
          | true =>
              refine .leaves ?_ (.single processor rd _)
              simp only [Operation.leavesException, hcomparison, hpc, Bool.not_false,
                Bool.and_true]
          | false =>
              refine .works ?_ rfl ((hflagged _).trans (Writes.single _ rd _).ordinary)
              simp only [Operation.leavesException, hpc, Bool.and_false, Bool.false_and]

/-- A product sets flags at most. -/
theorem multiply_ordinary (processor : Processor) (pc : UInt32) (accumulate setFlags : Bool)
    (rd rn rs rm : Register) :
    processor.Ordinary (processor.multiply pc accumulate setFlags rd rn rs rm) := by
  rw [multiply]
  split
  · exact (Writes.single processor rd _).flagged (processor.status.control_describe _)
  · exact (Writes.single processor rd _).ordinary

/-- A long product sets flags at most. -/
theorem multiplyLong_ordinary (processor : Processor) (pc : UInt32)
    (signed accumulate setFlags : Bool) (rdHi rdLo rs rm : Register) :
    processor.Ordinary
      (processor.multiplyLong pc signed accumulate setFlags rdHi rdLo rs rm) := by
  have hwritten : ∀ low high, processor.Writes ((processor.write rdLo low).write rdHi high) :=
    fun low high => (Writes.single processor rdLo low).write rdHi high
  rw [multiplyLong]
  split
  · exact (hwritten _ _).flagged (processor.status.control_set_set _ _)
  · exact (hwritten _ _).ordinary

end Processor

namespace Machine

variable {δ : Type}

theorem singleTransfer_writes (machine : Machine δ) (pc : UInt32) (load byte : Bool)
    (indexing : Indexing) (rn rd : Register) (offset : TransferOffset) :
    machine.processor.Writes
      (machine.singleTransfer pc load byte indexing rn rd offset).processor := by
  have hbase := Processor.Writes.based machine.processor indexing.writesBack rn
    (indexing.moved (machine.processor.operand pc rn)
      (machine.processor.transferOffset pc offset))
  cases load with
  | true => exact hbase.write rd _
  | false => exact hbase

theorem halfwordTransfer_writes (machine : Machine δ) (pc : UInt32) (load : Bool)
    (kind : HalfwordKind) (indexing : Indexing) (rn rd : Register) (offset : HalfwordOffset) :
    machine.processor.Writes
      (machine.halfwordTransfer pc load kind indexing rn rd offset).processor := by
  have hbase := Processor.Writes.based machine.processor indexing.writesBack rn
    (indexing.moved (machine.processor.operand pc rn)
      (machine.processor.halfwordOffset pc offset))
  have hloads : ∀ values, machine.processor.Writes (Processor.writeAll _ values) :=
    fun values => hbase.trans (.writeAll values _)
  cases kind <;> cases load
  case unsignedHalf.false => exact hbase
  case double.false => exact hbase
  all_goals exact hloads _

theorem swap_writes (machine : Machine δ) (pc : UInt32) (byte : Bool)
    (rn rd rm : Register) :
    machine.processor.Writes (machine.swap pc byte rn rd rm).processor :=
  .single machine.processor rd _

/-- The numbers of a list are those that it names. -/
theorem mem_listedRegisters_iff {registers : UInt16} {n : Nat} :
    n ∈ listedRegisters registers ↔ n < 16 ∧ isListed registers n = true := by
  rw [listedRegisters, List.mem_filter, List.mem_range]

/-- A list that names a register is not empty. -/
theorem isEmpty_of_isListed {registers : UInt16} {n : Nat} (hn : n < 16)
    (h : isListed registers n = true) :
    ((listedRegisters registers).map Register.ofNumber).isEmpty = false := by
  rw [List.isEmpty_eq_false_iff_exists_mem]
  exact ⟨_, List.mem_map_of_mem (mem_listedRegisters_iff.mpr ⟨hn, h⟩)⟩

/-- Loading a block writes registers, of User mode if it is asked to, or returns
    if it loads the program counter among them. -/
theorem loadBlock_performed (machine : Machine δ) (here : UInt32) (indexing : Indexing)
    (userBank : Bool) (rn : Register) (registers : UInt16) (listed : List Register)
    (start moved : UInt32) :
    machine.processor.Performed here (.blockTransfer true indexing userBank rn registers)
      (machine.loadBlock indexing userBank rn registers listed start moved).processor := by
  have hbase := Processor.Writes.based machine.processor
    (indexing.writeBack && !isListed registers rn.number) rn moved
  show machine.processor.Performed here _
    (if userBank && !isListed registers 15 then _ else if userBank then _ else _)
  cases userBank with
  | false => exact .works rfl rfl (hbase.trans (.writeAll _ _)).ordinary
  | true =>
      cases hpc : isListed registers 15 with
      | true => exact .leaves hpc (hbase.trans (.writeAll _ _))
      | false =>
          exact .works hpc rfl (hbase.ordinary.trans (Processor.userWriteAll_ordinary _ _))

/-- A block transfer is one of these as well. -/
theorem blockTransfer_performed (machine : Machine δ) (here : UInt32) (load : Bool)
    (indexing : Indexing) (userBank : Bool) (rn : Register) (registers : UInt16) :
    machine.processor.Performed here (.blockTransfer load indexing userBank rn registers)
      (machine.blockTransfer (here + 8) load indexing userBank rn registers).processor := by
  rw [blockTransfer]
  split
  · rename_i hempty
    refine .works ?_ rfl Processor.Writes.refl.ordinary
    cases hpc : isListed registers 15 with
    | true =>
        rw [isEmpty_of_isListed (by decide) hpc] at hempty
        cases hempty
    | false => simp only [Operation.leavesException, hpc, Bool.and_false]
  · cases load with
    | true => exact loadBlock_performed machine here indexing userBank rn registers _ _ _
    | false =>
        exact .works rfl rfl
          (Processor.Writes.based machine.processor indexing.writeBack rn _).ordinary

/-- An operation does one of these. -/
theorem perform_performed (machine : Machine δ) (here : UInt32) (operation : Operation) :
    machine.processor.Performed here operation (machine.perform here operation).processor := by
  have hwrites : ∀ {after : Processor}, operation.leavesException = false →
      operation.isSupervisorCall = false → machine.processor.Writes after →
      machine.processor.Performed here operation after := fun hleaves hcalls h =>
    .works hleaves hcalls h.ordinary
  cases operation with
  | dataProcessing op setFlags rn rd operand =>
      exact machine.processor.process_performed here op setFlags rn rd operand
  | multiply accumulate setFlags rd rn rs rm =>
      exact .works rfl rfl (machine.processor.multiply_ordinary _ _ _ _ _ _ _)
  | multiplyLong signed accumulate setFlags rdHi rdLo rs rm =>
      exact .works rfl rfl (machine.processor.multiplyLong_ordinary _ _ _ _ _ _ _ _)
  | registerToStatus saved mask operand =>
      cases saved with
      | true => exact .replacesSaved mask operand
      | false => exact .replaces mask operand
  | blockTransfer load indexing userBank rn registers =>
      exact blockTransfer_performed machine here load indexing userBank rn registers
  | supervisorCall comment => exact .calls comment
  | moveWide top rd imm16 => exact hwrites rfl rfl (.single machine.processor rd _)
  | statusToRegister saved rd => exact hwrites rfl rfl (.single machine.processor rd _)
  | countLeadingZeros rd rm => exact hwrites rfl rfl (.single machine.processor rd _)
  | swap byte rn rd rm => exact hwrites rfl rfl (machine.swap_writes _ byte rn rd rm)
  | singleTransfer load byte indexing rn rd offset =>
      exact hwrites rfl rfl (machine.singleTransfer_writes _ _ _ _ _ _ _)
  | halfwordTransfer load kind indexing rn rd offset =>
      exact hwrites rfl rfl (machine.halfwordTransfer_writes _ _ _ _ _ _ _)
  | branchExchange link rm =>
      exact hwrites rfl rfl ((Processor.Writes.linkTo _ link _).write .pc _)
  | branch link offset =>
      exact hwrites rfl rfl ((Processor.Writes.linkTo _ link _).write .pc _)
  | breakpoint comment => exact .works rfl rfl ⟨rfl, fun _ => rfl, fun _ => rfl, id⟩
  | branchLinkExchange _ | coprocessor _ | media _ | unconditional _ | undefined _ =>
      exact hwrites rfl rfl .refl

/-! ## Instructions -/

/-- An instruction goes through if its condition holds and its operation is modelled. -/
theorem execute_of_satisfied (machine : Machine δ) (here : UInt32) {instruction : Instruction}
    {operation : Operation} (hoperation : instruction.operation = operation)
    (hmodelled : machine.isUnmodelled here operation = false)
    (hsatisfied : machine.processor.status.satisfies instruction.condition = true)
    (faults : FaultUnit) :
    machine.execute instruction here faults
      = (machine.perform here operation).finished faults := by
  subst hoperation
  rw [execute, hsatisfied, hmodelled]
  rfl

/-- An instruction whose condition holds goes through, whatever faults are recorded, and
    leaves a machine behind. -/
structure CarriesOut (machine : Machine δ) (instruction : Instruction) (here : UInt32)
    (after : Machine δ) : Prop where
  satisfied : machine.processor.status.satisfies instruction.condition = true
  executes : ∀ faults, machine.execute instruction here faults = after.finished faults

/-- What it leaves behind is what its operation does. -/
theorem carriesOut_iff {machine after : Machine δ} {here : UInt32} {instruction : Instruction}
    {operation : Operation} (hoperation : instruction.operation = operation)
    (hmodelled : machine.isUnmodelled here operation = false) :
    machine.CarriesOut instruction here after
      ↔ machine.processor.status.satisfies instruction.condition = true
        ∧ after = machine.perform here operation := by
  constructor
  · rintro ⟨hsatisfied, hexecutes⟩
    have hsame := hexecutes .initial
    rw [machine.execute_of_satisfied here hoperation hmodelled hsatisfied] at hsame
    injection hsame with hcore hbus
    obtain ⟨processor, bus⟩ := after
    exact ⟨hsatisfied, congrArg₂ Machine.mk hcore.symm hbus.symm⟩
  · rintro ⟨hsatisfied, rfl⟩
    exact ⟨hsatisfied, machine.execute_of_satisfied here hoperation hmodelled hsatisfied⟩

/-- An instruction that returns or calls the supervisor is modelled. -/
theorem isUnmodelled_eq_true {machine : Machine δ} {here : UInt32} {operation : Operation}
    (h : machine.isUnmodelled here operation = true) :
    operation.leavesException = false ∧ operation.isSupervisorCall = false := by
  cases operation <;> first | exact ⟨rfl, rfl⟩ | cases h

/-- An instruction does what its operation can do if its condition holds, unless a
    fault stops it; otherwise it leaves the processor as it is.  No return and no
    supervisor call is stopped. -/
theorem execute_performed (machine : Machine δ) (instruction : Instruction) (here : UInt32)
    (faults : FaultUnit) :
    machine.processor.status.satisfies instruction.condition = true
        ∧ machine.processor.Performed here instruction.operation
          (machine.execute instruction here faults).core
      ∨ (machine.execute instruction here faults).core = machine.processor
        ∧ (machine.processor.status.satisfies instruction.condition = true →
          instruction.operation.leavesException = false
            ∧ instruction.operation.isSupervisorCall = false) := by
  have hperformed := perform_performed machine here instruction.operation
  rw [execute]
  cases hsatisfied : machine.processor.status.satisfies instruction.condition with
  | false => exact .inr ⟨rfl, fun h => by cases h⟩
  | true =>
      rw [if_neg (by decide)]
      cases hunmodelled : machine.isUnmodelled here instruction.operation with
      | false => exact .inl ⟨rfl, hperformed⟩
      | true =>
          rw [if_pos rfl]
          dsimp only
          split
          · exact .inl ⟨rfl, hperformed⟩
          · exact .inr ⟨rfl, fun _ => isUnmodelled_eq_true hunmodelled⟩

/-- A supervisor call whose condition holds is carried out. -/
theorem execute_of_isSupervisorCall {machine : Machine δ} {instruction : Instruction}
    (hsatisfied : machine.processor.status.satisfies instruction.condition = true)
    (hcalls : instruction.operation.isSupervisorCall = true) (here : UInt32)
    (faults : FaultUnit) :
    (machine.execute instruction here faults).core
      = machine.processor.enter .supervisorCall (here + 4) := by
  obtain ⟨-, hperformed⟩ | ⟨-, hnone⟩ := machine.execute_performed instruction here faults
  · obtain ⟨comment, hoperation⟩ := Operation.eq_supervisorCall hcalls
    rw [hoperation] at hperformed
    generalize (machine.execute instruction here faults).core = after at hperformed ⊢
    cases hperformed with
    | works _ hnot _ => cases hnot
    | leaves hleaves _ => cases hleaves
    | calls _ => rfl
  · rw [(hnone hsatisfied).2] at hcalls
    cases hcalls

end Machine

/-! ## Interrupt boundaries -/

namespace Processor

variable {δ γ : Type} [InterruptController γ]

/-- The exception that a boundary takes: a fast interrupt goes before another, and
    a masked one is not taken. -/
def interruptTaken? (processor : Processor) (inputs : InterruptInputs γ) : Option Exception :=
  if inputs.nmi && !processor.status.get .fiqMask then some .fiq
  else if inputs.requestPending && !processor.status.get .irqMask then some .irq
  else none

/-- What is left of the requests once one has been taken. -/
def withdrawn (inputs : InterruptInputs γ) : Exception → InterruptInputs γ
  | .fiq => { inputs with nmi := false }
  | .irq => inputs.acknowledged
  | .supervisorCall => inputs

/-- A boundary enters the handler of the exception it takes, and withdraws the
    request; otherwise it does nothing. -/
theorem serviceInterrupts_eq (processor : Processor) (bus : Bus δ)
    (inputs : InterruptInputs γ) :
    processor.serviceInterrupts bus inputs
      = match processor.interruptTaken? inputs with
        | some exception =>
          ⟨processor.enter exception (processor.get .pc + 4), bus, withdrawn inputs exception,
            true⟩
        | none => ⟨processor, bus, inputs, false⟩ := by
  rw [serviceInterrupts, interruptTaken?]
  cases hfast : inputs.nmi && !processor.status.get .fiqMask with
  | true => rfl
  | false =>
      rw [if_neg Bool.false_ne_true, if_neg Bool.false_ne_true, ← inputs.isSome_request?]
      cases hmasked : processor.status.get .irqMask with
      | true =>
          rw [if_pos rfl, Bool.not_true, Bool.and_false]
          rfl
      | false =>
          rw [if_neg Bool.false_ne_true, Bool.not_false, Bool.and_true]
          cases hrequest : inputs.request? with
          | none =>
              rw [InterruptInputs.acknowledge_of_none hrequest]
              rfl
          | some vector =>
              rw [InterruptInputs.acknowledge_of_request? hrequest]
              rfl

/-- A boundary that enters no handler leaves the processor alone. -/
theorem core_serviceInterrupts_of_not_entered {processor : Processor} {bus : Bus δ}
    {inputs : InterruptInputs γ} (h : (processor.serviceInterrupts bus inputs).entered ≠ true) :
    (processor.serviceInterrupts bus inputs).core = processor := by
  rw [serviceInterrupts_eq] at h ⊢
  cases htaken : processor.interruptTaken? inputs with
  | some exception =>
      rw [htaken] at h
      exact absurd rfl h
  | none => rfl

end Processor

end Microprocessor.Arm
