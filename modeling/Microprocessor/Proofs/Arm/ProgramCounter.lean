import Microprocessor.Proofs.Arm.Effect
import Microprocessor.Terminal.Console

/-! # Where A32 instructions go on

    When an instruction is executed, the program counter has moved on past it.
    Most operations can name the program counter as the register of a result, and
    then go on at that result.  Data processing, the moves of immediates and the
    loads of words, bytes and blocks count as control transfers when they do; the
    products, the swaps, the status reads, the leading zeros and the loads of
    halfwords, signed bytes and pairs never do.

      * `Operation.destinations` are the registers of the results of these, and
        `Machine.results` the results with their values;
      * `branchTarget?` is where writing values to registers goes on;
      * `Machine.get_pc_perform` and `Machine.get_pc_execute`: what is no control
        transfer goes on where its results lead;
      * `unclassified_moves_on_unless_result` is the result for every word. -/

namespace Microprocessor.Arm

/-! ## Results -/

/-- Whether a halfword transfer of a kind loads; the signed kinds only load. -/
def HalfwordKind.loads (load : Bool) : HalfwordKind → Bool
  | .unsignedHalf | .double => load
  | .signedByte | .signedHalf => true

/-- The registers of the results of an operation that is never among the control
    transfers, not even where one of them is the program counter. -/
def Operation.destinations : Operation → List Register
  | .multiply _ _ rd _ _ _ | .swap _ _ rd _ | .statusToRegister _ rd
  | .countLeadingZeros rd _ => [rd]
  | .multiplyLong _ _ _ rdHi rdLo _ _ => [rdLo, rdHi]
  | .halfwordTransfer load kind _ _ rd _ =>
    if kind.loads load then (if kind = .double then [rd, rd.partner] else [rd]) else []
  | _ => []

namespace Machine

variable {δ : Type}

/-- The results of such an operation, in the order in which they are written. -/
def results (machine : Machine δ) (here : UInt32) (operation : Operation) :
    List (Register × UInt32) :=
  let processor := machine.processor
  let operand := processor.operand (here + 8)
  match operation with
  | .multiply accumulate _ rd rn rs rm =>
    let product := operand rm * operand rs
    [(rd, if accumulate then product + operand rn else product)]
  | .multiplyLong signed accumulate _ rdHi rdLo rs rm =>
    let addend := ((operand rdHi).toUInt64 <<< 32) ||| (operand rdLo).toUInt64
    let result :=
      longProduct signed (operand rm) (operand rs) + (if accumulate then addend else 0)
    [(rdLo, result.toUInt32), (rdHi, (result >>> 32).toUInt32)]
  | .swap byte rn rd _ =>
    let address := operand rn
    [(rd, if byte then (machine.memory.read address).toUInt32
      else loadRotated machine.memory address)]
  | .statusToRegister saved rd =>
    let status := if saved then processor.savedStatus else processor.status
    [(rd, status.word)]
  | .countLeadingZeros rd rm =>
    [(rd, UInt32.ofNat (Processor.leadingZeros (operand rm)))]
  | .halfwordTransfer load kind indexing rn rd offset =>
    let address := indexing.address (operand rn) (processor.halfwordOffset (here + 8) offset)
    if kind.loads load then halfwordLoads machine.memory kind rd address else []
  | _ => []

/-- Every result has a register. -/
theorem registers_results (machine : Machine δ) (here : UInt32) (operation : Operation) :
    (machine.results here operation).map Prod.fst = operation.destinations := by
  cases operation with
  | halfwordTransfer load kind indexing rn rd offset =>
      cases kind <;> cases load <;> rfl
  | _ => rfl

end Machine

/-- Where writing values to registers goes on: at the last of them that is written
    to the program counter. -/
def branchTarget? : List (Register × UInt32) → Option UInt32
  | [] => none
  | (register, value) :: rest =>
    (branchTarget? rest).or (if register.isPc then some (Processor.wordAddress value) else none)

/-- No value is written to the program counter if it is not among the registers. -/
theorem branchTarget?_eq_none {values : List (Register × UInt32)}
    (h : Register.pc ∉ values.map Prod.fst) : branchTarget? values = none := by
  induction values with
  | nil => rfl
  | cons value rest ih =>
      have hother : value.1.isPc = false := by
        rw [Bool.eq_false_iff]
        exact fun hpc => List.ne_of_not_mem_cons h (Processor.eq_pc_of_isPc hpc).symm
      rw [branchTarget?, ih (List.not_mem_of_not_mem_cons h), hother]
      rfl

/-- One is if it is. -/
theorem isSome_branchTarget? {values : List (Register × UInt32)}
    (h : Register.pc ∈ values.map Prod.fst) : (branchTarget? values).isSome = true := by
  induction values with
  | nil => cases h
  | cons value rest ih =>
      rw [branchTarget?, Option.isSome_or]
      obtain hvalue | hrest := List.mem_cons.mp h
      · rw [← hvalue]
        exact Bool.or_true _
      · rw [ih hrest, Bool.true_or]

/-! ## Writing registers -/

namespace Processor

/-- Writing a register leaves the program counter alone if it is another. -/
theorem get_pc_write (processor : Processor) {register : Register} (h : register.isPc = false)
    (value : UInt32) : (processor.write register value).get .pc = processor.get .pc := by
  rw [write_of_not_isPc processor value h]
  refine get_put_of_ne processor value ?_
  rintro rfl
  cases h

/-- Writing the program counter is a branch. -/
theorem get_pc_write_pc (processor : Processor) (value : UInt32) :
    (processor.write .pc value).get .pc = wordAddress value :=
  get_put_self processor .pc _

/-- A moved base is not put back into the program counter. -/
theorem get_pc_writeBack (processor : Processor) (rn : Register) (address : UInt32) :
    (processor.writeBack rn address).get .pc = processor.get .pc := by
  rw [writeBack]
  split
  · rfl
  · rename_i hother
    exact processor.get_pc_write (Bool.eq_false_iff.mpr hother) address

/-- The same before a transfer. -/
theorem get_pc_based (processor : Processor) (writesBack : Bool) (rn : Register)
    (address : UInt32) :
    (if writesBack then processor.writeBack rn address else processor).get .pc
      = processor.get .pc := by
  split
  · exact processor.get_pc_writeBack rn address
  · rfl

/-- Writing several registers goes on where the last write of the program counter
    leads, if there is one. -/
theorem get_pc_writeAll (values : List (Register × UInt32)) (processor : Processor) :
    (processor.writeAll values).get .pc = (branchTarget? values).getD (processor.get .pc) := by
  induction values generalizing processor with
  | nil => rfl
  | cons value rest ih =>
      refine (ih (processor.write value.1 value.2)).trans ?_
      rw [branchTarget?]
      cases branchTarget? rest with
      | some target => rfl
      | none =>
          cases hpc : value.1.isPc with
          | true =>
              rw [eq_pc_of_isPc hpc]
              exact processor.get_pc_write_pc value.2
          | false => exact processor.get_pc_write hpc value.2

/-- Writing registers of User mode leaves the program counter alone if it is not
    among them. -/
theorem get_pc_userWriteAll {values : List (Register × UInt32)}
    (h : Register.pc ∉ values.map Prod.fst) (processor : Processor) :
    (values.foldl (fun processor (register, value) => processor.userWrite register value)
      processor).get .pc = processor.get .pc := by
  induction values generalizing processor with
  | nil => rfl
  | cons value rest ih =>
      refine (ih (List.not_mem_of_not_mem_cons h) (processor.userWrite value.1 value.2)).trans ?_
      rw [userWrite]
      split
      · rfl
      · refine processor.get_pc_write ?_ value.2
        rw [Bool.eq_false_iff]
        exact fun hpc => List.ne_of_not_mem_cons h (eq_pc_of_isPc hpc).symm

theorem get_pc_setStatus (processor : Processor) (status : Status) :
    (processor.setStatus status).get .pc = processor.get .pc :=
  get_setStatus processor status (by decide) (by decide)

/-- A status transfer leaves the program counter alone. -/
theorem get_pc_registerToStatus (processor : Processor) (pc : UInt32) (saved : Bool)
    (mask : UInt8) (operand : ShifterOperand) :
    (processor.registerToStatus pc saved mask operand).get .pc = processor.get .pc := by
  cases saved with
  | true => exact processor.get_setSavedStatus _ .pc
  | false => exact processor.get_pc_setStatus _

/-- So does data processing, unless it is a control transfer. -/
theorem get_pc_process (processor : Processor) (pc : UInt32) {op : DataOp} (setFlags : Bool)
    (rn : Register) {rd : Register} (operand : ShifterOperand)
    (h : (rd.isPc && !op.isComparison) = false) :
    (processor.process pc op setFlags rn rd operand).get .pc = processor.get .pc := by
  rw [process]
  cases hcomparison : op.isComparison with
  | true => rfl
  | false =>
      rw [hcomparison, Bool.not_false, Bool.and_true] at h
      cases setFlags with
      | false => exact processor.get_pc_write h _
      | true =>
          rw [h]
          exact get_pc_write { processor with status := _ } h _

end Processor

/-! ## Transfers -/

namespace Machine

variable {δ : Type}

theorem get_pc_singleTransfer (machine : Machine δ) (pc : UInt32) {load : Bool} (byte : Bool)
    (indexing : Indexing) (rn : Register) {rd : Register} (offset : TransferOffset)
    (h : (load && rd.isPc) = false) :
    (machine.singleTransfer pc load byte indexing rn rd offset).processor.get .pc
      = machine.processor.get .pc := by
  have hbase := machine.processor.get_pc_based indexing.writesBack rn
    (indexing.moved (machine.processor.operand pc rn)
      (machine.processor.transferOffset pc offset))
  cases load with
  | true => exact (Processor.get_pc_write _ h _).trans hbase
  | false => exact hbase

/-- A halfword transfer goes on where its results lead. -/
theorem get_pc_halfwordTransfer (machine : Machine δ) (here : UInt32) (load : Bool)
    (kind : HalfwordKind) (indexing : Indexing) (rn rd : Register) (offset : HalfwordOffset) :
    (machine.halfwordTransfer (here + 8) load kind indexing rn rd offset).processor.get .pc
      = (branchTarget?
          (machine.results here (.halfwordTransfer load kind indexing rn rd offset))).getD
          (machine.processor.get .pc) := by
  have hbase := machine.processor.get_pc_based indexing.writesBack rn
    (indexing.moved (machine.processor.operand (here + 8) rn)
      (machine.processor.halfwordOffset (here + 8) offset))
  have hloads := fun values => (Processor.get_pc_writeAll values _).trans
    (congrArg (branchTarget? values).getD hbase)
  cases kind <;> cases load
  case unsignedHalf.false => exact hbase
  case double.false => exact hbase
  all_goals exact hloads _

/-- Every register of a block is loaded. -/
theorem registers_readBlock (memory : Memory) (listed : List Register) (address : UInt32) :
    (readBlock memory address listed).map Prod.fst = listed := by
  induction listed generalizing address with
  | nil => rfl
  | cons register rest ih => exact congrArg (register :: ·) (ih (address + 4))

/-- A list that does not name the program counter does not contain it. -/
theorem pc_not_mem_listed {registers : UInt16} (h : isListed registers 15 = false) :
    Register.pc ∉ (listedRegisters registers).map Register.ofNumber := by
  intro hmem
  obtain ⟨n, hn, hpc⟩ := List.mem_map.mp hmem
  obtain ⟨hrange, hlisted⟩ := mem_listedRegisters_iff.mp hn
  have hnumber : n % 16 = 15 := congrArg (fun register => register.number.val) hpc
  rw [Nat.mod_eq_of_lt hrange] at hnumber
  rw [hnumber, h] at hlisted
  cases hlisted

/-- A block transfer leaves the program counter alone unless it loads it. -/
theorem get_pc_blockTransfer (machine : Machine δ) (pc : UInt32) {load : Bool}
    (indexing : Indexing) (userBank : Bool) (rn : Register) {registers : UInt16}
    (h : (load && isListed registers 15) = false) :
    (machine.blockTransfer pc load indexing userBank rn registers).processor.get .pc
      = machine.processor.get .pc := by
  rw [blockTransfer]
  split
  · rfl
  · cases load with
    | false => exact machine.processor.get_pc_based indexing.writeBack rn _
    | true =>
        have hunlisted : isListed registers 15 = false := h
        have hvalues : ∀ start, Register.pc ∉ (readBlock machine.memory start
            ((listedRegisters registers).map Register.ofNumber)).map Prod.fst := by
          intro start
          rw [registers_readBlock]
          exact pc_not_mem_listed hunlisted
        have hbase := machine.processor.get_pc_based
          (indexing.writeBack && !isListed registers rn.number) rn
        simp only [if_true, loadBlock, hunlisted, Bool.not_false, Bool.and_true]
        cases userBank with
        | true => exact (Processor.get_pc_userWriteAll (hvalues _) _).trans (hbase _)
        | false =>
            refine (Processor.get_pc_writeAll _ _).trans ?_
            rw [branchTarget?_eq_none (hvalues _)]
            exact hbase _

/-! ## Operations -/

/-- An operation that is no control transfer goes on where its results lead. -/
theorem get_pc_perform (machine : Machine δ) (here : UInt32) {operation : Operation}
    (hunclassified : operation.writesProgramCounter = false) :
    (machine.perform here operation).processor.get .pc
      = (branchTarget? (machine.results here operation)).getD (machine.processor.get .pc) := by
  cases operation with
  | dataProcessing op setFlags rn rd operand =>
      exact machine.processor.get_pc_process _ setFlags rn operand hunclassified
  | moveWide top rd imm16 => exact machine.processor.get_pc_write hunclassified _
  | multiply accumulate setFlags rd rn rs rm =>
      refine Eq.trans ?_ (machine.processor.get_pc_writeAll _)
      cases setFlags <;> rfl
  | multiplyLong signed accumulate setFlags rdHi rdLo rs rm =>
      refine Eq.trans ?_ (machine.processor.get_pc_writeAll _)
      cases setFlags <;> rfl
  | swap byte rn rd rm => exact machine.processor.get_pc_writeAll [(rd, _)]
  | statusToRegister saved rd =>
      exact machine.processor.get_pc_writeAll [(rd, _)]
  | countLeadingZeros rd rm => exact machine.processor.get_pc_writeAll [(rd, _)]
  | registerToStatus saved mask operand =>
      exact machine.processor.get_pc_registerToStatus _ saved mask operand
  | singleTransfer load byte indexing rn rd offset =>
      exact machine.get_pc_singleTransfer _ byte indexing rn offset hunclassified
  | halfwordTransfer load kind indexing rn rd offset =>
      exact machine.get_pc_halfwordTransfer here load kind indexing rn rd offset
  | blockTransfer load indexing userBank rn registers =>
      exact machine.get_pc_blockTransfer _ indexing userBank rn hunclassified
  | breakpoint _ | coprocessor _ | media _ | unconditional _ | undefined _ => rfl
  | branchExchange _ _ | branch _ _ | branchLinkExchange _ | supervisorCall _ =>
      cases hunclassified

/-! ## Whole instructions -/

/-- What is not modelled and is no control transfer has no results. -/
theorem results_of_isUnmodelled {machine : Machine δ} {here : UInt32} {operation : Operation}
    (hunmodelled : machine.isUnmodelled here operation = true)
    (hunclassified : operation.writesProgramCounter = false) :
    machine.results here operation = [] := by
  cases operation with
  | coprocessor _ | media _ | unconditional _ | undefined _ => rfl
  | branchExchange _ _ | branchLinkExchange _ => cases hunclassified
  | _ => cases hunmodelled

/-- An instruction that is no control transfer goes on where its results lead, if
    its condition holds. -/
theorem get_pc_execute (machine : Machine δ) {instruction : Instruction}
    (hunclassified : instruction.operation.writesProgramCounter = false) (here : UInt32)
    (faults : FaultUnit) :
    (machine.execute instruction here faults).core.get .pc
      = if machine.processor.status.satisfies instruction.condition then
          (branchTarget? (machine.results here instruction.operation)).getD
            (machine.processor.get .pc)
        else machine.processor.get .pc := by
  have hperform := machine.get_pc_perform here hunclassified
  rw [execute]
  cases hsatisfied : machine.processor.status.satisfies instruction.condition with
  | false => rfl
  | true =>
      rw [if_pos rfl, if_neg (by decide)]
      cases hunmodelled : machine.isUnmodelled here instruction.operation with
      | false => exact hperform
      | true =>
          rw [results_of_isUnmodelled hunmodelled hunclassified] at hperform ⊢
          rw [if_pos rfl]
          dsimp only
          split
          · exact hperform
          · rfl

end Machine

/-- A word that is no control transfer goes on with the following word, in whatever
    state it is executed and however it ends, unless it names the program counter
    as the register of a result.  Then it goes on with the following word only if
    its condition fails; if it holds, it goes on at the last result for the program
    counter, with the low two bits cleared. -/
theorem unclassified_moves_on_unless_result {δ : Type} (word : UInt32)
    (hunclassified : (Instruction.ofWord word).operation.writesProgramCounter = false)
    (machine : Machine δ) (here : UInt32) (faults : FaultUnit) :
    (Register.pc ∉ (Instruction.ofWord word).operation.destinations →
        (machine.execute (.ofWord word) here faults).core.get .pc = machine.processor.get .pc)
      ∧ (machine.processor.status.satisfies (Instruction.ofWord word).condition = false →
        (machine.execute (.ofWord word) here faults).core.get .pc = machine.processor.get .pc)
      ∧ (Register.pc ∈ (Instruction.ofWord word).operation.destinations →
        machine.processor.status.satisfies (Instruction.ofWord word).condition = true →
        branchTarget? (machine.results here (Instruction.ofWord word).operation)
          = some ((machine.execute (.ofWord word) here faults).core.get .pc)) := by
  rw [machine.get_pc_execute hunclassified, ← machine.registers_results here]
  refine ⟨?_, ?_, ?_⟩
  · intro hother
    rw [branchTarget?_eq_none hother, Option.getD_none, ite_self]
  · intro hfails
    rw [hfails]
    rfl
  · intro hresult hholds
    obtain ⟨target, htarget⟩ := Option.isSome_iff_exists.mp (isSome_branchTarget? hresult)
    rw [htarget, hholds]
    rfl

/-- An ARM that has moved on past a word, with a halfword in memory. -/
def movedOn : Machine Terminal.Console where
  processor := Processor.initial.put .pc 4
  bus := .of ⟨#[0x42, 0x01], none⟩ .empty 4 4

/-- LDRH R0,[R1] goes on with the following word, LDRH PC,[R1] at the halfword that
    it loads. -/
theorem unclassified_moves_on_unless_result_loading :
    (movedOn.execute (.ofWord 0xE1D100B0) 0 .initial).core.get .pc = 4
      ∧ (Instruction.ofWord 0xE1D1F0B0).operation.writesProgramCounter = false
      ∧ (movedOn.execute (.ofWord 0xE1D1F0B0) 0 .initial).core.get .pc = 0x140 := by
  have hsequential := unclassified_moves_on_unless_result 0xE1D100B0 rfl movedOn 0 .initial
  have hloading := unclassified_moves_on_unless_result 0xE1D1F0B0 rfl movedOn 0 .initial
  refine ⟨hsequential.1 (by decide), rfl, ?_⟩
  have htarget : branchTarget?
      (movedOn.results 0 (Instruction.ofWord 0xE1D1F0B0).operation) = some 0x140 := by
    decide +kernel
  exact Option.some.inj ((hloading.2.2 (by decide) rfl).symm.trans htarget)

end Microprocessor.Arm
