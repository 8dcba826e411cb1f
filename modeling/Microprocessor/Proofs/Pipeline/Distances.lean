import Microprocessor.Proofs.Arm.Lossless
import Microprocessor.Proofs.Pipeline.Targets
import Microprocessor.Proofs.Text.Distance
import Microprocessor.Proofs.X86.SelfDelimiting

/-! # Shown distances

    A relative transfer is disassembled with the distance of its target from its own
    first byte.  That is worked out from the encoding alone; where execution goes is
    worked out from an instruction pointer that has moved on, or from a program counter
    that reads ahead.  They agree, modulo the width of the instruction pointer.

      * `X86.Operation.displacement?` tells the relative transfers, and
        `X86.Machine.makes` when they are made;
      * `X86.shownDistance?_text` and `Arm.shownDistance?_text` are about the texts,
        `X86.Machine.ip_execute_relative` and `Arm.Machine.get_pc_execute_branch` about
        execution;
      * `shown_distances_executed` puts them together. -/

namespace Microprocessor

/-! ## The 8086 -/

namespace X86

/-- The displacement of a relative transfer. -/
def Operation.displacement? : Operation → Option Int16
  | .jumpConditional _ displacement | .loop _ displacement => some displacement.toInt16
  | .jumpRelative displacement | .callRelative displacement => some displacement
  | _ => none

/-- The mark is in no mnemonic of a relative transfer. -/
theorem mark_not_mem_mnemonic :
    (∀ condition : Condition, '$' ∉ condition.mnemonic.toList)
      ∧ ∀ op : LoopOp, '$' ∉ op.mnemonic.toList := by
  constructor
  · intro condition
    cases condition <;> decide
  · intro op
    cases op <;> decide

/-- What a relative transfer shows. -/
theorem shownDistance?_relative {head mnemonic : String} (hhead : '$' ∉ head.toList)
    (hmnemonic : '$' ∉ mnemonic.toList) (length : Nat) (displacement : Int) :
    shownDistance? (head ++ Disassembly.relative mnemonic length displacement)
      = some (displacement + length) := by
  apply @shownDistance?_of_toList _ (head.toList ++ mnemonic.toList ++ [' '])
  · simp [hhead, hmnemonic]
  · rw [Disassembly.relative]
    split <;> simp [*]

/-- The text of a relative transfer shows its displacement and its length together. -/
theorem shownDistance?_text (instruction : Instruction) {displacement : Int16}
    (h : instruction.operation.displacement? = some displacement) :
    shownDistance? instruction.text = some (displacement.toInt + instruction.length) := by
  obtain ⟨opcode, prefixes, operation, length, clocks⟩ := instruction
  have hlock : '$' ∉ (if prefixes.lock then "LOCK " else "").toList := by
    cases prefixes.lock <;> decide
  obtain ⟨hcondition, hloop⟩ := mark_not_mem_mnemonic
  cases operation with
  | jumpConditional condition displacement =>
      obtain rfl := Option.some.inj h
      rw [Int8.toInt_toInt16]
      exact shownDistance?_relative hlock (hcondition condition) length displacement.toInt
  | loop op displacement =>
      obtain rfl := Option.some.inj h
      rw [Int8.toInt_toInt16]
      exact shownDistance?_relative hlock (hloop op) length displacement.toInt
  | jumpRelative displacement =>
      obtain rfl := Option.some.inj h
      exact @shownDistance?_relative _ "JMP" hlock (by decide) length displacement.toInt
  | callRelative displacement =>
      obtain rfl := Option.some.inj h
      exact @shownDistance?_relative _ "CALL" hlock (by decide) length displacement.toInt
  | _ => cases h

namespace Machine

variable {δ : Type}

/-- Whether a relative transfer is made.  The loops count CX down first. -/
def makes (machine : Machine δ) : Operation → Bool
  | .jumpConditional condition _ => condition.holds machine.regs.flags
  | .jumpRelative _ | .callRelative _ => true
  | .loop .loop _ => machine.regs.word .cx != 1
  | .loop .loope _ => machine.regs.word .cx != 1 && machine.regs.flags.get .zero
  | .loop .loopne _ => machine.regs.word .cx != 1 && !machine.regs.flags.get .zero
  | .loop .jcxz _ => machine.regs.word .cx == 0
  | _ => false

/-- A loop that counts down ends where the count was one. -/
theorem pred_ne_zero (count : UInt16) : (count - 1 != 0) = (count != 1) := by
  have h : count - 1 = 0 ↔ count = 1 := by
    constructor
    · intro hzero
      calc count = count - 1 + 1 := (UInt16.sub_add_cancel count 1).symm
        _ = 1 := by rw [hzero, UInt16.zero_add]
    · rintro rfl
      rfl
  exact Bool.eq_iff_iff.mpr (by simp [h])

theorem ip_relative (machine : Machine δ) (taken : Bool) (displacement : Int16) :
    (if taken then machine.mapUnit fun unit => unit.addToIp displacement else machine).regs.ip
      = if taken then machine.regs.ip + displacement.toUInt16 else machine.regs.ip := by
  cases taken <;> rfl

/-- A relative transfer that is made adds its displacement to IP, and one that is not
    leaves IP alone. -/
theorem ip_perform_relative (machine : Machine δ) (instruction : Instruction)
    {operation : Operation} {displacement : Int16}
    (h : operation.displacement? = some displacement) :
    (machine.perform instruction operation).regs.ip
      = if machine.makes operation then machine.regs.ip + displacement.toUInt16
        else machine.regs.ip := by
  cases operation with
  | jumpConditional condition displacement =>
      obtain rfl := Option.some.inj h
      exact machine.ip_relative (condition.holds machine.regs.flags) displacement.toInt16
  | loop op displacement =>
      obtain rfl := Option.some.inj h
      have hpred := pred_ne_zero (machine.regs.word .cx)
      -- To count CX down leaves IP alone.
      have hloop (taken : Bool) (left : UInt16) :=
        ip_relative (machine.mapRegs fun regs => regs.setWord .cx left) taken displacement.toInt16
      cases op with
      | loop | loope | loopne =>
          rw [makes, ← hpred]
          exact hloop _ _
      | jcxz =>
          exact hloop _ _
  | jumpRelative displacement | callRelative displacement =>
      obtain rfl := Option.some.inj h
      rfl
  | _ => cases h

/-- So does the whole instruction. -/
theorem ip_execute_relative [PortDevice δ] (machine : Machine δ) {instruction : Instruction}
    (hwritable : instruction.operation.Writable) {displacement : Int16}
    (h : instruction.operation.displacement? = some displacement) (address : UInt32)
    (faults : FaultUnit) :
    (machine.execute instruction address faults).core.regs.ip
      = if machine.makes instruction.operation then machine.regs.ip + displacement.toUInt16
        else machine.regs.ip := by
  have hmakes : machine.begun.makes instruction.operation = machine.makes instruction.operation := by
    cases instruction.operation with
    | loop op _ => cases op <;> rfl
    | _ => rfl
  have hplace := congrArg MemoryLocator.offset (machine.place_execute hwritable address faults)
  have hperform := machine.begun.ip_perform_relative instruction h
  rw [hmakes] at hperform
  exact hplace.trans hperform

end Machine

/-- A signed number as a word. -/
theorem ofInt_toInt16 (n : Int16) : UInt16.ofInt n.toInt = n.toUInt16 := by
  have hword := BitVec.toNat_ofInt (n := 16) n.toInt
  rw [show BitVec.ofInt 16 n.toInt = n.toBitVec from BitVec.ofInt_toInt] at hword
  apply UInt16.toNat_inj.mp
  show (n.toInt % 65536).toNat % 65536 = n.toBitVec.toNat
  omega

/-- A length and a displacement past an instruction pointer. -/
theorem sub_ip_relative (ip : UInt16) (length : Nat) (displacement : Int16) :
    ip + UInt16.ofNat length + displacement.toUInt16 - ip
      = UInt16.ofInt (displacement.toInt + length) := by
  have hlength : UInt16.ofInt length = UInt16.ofNat length := by
    apply UInt16.toNat_inj.mp
    show ((length : Int) % 65536).toNat % 65536 = length % 65536
    omega
  rw [UInt16.ofInt_add, ofInt_toInt16, hlength]
  grind

end X86

/-! ## The ARM -/

namespace Arm

open Classification

/-- The mark is in no ending of a mnemonic. -/
theorem mark_not_mem_suffix (condition : Condition) : '$' ∉ condition.suffix.toList := by
  cases condition <;> decide

/-- The text of a branch shows its offset from the address that the instruction sees. -/
theorem shownDistance?_text (instruction : Instruction) {link : Bool} {offset : Int32}
    (h : instruction.operation = .branch link offset) :
    shownDistance? instruction.text = some (offset.toInt + 8) := by
  have hsuffix := mark_not_mem_suffix instruction.condition
  have hmnemonic : '$' ∉ (if link then "BL" else "B").toList := by
    cases link <;> decide
  have htext : instruction.text = (if link then "BL" else "B") ++ instruction.condition.suffix
      ++ " " ++ Disassembly.relative offset := by
    rw [Instruction.text, h]
    rfl
  rw [htext]
  apply @shownDistance?_of_toList _ ((if link then "BL" else "B").toList
    ++ instruction.condition.suffix.toList ++ [' '])
  · simp [hmnemonic, hsuffix]
  · rw [Disassembly.relative]
    by_cases hsign : offset.toInt + 8 < 0
    · simp [markedHex, hsign]
    · simp [markedHex, hsign]

/-! ### The words that are branches -/

section Levels

variable (word : UInt32)

theorem multiplyOrTransfer_not_static : (multiplyOrTransfer word).hasStaticTarget = false := by
  rw [multiplyOrTransfer, multiply, synchronisation, halfwordTransfer]
  repeat' split
  all_goals rfl

theorem registerSpace_not_static : (registerSpace word).hasStaticTarget = false := by
  have htransfer := multiplyOrTransfer_not_static word
  rw [registerSpace, miscellaneous]
  repeat' split
  all_goals first | rfl | exact htransfer

theorem immediateSpace_not_static : (immediateSpace word).hasStaticTarget = false := by
  rw [immediateSpace]
  repeat' split
  all_goals rfl

theorem media_not_static : (media word).hasStaticTarget = false := by
  rw [media]
  split <;> rfl

theorem coprocessorOrSupervisor_not_static :
    (coprocessorOrSupervisor word).hasStaticTarget = false := by
  rw [coprocessorOrSupervisor]
  repeat' split
  all_goals rfl

end Levels

/-- A branch is decoded with the offset that its word spells out. -/
theorem branch_ofWord {word : UInt32} {link : Bool} {offset : Int32}
    (h : (Instruction.ofWord word).operation = .branch link offset) :
    offset = branchOffset word := by
  have hstatic : ∀ {operation : Operation}, operation.hasStaticTarget = false →
      operation ≠ .branch link offset := by
    rintro _ hfalse rfl
    cases hfalse
  change (classify word).2 = _ at h
  rw [classify] at h
  split at h
  case h_1 =>
    change unconditional word = _ at h
    rw [unconditional] at h
    split at h <;> cases h
  case h_2 =>
    change conditional word = _ at h
    rw [conditional] at h
    split at h
    case h_1 => exact absurd h (hstatic (registerSpace_not_static word))
    case h_2 => exact absurd h (hstatic (immediateSpace_not_static word))
    case h_3 => cases h
    case h_4 =>
      split at h
      · exact absurd h (hstatic (media_not_static word))
      · cases h
    case h_5 | h_6 =>
      rw [branchOrBlock] at h
      split at h
      · cases h
      · exact ((Operation.branch.inj h).2).symm
    case h_7 => exact absurd h (hstatic (coprocessorOrSupervisor_not_static word))

namespace Machine

variable {δ : Type}

/-- A branch of which the condition holds goes on at its offset from what the
    instruction sees, which is an address of a word again. -/
theorem get_pc_execute_branch (machine : Machine δ) {word : UInt32} {link : Bool}
    {offset : Int32} (h : (Instruction.ofWord word).operation = .branch link offset)
    {here : UInt32} (haligned : IsAligned here)
    (hcondition : machine.processor.status.satisfies (Instruction.ofWord word).condition = true)
    (faults : FaultUnit) :
    (machine.execute (.ofWord word) here faults).core.get .pc = here + 8 + offset.toUInt32 := by
  have hexecute : (machine.execute (.ofWord word) here faults).core
      = (machine.perform here (.branch link offset)).processor := by
    rw [execute]
    simp [hcondition, h, isUnmodelled, finished]
  have htarget : IsAligned (here + 8 + offset.toUInt32) := by
    obtain ⟨words, -, hwords⟩ := toNat_branchOffset word
    rw [← branch_ofWord h] at hwords
    rw [IsAligned, UInt32.toNat_add, UInt32.toNat_add, hwords]
    rw [IsAligned] at haligned
    have height : (8 : UInt32).toNat = 8 := rfl
    omega
  rw [hexecute, ← wordAddress_of_isAligned htarget]
  exact Processor.get_pc_write_pc _ _

end Machine

/-- A signed number as a word. -/
theorem ofInt_toInt32 (n : Int32) : UInt32.ofInt n.toInt = n.toUInt32 := by
  have hword := BitVec.toNat_ofInt (n := 32) n.toInt
  rw [show BitVec.ofInt 32 n.toInt = n.toBitVec from BitVec.ofInt_toInt] at hword
  apply UInt32.toNat_inj.mp
  show (n.toInt % 4294967296).toNat % 4294967296 = n.toBitVec.toNat
  omega

/-- An offset past what an instruction sees of its address. -/
theorem sub_here_relative (here : UInt32) (offset : Int32) :
    here + 8 + offset.toUInt32 - here = UInt32.ofInt (offset.toInt + 8) := by
  rw [UInt32.ofInt_add, ofInt_toInt32, show UInt32.ofInt 8 = 8 from rfl]
  grind

end Arm

/-! ## Both -/

/-- The text of a relative transfer shows how far execution goes from the first byte of
    the encoding, if the transfer is made.  On the 8086 it does so behind any modifiers and
    at any CS:IP, on the ARM at the address of any word. -/
theorem shown_distances_executed {δ : Type} [PortDevice δ] :
    (∀ (source : ByteSource) (start : Nat) (instruction : X86.Instruction)
        (displacement : Int16), X86.decode source start = .ok instruction →
        instruction.operation.displacement? = some displacement →
        ∃ distance, shownDistance? (Decoded.text instruction) = some distance
          ∧ ∀ (machine : X86.Machine δ) (address : UInt32) (faults : FaultUnit),
              machine.makes instruction.operation = true →
              (Core.execute (Core.advance machine.unit (Decoded.length instruction)) instruction
                  address machine.bus faults).core.regs.ip - machine.regs.ip
                = UInt16.ofInt distance)
      ∧ ∀ (word : UInt32) (link : Bool) (offset : Int32),
          (Arm.Instruction.ofWord word).operation = .branch link offset →
          ∃ distance, shownDistance? (Decoded.text (Arm.Instruction.ofWord word)) = some distance
            ∧ ∀ (machine : Arm.Machine δ) (faults : FaultUnit),
                Arm.IsAligned (Core.fetchAddress machine.processor) →
                machine.processor.status.satisfies (Arm.Instruction.ofWord word).condition = true →
                (Core.execute
                    (Core.advance machine.processor (Decoded.length (Arm.Instruction.ofWord word)))
                    (Arm.Instruction.ofWord word) (Core.fetchAddress machine.processor) machine.bus
                    faults).core.get .pc - Core.fetchAddress machine.processor
                  = UInt32.ofInt distance := by
  constructor
  · intro source start instruction displacement hdecode hdisplacement
    refine ⟨_, X86.shownDistance?_text instruction hdisplacement, ?_⟩
    intro machine address faults hmakes
    have hlength : min instruction.length 0xFFFF = instruction.length := by
      have := (X86.decode_of_agrees hdecode).2.1
      omega
    have hadvanced : (machine.mapUnit fun unit => unit.advance instruction.length).makes
        instruction.operation = true := by
      rw [← hmakes]
      cases instruction.operation with
      | loop op _ => cases op <;> rfl
      | _ => rfl
    have hip := (machine.mapUnit fun unit => unit.advance instruction.length).ip_execute_relative
      (X86.decode_writable hdecode) hdisplacement address faults
    rw [if_pos hadvanced] at hip
    have hfollowing : (machine.mapUnit fun unit => unit.advance instruction.length).regs.ip
        = machine.regs.ip + UInt16.ofNat instruction.length := by
      show machine.regs.ip + UInt16.ofNat (min instruction.length 0xFFFF) = _
      rw [hlength]
    rw [hfollowing] at hip
    exact (congrArg (· - machine.regs.ip) hip).trans
      (X86.sub_ip_relative machine.regs.ip instruction.length displacement)
  · intro word link offset hbranch
    refine ⟨_, Arm.shownDistance?_text _ hbranch, ?_⟩
    intro machine faults haligned hcondition
    have hpc := Arm.Machine.get_pc_execute_branch
      ⟨machine.processor.advance Arm.instructionLength, machine.bus⟩ hbranch haligned hcondition
      faults
    exact (congrArg (· - Core.fetchAddress machine.processor) hpc).trans
      (Arm.sub_here_relative _ offset)

/-- A locked `JNZ` that goes back over the end of the segment, and a `BL` that goes back
    over the end of the address space. -/
theorem shown_distances_executed_backwards :
    (∃ instruction distance, X86.decode (.ofList [0xF0, 0x75, 0xFB]) 0 = .ok instruction
        ∧ shownDistance? (Decoded.text instruction) = some distance
        ∧ (Core.execute (Core.advance (countingMachine 0).unit (Decoded.length instruction))
            instruction 0 (countingMachine 0).bus .initial).core.regs.ip - 2
          = UInt16.ofInt distance)
      ∧ ∃ distance, shownDistance? (Decoded.text (Arm.Instruction.ofWord 0xEBFFFFF0))
          = some distance
        ∧ (Core.execute
            (Core.advance (numberedMachine 0).processor
              (Decoded.length (Arm.Instruction.ofWord 0xEBFFFFF0)))
            (Arm.Instruction.ofWord 0xEBFFFFF0) (Core.fetchAddress (numberedMachine 0).processor)
            (numberedMachine 0).bus .initial).core.get .pc - 4 = UInt32.ofInt distance := by
  obtain ⟨hx86, harm⟩ := @shown_distances_executed Terminal.Console _
  constructor
  · obtain ⟨distance, hshown, hexecuted⟩ := hx86 (.ofList [0xF0, 0x75, 0xFB]) 0 _ _ rfl rfl
    exact ⟨_, distance, rfl, hshown, hexecuted (countingMachine 0) 0 .initial (by decide +kernel)⟩
  · obtain ⟨distance, hshown, hexecuted⟩ := harm 0xEBFFFFF0 true _ rfl
    exact ⟨distance, hshown, hexecuted (numberedMachine 0) .initial (by decide +kernel)
      (by decide +kernel)⟩

end Microprocessor
