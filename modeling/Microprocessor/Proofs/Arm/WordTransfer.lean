import Microprocessor.Proofs.Arm.Footprint

/-! # The word that a transfer names

    Memory is made of words at multiples of 4.  A transfer of a word, of a pair of words or
    of a swap names the word that its address lies in, whatever the low bits of the address.
    A block transfer does not: its words begin where its base says, and then each of them
    lies in two words of memory.

      * `Access.Crosses` says that an access touches two words of memory;
      * `Processor.crosses_iff`: such are the words of blocks, where the base is not the
        address of a word, and no others;
      * `Machine.NamesWord` is what the single transfers do to the word at a base, and
        `Machine.NamesBase` what the block transfers do;
      * `words_cross_in_unaligned_blocks` puts it together. -/

namespace Microprocessor.Arm

/-! ## Words of memory -/

/-- An access touches two words of memory. -/
def Access.Crosses (access : Access) : Prop :=
  ∃ i j, i < access.size ∧ j < access.size ∧
    Processor.wordAddress (access.byte i) ≠ Processor.wordAddress (access.byte j)

/-- The address of a halfword is the multiple of 2 below. -/
theorem toNat_halfwordAddress (address : UInt32) :
    (halfwordAddress address).toNat = address.toNat / 2 * 2 := by
  rw [halfwordAddress, UInt32.toNat_and]
  exact and_high_bits address.toNat_lt (show 1 ≤ 32 by decide)

namespace Access

/-- An access that begins and ends within a word does not touch another. -/
theorem not_crosses_of_fits {access : Access}
    (h : access.address.toNat % 4 + access.size ≤ 4) : ¬access.Crosses := by
  have hword : ∀ i, i < access.size →
      (Processor.wordAddress (access.byte i)).toNat = access.address.toNat / 4 * 4 := by
    intro i hi
    -- The last byte is below the next word, so that no address wraps.
    have haddress := access.address.toNat_lt
    rw [toNat_wordAddress, byte, UInt32.toNat_add, UInt32.toNat_ofNat']
    omega
  rintro ⟨i, j, hi, hj, hne⟩
  exact hne (UInt32.toNat_inj.mp ((hword i hi).trans (hword j hj).symm))

/-- A word touches another word if it is not at the address of one. -/
theorem crosses_word_iff (address : UInt32) :
    (Access.mk address 4).Crosses ↔ ¬IsAligned address := by
  constructor
  · intro hcrosses haligned
    have hfits : address.toNat % 4 + 4 ≤ 4 := Nat.le_of_eq (congrArg (· + 4) haligned)
    exact not_crosses_of_fits hfits hcrosses
  · intro hlow
    -- The last byte is in the next word, or in the first where the addresses wrap.
    refine ⟨0, 3, (by decide : 0 < 4), (by decide : 3 < 4), ?_⟩
    have haddress := address.toNat_lt
    rw [IsAligned] at hlow
    rw [ne_eq, ← UInt32.toNat_inj, toNat_wordAddress, toNat_wordAddress, byte, byte,
      UInt32.toNat_add, UInt32.toNat_add, UInt32.toNat_ofNat', UInt32.toNat_ofNat']
    dsimp only
    omega

/-- The word that an address lies in touches no other. -/
theorem not_crosses_wordAddress (address : UInt32) :
    ¬(Access.mk (Processor.wordAddress address) 4).Crosses := by
  rw [crosses_word_iff, Decidable.not_not]
  exact isAligned_wordAddress address

/-- Nor does the word after it. -/
theorem not_crosses_wordAddress_add_four (address : UInt32) :
    ¬(Access.mk (Processor.wordAddress address + 4) 4).Crosses := by
  rw [crosses_word_iff, Decidable.not_not]
  exact (isAligned_wordAddress address).add_four

/-- A single byte lies in one word. -/
theorem not_crosses_byte (address : UInt32) : ¬(Access.mk address 1).Crosses :=
  not_crosses_of_fits (show address.toNat % 4 + 1 ≤ 4 by omega)

/-- A halfword lies in one word. -/
theorem not_crosses_halfwordAddress (address : UInt32) :
    ¬(Access.mk (halfwordAddress address) 2).Crosses := by
  refine not_crosses_of_fits ?_
  show (halfwordAddress address).toNat % 4 + 2 ≤ 4
  rw [toNat_halfwordAddress]
  omega

theorem not_crosses_ofTransfer (byte : Bool) (address : UInt32) :
    ¬(ofTransfer byte address).Crosses := by
  cases byte with
  | true => exact not_crosses_byte address
  | false => exact not_crosses_wordAddress address

theorem not_crosses_ofHalfword (kind : HalfwordKind) (address : UInt32) :
    ∀ access ∈ ofHalfword kind address, ¬access.Crosses := by
  cases kind with
  | unsignedHalf => exact List.forall_mem_singleton.mpr (not_crosses_halfwordAddress address)
  | signedHalf => exact List.forall_mem_singleton.mpr (not_crosses_halfwordAddress address)
  | signedByte => exact List.forall_mem_singleton.mpr (not_crosses_byte address)
  | double =>
      exact List.forall_mem_cons.mpr ⟨not_crosses_wordAddress address,
        List.forall_mem_singleton.mpr (not_crosses_wordAddress_add_four address)⟩

/-- Every word of a block touches another word if the first does. -/
theorem crosses_ofBlock_iff {access : Access} {count : Nat} :
    ∀ {address : UInt32}, access ∈ ofBlock address count →
      (access.Crosses ↔ ¬IsAligned address) := by
  induction count with
  | zero => exact fun h => absurd h List.not_mem_nil
  | succ count ih =>
      intro address h
      obtain rfl | hrest := List.mem_cons.mp h
      · exact crosses_word_iff address
      · exact (ih hrest).trans (not_congr (isAligned_add_iff isAligned_four))

end Access

/-- A block begins as far from the address of a word as its base does. -/
theorem isAligned_blockStart_iff (indexing : Indexing) (base : UInt32) (count : Nat) :
    IsAligned (Machine.blockStart indexing base count) ↔ IsAligned base := by
  have hspan : IsAligned (UInt32.ofNat (4 * count)) := by
    rw [IsAligned, UInt32.toNat_ofNat']
    omega
  rw [Machine.blockStart]
  split
  · rfl
  · exact isAligned_add_iff isAligned_four
  · exact (isAligned_add_iff isAligned_four).trans (isAligned_sub_iff hspan)
  · exact isAligned_sub_iff hspan

/-- The stores of a block are the accesses of one. -/
theorem accesses_runsOfBlock (values : List UInt32) :
    ∀ address : UInt32,
      ((runsOfBlock address values).map fun run => Access.mk run.1 run.2.length)
        = Access.ofBlock address values.length := by
  induction values with
  | nil => exact fun _ => rfl
  | cons value rest ih => exact fun address => congrArg (Access.mk address 4 :: ·) (ih (address + 4))

/-- What a transfer of a byte or a word stores lies in one word. -/
theorem not_crosses_runOfTransfer (byte : Bool) (address value : UInt32) :
    ¬(Access.mk (runOfTransfer byte address value).1
      (runOfTransfer byte address value).2.length).Crosses := by
  cases byte with
  | true => exact Access.not_crosses_byte address
  | false => exact Access.not_crosses_wordAddress address

/-! ## Operations -/

/-- The register of the base of a block transfer. -/
def Operation.blockBase? : Operation → Option Register
  | .blockTransfer _ _ _ rn _ => some rn
  | _ => none

namespace Processor

/-- The accesses of a block transfer are those of its words. -/
theorem accesses_blockTransfer (processor : Processor) (here : UInt32) (load : Bool)
    (indexing : Indexing) (userBank : Bool) (rn : Register) (registers : UInt16) :
    processor.accesses here (.blockTransfer load indexing userBank rn registers)
      = Access.ofBlock
          (Machine.blockStart indexing (processor.operand (here + 8) rn)
            (listedRegisters registers).length)
          (listedRegisters registers).length := by
  rw [accesses]
  cases load with
  | true => exact List.append_nil _
  | false =>
      simp only [loads, stores, accesses_runsOfBlock, List.length_map, List.nil_append]

/-- What is no block transfer touches no two words by one access. -/
theorem not_crosses_of_not_block (processor : Processor) (here : UInt32) {operation : Operation}
    (hnot : operation.blockBase? = none) :
    ∀ access ∈ processor.accesses here operation, ¬access.Crosses := by
  rw [accesses, List.forall_mem_append, List.forall_mem_map]
  cases operation with
  | swap byte rn rd rm =>
      exact ⟨List.forall_mem_singleton.mpr (Access.not_crosses_ofTransfer byte _),
        List.forall_mem_singleton.mpr (not_crosses_runOfTransfer byte _ _)⟩
  | singleTransfer load byte indexing rn rd offset =>
      cases load with
      | true =>
          exact ⟨List.forall_mem_singleton.mpr (Access.not_crosses_ofTransfer byte _),
            List.forall_mem_nil _⟩
      | false =>
          exact ⟨List.forall_mem_nil _,
            List.forall_mem_singleton.mpr (not_crosses_runOfTransfer byte _ _)⟩
  | halfwordTransfer load kind indexing rn rd offset =>
      have hloads := Access.not_crosses_ofHalfword kind
        (processor.halfwordTransferAddress (here + 8) indexing rn offset)
      cases kind <;> cases load
      case unsignedHalf.false =>
        exact ⟨List.forall_mem_nil _,
          List.forall_mem_singleton.mpr (Access.not_crosses_halfwordAddress _)⟩
      case double.false =>
        exact ⟨List.forall_mem_nil _, List.forall_mem_cons.mpr
          ⟨Access.not_crosses_wordAddress _, List.forall_mem_singleton.mpr
            (Access.not_crosses_wordAddress_add_four _)⟩⟩
      all_goals exact ⟨hloads, List.forall_mem_nil _⟩
  | blockTransfer load indexing userBank rn registers => cases hnot
  | _ => exact ⟨List.forall_mem_nil _, List.forall_mem_nil _⟩

/-- An access touches two words if it is one of a block whose base is not the address of a
    word, and only then. -/
theorem crosses_iff (processor : Processor) (here : UInt32) (operation : Operation) :
    ∀ access ∈ processor.accesses here operation,
      (access.Crosses ↔
        ∃ rn, operation.blockBase? = some rn ∧ ¬IsAligned (processor.operand (here + 8) rn)) := by
  intro access h
  cases hbase : operation.blockBase? with
  | none =>
      refine iff_of_false (processor.not_crosses_of_not_block here hbase access h) ?_
      rintro ⟨rn, hsome, -⟩
      cases hsome
  | some rn =>
      cases operation with
      | blockTransfer load indexing userBank rn registers =>
          cases hbase
          rw [accesses_blockTransfer] at h
          rw [Access.crosses_ofBlock_iff h, isAligned_blockStart_iff]
          exact ⟨fun hlow => ⟨rn, rfl, hlow⟩, fun ⟨_, hrn, hlow⟩ => Option.some.inj hrn ▸ hlow⟩
      | _ => cases hbase

end Processor

/-! ## Addresses without an offset -/

/-- Without an offset the address is the base. -/
theorem Indexing.address_zero (indexing : Indexing) (base : UInt32) :
    indexing.address base 0 = base := by
  rw [address, moved]
  split
  · split
    · exact UInt32.add_zero base
    · exact UInt32.sub_zero base
  · rfl

namespace Processor

theorem transferAddress_zero (processor : Processor) (pc : UInt32) (indexing : Indexing)
    (rn : Register) :
    processor.transferAddress pc indexing rn (.immediate 0) = processor.operand pc rn :=
  indexing.address_zero _

theorem halfwordTransferAddress_zero (processor : Processor) (pc : UInt32) (indexing : Indexing)
    (rn : Register) :
    processor.halfwordTransferAddress pc indexing rn (.immediate 0) = processor.operand pc rn :=
  indexing.address_zero _

end Processor

/-- A block of one word that does not begin past its base begins there, whether it goes up or
    down. -/
theorem blockStart_one {indexing : Indexing} (hpost : indexing.preIndex = false) (base : UInt32) :
    Machine.blockStart indexing base 1 = base := by
  rw [Machine.blockStart, hpost]
  cases indexing.add with
  | true => rfl
  | false => exact UInt32.sub_add_cancel base 4

/-! ## The word at a base -/

/-- What a register holds once a value has been written to it. -/
def Register.written (register : Register) (value : UInt32) : UInt32 :=
  if register.isPc then Processor.wordAddress value else value

theorem Processor.get_write_self (processor : Processor) (register : Register) (value : UInt32) :
    (processor.write register value).get register = register.written value :=
  processor.get_put_self register _

/-- A register of User mode that has been written holds the value. -/
theorem Processor.userOperand_userWrite (processor : Processor) (pc : UInt32)
    {register : Register} (h : register.isPc = false) (value : UInt32) :
    (processor.userWrite register value).userOperand pc register = value := by
  have hsame : (processor.userWrite register value).isSetAside register
      = processor.isSetAside register := by
    rw [userWrite]
    split <;> rfl
  rw [userOperand, hsame, userWrite]
  cases haside : processor.isSetAside register with
  | true =>
      rw [if_pos rfl, if_pos rfl]
      by_cases hsp : register = .sp
      · rw [if_pos hsp]
        show (if register = .sp then _ else _ : BankedRegisters).sp = value
        rw [if_pos hsp]
      · rw [if_neg hsp]
        show (if register = .sp then _ else _ : BankedRegisters).lr = value
        rw [if_neg hsp]
  | false =>
      rw [if_neg Bool.false_ne_true, if_neg Bool.false_ne_true, operand, h,
        if_neg Bool.false_ne_true, get_write_self, Register.written, h, if_neg Bool.false_ne_true]

namespace Machine

variable {δ : Type}

/-- The single transfers of a word, of a pair of words and of a swap, with a base and no
    offset, store the word at an address and load it, rotated by a number of places.  Of a pair
    it is the first word, and is not rotated. -/
structure NamesWord (machine : Machine δ) (here : UInt32) (rn : Register) (word : UInt32)
    (places : Nat) : Prop where
  store : ∀ indexing rd,
    (machine.perform here (.singleTransfer false false indexing rn rd (.immediate 0))).memory
      = machine.memory.writeDouble word (machine.processor.operand (here + 8) rd)
  swapStore : ∀ rd rm, (machine.perform here (.swap false rn rd rm)).memory
    = machine.memory.writeDouble word (machine.processor.operand (here + 8) rm)
  pairStore : ∀ indexing rd,
    (machine.perform here (.halfwordTransfer false .double indexing rn rd (.immediate 0))).memory
      = (machine.memory.writeDouble word (machine.processor.operand (here + 8) rd)).writeDouble
          (word + 4) (machine.processor.operand (here + 8) rd.partner)
  load : ∀ indexing rd,
    (machine.perform here
        (.singleTransfer true false indexing rn rd (.immediate 0))).processor.get rd
      = rd.written (rotateRight (machine.memory.readDouble word) places)
  swapLoad : ∀ rd rm, (machine.perform here (.swap false rn rd rm)).processor.get rd
    = rd.written (rotateRight (machine.memory.readDouble word) places)
  pairLoad : ∀ indexing rd, rd.partner ≠ rd →
    (machine.perform here
        (.halfwordTransfer true .double indexing rn rd (.immediate 0))).processor.get rd
      = rd.written (machine.memory.readDouble word)

/-- The single transfers name the word of memory that the base lies in. -/
theorem namesWord (machine : Machine δ) (here : UInt32) (rn : Register) :
    machine.NamesWord here rn
      (Processor.wordAddress (machine.processor.operand (here + 8) rn))
      (8 * ((machine.processor.operand (here + 8) rn).toNat % 4)) := by
  constructor
  case store =>
    intro indexing rd
    rw [memory_perform, Processor.stores, Processor.transferAddress_zero]
    rfl
  case swapStore => exact fun rd rm => rfl
  case pairStore =>
    intro indexing rd
    rw [memory_perform, Processor.stores, Processor.halfwordTransferAddress_zero]
    rfl
  case load =>
    intro indexing rd
    rw [← machine.processor.transferAddress_zero (here + 8) indexing rn]
    exact Processor.get_write_self _ rd _
  case swapLoad => exact fun rd rm => Processor.get_write_self _ rd _
  case pairLoad =>
    intro indexing rd hpartner
    rw [← machine.processor.halfwordTransferAddress_zero (here + 8) indexing rn]
    exact (Processor.get_put_of_ne _ _ hpartner).trans (Processor.get_write_self _ rd _)

/-- What loading a block of one register makes of the processor. -/
theorem processor_loadOne (machine : Machine δ) (here : UInt32) {indexing : Indexing}
    (userBank : Bool) (rn : Register) {registers : UInt16} {n : Nat}
    (hpost : indexing.preIndex = false) (hlisted : listedRegisters registers = [n]) :
    (machine.perform here (.blockTransfer true indexing userBank rn registers)).processor
      = let base := machine.processor.operand (here + 8) rn
        let value := machine.memory.readDouble base
        let based :=
          if indexing.writeBack && !isListed registers rn.number then
            machine.processor.writeBack rn (indexing.moved base 4)
          else machine.processor
        if userBank && !isListed registers 15 then based.userWrite (.ofNumber n) value
        else if userBank then (based.write (.ofNumber n) value).leaveException
        else based.write (.ofNumber n) value := by
  rw [perform, blockTransfer, hlisted, List.map_singleton, List.length_singleton,
    blockStart_one hpost]
  rfl

/-- The block transfers of a single register, with a base and no offset, store the word at an
    address and load it.  For User mode it is a register of that mode that is stored, and
    loaded unless it is the program counter. -/
structure BlockNamesWord (machine : Machine δ) (here : UInt32) (rn : Register) (word : UInt32) :
    Prop where
  store : ∀ indexing userBank registers n, indexing.preIndex = false →
    listedRegisters registers = [n] →
    (machine.perform here (.blockTransfer false indexing userBank rn registers)).memory
      = machine.memory.writeDouble word
          (if userBank then machine.processor.userOperand (here + 8) (.ofNumber n)
            else machine.processor.operand (here + 8) (.ofNumber n))
  load : ∀ indexing userBank registers n, indexing.preIndex = false →
    listedRegisters registers = [n] → userBank = false ∨ n = 15 →
    (machine.perform here
        (.blockTransfer true indexing userBank rn registers)).processor.get (.ofNumber n)
      = (Register.ofNumber n).written (machine.memory.readDouble word)
  userLoad : ∀ indexing registers n, indexing.preIndex = false →
    listedRegisters registers = [n] → n ≠ 15 →
    (machine.perform here
        (.blockTransfer true indexing true rn registers)).processor.userOperand (here + 8)
          (.ofNumber n)
      = machine.memory.readDouble word

/-- The block transfers name the word that begins at the base. -/
theorem blockNamesWord (machine : Machine δ) (here : UInt32) (rn : Register) :
    machine.BlockNamesWord here rn (machine.processor.operand (here + 8) rn) := by
  constructor
  case store =>
    intro indexing userBank registers n hpost hlisted
    rw [memory_perform, Processor.stores, hlisted, List.map_singleton, List.map_singleton,
      List.length_singleton, blockStart_one hpost]
    rfl
  case load =>
    intro indexing userBank registers n hpost hlisted huser
    rw [machine.processor_loadOne here userBank rn hpost hlisted]
    obtain rfl | rfl := huser
    · exact Processor.get_write_self _ _ _
    · -- The program counter is loaded as it always is, and then the status goes back.
      have hpc : isListed registers 15 = true :=
        (mem_listedRegisters_iff.mp (hlisted ▸ List.mem_singleton_self 15)).2
      rw [hpc, Bool.not_true, Bool.and_false, if_neg Bool.false_ne_true]
      cases userBank with
      | false => exact Processor.get_write_self _ _ _
      | true => exact (Processor.get_pc_setStatus _ _).trans (Processor.get_write_self _ _ _)
  case userLoad =>
    intro indexing registers n hpost hlisted hother
    have hunlisted : isListed registers 15 = false := by
      rw [Bool.eq_false_iff]
      intro h
      have hmem := mem_listedRegisters_iff.mpr ⟨(by decide : 15 < 16), h⟩
      rw [hlisted] at hmem
      exact hother (List.mem_singleton.mp hmem).symm
    have hpc : (Register.ofNumber n).isPc = false := by
      have hnot := pc_not_mem_listed hunlisted
      rw [hlisted] at hnot
      exact Bool.eq_false_iff.mpr fun h =>
        List.ne_of_not_mem_cons hnot (Processor.eq_pc_of_isPc h).symm
    rw [machine.processor_loadOne here true rn hpost hlisted, hunlisted]
    exact Processor.userOperand_userWrite _ _ hpc _

end Machine

/-! ## All transfers -/

/-- A single transfer names the word of memory that its base lies in, and a block transfer of
    one register that which begins at its base: the same, if the base is the address of a word,
    and only then.  Of memory, an operation changes what it stores and depends on what it loads,
    and on nothing else.  One of these accesses touches two words of memory if it is one of a
    block transfer whose base is not the address of a word, and only then. -/
theorem words_cross_in_unaligned_blocks {δ : Type} (machine : Machine δ) (here : UInt32) :
    (∀ rn,
        let base := machine.processor.operand (here + 8) rn
        machine.NamesWord here rn (Processor.wordAddress base) (8 * (base.toNat % 4))
          ∧ machine.BlockNamesWord here rn base
          ∧ (Processor.wordAddress base = base ↔ IsAligned base))
      ∧ ∀ operation,
        (machine.perform here operation).memory
            = machine.memory.storeRuns (machine.processor.stores here operation)
          ∧ (∀ other : Machine δ, other.processor = machine.processor →
            (∀ access ∈ machine.processor.loads here operation,
              access.Agree machine.memory other.memory) →
            (other.perform here operation).processor
              = (machine.perform here operation).processor)
          ∧ ∀ access ∈ machine.processor.accesses here operation,
            (access.Crosses ↔ ∃ rn, operation.blockBase? = some rn
              ∧ ¬IsAligned (machine.processor.operand (here + 8) rn)) := by
  constructor
  · intro rn base
    exact ⟨machine.namesWord here rn, machine.blockNamesWord here rn,
      fun h => h ▸ isAligned_wordAddress base, wordAddress_of_isAligned⟩
  · intro operation
    exact ⟨machine.memory_perform here operation,
      fun _ hprocessor hagree => Machine.processor_perform_congr hprocessor hagree,
      machine.processor.crosses_iff here operation⟩

/-- An ARM with a word in R0, and in R1 an address after that of a word. -/
def midWord : Machine Unit where
  processor := (Processor.initial.put (.ofNumber 0) 0x44332211).put (.ofNumber 1) 17
  bus := .of ⟨Array.replicate 24 0, none⟩ .empty 4 4

/-- STR R0,[R1] stores the word at 16, STMIA R1,{R0} that at 17, which is in two words. -/
theorem words_cross_in_unaligned_blocks_storing :
    (midWord.perform 0 (Instruction.ofWord 0xE5810000).operation).memory.dump 16 5
        = [0x11, 0x22, 0x33, 0x44, 0]
      ∧ (midWord.perform 0 (Instruction.ofWord 0xE8810001).operation).memory.dump 16 5
        = [0, 0x11, 0x22, 0x33, 0x44]
      ∧ (Access.mk 17 4).Crosses := by
  obtain ⟨hnames, hoperations⟩ := words_cross_in_unaligned_blocks midWord 0
  obtain ⟨hword, hblock, -⟩ := hnames (.ofNumber 1)
  obtain ⟨-, -, hcrosses⟩ := hoperations (Instruction.ofWord 0xE8810001).operation
  refine ⟨?_, ?_, (hcrosses ⟨17, 4⟩ (by decide)).mpr ⟨.ofNumber 1, rfl, by decide⟩⟩
  · exact (congrArg (Memory.dump · 16 5) (hword.store ⟨true, true, false⟩ (.ofNumber 0))).trans
      (by decide)
  · exact (congrArg (Memory.dump · 16 5)
      (hblock.store ⟨false, true, false⟩ false 1 0 rfl (by decide))).trans (by decide)

end Microprocessor.Arm
