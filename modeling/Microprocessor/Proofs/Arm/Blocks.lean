import Mathlib.Data.List.Nodup
import Microprocessor.Proofs.Arm.Access
import Microprocessor.Proofs.Arm.ProgramCounter
import Microprocessor.Proofs.Storage.Runs

/-! # The words of a block

    A block transfer moves the registers of a list to and from consecutive words, with the
    register of the smallest number at the lowest address.

      * `rank` is the place of a register in a list, `Machine.wordOf` the address of its word, and
        `blockBytes` what is stored of the registers;
      * `Machine.mem_readBlock` and `Machine.readDouble_wordOf` are what is loaded of the word and
        what has been stored there;
      * `Processor.get_writeAll_of_mem` and `Processor.get_writeAll_of_not_mem`: what has been
        loaded is in the registers, and the others are as they were. -/

namespace Microprocessor.Arm

/-! ## Lists of registers -/

theorem Register.ofNumber_number (register : Register) : ofNumber register.number = register :=
  congrArg mk (Fin.eq_of_val_eq (Nat.mod_eq_of_lt register.number.isLt))

/-- The number of registers of a list whose numbers are smaller. -/
def rank (registers : UInt16) (n : Nat) : Nat :=
  (List.range n).countP (isListed registers)

/-- A listed register comes after those with smaller numbers. -/
theorem listedRegisters_eq_append {registers : UInt16} {n : Nat} (hn : n < 16)
    (h : isListed registers n = true) :
    ∃ below above, listedRegisters registers = below ++ n :: above
      ∧ below.length = rank registers n := by
  -- Up to and with it these are all; whatever follows comes after it.
  have hupTo : ∀ {m}, n + 1 ≤ m → ∃ above,
      (List.range m).filter (isListed registers)
        = (List.range n).filter (isListed registers) ++ n :: above := by
    intro m hm
    induction hm with
    | refl =>
        refine ⟨[], ?_⟩
        rw [List.range_succ, List.filter_append, List.filter_cons_of_pos h]
        rfl
    | @step m _ ih =>
        obtain ⟨above, habove⟩ := ih
        refine ⟨above ++ [m].filter (isListed registers), ?_⟩
        rw [List.range_succ, List.filter_append, habove, List.append_assoc, List.cons_append]
  obtain ⟨above, habove⟩ := hupTo (Nat.succ_le_of_lt hn)
  exact ⟨_, above, habove, List.countP_eq_length_filter.symm⟩

/-- A list names every register once. -/
theorem nodup_listed (registers : UInt16) :
    ((listedRegisters registers).map Register.ofNumber).Nodup := by
  refine List.Nodup.map_on ?_ (List.Nodup.filter _ List.nodup_range)
  intro n hn m hm hsame
  have hnumber : n % 16 = m % 16 := congrArg (fun register => register.number.val) hsame
  rwa [Nat.mod_eq_of_lt (Machine.mem_listedRegisters_iff.mp hn).1,
    Nat.mod_eq_of_lt (Machine.mem_listedRegisters_iff.mp hm).1] at hnumber

/-- A register is among those of a list if its number is. -/
theorem mem_listed_iff {registers : UInt16} {register : Register} :
    register ∈ (listedRegisters registers).map Register.ofNumber
      ↔ isListed registers register.number = true := by
  constructor
  · intro hmem
    obtain ⟨n, hn, rfl⟩ := List.mem_map.mp hmem
    obtain ⟨hrange, hlisted⟩ := Machine.mem_listedRegisters_iff.mp hn
    have hnumber : (Register.ofNumber n).number.val = n := Nat.mod_eq_of_lt hrange
    rw [hnumber]
    exact hlisted
  · intro hlisted
    have hmem := Machine.mem_listedRegisters_iff.mpr ⟨register.number.isLt, hlisted⟩
    exact register.ofNumber_number ▸ List.mem_map_of_mem hmem

/-! ## Bytes -/

/-- The number of bytes of the registers of a list. -/
def blockSize (registers : UInt16) : Nat :=
  4 * (listedRegisters registers).length

/-- At most sixteen registers are listed. -/
theorem blockSize_le (registers : UInt16) : blockSize registers ≤ UInt32.size := by
  have hcount : (listedRegisters registers).length ≤ 16 :=
    Nat.le_trans (List.length_filter_le _ _) (Nat.le_of_eq List.length_range)
  exact Nat.le_trans (Nat.mul_le_mul_left 4 hcount) (by decide)

/-- The bytes of the registers of a list, with these values. -/
def blockBytes (value : Register → UInt32) (registers : UInt16) : List UInt8 :=
  (((listedRegisters registers).map Register.ofNumber).map value).flatMap bytesOfDouble

theorem length_blockBytes (value : Register → UInt32) (registers : UInt16) :
    (blockBytes value registers).length = blockSize registers := by
  rw [blockBytes, Machine.length_flatMap_bytesOfDouble, List.length_map, List.length_map, blockSize]

/-! ## Loading -/

namespace Machine

/-- The address of the word of a register, in a block from an address on. -/
def wordOf (start : UInt32) (registers : UInt16) (register : Register) : UInt32 :=
  start + UInt32.ofNat (4 * rank registers register.number)

/-- Four bytes further for every word. -/
theorem add_four_mul_succ (address : UInt32) (count : Nat) :
    address + 4 + UInt32.ofNat (4 * count) = address + UInt32.ofNat (4 * (count + 1)) := by
  rw [Nat.mul_succ, UInt32.ofNat_add, UInt32.add_assoc, UInt32.add_comm 4]
  rfl

/-- The words of a second list come after those of the first. -/
theorem readBlock_append (memory : Memory) (second : List Register) (first : List Register) :
    ∀ address : UInt32, readBlock memory address (first ++ second)
      = readBlock memory address first
        ++ readBlock memory (address + UInt32.ofNat (4 * first.length)) second := by
  induction first with
  | nil => exact fun address => congrArg (readBlock memory · second) (UInt32.add_zero address).symm
  | cons register rest ih =>
      intro address
      rw [List.cons_append, readBlock, readBlock, ih, List.cons_append, List.length_cons,
        add_four_mul_succ]

/-- A listed register is loaded with its word. -/
theorem mem_readBlock (memory : Memory) (start : UInt32) {registers : UInt16}
    {register : Register} (h : isListed registers register.number = true) :
    (register, memory.readDouble (wordOf start registers register))
      ∈ readBlock memory start ((listedRegisters registers).map Register.ofNumber) := by
  obtain ⟨below, above, hlisted, hlength⟩ := listedRegisters_eq_append register.number.isLt h
  rw [hlisted, List.map_append, List.map_cons, readBlock_append, List.length_map, hlength,
    register.ofNumber_number, readBlock]
  exact List.mem_append_right _ List.mem_cons_self

/-- What has been stored of registers is loaded. -/
theorem readBlock_eq_of_hasBytes {memory : Memory} {value : Register → UInt32}
    (listed : List Register) :
    ∀ {address : UInt32},
      memory.HasBytes address ((listed.map value).flatMap bytesOfDouble) →
      readBlock memory address listed = listed.map fun register => (register, value register) := by
  induction listed with
  | nil => exact fun _ => rfl
  | cons register rest ih =>
      intro address h
      rw [List.map_cons, List.flatMap_cons] at h
      rw [readBlock, List.map_cons, h.left.readDouble]
      exact congrArg _ (ih h.right)

/-- A listed register has been stored in its word. -/
theorem readDouble_wordOf {memory : Memory} {start : UInt32} {registers : UInt16}
    {value : Register → UInt32}
    (h : memory.HasBytes start (blockBytes value registers)) {register : Register}
    (hlisted : isListed registers register.number = true) :
    memory.readDouble (wordOf start registers register) = value register := by
  have hmem := mem_readBlock memory start hlisted
  rw [readBlock_eq_of_hasBytes _ h] at hmem
  obtain ⟨_, -, hpair⟩ := List.mem_map.mp hmem
  injection hpair with hregister hvalue
  rw [← hvalue, hregister]

end Machine

/-! ## Writing what has been loaded -/

namespace Processor

variable {values : List (Register × UInt32)} {register : Register}

/-- A register that is not written is as it was. -/
theorem get_writeAll_of_not_mem (h : register ∉ values.map Prod.fst) (processor : Processor) :
    (processor.writeAll values).get register = processor.get register := by
  induction values generalizing processor with
  | nil => rfl
  | cons first rest ih =>
      exact (ih (List.not_mem_of_not_mem_cons h) _).trans
        (get_put_of_ne _ _ (List.ne_of_not_mem_cons h).symm)

/-- Whether the processor waits is as it was. -/
theorem halted_writeAll (values : List (Register × UInt32)) (processor : Processor) :
    (processor.writeAll values).halted = processor.halted := by
  induction values generalizing processor with
  | nil => rfl
  | cons first rest ih => exact ih (processor.write first.1 first.2)

/-- A register other than the program counter that is written once has the value. -/
theorem get_writeAll_of_mem {value : UInt32} (hnodup : (values.map Prod.fst).Nodup)
    (h : (register, value) ∈ values) (hpc : register ≠ .pc) (processor : Processor) :
    (processor.writeAll values).get register = value := by
  induction values generalizing processor with
  | nil => cases h
  | cons first rest ih =>
      obtain ⟨hfirst, hrest⟩ := List.nodup_cons.mp hnodup
      obtain rfl | hmem := List.mem_cons.mp h
      · exact (get_writeAll_of_not_mem hfirst (processor.write register value)).trans
          ((congrArg (·.get register) (processor.write_of_ne hpc value)).trans
            (get_put_self _ _ _))
      · exact ih hrest hmem _

end Processor

end Microprocessor.Arm
