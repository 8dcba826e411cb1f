import Mathlib.Algebra.Group.Nat.Defs
import Microprocessor.Proofs.Arm.Banks

/-! # Writing registers, and the alignment of the program counter

    Whatever is written to the program counter, its low two bits are cleared.  So
    a program counter that is the address of a word stays one, however registers
    are written and whatever becomes of the status.

      * `Processor.Writes` is what writing registers can make of a processor, with
        one lemma for each way of writing them;
      * `Processor.Writes.registersOnly` and `Processor.Writes.aligned` say what
        that leaves alone;
      * `Processor.Aligned.setStatus` and its neighbours are the other changes. -/

namespace Microprocessor.Arm

/-! ## Addresses of words -/

/-- The address is that of a word. -/
def IsAligned (address : UInt32) : Prop :=
  address.toNat % 4 = 0

instance : DecidablePred IsAligned :=
  fun address => inferInstanceAs (Decidable (address.toNat % 4 = 0))

/-- Clearing the low bits of a number leaves a multiple of their power. -/
theorem and_high_bits {n : Nat} (hn : n < 2 ^ 32) {k : Nat} (hk : k ≤ 32) :
    n &&& ((2 ^ (32 - k) - 1) * 2 ^ k) = n / 2 ^ k * 2 ^ k := by
  apply Nat.eq_of_testBit_eq
  intro i
  rw [Nat.testBit_and, Nat.testBit_mul_two_pow, Nat.testBit_mul_two_pow,
    Nat.testBit_two_pow_sub_one, Nat.testBit_div_two_pow]
  by_cases hi : k ≤ i
  · rw [Nat.sub_add_cancel hi]
    by_cases hin : i < 32
    · simp only [hi, show i - k < 32 - k by omega, decide_true, Bool.and_true, Bool.true_and]
    · have hzero : n.testBit i = false :=
        Nat.testBit_lt_two_pow (Nat.lt_of_lt_of_le hn (Nat.pow_le_pow_right (by decide) (by omega)))
      rw [hzero, Bool.false_and, Bool.and_false]
  · simp only [hi, decide_false, Bool.false_and, Bool.and_false]

/-- The address of a word is the multiple of 4 below. -/
theorem toNat_wordAddress (address : UInt32) :
    (Processor.wordAddress address).toNat = address.toNat / 4 * 4 := by
  rw [Processor.wordAddress, UInt32.toNat_and]
  exact and_high_bits address.toNat_lt (show 2 ≤ 32 by decide)

/-- Clearing the low two bits makes the address of a word. -/
theorem isAligned_wordAddress (address : UInt32) : IsAligned (Processor.wordAddress address) := by
  rw [IsAligned, toNat_wordAddress]
  exact Nat.mul_mod_left _ _

/-- The address of a word has no low bits to clear. -/
theorem wordAddress_of_isAligned {address : UInt32} (h : IsAligned address) :
    Processor.wordAddress address = address := by
  rw [← UInt32.toNat_inj, toNat_wordAddress]
  exact Nat.div_mul_cancel (Nat.dvd_of_mod_eq_zero h)

/-- Whole words on from an address, its low bits are what they were. -/
theorem isAligned_add_iff {address span : UInt32} (h : IsAligned span) :
    IsAligned (address + span) ↔ IsAligned address := by
  rw [IsAligned] at h
  rw [IsAligned, IsAligned, UInt32.toNat_add]
  omega

/-- So they are whole words back. -/
theorem isAligned_sub_iff {address span : UInt32} (h : IsAligned span) :
    IsAligned (address - span) ↔ IsAligned address := by
  have hspan := span.toNat_lt
  rw [IsAligned] at h
  rw [IsAligned, IsAligned, UInt32.toNat_sub]
  omega

theorem isAligned_four : IsAligned 4 :=
  rfl

/-- The word after the word at an address. -/
theorem IsAligned.add_four {address : UInt32} (h : IsAligned address) : IsAligned (address + 4) :=
  (isAligned_add_iff isAligned_four).mpr h

namespace Processor

/-! ## Aligned processors -/

/-- The program counter is the address of a word. -/
def Aligned (processor : Processor) : Prop :=
  IsAligned (processor.get .pc)

instance : DecidablePred Aligned :=
  fun processor => inferInstanceAs (Decidable (IsAligned (processor.get .pc)))

namespace Aligned

variable {processor : Processor}

/-- Writing any register keeps it so. -/
theorem write (h : processor.Aligned) (register : Register) (value : UInt32) :
    (processor.write register value).Aligned := by
  cases hpc : register.isPc with
  | true =>
      rw [eq_pc_of_isPc hpc, Aligned, Processor.write, get_put_self]
      exact isAligned_wordAddress value
  | false =>
      have hother : register ≠ .pc := by
        rintro rfl
        cases hpc
      rw [write_of_not_isPc processor value hpc, Aligned, get_put_of_ne processor value hother]
      exact h

theorem setStatus (h : processor.Aligned) (status : Status) :
    (processor.setStatus status).Aligned := by
  rw [Aligned, get_setStatus processor status (by decide) (by decide)]
  exact h

theorem setSavedStatus (h : processor.Aligned) (status : Status) :
    (processor.setSavedStatus status).Aligned := by
  rw [Aligned, get_setSavedStatus]
  exact h

/-- Every handler begins at the address of a word. -/
theorem enter (processor : Processor) (exception : Exception) (returnAddress : UInt32) :
    (processor.enter exception returnAddress).Aligned := by
  rw [Aligned, get_pc_enter]
  cases exception <;> decide

/-- Moving on past an instruction is moving on by a word. -/
theorem advance (h : processor.Aligned) : (processor.advance instructionLength).Aligned := by
  rw [Aligned, Processor.advance, get_put_self]
  exact h.add_four

/-- Setting a register from outside is writing it, up to the end of a halt. -/
theorem setRegister (h : processor.Aligned) (register : Register) (value : UInt32) :
    (processor.setRegister register value).Aligned := by
  have hwritten := h.write register value
  rw [Processor.setRegister]
  split
  · rename_i hpc
    rw [eq_pc_of_isPc hpc] at hwritten
    exact hwritten
  · rename_i hother
    rw [write_of_not_isPc processor value (Bool.eq_false_iff.mpr hother)] at hwritten
    exact hwritten

end Aligned

/-! ## Writing registers -/

/-- What writing registers can make of a processor. -/
inductive Writes (before : Processor) : Processor → Prop
  | refl : Writes before before
  | write {after : Processor} (earlier : Writes before after) (register : Register)
      (value : UInt32) : Writes before (after.write register value)

namespace Writes

theorem trans {a b c : Processor} (hab : a.Writes b) (hbc : b.Writes c) : a.Writes c := by
  induction hbc with
  | refl => exact hab
  | write _ register value ih => exact ih.write register value

/-- A single register. -/
theorem single (processor : Processor) (register : Register) (value : UInt32) :
    processor.Writes (processor.write register value) :=
  .write .refl register value

theorem linkTo (processor : Processor) (link : Bool) (next : UInt32) :
    processor.Writes (processor.linkTo link next) := by
  cases link with
  | true => exact single processor .lr next
  | false => exact .refl

theorem writeBack (processor : Processor) (rn : Register) (address : UInt32) :
    processor.Writes (processor.writeBack rn address) := by
  rw [Processor.writeBack]
  split
  · exact .refl
  · exact single processor rn address

/-- A change of the base before a transfer. -/
theorem based (processor : Processor) (writesBack : Bool) (rn : Register) (address : UInt32) :
    processor.Writes (if writesBack then processor.writeBack rn address else processor) := by
  split
  · exact writeBack processor rn address
  · exact .refl

theorem writeAll (values : List (Register × UInt32)) :
    ∀ processor : Processor, processor.Writes (processor.writeAll values) := by
  induction values with
  | nil => exact fun _ => .refl
  | cons value rest ih =>
      intro processor
      exact (single processor value.1 value.2).trans (ih _)

variable {before after : Processor}

/-- Only registers are written. -/
theorem registersOnly (h : before.Writes after) : before.RegistersOnly after := by
  induction h with
  | refl => exact .refl before
  | write _ register value ih => exact ih.trans ⟨rfl, rfl⟩

/-- The program counter stays the address of a word. -/
theorem aligned (h : before.Writes after) (haligned : before.Aligned) : after.Aligned := by
  induction h with
  | refl => exact haligned
  | write _ register value ih => exact ih.write register value

end Writes

end Processor

end Microprocessor.Arm
