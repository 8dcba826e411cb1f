import Mathlib.Algebra.Group.Int.Defs
import Microprocessor.Proofs.Arm.DataProcessing

/-! # Products are exact

    A product, with an addend or without, is a number of which a register or a pair of
    registers keep as many bits as they have.  Every operand is read before the first
    register is written, so that the operands may be among the registers of the result.

      * `number` is how an operand is read, and `Processor.pair` the number that a pair holds;
      * `toNat_longProduct` and `pair_multiplyLong` are the 64 bits of a long product;
      * `Status.Describes` and `Processor.TakesProduct` say what else changes;
      * `products_exact` puts it together for the instructions. -/

namespace Microprocessor.Arm

/-! ## Numbers -/

/-- The number that an operand is read as, with a sign or without. -/
def number (withSign : Bool) (word : UInt32) : Int :=
  if withSign then signed word else word.toNat

/-- The number that a pair of registers holds, its upper half in the first. -/
def Processor.pair (processor : Processor) (high low : Register) : Nat :=
  (processor.get high).toNat * 2 ^ 32 + (processor.get low).toNat

/-- A number of 64 bits keeps the low ones. -/
theorem toNat_ofInt64 (n : Int) : ((UInt64.ofInt n).toNat : Int) = n % 2 ^ 64 := by
  have hlow := Int.emod_nonneg n (b := 2 ^ 64) (by decide)
  have hhigh := Int.emod_lt_of_pos n (b := 2 ^ 64) (by decide)
  show (((n % 2 ^ 64).toNat % 2 ^ 64 : Nat) : Int) = _
  omega

/-- A long product has all its bits. -/
theorem toNat_longProduct (withSign : Bool) (a b : UInt32) :
    ((longProduct withSign a b).toNat : Int) = number withSign a * number withSign b % 2 ^ 64 := by
  cases withSign with
  | true => exact toNat_ofInt64 _
  | false =>
      show (((a.toUInt64 * b.toUInt64).toNat : Nat) : Int) = (a.toNat * b.toNat : Int) % 2 ^ 64
      rw [UInt64.toNat_mul, UInt32.toNat_toUInt64, UInt32.toNat_toUInt64, Int.natCast_emod,
        Int.natCast_mul]
      rfl

/-- Two words make a double one. -/
theorem toNat_doubled (high low : UInt32) :
    ((high.toUInt64 <<< 32) ||| low.toUInt64).toNat = high.toNat * 2 ^ 32 + low.toNat := by
  have hhigh := high.toNat_lt
  have hshift : (high.toUInt64 <<< 32).toNat = high.toNat <<< 32 := by
    rw [UInt64.toNat_shiftLeft]
    show (high.toNat <<< 32) % 2 ^ 64 = _
    rw [Nat.shiftLeft_eq]
    omega
  rw [UInt64.toNat_or, hshift, UInt32.toNat_toUInt64,
    ← Nat.shiftLeft_add_eq_or_of_lt low.toNat_lt, Nat.shiftLeft_eq]

/-- The halves of a double word make it up. -/
theorem toNat_halves (double : UInt64) :
    (double >>> 32).toUInt32.toNat * 2 ^ 32 + double.toUInt32.toNat = double.toNat := by
  have hdouble := double.toNat_lt
  rw [UInt64.toNat_toUInt32, UInt64.toNat_toUInt32, UInt64.toNat_shiftRight]
  show (double.toNat >>> 32) % 2 ^ 32 * 2 ^ 32 + double.toNat % 2 ^ 32 = double.toNat
  rw [Nat.shiftRight_eq_div_pow]
  omega

/-! ## The flags of a product -/

/-- The flags N and Z describe a number of some bits; the rest of the status is as before. -/
structure Status.Describes (before after : Status) (bits value : Nat) : Prop where
  negative : after.get .negative = true ↔ 2 ^ (bits - 1) ≤ value
  zero : after.get .zero = true ↔ value = 0
  carry : after.get .carry = before.get .carry
  overflow : after.get .overflow = before.get .overflow
  control : after.control = before.control

/-- N and Z describe a number if they are set as it says. -/
theorem Status.describes_set (status : Status) {negative zero : Bool} {bits value : Nat}
    (hnegative : negative = true ↔ 2 ^ (bits - 1) ≤ value) (hzero : zero = true ↔ value = 0) :
    status.Describes ((status.set .negative negative).set .zero zero) bits value := by
  constructor
  case negative => simpa using hnegative
  case zero => simpa using hzero
  case carry => simp
  case overflow => simp
  case control => exact status.control_set_set negative zero

/-- A processor takes a product into registers, and the flags describe it if they are asked to.
    All else of it is as before. -/
structure Processor.TakesProduct (before after : Processor) (setFlags : Bool)
    (destinations : List Register) (bits value : Nat) : Prop where
  others : ∀ register, register ∉ destinations → after.get register = before.get register
  flags : setFlags = true → before.status.Describes after.status bits value
  status : setFlags = false → after.status = before.status
  banks : after.banks = before.banks
  halted : after.halted = before.halted

namespace Processor

section

variable {before after : Processor} {destinations : List Register} {bits value : Nat}
  (hothers : ∀ register, register ∉ destinations → after.get register = before.get register)
  (hbanks : after.banks = before.banks) (hhalted : after.halted = before.halted)

include hothers hbanks hhalted

/-- Without flags the status stays. -/
theorem TakesProduct.unflagged (hstatus : after.status = before.status) :
    before.TakesProduct after false destinations bits value :=
  ⟨hothers, fun h => absurd h (by decide), fun _ => hstatus, hbanks, hhalted⟩

/-- With flags these describe the product. -/
theorem TakesProduct.flagged (hflags : before.status.Describes after.status bits value) :
    before.TakesProduct after true destinations bits value :=
  ⟨hothers, fun _ => hflags, fun h => absurd h (by decide), hbanks, hhalted⟩

end

section

variable (processor : Processor) (pc : UInt32)

/-! ## Words -/

/-- A product of one word keeps its low bits. -/
theorem get_multiply (accumulate setFlags : Bool) {rd : Register} (rn rs rm : Register)
    (hrd : rd ≠ .pc) :
    ((processor.multiply pc accumulate setFlags rd rn rs rm).get rd).toNat
      = ((processor.operand pc rm).toNat * (processor.operand pc rs).toNat
          + if accumulate then (processor.operand pc rn).toNat else 0) % 2 ^ 32 := by
  have hwritten : (processor.multiply pc accumulate setFlags rd rn rs rm).get rd
      = if accumulate then
          processor.operand pc rm * processor.operand pc rs + processor.operand pc rn
        else processor.operand pc rm * processor.operand pc rs := by
    rw [multiply, processor.write_of_ne hrd]
    cases setFlags with
    | false => exact processor.get_put_self rd _
    | true => exact processor.get_put_self rd _
  rw [hwritten]
  cases accumulate with
  | false => exact UInt32.toNat_mul _ _
  | true =>
      rw [if_pos rfl, if_pos rfl, UInt32.toNat_add, UInt32.toNat_mul]
      exact Nat.mod_add_mod _ _ _

/-- It changes nothing else, beside the flags. -/
theorem multiply_takes (accumulate setFlags : Bool) {rd : Register} (rn rs rm : Register)
    (hrd : rd ≠ .pc) :
    let after := processor.multiply pc accumulate setFlags rd rn rs rm
    processor.TakesProduct after setFlags [rd] 32 (after.get rd).toNat := by
  intro after
  have hafter : after = processor.multiply pc accumulate setFlags rd rn rs rm := rfl
  rw [multiply, processor.write_of_ne hrd] at hafter
  generalize (if accumulate then _ else _ : UInt32) = result at hafter
  have hothers : ∀ register, register ∉ [rd] →
      (processor.put rd result).get register = processor.get register := by
    intro register hother
    exact processor.get_put_of_ne result (List.ne_of_not_mem_cons hother).symm
  have hzero : decide (result = 0) = true ↔ result.toNat = 0 := by
    rw [decide_eq_true_iff, ← UInt32.toNat_inj]
    rfl
  have hresult : after.get rd = result := by
    rw [hafter]
    cases setFlags with
    | false => exact processor.get_put_self rd result
    | true => exact processor.get_put_self rd result
  rw [hresult, hafter]
  cases setFlags with
  | false => exact .unflagged hothers rfl rfl rfl
  | true =>
      exact .flagged hothers rfl rfl (processor.status.describes_set (bit_top_iff result) hzero)

/-! ## Pairs of words -/

/-- What a long product is, with its addend. -/
def longResult (withSign accumulate : Bool) (rdHi rdLo rs rm : Register) : UInt64 :=
  longProduct withSign (processor.operand pc rm) (processor.operand pc rs)
    + if accumulate then
        ((processor.operand pc rdHi).toUInt64 <<< 32) ||| (processor.operand pc rdLo).toUInt64
      else 0

/-- It is the product of the operands with what the pair held before, as far as there are
    bits. -/
theorem toNat_longResult (withSign accumulate : Bool) {rdHi rdLo : Register} (rs rm : Register)
    (hrdHi : rdHi ≠ .pc) (hrdLo : rdLo ≠ .pc) :
    ((processor.longResult pc withSign accumulate rdHi rdLo rs rm).toNat : Int)
      = (number withSign (processor.operand pc rm) * number withSign (processor.operand pc rs)
          + if accumulate then processor.pair rdHi rdLo else 0) % 2 ^ 64 := by
  have hproduct :=
    toNat_longProduct withSign (processor.operand pc rm) (processor.operand pc rs)
  rw [longResult, UInt64.toNat_add]
  cases accumulate with
  | false =>
      rw [if_neg Bool.false_ne_true, if_neg Bool.false_ne_true, UInt64.toNat_zero]
      omega
  | true =>
      rw [if_pos rfl, if_pos rfl, toNat_doubled, processor.operand_of_ne pc hrdHi,
        processor.operand_of_ne pc hrdLo, ← pair]
      omega

variable (withSign accumulate setFlags : Bool) {rdHi rdLo : Register} (rs rm : Register)
  (hrdHi : rdHi ≠ .pc) (hrdLo : rdLo ≠ .pc)

include hrdHi hrdLo

/-- The low half is written first, and both halves are of the one result. -/
theorem multiplyLong_eq :
    processor.multiplyLong pc withSign accumulate setFlags rdHi rdLo rs rm
      = let result := processor.longResult pc withSign accumulate rdHi rdLo rs rm
        let high := (result >>> 32).toUInt32
        let written := (processor.put rdLo result.toUInt32).put rdHi high
        if setFlags then
          { written with
            status := (written.status.set .negative (bit high 31)).set .zero (result = 0) }
        else written := by
  rw [multiplyLong, write_of_ne _ hrdLo, write_of_ne _ hrdHi]
  rfl

/-- The pair holds the result. -/
theorem pair_multiplyLong (hdistinct : rdHi ≠ rdLo) :
    (processor.multiplyLong pc withSign accumulate setFlags rdHi rdLo rs rm).pair rdHi rdLo
      = (processor.longResult pc withSign accumulate rdHi rdLo rs rm).toNat := by
  rw [processor.multiplyLong_eq pc withSign accumulate setFlags rs rm hrdHi hrdLo]
  generalize processor.longResult _ _ _ _ _ _ _ = result
  have hpair : ((processor.put rdLo result.toUInt32).put rdHi (result >>> 32).toUInt32).pair
      rdHi rdLo = result.toNat := by
    rw [pair, get_put_self, get_put_of_ne _ _ hdistinct, get_put_self]
    exact toNat_halves result
  cases setFlags with
  | false => exact hpair
  | true => exact hpair

/-- Nothing else changes, beside the flags. -/
theorem multiplyLong_takes (hdistinct : rdHi ≠ rdLo) :
    let after := processor.multiplyLong pc withSign accumulate setFlags rdHi rdLo rs rm
    processor.TakesProduct after setFlags [rdHi, rdLo] 64 (after.pair rdHi rdLo) := by
  intro after
  have hpair : after.pair rdHi rdLo = _ :=
    processor.pair_multiplyLong pc withSign accumulate setFlags rs rm hrdHi hrdLo hdistinct
  have hafter : after = _ :=
    processor.multiplyLong_eq pc withSign accumulate setFlags rs rm hrdHi hrdLo
  rw [hpair, hafter]
  generalize processor.longResult _ _ _ _ _ _ _ = result
  have hothers : ∀ register, register ∉ [rdHi, rdLo] →
      ((processor.put rdLo result.toUInt32).put rdHi (result >>> 32).toUInt32).get register
        = processor.get register := by
    intro register hother
    have hhigh := List.ne_of_not_mem_cons hother
    have hlow := List.ne_of_not_mem_cons (List.not_mem_of_not_mem_cons hother)
    exact (get_put_of_ne _ _ hhigh.symm).trans (get_put_of_ne _ _ hlow.symm)
  have htop : bit (result >>> 32).toUInt32 31 = true ↔ 2 ^ 63 ≤ result.toNat := by
    have hhalves := toNat_halves result
    have hlow := result.toUInt32.toNat_lt
    rw [bit_top_iff]
    omega
  have hzero : decide (result = 0) = true ↔ result.toNat = 0 := by
    rw [decide_eq_true_iff, ← UInt64.toNat_inj]
    rfl
  cases setFlags with
  | false => exact .unflagged hothers rfl rfl rfl
  | true => exact .flagged hothers rfl rfl (processor.status.describes_set htop hzero)

end

end Processor

/-! ## The instructions -/

/-- A multiplication that goes through writes what there is room for of the exact product of its
    operands, with or without a sign, and of the addend if it accumulates: one word to a register
    other than the program counter, or two to a pair of different ones.  Operands and addend are
    what the registers held before, whichever of them are written.  With flags N and Z describe
    the whole result, and without them the status stays.  Nothing else changes, in the processor
    or outside. -/
theorem products_exact {δ : Type} (machine : Machine δ) (here : UInt32) (faults : FaultUnit)
    {instruction : Instruction}
    (hsatisfied : machine.processor.status.satisfies instruction.condition = true) :
    let before := machine.processor
    let operand := before.operand (here + 8)
    (∀ accumulate setFlags rd rn rs rm,
        instruction.operation = .multiply accumulate setFlags rd rn rs rm → rd ≠ .pc →
        ∃ after,
          machine.execute instruction here faults = ⟨after, machine.bus, faults, none⟩
          ∧ (after.get rd).toNat
            = ((operand rm).toNat * (operand rs).toNat
                + if accumulate then (operand rn).toNat else 0) % 2 ^ 32
          ∧ before.TakesProduct after setFlags [rd] 32 (after.get rd).toNat)
      ∧ ∀ withSign accumulate setFlags rdHi rdLo rs rm,
        instruction.operation = .multiplyLong withSign accumulate setFlags rdHi rdLo rs rm →
        rdHi ≠ .pc → rdLo ≠ .pc → rdHi ≠ rdLo →
        ∃ after,
          machine.execute instruction here faults = ⟨after, machine.bus, faults, none⟩
          ∧ (after.pair rdHi rdLo : Int)
            = (number withSign (operand rm) * number withSign (operand rs)
                + if accumulate then before.pair rdHi rdLo else 0) % 2 ^ 64
          ∧ before.TakesProduct after setFlags [rdHi, rdLo] 64 (after.pair rdHi rdLo) := by
  intro before operand
  constructor
  · intro accumulate setFlags rd rn rs rm hoperation hrd
    exact ⟨_, machine.execute_of_satisfied here hoperation rfl hsatisfied faults,
      before.get_multiply (here + 8) accumulate setFlags rn rs rm hrd,
      before.multiply_takes (here + 8) accumulate setFlags rn rs rm hrd⟩
  · intro withSign accumulate setFlags rdHi rdLo rs rm hoperation hrdHi hrdLo hdistinct
    refine ⟨_, machine.execute_of_satisfied here hoperation rfl hsatisfied faults, ?_,
      before.multiplyLong_takes (here + 8) withSign accumulate setFlags rs rm hrdHi hrdLo
        hdistinct⟩
    have hpair := before.pair_multiplyLong (here + 8) withSign accumulate setFlags rs rm hrdHi
      hrdLo hdistinct
    exact (congrArg Nat.cast hpair).trans
      (before.toNat_longResult (here + 8) withSign accumulate rs rm hrdHi hrdLo)

/-- An ARM with the word before zero in R0 and R1, and 5 in R2. -/
def beforeZero : Machine Unit where
  processor := ((Processor.initial.put (.ofNumber 0) 0xFFFFFFFF).put (.ofNumber 1)
    0xFFFFFFFF).put (.ofNumber 2) 5
  bus := .of ⟨#[], none⟩ .empty 4 4

/-- SMLALS R0,R1,R1,R2 takes -1 times 5 to the pair of R1 and R0, which held -1, and so
    changes two of its operands: the pair holds -6. -/
theorem products_exact_aliased :
    beforeZero.processor.status.satisfies (Instruction.ofWord 0xE0F10291).condition = true
      ∧ ∃ after,
        beforeZero.execute (.ofWord 0xE0F10291) 0 .initial
            = ⟨after, beforeZero.bus, .initial, none⟩
          ∧ after.pair (.ofNumber 1) (.ofNumber 0) = 0xFFFFFFFFFFFFFFFA
          ∧ after.status.get .negative = true ∧ after.status.get .zero = false := by
  have hsatisfied : beforeZero.processor.status.satisfies
      (Instruction.ofWord 0xE0F10291).condition = true := by decide +kernel
  obtain ⟨-, hlong⟩ := products_exact beforeZero 0 .initial hsatisfied
  obtain ⟨after, hexecute, hpair, htakes⟩ := hlong true true true (.ofNumber 1) (.ofNumber 0)
    (.ofNumber 2) (.ofNumber 1) (by decide +kernel) (by decide) (by decide) (by decide)
  have hvalue : after.pair (.ofNumber 1) (.ofNumber 0) = 0xFFFFFFFFFFFFFFFA :=
    Int.ofNat.inj (hpair.trans (by decide +kernel))
  have hflags := htakes.flags rfl
  rw [hvalue] at hflags
  refine ⟨hsatisfied, after, hexecute, hvalue, hflags.negative.mpr (by decide), ?_⟩
  exact Bool.eq_false_iff.mpr fun hzero => absurd (hflags.zero.mp hzero) (by decide)

end Microprocessor.Arm
