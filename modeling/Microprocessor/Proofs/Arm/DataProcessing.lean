import Mathlib.Algebra.Group.Int.Defs
import Mathlib.Algebra.Group.Nat.Defs
import Microprocessor.Proofs.Arm.Effect
import Microprocessor.Proofs.Word.Bits

/-! # Data processing is exact

    An arithmetic operation stands for a number, a logical one for a bit in every place.
    The adder gives what a word has bits for of the number, whichever complement and
    carry the operation is put together from.

      * `DataOp.meaning` is what an operation computes, and `Meaning.Gives` what result
        and flags come of it;
      * `exact_addWithCarry` is the adder, and `outcome_gives` has all sixteen operations;
      * `Status.Tells` and `Processor.Takes` are where the outcome goes, and
        `dataProcessing_exact` puts it together for the instruction. -/

namespace Microprocessor.Arm

/-! ## What operations compute -/

/-- What an operation computes of its operands and the carry. -/
inductive Meaning
  /-- Each bit of the result, from those of the operands. -/
  | logic (f : Bool → Bool → Bool)
  /-- A sum, of which the carry is what passes 32 bits. -/
  | sum (f : Int → Int → Int → Int)
  /-- A difference, of which the carry is that nothing has been borrowed. -/
  | difference (f : Int → Int → Int → Int)

/-- What each operation computes. -/
def DataOp.meaning : DataOp → Meaning
  | .and | .tst => .logic fun a b => a && b
  | .eor | .teq => .logic fun a b => a != b
  | .orr => .logic fun a b => a || b
  | .bic => .logic fun a b => a && !b
  | .mov => .logic fun _ b => b
  | .mvn => .logic fun _ b => !b
  | .add | .cmn => .sum fun a b _ => a + b
  | .adc => .sum fun a b c => a + b + c
  | .sub | .cmp => .difference fun a b _ => a - b
  | .sbc => .difference fun a b c => a - b - (1 - c)
  | .rsb => .difference fun a b _ => b - a
  | .rsc => .difference fun a b c => b - a - (1 - c)

/-- A word read with a sign. -/
def signed (word : UInt32) : Int :=
  word.toInt32.toInt

/-- A number comes out exactly as far as a word has bits for it, and overflow says that it is
    out of range with a sign. -/
structure Exact (f : Int → Int → Int → Int) (a b : UInt32) (carry : Bool) (outcome : Outcome) :
    Prop where
  value : (outcome.value.toNat : Int) = f a.toNat b.toNat carry.toNat % 2 ^ 32
  overflow : outcome.overflow = true
    ↔ ¬(-2 ^ 31 ≤ f (signed a) (signed b) carry.toNat
      ∧ f (signed a) (signed b) carry.toNat < 2 ^ 31)

/-- What comes of a register, the shifter's value with its carry, and the flags before. -/
def Meaning.Gives (a : UInt32) (b : Shifted) (carry overflow : Bool) (outcome : Outcome) :
    Meaning → Prop
  | .logic f =>
    (∀ i < 32, bit outcome.value i = f (bit a i) (bit b.value i))
      ∧ outcome.carry = b.carry ∧ outcome.overflow = overflow
  | .sum f =>
    Exact f a b.value carry outcome
      ∧ (outcome.carry = true ↔ 2 ^ 32 ≤ f a.toNat b.value.toNat carry.toNat)
  | .difference f =>
    Exact f a b.value carry outcome
      ∧ (outcome.carry = true ↔ 0 ≤ f a.toNat b.value.toNat carry.toNat)

/-! ## The adder -/

/-- With a sign, the upper half of the words are those below zero. -/
theorem signed_eq (word : UInt32) :
    signed word = if word.toNat < 2 ^ 31 then (word.toNat : Int) else word.toNat - 2 ^ 32 := by
  have hcond : signed word
      = if 2 * word.toNat < 2 ^ 32 then (word.toNat : Int) else word.toNat - (2 ^ 32 : Nat) :=
    BitVec.toInt_eq_toNat_cond word.toBitVec
  rw [hcond]
  split <;> split <;> omega

/-- The complement of a word. -/
theorem toNat_complement (word : UInt32) : ((~~~word).toNat : Int) = 2 ^ 32 - 1 - word.toNat := by
  have hnot : (~~~word).toNat = UInt32.size - 1 - word.toNat := UInt32.toNat_not word
  have hword := word.toNat_lt
  rw [hnot, UInt32.size]
  omega

/-- Read with a sign, it is the negation less one. -/
theorem signed_complement (word : UInt32) : signed (~~~word) = -1 - signed word := by
  have hnot := toNat_complement word
  have hword := word.toNat_lt
  rw [signed_eq, signed_eq]
  split <;> split <;> omega

section

variable {f : Int → Int → Int → Int} {a b x y : UInt32} {carry entering : Bool}

/-- The value of a sum, with all its bits. -/
theorem toNat_addWithCarry (x y : UInt32) (entering : Bool) :
    (addWithCarry x y entering).value.toNat = (x.toNat + y.toNat + entering.toNat) % 2 ^ 32 :=
  UInt32.toNat_ofNat'

/-- The carry of a sum says that it passes 32 bits. -/
theorem carry_addWithCarry (x y : UInt32) (entering : Bool) :
    (addWithCarry x y entering).carry = true
      ↔ 2 ^ 32 ≤ x.toNat + y.toNat + entering.toNat :=
  decide_eq_true_iff

/-- The adder subtracts with the complement and a carry. -/
theorem value_addWithCarry_not (a b : UInt32) : (addWithCarry a (~~~b) true).value = a - b := by
  have hcomplement := toNat_complement b
  have hb := b.toNat_lt
  rw [← UInt32.toNat_inj, toNat_addWithCarry, UInt32.toNat_sub, Bool.toNat_true]
  omega

/-- A sum stands for a number that it differs from by a multiple of the words, and not at all
    with a sign. -/
theorem exact_addWithCarry
    (hvalue : (x.toNat + y.toNat + entering.toNat : Int) % 2 ^ 32
      = f a.toNat b.toNat carry.toNat % 2 ^ 32)
    (hsigned : signed x + signed y + entering.toNat = f (signed a) (signed b) carry.toNat) :
    Exact f a b carry (addWithCarry x y entering) := by
  have hkept := toNat_addWithCarry x y entering
  constructor
  case value =>
    rw [hkept, ← hvalue]
    omega
  case overflow =>
    have hx := x.toNat_lt
    have hy := y.toNat_lt
    have hentering := entering.toNat_le
    -- Out of range, the result read with a sign is another number than the sum.
    have hflag : (addWithCarry x y entering).overflow = true
        ↔ signed x + signed y + entering.toNat ≠ signed (addWithCarry x y entering).value :=
      decide_eq_true_iff
    rw [hflag, ← hsigned, signed_eq x, signed_eq y, signed_eq (addWithCarry x y entering).value,
      hkept]
    split <;> split <;> split <;> omega

end

/-! ## All operations -/

section

variable {f : Int → Int → Int → Int} {a b x y : UInt32} {carry entering : Bool}

/-- A sum is what the adder computes. -/
theorem sum_gives
    (hunsigned : f a.toNat b.toNat carry.toNat = x.toNat + y.toNat + entering.toNat)
    (hsigned : f (signed a) (signed b) carry.toNat = signed x + signed y + entering.toNat) :
    Exact f a b carry (addWithCarry x y entering)
      ∧ ((addWithCarry x y entering).carry = true ↔ 2 ^ 32 ≤ f a.toNat b.toNat carry.toNat) := by
  refine ⟨exact_addWithCarry ?_ hsigned.symm, ?_⟩
  · rw [hunsigned]
  · rw [carry_addWithCarry, hunsigned]
    omega

/-- A difference is the sum with the complement.  What enters makes up for the borrow. -/
theorem difference_gives
    (hunsigned : f a.toNat b.toNat carry.toNat = x.toNat - y.toNat - (1 - entering.toNat))
    (hsigned : f (signed a) (signed b) carry.toNat = signed x - signed y - (1 - entering.toNat)) :
    Exact f a b carry (addWithCarry x (~~~y) entering)
      ∧ ((addWithCarry x (~~~y) entering).carry = true
        ↔ 0 ≤ f a.toNat b.toNat carry.toNat) := by
  have hcomplement := toNat_complement y
  refine ⟨exact_addWithCarry ?_ ?_, ?_⟩
  · rw [hunsigned, hcomplement]
    omega
  · rw [hsigned, signed_complement]
    omega
  · rw [carry_addWithCarry, hunsigned]
    omega

end

/-- An operation gives what it stands for. -/
theorem outcome_gives (op : DataOp) (a : UInt32) (b : Shifted) (carry overflow : Bool) :
    op.meaning.Gives a b carry overflow (op.outcome a b carry overflow) := by
  cases op with
  | and | tst => exact ⟨fun i _ => bit_and a b.value i, rfl, rfl⟩
  | eor | teq => exact ⟨fun i _ => bit_xor a b.value i, rfl, rfl⟩
  | orr => exact ⟨fun i _ => bit_or a b.value i, rfl, rfl⟩
  | bic =>
      refine ⟨fun i hi => ?_, rfl, rfl⟩
      exact (bit_and a (~~~b.value) i).trans (congrArg (bit a i && ·) (bit_not b.value hi))
  | mov => exact ⟨fun i _ => rfl, rfl, rfl⟩
  | mvn => exact ⟨fun i hi => bit_not b.value hi, rfl, rfl⟩
  | add | cmn => exact sum_gives (Int.add_zero _).symm (Int.add_zero _).symm
  | adc => exact sum_gives rfl rfl
  | sub | cmp => exact difference_gives (Int.sub_zero _).symm (Int.sub_zero _).symm
  | sbc => exact difference_gives rfl rfl
  | rsb => exact difference_gives (Int.sub_zero _).symm (Int.sub_zero _).symm
  | rsc => exact difference_gives rfl rfl

/-! ## Where the outcome goes -/

/-- The top bit of a word says that it is in the upper half. -/
theorem bit_top_iff (word : UInt32) : bit word 31 = true ↔ 2 ^ 31 ≤ word.toNat := by
  have hword := word.toNat_lt
  rw [bit, Nat.testBit_eq_decide_div_mod_eq, decide_eq_true_iff]
  omega

/-- The flags tell of an outcome, and all else of the status is as before. -/
structure Status.Tells (before after : Status) (outcome : Outcome) : Prop where
  negative : after.get .negative = true ↔ 2 ^ 31 ≤ outcome.value.toNat
  zero : after.get .zero = true ↔ outcome.value = 0
  carry : after.get .carry = outcome.carry
  overflow : after.get .overflow = outcome.overflow
  control : after.control = before.control

/-- Recording an outcome makes the flags tell of it. -/
theorem Status.tells_record (status : Status) (outcome : Outcome) :
    status.Tells (status.record outcome) outcome := by
  constructor
  case negative => simp [record, describe, bit_top_iff]
  case zero => simp [record, describe]
  case carry => simp [record]
  case overflow => simp [record]
  case control => exact status.control_record outcome

/-- A processor takes an outcome into a register or the flags, and all else of it is as before. -/
structure Processor.Takes (before after : Processor) (op : DataOp) (setFlags : Bool)
    (rd : Register) (outcome : Outcome) : Prop where
  result : op.isComparison = false → after.get rd = outcome.value
  others : ∀ register, register ≠ rd ∨ op.isComparison = true →
    after.get register = before.get register
  flags : setFlags = true ∨ op.isComparison = true → before.status.Tells after.status outcome
  status : setFlags = false → op.isComparison = false → after.status = before.status
  banks : after.banks = before.banks
  halted : after.halted = before.halted

namespace Processor

/-- Data processing takes its outcome, unless that goes to the program counter. -/
theorem process_takes (processor : Processor) (pc : UInt32) (op : DataOp) (setFlags : Bool)
    (rn rd : Register) (operand : ShifterOperand) (hrd : op.isComparison = false → rd ≠ .pc) :
    processor.Takes (processor.process pc op setFlags rn rd operand) op setFlags rd
      (op.outcome (processor.operand pc rn) (processor.shifterOperand pc operand)
        (processor.status.get .carry) (processor.status.get .overflow)) := by
  rw [process]
  generalize op.outcome _ _ _ _ = outcome
  cases hcomparison : op.isComparison with
  | true =>
      rw [if_pos rfl]
      constructor
      case result => exact fun h => absurd (hcomparison.symm.trans h) (by decide)
      case others => exact fun register _ => rfl
      case flags => exact fun _ => processor.status.tells_record outcome
      case status => exact fun _ h => absurd (hcomparison.symm.trans h) (by decide)
      case banks => rfl
      case halted => rfl
  | false =>
      have hother : rd.isPc = false :=
        Bool.eq_false_iff.mpr fun hpc => hrd hcomparison (eq_pc_of_isPc hpc)
      rw [if_neg Bool.false_ne_true, hother]
      have hregisters : ∀ (before : Processor) register,
          register ≠ rd ∨ op.isComparison = true →
          (before.write rd outcome.value).get register = before.get register := by
        rintro before register (hne | hcompares)
        · rw [write_of_not_isPc before _ hother]
          exact get_put_of_ne before _ hne.symm
        · exact absurd (hcomparison.symm.trans hcompares) (by decide)
      have hresult : ∀ before : Processor,
          (before.write rd outcome.value).get rd = outcome.value := by
        intro before
        rw [write_of_not_isPc before _ hother, get_put_self]
      cases setFlags with
      | false =>
          constructor
          case result => exact fun _ => hresult processor
          case others => exact hregisters processor
          case flags =>
            rintro (hset | hcompares)
            · cases hset
            · exact absurd (hcomparison.symm.trans hcompares) (by decide)
          case status => exact fun _ _ => rfl
          case banks => rfl
          case halted => rfl
      | true =>
          constructor
          case result => exact fun _ => hresult _
          case others => exact hregisters { processor with status := _ }
          case flags => exact fun _ => processor.status.tells_record outcome
          case status => intro hset; cases hset
          case banks => rfl
          case halted => rfl

/-- A shift by a register whose bottom byte is zero leaves value and carry alone. -/
theorem shifterOperand_of_no_shift (processor : Processor) (pc : UInt32) (rm : Register)
    (kind : ShiftKind) {rs : Register} (h : (processor.operand pc rs).toNat % 256 = 0) :
    processor.shifterOperand pc (.register rm kind (.register rs))
      = ⟨processor.operand pc rm, processor.status.get .carry⟩ := by
  show shift kind _ ((processor.operand pc rs).toNat % 256) _ = _
  rw [h]
  rfl

end Processor

/-! ## The instruction -/

/-- Every operation of data processing gives the number or the bits that it stands for, whatever
    its operands.  A destination other than the program counter takes the result unless it is a
    comparison, and the flags tell of it if they are asked to or it is one.  Nothing else changes,
    in the processor or outside, and the instruction goes through.  An immediate that is not
    rotated, and a register that is shifted by no places, leave the carry of the shifter alone. -/
theorem dataProcessing_exact {δ : Type} (machine : Machine δ) (here : UInt32) (op : DataOp)
    (setFlags : Bool) (rn rd : Register) (operand : ShifterOperand)
    (hrd : op.isComparison = false → rd ≠ .pc) :
    let before := machine.processor
    let b := before.shifterOperand (here + 8) operand
    let after := machine.perform here (.dataProcessing op setFlags rn rd operand)
    (∃ outcome,
        op.meaning.Gives (before.operand (here + 8) rn) b (before.status.get .carry)
          (before.status.get .overflow) outcome
        ∧ before.Takes after.processor op setFlags rd outcome)
      ∧ after.bus = machine.bus
      ∧ (∀ (instruction : Instruction) (faults : FaultUnit),
        instruction.operation = .dataProcessing op setFlags rn rd operand →
        before.status.satisfies instruction.condition = true →
        machine.execute instruction here faults = ⟨after.processor, machine.bus, faults, none⟩)
      ∧ (∀ imm8, operand = .immediate imm8 0 → b.carry = before.status.get .carry)
      ∧ ∀ rm kind rs, operand = .register rm kind (.register rs) →
        (before.operand (here + 8) rs).toNat % 256 = 0 →
        b = ⟨before.operand (here + 8) rm, before.status.get .carry⟩ := by
  intro before b after
  refine ⟨⟨_, outcome_gives op _ b _ _,
    before.process_takes (here + 8) op setFlags rn rd operand hrd⟩, rfl, ?_, ?_, ?_⟩
  · intro instruction faults hoperation hsatisfied
    exact machine.execute_of_satisfied here hoperation rfl hsatisfied faults
  · rintro imm8 rfl
    rfl
  · rintro rm kind rs rfl hnone
    exact before.shifterOperand_of_no_shift (here + 8) rm kind hnone

/-- An ARM whose R0 is the least word with a sign, and whose R1 is 1. -/
def atLeast : Machine Unit where
  processor := (Processor.initial.put (.ofNumber 0) 0x80000000).put (.ofNumber 1) 1
  bus := .of ⟨#[], none⟩ .empty 4 4

/-- SUBS R0,R0,R1. -/
def decrement : Operation :=
  .dataProcessing .sub true (.ofNumber 0) (.ofNumber 0)
    (.register (.ofNumber 1) .lsl (.immediate 0))

/-- To take 1 from the least word with a sign borrows nothing and overflows. -/
theorem dataProcessing_exact_overflowing :
    (DataOp.sub.isComparison = false → Register.ofNumber 0 ≠ .pc)
      ∧ ((atLeast.perform 0 decrement).processor.get (.ofNumber 0)).toNat = 0x7FFFFFFF
      ∧ (atLeast.perform 0 decrement).processor.status.get .carry = true
      ∧ (atLeast.perform 0 decrement).processor.status.get .overflow = true
      ∧ (atLeast.perform 0 decrement).bus = atLeast.bus := by
  obtain ⟨⟨outcome, ⟨hexact, hcarry⟩, htakes⟩, hbus, -⟩ :=
    dataProcessing_exact atLeast 0 .sub true (.ofNumber 0) (.ofNumber 0)
      (.register (.ofNumber 1) .lsl (.immediate 0)) (fun _ => by decide)
  have hflags := htakes.flags (.inl rfl)
  refine ⟨fun _ => by decide, ?_, ?_, ?_, hbus⟩
  · have hresult := htakes.result rfl
    have hvalue : (outcome.value.toNat : Int) = 0x7FFFFFFF := hexact.value
    rw [decrement, hresult]
    omega
  · rw [decrement, hflags.carry]
    exact hcarry.mpr (by decide)
  · rw [decrement, hflags.overflow]
    exact hexact.overflow.mpr (by decide)

end Microprocessor.Arm
