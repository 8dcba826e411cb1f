import Microprocessor.X86.Alu

/-! # Single flags

    A flag is one bit of a word: setting it leaves the others alone.

      * `and_bit_ne_zero`: masking a word with a single bit tests that bit;
      * `Flags.get_set` is the one lemma about flags that are set;
      * `Alu.get_setResultFlags` reads any flag after those of a result have been
        set. -/

namespace Microprocessor.X86

/-! ## Bits -/

/-- Masking with a single bit tests it. -/
theorem and_bit_ne_zero (word : UInt16) {bit : UInt16} {i : Nat} (hi : i < 16)
    (hbit : bit.toBitVec = .twoPow 16 i) : (word &&& bit != 0) = word.toNat.testBit i := by
  have hpower : BitVec.twoPow 16 i ≠ 0#16 := by
    intro h
    have hzero := congrArg (BitVec.getLsbD · i) h
    simp [hi] at hzero
  rw [Bool.eq_iff_iff, bne_iff_ne, ne_eq, ← UInt16.toBitVec_inj, UInt16.toBitVec_and, hbit,
    BitVec.and_twoPow]
  show _ ↔ word.toBitVec.getLsbD i = true
  cases word.toBitVec.getLsbD i with
  | false => simp
  | true => simpa using hpower

/-! ## Flags -/

/-- The number of the flag's bit. -/
def Flag.index : Flag → Nat
  | .carry => 0
  | .parity => 2
  | .auxiliaryCarry => 4
  | .zero => 6
  | .sign => 7
  | .trap => 8
  | .interruptEnable => 9
  | .direction => 10
  | .overflow => 11

/-- Different flags have different bits. -/
theorem Flag.index_inj {flag other : Flag} : flag.index = other.index ↔ flag = other := by
  constructor
  · intro h
    cases flag <;> cases other
    all_goals first
      | rfl
      | cases h
  · rintro rfl
    rfl

namespace Flags

/-- Whether a flag is set is one bit of the word. -/
theorem get_eq_getLsbD (flags : Flags) (flag : Flag) :
    flags.get flag = flags.stored.toBitVec.getLsbD flag.index := by
  have hindex : flag.index < 16 := by cases flag <;> decide
  have hmask : flag.mask.toBitVec = .twoPow 16 flag.index := by cases flag <;> rfl
  exact and_bit_ne_zero flags.stored hindex hmask

/-- Setting a flag replaces its bit, and no other. -/
theorem getLsbD_set (flags : Flags) (flag : Flag) (value : Bool) {i : Nat} (hi : i < 16) :
    (flags.set flag value).stored.toBitVec.getLsbD i
      = if flag.index = i then value else flags.stored.toBitVec.getLsbD i := by
  have hmask : flag.mask.toBitVec = .twoPow 16 flag.index := by cases flag <;> rfl
  cases value with
  | true =>
      show (flags.stored ||| flag.mask).toBitVec.getLsbD i = _
      rw [UInt16.toBitVec_or, hmask, BitVec.getLsbD_or, BitVec.getLsbD_twoPow]
      by_cases h : flag.index = i
      · simp [h, hi]
      · simp [h]
  | false =>
      show (flags.stored &&& ~~~flag.mask).toBitVec.getLsbD i = _
      rw [UInt16.toBitVec_and, UInt16.toBitVec_not, hmask, BitVec.getLsbD_and, BitVec.getLsbD_not,
        BitVec.getLsbD_twoPow]
      by_cases h : flag.index = i
      · simp [h, hi]
      · simp [h, hi]

/-- A flag that is set has the value, and the others have theirs. -/
@[simp] theorem get_set (flags : Flags) (flag other : Flag) (value : Bool) :
    (flags.set flag value).get other = if flag = other then value else flags.get other := by
  have hother : other.index < 16 := by cases other <;> decide
  simp only [get_eq_getLsbD, getLsbD_set flags flag value hother, Flag.index_inj]

/-- Flags with the same bits are the same. -/
theorem eq_of_getLsbD_eq {flags other : Flags}
    (h : ∀ i, i < 16 → flags.stored.toBitVec.getLsbD i = other.stored.toBitVec.getLsbD i) :
    flags = other :=
  congrArg Flags.mk (UInt16.toBitVec_inj.mp (BitVec.eq_of_getLsbD_eq h))

end Flags

/-! ## The flags of a result -/

/-- After the flags of a result have been set, sign, zero and parity say what it is. -/
@[simp] theorem Alu.get_setResultFlags (flags : Flags) (width : Width) (result : UInt16)
    (flag : Flag) :
    (setResultFlags flags width result).get flag
      = match flag with
        | .sign => width.isNegative result
        | .zero => result &&& width.mask == 0
        | .parity => evenParity result.toUInt8
        | flag => flags.get flag := by
  cases flag <;> simp [setResultFlags]

end Microprocessor.X86
