import Microprocessor.Word.Field

/-! # Words by their bits

    A word is its 32 bits.

      * `bit_and` and its kind have the logical operations bit by bit, and
        `bit_shiftLeft_one` the move up by one place;
      * `lt_of_bit` and `eq_of_bits` say that 32 bits are all there are. -/

namespace Microprocessor

/-- A word has no bits beyond its width. -/
theorem bit_of_le (word : UInt32) {n : Nat} (h : 32 ≤ n) : bit word n = false :=
  BitVec.getLsbD_of_ge word.toBitVec n h

theorem lt_of_bit {word : UInt32} {n : Nat} (h : bit word n = true) : n < 32 := by
  rcases Nat.lt_or_ge n 32 with hn | hn
  · exact hn
  · rw [bit_of_le word hn] at h
    cases h

/-- Words that have the same bits are equal. -/
theorem eq_of_bits {x y : UInt32} (h : ∀ n < 32, bit x n = bit y n) : x = y := by
  refine UInt32.toNat_inj.mp (Nat.eq_of_testBit_eq ?_)
  intro n
  rcases Nat.lt_or_ge n 32 with hn | hn
  · exact h n hn
  · exact (bit_of_le x hn).trans (bit_of_le y hn).symm

theorem bit_zero (n : Nat) : bit 0 n = false :=
  Nat.zero_testBit n

theorem bit_one (n : Nat) : bit 1 n = decide (n = 0) := by
  rw [Bool.eq_iff_iff, decide_eq_true_iff]
  exact Nat.testBit_one_eq_true_iff_self_eq_zero

theorem bit_and (x y : UInt32) (i : Nat) : bit (x &&& y) i = (bit x i && bit y i) :=
  (congrArg (Nat.testBit · i) (UInt32.toNat_and x y)).trans (Nat.testBit_and ..)

theorem bit_or (x y : UInt32) (i : Nat) : bit (x ||| y) i = (bit x i || bit y i) :=
  (congrArg (Nat.testBit · i) (UInt32.toNat_or x y)).trans (Nat.testBit_or ..)

theorem bit_xor (x y : UInt32) (i : Nat) : bit (x ^^^ y) i = (bit x i != bit y i) :=
  (congrArg (Nat.testBit · i) (UInt32.toNat_xor x y)).trans (Nat.testBit_xor ..)

theorem bit_not (x : UInt32) {i : Nat} (hi : i < 32) : bit (~~~x) i = !bit x i := by
  have hnot : (~~~x.toBitVec).getLsbD i = (decide (i < 32) && !x.toBitVec.getLsbD i) :=
    BitVec.getLsbD_not
  rw [decide_eq_true hi, Bool.true_and] at hnot
  exact hnot

/-- A word moved up by one place. -/
theorem bit_shiftLeft_one (word : UInt32) (n : Nat) :
    bit (word <<< 1) n = (decide (n < 32) && (decide (1 ≤ n) && bit word (n - 1))) := by
  rw [bit, UInt32.toNat_shiftLeft, Nat.testBit_mod_two_pow, Nat.testBit_shiftLeft]
  rfl

end Microprocessor
