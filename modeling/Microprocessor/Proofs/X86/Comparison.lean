import Microprocessor.Proofs.X86.Sums
import Microprocessor.X86.Branch

/-! # Comparisons and conditions

    A comparison leaves nothing but the flags of a difference, and a conditional jump
    looks at nothing but flags.  Carry says that the difference is below zero without a
    sign.  With a sign it may be out of range, and then its sign bit is the wrong one,
    which overflow puts right.

      * `Condition.holds_negation_iff`: every other condition is the negation of the one
        before it;
      * `Alu.sign_ne_overflow_iff` is the one fact about signs;
      * `conditions_decide_order`: the conditions decide how the operands are ordered. -/

namespace Microprocessor.X86

/-! ## Conditions -/

namespace Condition

/-- A condition that is no negation holds if what it tests does. -/
theorem holds_iff_base {condition : Condition} (h : condition.isNegated = false) (flags : Flags) :
    condition.holds flags = true ↔ condition.base flags = true := by
  rw [holds, h, Bool.bne_false]

/-- The negation of a condition holds if the condition does not. -/
theorem holds_negation_iff (condition negation : Condition) (flags : Flags)
    (hbase : negation.base flags = condition.base flags) (h : condition.isNegated = false)
    (hnegation : negation.isNegated = true) :
    negation.holds flags = true ↔ ¬condition.holds flags = true := by
  rw [holds, holds, h, hnegation, hbase, Bool.bne_false, Bool.bne_true, Bool.not_eq_true',
    Bool.not_eq_true]

theorem holds_belowOrEqual_iff (flags : Flags) :
    Condition.belowOrEqual.holds flags = true
      ↔ Condition.below.holds flags = true ∨ Condition.equal.holds flags = true := by
  rw [holds_iff_base rfl, holds_iff_base rfl, holds_iff_base rfl]
  exact Bool.or_eq_true_iff

theorem holds_lessOrEqual_iff (flags : Flags) :
    Condition.lessOrEqual.holds flags = true
      ↔ Condition.less.holds flags = true ∨ Condition.equal.holds flags = true := by
  rw [holds_iff_base rfl, holds_iff_base rfl, holds_iff_base rfl]
  exact Bool.or_eq_true_iff.trans or_comm

end Condition

/-! ## Differences -/

namespace Alu

section

variable {before : Flags} {width : Width} {a b : UInt16} {outcome : UInt16 × Flags}
  (h : Computes before width (fun reading => reading.value width a - reading.value width b) outcome)

include h

/-- The carry of a difference says that the first operand is the lesser one. -/
theorem carry_iff_lt :
    outcome.2.get .carry = true
      ↔ Reading.unsigned.value width a < Reading.unsigned.value width b := by
  have ha := fits_value width a .unsigned
  have hb := fits_value width b .unsigned
  rw [h.carry]
  simp only [Reading.Fits] at ha hb ⊢
  omega

/-- A difference is zero if the operands are equal. -/
theorem zero_iff_eq :
    outcome.2.get .zero = true
      ↔ Reading.unsigned.value width a = Reading.unsigned.value width b := by
  have ha := fits_value width a .unsigned
  have hb := fits_value width b .unsigned
  have hresidue :=
    natCast_residue width fun reading => reading.value width a - reading.value width b
  rw [h.reports.zero]
  simp only [Reading.Fits] at ha hb hresidue
  have hwraps := eq_of_wraps hresidue (by omega) (by omega)
  omega

/-- Sign and overflow differ if the first operand is the lesser one with a sign. -/
theorem sign_ne_overflow_iff :
    (outcome.2.get .sign != outcome.2.get .overflow) = true
      ↔ Reading.signed.value width a < Reading.signed.value width b := by
  have ha := fits_value width a .signed
  have hb := fits_value width b .signed
  have hresidue :=
    natCast_residue width fun reading => reading.value width a - reading.value width b
  -- The bits that are kept are those of the signed difference as well.
  simp only [← signed_value_emod] at hresidue
  rw [← Int.sub_emod] at hresidue
  have hsign := h.reports.sign
  have hoverflow := h.reports.overflow
  simp only [Reading.Fits] at ha hb hoverflow
  have hmodulus : modulus width = 2 * half width := rfl
  have hwraps := eq_of_wraps hresidue (by omega) (by omega)
  rw [bne_iff_ne, ne_eq, Bool.eq_iff_iff, hsign, hoverflow]
  omega

end

end Alu

/-! ## Conditions after a comparison -/

open Alu in
/-- After a comparison the conditions say how the operands are ordered: equal or not, below or
    above without a sign, less or greater with a sign. -/
theorem conditions_decide_order (flags : Flags) (width : Width) (a b : UInt16) :
    let holds (condition : Condition) := condition.holds (cmp flags width a b) = true
    (holds .equal ↔ a.toNat % modulus width = b.toNat % modulus width)
      ∧ (holds .notEqual ↔ ¬holds .equal)
      ∧ (holds .below ↔ Reading.unsigned.value width a < Reading.unsigned.value width b)
      ∧ (holds .aboveOrEqual ↔ Reading.unsigned.value width a ≥ Reading.unsigned.value width b)
      ∧ (holds .belowOrEqual ↔ Reading.unsigned.value width a ≤ Reading.unsigned.value width b)
      ∧ (holds .above ↔ Reading.unsigned.value width a > Reading.unsigned.value width b)
      ∧ (holds .less ↔ Reading.signed.value width a < Reading.signed.value width b)
      ∧ (holds .greaterOrEqual ↔ Reading.signed.value width a ≥ Reading.signed.value width b)
      ∧ (holds .lessOrEqual ↔ Reading.signed.value width a ≤ Reading.signed.value width b)
      ∧ (holds .greater ↔ Reading.signed.value width a > Reading.signed.value width b) := by
  intro holds
  have hdifference := sub_computes flags width a b
  have hequal : holds .equal
      ↔ Reading.unsigned.value width a = Reading.unsigned.value width b :=
    (Condition.holds_iff_base rfl _).trans (zero_iff_eq hdifference)
  have hbelow : holds .below
      ↔ Reading.unsigned.value width a < Reading.unsigned.value width b :=
    (Condition.holds_iff_base rfl _).trans (carry_iff_lt hdifference)
  have hless : holds .less ↔ Reading.signed.value width a < Reading.signed.value width b :=
    (Condition.holds_iff_base rfl _).trans (sign_ne_overflow_iff hdifference)
  have hbelowOrEqual : holds .belowOrEqual
      ↔ Reading.unsigned.value width a ≤ Reading.unsigned.value width b := by
    rw [Int.le_iff_lt_or_eq, ← hbelow, ← hequal]
    exact Condition.holds_belowOrEqual_iff _
  have hlessOrEqual : holds .lessOrEqual
      ↔ Reading.signed.value width a ≤ Reading.signed.value width b := by
    rw [Int.le_iff_lt_or_eq, signed_value_eq_iff, ← hless, ← hequal]
    exact Condition.holds_lessOrEqual_iff _
  refine ⟨hequal.trans Int.ofNat_inj, ?_, hbelow, ?_, hbelowOrEqual, ?_, hless, ?_, hlessOrEqual,
    ?_⟩
  · exact Condition.holds_negation_iff .equal .notEqual _ rfl rfl rfl
  · rw [ge_iff_le, ← Int.not_lt, ← hbelow]
    exact Condition.holds_negation_iff .below .aboveOrEqual _ rfl rfl rfl
  · rw [gt_iff_lt, ← Int.not_le, ← hbelowOrEqual]
    exact Condition.holds_negation_iff .belowOrEqual .above _ rfl rfl rfl
  · rw [ge_iff_le, ← Int.not_lt, ← hless]
    exact Condition.holds_negation_iff .less .greaterOrEqual _ rfl rfl rfl
  · rw [gt_iff_lt, ← Int.not_le, ← hlessOrEqual]
    exact Condition.holds_negation_iff .lessOrEqual .greater _ rfl rfl rfl

end Microprocessor.X86
