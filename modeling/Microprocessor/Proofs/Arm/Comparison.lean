import Microprocessor.Proofs.Arm.DataProcessing

/-! # Comparisons and conditional execution

    A comparison leaves nothing but the flags of a difference, and a condition looks at
    nothing but flags.  The carry says that nothing has been borrowed.  With a sign the
    difference may be out of range, and then its sign bit is the wrong one, which overflow
    puts right.

      * `carry_iff_le`, `zero_iff_eq` and `negative_ne_overflow_iff` are what the flags of a
        difference say of its operands;
      * `Machine.execute_of_fails`: an instruction whose condition fails does nothing;
      * `comparison_decides_order` has the conditions, and what they let pass. -/

namespace Microprocessor.Arm

/-! ## Conditions -/

/-- The conditions that compare, each with its opposite. -/
def Condition.opposites : List (Condition × Condition) :=
  [(.eq, .ne), (.cs, .cc), (.hi, .ls), (.ge, .lt), (.gt, .le)]

/-- The opposite of a condition holds if the condition does not. -/
theorem Status.satisfies_opposite_iff (status : Status) {condition opposite : Condition}
    (h : (condition, opposite) ∈ Condition.opposites) :
    status.satisfies opposite = true ↔ ¬status.satisfies condition = true := by
  have hflags : ∀ n z c v : Bool, ∀ pair ∈ Condition.opposites,
      pair.2.holds n z c v = true ↔ ¬pair.1.holds n z c v = true := by
    decide
  exact hflags _ _ _ _ (condition, opposite) h

/-- Higher is carry without zero. -/
theorem Status.satisfies_hi_iff (status : Status) :
    status.satisfies .hi = true ↔ status.satisfies .cs = true ∧ ¬status.satisfies .eq = true := by
  have hflags : ∀ n z c v : Bool, Condition.hi.holds n z c v = true
      ↔ Condition.cs.holds n z c v = true ∧ ¬Condition.eq.holds n z c v = true := by
    decide
  exact hflags _ _ _ _

/-- Greater is no less, and not zero. -/
theorem Status.satisfies_gt_iff (status : Status) :
    status.satisfies .gt = true ↔ status.satisfies .ge = true ∧ ¬status.satisfies .eq = true := by
  have hflags : ∀ n z c v : Bool, Condition.gt.holds n z c v = true
      ↔ Condition.ge.holds n z c v = true ∧ ¬Condition.eq.holds n z c v = true := by
    decide
  exact hflags _ _ _ _

/-- Words are in the same order if their numbers with a sign are the same. -/
theorem signed_inj {a b : UInt32} : signed a = signed b ↔ a = b := by
  have ha := a.toNat_lt
  have hb := b.toNat_lt
  rw [signed_eq, signed_eq, ← UInt32.toNat_inj]
  split <;> split <;> omega

/-! ## The flags of a difference -/

section

variable {before after : Status} {a b : UInt32} {carry : Bool} {outcome : Outcome}
  (hexact : Exact (fun a b _ => a - b) a b carry outcome) (htells : before.Tells after outcome)

/-- The carry says that the second operand is not the greater one. -/
theorem carry_iff_le
    (hcarry : outcome.carry = true ↔ (0 : Int) ≤ (a.toNat : Int) - b.toNat)
    (htells : before.Tells after outcome) : after.get .carry = true ↔ b ≤ a := by
  rw [htells.carry, hcarry, UInt32.le_iff_toNat_le]
  omega

include hexact htells

/-- A difference is zero if the operands are equal. -/
theorem zero_iff_eq : after.get .zero = true ↔ a = b := by
  have hvalue := hexact.value
  have ha := a.toNat_lt
  have hb := b.toNat_lt
  have hzero : (0 : UInt32).toNat = 0 := rfl
  rw [htells.zero, ← UInt32.toNat_inj, ← UInt32.toNat_inj, hzero]
  omega

/-- Sign and overflow differ if the first operand is the lesser one with a sign. -/
theorem negative_ne_overflow_iff :
    (after.get .negative != after.get .overflow) = true ↔ signed a < signed b := by
  have hvalue := hexact.value
  have hoverflow := hexact.overflow
  have ha := a.toNat_lt
  have hb := b.toNat_lt
  rw [bne_iff_ne, ne_eq, Bool.eq_iff_iff, htells.negative, htells.overflow, hoverflow, signed_eq a,
    signed_eq b]
  split <;> split <;> omega

end

/-! ## Conditional execution -/

/-- An instruction whose condition fails does nothing, whatever it is. -/
theorem Machine.execute_of_fails {δ : Type} (machine : Machine δ) {instruction : Instruction}
    (h : machine.processor.status.satisfies instruction.condition = false) (here : UInt32)
    (faults : FaultUnit) : machine.execute instruction here faults = machine.finished faults := by
  rw [execute, h]
  rfl

/-! ## The order of the operands -/

/-- After a comparison, of whatever register with whatever shifter operand, the conditions say how
    the two are ordered: equal or not, higher or lower without a sign, greater or less with a
    sign.  An instruction whose condition then fails changes no register, no bit of the status,
    no memory and no fault, whatever it is. -/
theorem comparison_decides_order {δ : Type} (machine : Machine δ) (here : UInt32)
    (setFlags : Bool) (rn rd : Register) (operand : ShifterOperand) :
    let a := machine.processor.operand (here + 8) rn
    let b := (machine.processor.shifterOperand (here + 8) operand).value
    let compared := machine.perform here (.dataProcessing .cmp setFlags rn rd operand)
    let holds (condition : Condition) := compared.processor.status.satisfies condition = true
    (holds .eq ↔ a = b) ∧ (holds .ne ↔ a ≠ b)
      ∧ (holds .cs ↔ a ≥ b) ∧ (holds .cc ↔ a < b) ∧ (holds .hi ↔ a > b) ∧ (holds .ls ↔ a ≤ b)
      ∧ (holds .ge ↔ signed a ≥ signed b) ∧ (holds .lt ↔ signed a < signed b)
      ∧ (holds .gt ↔ signed a > signed b) ∧ (holds .le ↔ signed a ≤ signed b)
      ∧ ∀ (instruction : Instruction) (there : UInt32) (faults : FaultUnit),
        ¬holds instruction.condition →
        compared.execute instruction there faults
          = ⟨compared.processor, compared.bus, faults, none⟩ := by
  intro a b compared holds
  obtain ⟨hexact, hcarry⟩ := outcome_gives .cmp a
    (machine.processor.shifterOperand (here + 8) operand) (machine.processor.status.get .carry)
    (machine.processor.status.get .overflow)
  have htells := (machine.processor.process_takes (here + 8) .cmp setFlags rn rd operand
    (fun h => nomatch h)).flags (.inr rfl)
  have hequal : holds .eq ↔ a = b := zero_iff_eq hexact htells
  have hsame : holds .cs ↔ a ≥ b := carry_iff_le hcarry htells
  have hless : holds .lt ↔ signed a < signed b := negative_ne_overflow_iff hexact htells
  have hopposite : ∀ {condition opposite : Condition},
      (condition, opposite) ∈ Condition.opposites → (holds opposite ↔ ¬holds condition) :=
    fun h => compared.processor.status.satisfies_opposite_iff h
  have hnotLess : holds .ge ↔ signed a ≥ signed b := by
    rw [ge_iff_le, ← Int.not_lt, ← hless]
    exact Decidable.iff_not_comm.mp (hopposite (by decide))
  have hhigher : holds .hi ↔ a > b := by
    rw [show holds .hi ↔ holds .cs ∧ ¬holds .eq from Status.satisfies_hi_iff _, hsame, hequal,
      ← UInt32.toNat_inj]
    show b ≤ a ∧ _ ↔ b < a
    rw [UInt32.le_iff_toNat_le, UInt32.lt_iff_toNat_lt]
    omega
  have hgreater : holds .gt ↔ signed a > signed b := by
    rw [show holds .gt ↔ holds .ge ∧ ¬holds .eq from Status.satisfies_gt_iff _, hnotLess, hequal,
      ← signed_inj]
    omega
  refine ⟨hequal, ?_, hsame, ?_, hhigher, ?_, hnotLess, hless, hgreater, ?_, ?_⟩
  · exact (hopposite (by decide)).trans (not_congr hequal)
  · rw [← UInt32.not_le]
    exact (hopposite (by decide)).trans (not_congr hsame)
  · rw [← UInt32.not_lt]
    exact (hopposite (by decide)).trans (not_congr hhigher)
  · rw [← Int.not_lt]
    exact (hopposite (by decide)).trans (not_congr hgreater)
  · intro instruction there faults hfails
    exact compared.execute_of_fails (Bool.eq_false_iff.mpr hfails) there faults

/-- CMP R0,R1, with the least word with a sign in R0 and 1 in R1. -/
def leastCompared : Machine Unit :=
  atLeast.perform 0 <|
    .dataProcessing .cmp true (.ofNumber 0) (.ofNumber 0)
      (.register (.ofNumber 1) .lsl (.immediate 0))

/-- The least word with a sign is higher than 1 without one, and less with it: MOVGT R2,#1 does
    nothing. -/
theorem comparison_decides_order_across :
    leastCompared.processor.status.satisfies .hi = true
      ∧ ¬leastCompared.processor.status.satisfies .gt = true
      ∧ leastCompared.execute (.ofWord 0xC3A02001) 4 .initial
        = ⟨leastCompared.processor, leastCompared.bus, .initial, none⟩ := by
  obtain ⟨-, -, -, -, hhigher, -, -, -, hgreater, -, hskipped⟩ :=
    comparison_decides_order atLeast 0 true (.ofNumber 0) (.ofNumber 0)
      (.register (.ofNumber 1) .lsl (.immediate 0))
  have hnotGreater : ¬leastCompared.processor.status.satisfies .gt = true :=
    fun h => absurd (hgreater.mp h) (by decide)
  exact ⟨hhigher.mpr (by decide), hnotGreater, hskipped (.ofWord 0xC3A02001) 4 .initial hnotGreater⟩

end Microprocessor.Arm
