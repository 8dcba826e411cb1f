import Microprocessor.Proofs.X86.Reading

/-! # Sums and differences are exact

    Read in any of the ways in which operands can be read, the sum or the difference of two
    is a number.  The result is what the width has bits for of that number, and carry,
    overflow and auxiliary carry each say that the number is out of range in one of the
    readings.

      * `Computes` is asked of an operation that sets the carry, `Counts` of one
        that leaves it alone;
      * `addCarry_computes` and `subBorrow_computes` are the two operations that
        the others are made of, and `sums_exact` has them all. -/

namespace Microprocessor.X86.Alu

/-! ## Exact results -/

/-- What a width has bits for of an exact result. -/
def residue (width : Width) (exact : Reading → Int) : Nat :=
  (exact .unsigned % modulus width).toNat

/-- The flags but for the carry tell of an exact result; those that have nothing to do with
    results are as before. -/
structure Reports (before after : Flags) (width : Width) (exact : Reading → Int) : Prop where
  auxiliaryCarry : after.get .auxiliaryCarry = true ↔ ¬Reading.lowDigit.Fits width (exact .lowDigit)
  overflow : after.get .overflow = true ↔ ¬Reading.signed.Fits width (exact .signed)
  sign : after.get .sign = true ↔ half width ≤ residue width exact
  zero : after.get .zero = true ↔ residue width exact = 0
  parity : after.get .parity = true ↔ (List.range 8).countP (residue width exact).testBit % 2 = 0
  trap : after.get .trap = before.get .trap
  interruptEnable : after.get .interruptEnable = before.get .interruptEnable
  direction : after.get .direction = before.get .direction

/-- The outcome is exact as far as the width has bits for it, and the flags tell the rest. -/
structure Computes (before : Flags) (width : Width) (exact : Reading → Int)
    (outcome : UInt16 × Flags) : Prop where
  result : outcome.1.toNat = residue width exact
  reports : Reports before outcome.2 width exact
  carry : outcome.2.get .carry = true ↔ ¬Reading.unsigned.Fits width (exact .unsigned)

/-- The same of an operation that leaves the carry alone. -/
structure Counts (before : Flags) (width : Width) (exact : Reading → Int)
    (outcome : UInt16 × Flags) : Prop where
  result : outcome.1.toNat = residue width exact
  reports : Reports before outcome.2 width exact
  carry : outcome.2.get .carry = before.get .carry

/-- What is kept of an exact result is its residue. -/
theorem natCast_residue (width : Width) (exact : Reading → Int) :
    (residue width exact : Int) = exact .unsigned % modulus width :=
  Int.toNat_of_nonneg
    (Int.emod_nonneg _ (Int.natCast_ne_zero.mpr (Nat.ne_of_gt (modulus_pos width))))

/-! ## Results out of range

    Here `x` and `y` are the bits that count of two operands, `c` is a carry or a borrow, and `r`
    is the result. -/

/-- A number that is out of range by less than the number of values is brought back at once. -/
theorem eq_of_wraps {modulus r : Nat} {number : Int} (hr : (r : Int) = number % modulus)
    (hlow : -modulus ≤ number) (hhigh : number < 2 * modulus) :
    r < modulus ∧ (number = r - modulus ∨ number = r ∨ number = r + modulus) := by
  have hpositive : (0 : Int) < modulus := by omega
  have hnonneg := Int.emod_nonneg number (Int.ne_of_gt hpositive)
  have hlt := Int.emod_lt_of_pos number hpositive
  refine ⟨by omega, ?_⟩
  by_cases hneg : number < 0
  · have hback := Int.emod_eq_of_lt (a := number + modulus) (b := modulus) (by omega) (by omega)
    rw [Int.add_emod_right] at hback
    omega
  · by_cases hover : number < modulus
    · have hsame := Int.emod_eq_of_lt (by omega) hover
      omega
    · have hback := Int.emod_eq_of_lt (a := number - modulus) (b := modulus) (by omega) (by omega)
      rw [Int.sub_emod_right] at hback
      omega

section

variable {half x y c r : Nat} (hx : x < 2 * half) (hy : y < 2 * half) (hc : c ≤ 1)

include hx hy hc

/-- The fifth bit of a sum tells whether the lowest four carry into it. -/
theorem sum_digit (hhalf : half = 0x80 ∨ half = 0x8000)
    (hr : (r : Int) = (x + y + c) % (2 * half : Nat)) :
    (x / 16 + y / 16 + r / 16) % 2 = 1
      ↔ ¬((0 : Int) ≤ (x % 16 : Nat) + (y % 16 : Nat) + c
        ∧ (x % 16 : Nat) + (y % 16 : Nat) + (c : Int) < 16) := by
  have hwraps := eq_of_wraps hr (by omega) (by omega)
  rcases hhalf with rfl | rfl
  · omega
  · omega

/-- The fifth bit of a difference tells whether the lowest four borrow from it. -/
theorem difference_digit (hhalf : half = 0x80 ∨ half = 0x8000)
    (hr : (r : Int) = (x - y - c) % (2 * half : Nat)) :
    (x / 16 + y / 16 + r / 16) % 2 = 1
      ↔ ¬((0 : Int) ≤ (x % 16 : Nat) - (y % 16 : Nat) - c
        ∧ (x % 16 : Nat) - (y % 16 : Nat) - (c : Int) < 16) := by
  have hwraps := eq_of_wraps hr (by omega) (by omega)
  rcases hhalf with rfl | rfl
  · omega
  · omega

/-- A sum overflows if both operands differ from it in sign. -/
theorem sum_overflow (hr : (r : Int) = (x + y + c) % (2 * half : Nat)) :
    ¬(half ≤ x ↔ half ≤ r) ∧ ¬(half ≤ y ↔ half ≤ r)
      ↔ ¬(-(half : Int) ≤ signedNumber half x + signedNumber half y + c
        ∧ signedNumber half x + signedNumber half y + c < half) := by
  have hwraps := eq_of_wraps hr (by omega) (by omega)
  clear hr
  rw [signedNumber, signedNumber]
  by_cases hx' : half ≤ x <;> by_cases hy' : half ≤ y
  all_goals
    simp only [hx', hy', if_true, if_false, true_iff, false_iff]
    omega

/-- A difference overflows if the first operand differs in sign from the other and from it. -/
theorem difference_overflow (hr : (r : Int) = (x - y - c) % (2 * half : Nat)) :
    ¬(half ≤ x ↔ half ≤ y) ∧ ¬(half ≤ x ↔ half ≤ r)
      ↔ ¬(-(half : Int) ≤ signedNumber half x - signedNumber half y - c
        ∧ signedNumber half x - signedNumber half y - c < half) := by
  have hwraps := eq_of_wraps hr (by omega) (by omega)
  clear hr
  rw [signedNumber, signedNumber]
  by_cases hx' : half ≤ x <;> by_cases hy' : half ≤ y
  all_goals
    simp only [hx', hy', if_true, if_false, true_iff, false_iff, not_true_eq_false,
      not_false_eq_true, true_and, false_and]
    omega

end

/-! ## The flags of a result -/

/-- The flags tell of an exact result if auxiliary carry and overflow do. -/
theorem reports_setResultFlags {width : Width} {exact : Reading → Int} {result : UInt16}
    (before : Flags) (carry : Bool) {auxiliaryCarry overflow : Bool}
    (hbound : result.toNat < modulus width) (hresult : result.toNat = residue width exact)
    (hauxiliaryCarry : auxiliaryCarry = true ↔ ¬Reading.lowDigit.Fits width (exact .lowDigit))
    (hoverflow : overflow = true ↔ ¬Reading.signed.Fits width (exact .signed)) :
    Reports before
      (setResultFlags
        (((before.set .carry carry).set .auxiliaryCarry auxiliaryCarry).set .overflow overflow)
        width result)
      width exact := by
  have hshows := shows_setResultFlags
    (((before.set .carry carry).set .auxiliaryCarry auxiliaryCarry).set .overflow overflow) hbound
  rw [hresult] at hshows
  constructor
  case auxiliaryCarry => simpa using hauxiliaryCarry
  case overflow => simpa using hoverflow
  case sign => exact hshows.sign
  case zero => exact hshows.zero
  case parity => exact hshows.parity
  case trap => simp
  case interruptEnable => simp
  case direction => simp

/-! ## The two operations -/

section

variable (flags : Flags) (width : Width) (a b : UInt16) (carry : Bool)

/-- The exact sum, with a carry. -/
def exactSum (reading : Reading) : Int :=
  reading.value width a + reading.value width b + carry.toNat

/-- The exact difference, with a borrow. -/
def exactDifference (reading : Reading) : Int :=
  reading.value width a - reading.value width b - carry.toNat

/-- The sum with all its bits. -/
theorem toNat_wideSum :
    ((a &&& width.mask).toUInt32 + (b &&& width.mask).toUInt32 + carry.toUInt32).toNat
      = a.toNat % modulus width + b.toNat % modulus width + carry.toNat := by
  have ha := (a &&& width.mask).toNat_lt
  have hb := (b &&& width.mask).toNat_lt
  have hbit := carry.toNat_le
  rw [UInt32.toNat_add, UInt32.toNat_add, UInt16.toNat_toUInt32, UInt16.toNat_toUInt32, toNat_carry,
    ← toNat_and_mask, ← toNat_and_mask]
  omega

/-- What is kept of a sum. -/
theorem toNat_addCarry :
    ((addCarry flags width a b carry).1.toNat : Int)
      = exactSum width a b carry .unsigned % modulus width := by
  show ((width.truncate _).toNat : Int) = _
  rw [toNat_truncate, toNat_wideSum, Int.natCast_emod, Int.natCast_add, Int.natCast_add]
  rfl

/-- What is kept of a difference, although it wraps far above the bits that count. -/
theorem toNat_subBorrow :
    ((subBorrow flags width a b carry).1.toNat : Int)
      = exactDifference width a b carry .unsigned % modulus width := by
  have ha := (a &&& width.mask).toNat_lt
  have hb := (b &&& width.mask).toNat_lt
  have hbit := carry.toNat_le
  show ((width.truncate _).toNat : Int) = (_ - _ - _) % _
  rw [toNat_truncate, UInt32.toNat_sub, UInt32.toNat_sub, UInt16.toNat_toUInt32,
    UInt16.toNat_toUInt32, toNat_carry, Reading.value, Reading.value, ← toNat_and_mask,
    ← toNat_and_mask, modulus]
  rcases half_cases width with hhalf | hhalf
  · rw [hhalf]
    omega
  · rw [hhalf]
    omega

/-- A sum is exact. -/
theorem addCarry_computes :
    Computes flags width (exactSum width a b carry) (addCarry flags width a b carry) := by
  have ha := toNat_and_mask_lt width a
  have hb := toNat_and_mask_lt width b
  have hresult := toNat_addCarry flags width a b carry
  have hresidue : (addCarry flags width a b carry).1.toNat
      = residue width (exactSum width a b carry) := by
    rw [residue, ← hresult]
    rfl
  have hkept := hresult
  rw [exactSum, Reading.value, Reading.value, ← toNat_and_mask, ← toNat_and_mask] at hkept
  have hbound := (eq_of_wraps hkept (by omega) (by have := carry.toNat_le; omega)).1
  refine ⟨hresidue, reports_setResultFlags flags _ hbound hresidue ?_ ?_, ?_⟩
  · refine (xor_xor_digitBit _ _ _).trans ?_
    rw [exactSum, lowDigit_value, lowDigit_value, ← toNat_and_mask, ← toNat_and_mask]
    exact sum_digit ha hb carry.toNat_le (half_cases width) hkept
  · refine (xor_and_xor_signBit ha hbound hb hbound).trans ?_
    rw [exactSum, signed_value, signed_value, ← toNat_and_mask, ← toNat_and_mask]
    exact sum_overflow ha hb carry.toNat_le hkept
  · have hflag : (addCarry flags width a b carry).2.get .carry
        = decide (width.mask.toUInt32
            < (a &&& width.mask).toUInt32 + (b &&& width.mask).toUInt32 + carry.toUInt32) := by
      simp [addCarry]
    have hmask : width.mask.toUInt32.toNat = modulus width - 1 := by cases width <;> rfl
    rw [hflag, decide_eq_true_iff, UInt32.lt_iff_toNat_lt, toNat_wideSum, hmask, exactSum,
      Reading.value, Reading.value, ← toNat_and_mask, ← toNat_and_mask]
    show _ ↔ ¬((0 : Int) ≤ _ ∧ _ < _)
    omega

/-- A difference is exact. -/
theorem subBorrow_computes :
    Computes flags width (exactDifference width a b carry) (subBorrow flags width a b carry) := by
  have ha := toNat_and_mask_lt width a
  have hb := toNat_and_mask_lt width b
  have hbit := carry.toNat_le
  have hresult := toNat_subBorrow flags width a b carry
  have hresidue : (subBorrow flags width a b carry).1.toNat
      = residue width (exactDifference width a b carry) := by
    rw [residue, ← hresult]
    rfl
  have hkept := hresult
  rw [exactDifference, Reading.value, Reading.value, ← toNat_and_mask, ← toNat_and_mask] at hkept
  have hbound := (eq_of_wraps hkept (by omega) (by omega)).1
  refine ⟨hresidue, reports_setResultFlags flags _ hbound hresidue ?_ ?_, ?_⟩
  · refine (xor_xor_digitBit _ _ _).trans ?_
    rw [exactDifference, lowDigit_value, lowDigit_value, ← toNat_and_mask, ← toNat_and_mask]
    exact difference_digit ha hb hbit (half_cases width) hkept
  · refine (xor_and_xor_signBit ha hb ha hbound).trans ?_
    rw [exactDifference, signed_value, signed_value, ← toNat_and_mask, ← toNat_and_mask]
    exact difference_overflow ha hb hbit hkept
  · have hflag : (subBorrow flags width a b carry).2.get .carry
        = decide ((a &&& width.mask).toUInt32
            < (b &&& width.mask).toUInt32 + carry.toUInt32) := by
      simp [subBorrow]
    have hbounded := (b &&& width.mask).toNat_lt
    rw [hflag, decide_eq_true_iff, UInt32.lt_iff_toNat_lt, UInt32.toNat_add,
      UInt16.toNat_toUInt32, UInt16.toNat_toUInt32, toNat_carry, exactDifference, Reading.value,
      Reading.value, ← toNat_and_mask, ← toNat_and_mask]
    show _ ↔ ¬((0 : Int) ≤ _ ∧ _ < _)
    omega

end

/-! ## Every addition and subtraction -/

/-- The carry has to do with no other flag. -/
theorem Reports.set_carry {before after : Flags} {width : Width} {exact : Reading → Int}
    (h : Reports before after width exact) (carry : Bool) :
    Reports before (after.set .carry carry) width exact := by
  constructor
  case auxiliaryCarry => simpa using h.auxiliaryCarry
  case overflow => simpa using h.overflow
  case sign => simpa using h.sign
  case zero => simpa using h.zero
  case parity => simpa using h.parity
  case trap => simpa using h.trap
  case interruptEnable => simpa using h.interruptEnable
  case direction => simpa using h.direction

/-- The carry may also be found in another way. -/
theorem Computes.of_carry {before : Flags} {width : Width} {exact : Reading → Int}
    {outcome : UInt16 × Flags} (h : Computes before width exact outcome) {carry : Bool}
    (hcarry : carry = true ↔ ¬Reading.unsigned.Fits width (exact .unsigned)) :
    Computes before width exact (outcome.1, outcome.2.set .carry carry) :=
  ⟨h.result, h.reports.set_carry carry, by simpa using hcarry⟩

/-- An operation that puts the carry back counts. -/
theorem Computes.counts {before : Flags} {width : Width} {exact : Reading → Int}
    {outcome : UInt16 × Flags} (h : Computes before width exact outcome) :
    Counts before width exact (outcome.1, outcome.2.set .carry (before.get .carry)) :=
  ⟨h.result, h.reports.set_carry _, by simp⟩

/-- A sum without a carry. -/
theorem exactSum_false (width : Width) (a b : UInt16) :
    exactSum width a b false = fun reading => reading.value width a + reading.value width b := by
  funext reading
  exact Int.add_zero _

/-- A difference without a borrow. -/
theorem exactDifference_false (width : Width) (a b : UInt16) :
    exactDifference width a b false
      = fun reading => reading.value width a - reading.value width b := by
  funext reading
  exact Int.sub_zero _

/-- A difference without a borrow is exact. -/
theorem sub_computes (flags : Flags) (width : Width) (a b : UInt16) :
    Computes flags width (fun reading => reading.value width a - reading.value width b)
      (sub flags width a b) := by
  rw [← exactDifference_false]
  exact subBorrow_computes flags width a b false

/-- Additions and subtractions give the exact result modulo the values of the width.  Carry,
    overflow and auxiliary carry say that it is out of range without a sign, with a sign, and in
    the lowest four bits; the other flags of a result say what has been kept, and the rest are as
    before.  Counting by one leaves the carry alone, and a comparison sets the flags of a
    difference. -/
theorem sums_exact (flags : Flags) (width : Width) (a b : UInt16) :
    Computes flags width (fun reading => reading.value width a + reading.value width b)
        (add flags width a b)
      ∧ Computes flags width
          (fun reading =>
            reading.value width a + reading.value width b + (flags.get .carry).toNat)
          (adc flags width a b)
      ∧ Computes flags width (fun reading => reading.value width a - reading.value width b)
          (sub flags width a b)
      ∧ Computes flags width
          (fun reading =>
            reading.value width a - reading.value width b - (flags.get .carry).toNat)
          (sbb flags width a b)
      ∧ (∃ difference,
          Computes flags width (fun reading => reading.value width a - reading.value width b)
            (difference, cmp flags width a b))
      ∧ Counts flags width (fun reading => reading.value width a + 1) (inc flags width a)
      ∧ Counts flags width (fun reading => reading.value width a - 1) (dec flags width a)
      ∧ Computes flags width (fun reading => 0 - reading.value width a) (neg flags width a) := by
  have hadd : ∀ b, Computes flags width
      (fun reading => reading.value width a + reading.value width b) (add flags width a b) := by
    intro b
    rw [← exactSum_false]
    exact addCarry_computes flags width a b false
  have hsub := sub_computes flags width
  have hneg : Computes flags width (fun reading => 0 - reading.value width a)
      (sub flags width 0 a) := by
    simpa only [value_zero] using hsub 0 a
  refine ⟨hadd b, addCarry_computes flags width a b (flags.get .carry), hsub a b,
    subBorrow_computes flags width a b (flags.get .carry), ⟨_, hsub a b⟩, ?_, ?_, ?_⟩
  · have hinc := (hadd 1).counts
    simp only [value_one] at hinc
    exact hinc
  · have hdec := (hsub a 1).counts
    simp only [value_one] at hdec
    exact hdec
  · refine hneg.of_carry ?_
    have hbound := toNat_and_mask_lt width a
    rw [bne_iff_ne, ne_eq, ← UInt16.toNat_inj, Reading.value, ← toNat_and_mask]
    show ¬_ = 0 ↔ ¬((0 : Int) ≤ _ ∧ _ < _)
    omega

end Microprocessor.X86.Alu
