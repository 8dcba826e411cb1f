import Microprocessor.Proofs.X86.Flags

/-! # Operands as numbers

    The arithmetic unit computes with bits; what that means is said with numbers.  An
    operand can be read in three ways, and bits above the width matter in none.

      * `Reading` are the ways to read an operand, `Reading.value` is the number, and
        `Reading.Fits` says which numbers can be read;
      * `signed_value_emod` and `bmod_unsigned_value`: with and without a sign, an operand
        is read as numbers of one residue;
      * `and_signBit_ne_zero`, `xor_xor_digitBit` and `xor_and_xor_signBit` are masks that
        tell something of the numbers;
      * `Shows` is what the flags of a result tell. -/

namespace Microprocessor.X86.Alu

/-! ## Numbers -/

/-- The least value with the sign bit. -/
def half : Width → Nat
  | .byte => 0x80
  | .word => 0x8000

/-- How many values a width has. -/
def modulus (width : Width) : Nat :=
  2 * half width

/-- The ways to read an operand as a number. -/
inductive Reading
  /-- The bits that count, without a sign. -/
  | unsigned
  /-- The bits that count, with a sign. -/
  | signed
  /-- The lowest four bits. -/
  | lowDigit

namespace Reading

/-- The number that an operand is read as.  Bits above the width do not matter. -/
def value (width : Width) (operand : UInt16) : Reading → Int
  | .unsigned => (operand.toNat % modulus width : Nat)
  | .signed => Int.bmod operand.toNat (modulus width)
  | .lowDigit => (operand.toNat % 16 : Nat)

/-- Whether some operand is read as the number. -/
def Fits (width : Width) (number : Int) : Reading → Prop
  | .unsigned => 0 ≤ number ∧ number < modulus width
  | .signed => -half width ≤ number ∧ number < half width
  | .lowDigit => 0 ≤ number ∧ number < 16

end Reading

/-! ## Bits as numbers -/

theorem half_cases (width : Width) : half width = 0x80 ∨ half width = 0x8000 := by
  cases width with
  | byte => exact .inl rfl
  | word => exact .inr rfl

theorem modulus_pos (width : Width) : 0 < modulus width := by
  cases width with
  | byte => exact Nat.zero_lt_succ _
  | word => exact Nat.zero_lt_succ _

/-- The bits that count. -/
theorem toNat_and_mask (width : Width) (operand : UInt16) :
    (operand &&& width.mask).toNat = operand.toNat % modulus width := by
  rw [UInt16.toNat_and]
  cases width with
  | byte => exact Nat.and_two_pow_sub_one_eq_mod operand.toNat 8
  | word => exact Nat.and_two_pow_sub_one_eq_mod operand.toNat 16

/-- There are fewer of them than values of the width. -/
theorem toNat_and_mask_lt (width : Width) (operand : UInt16) :
    (operand &&& width.mask).toNat < modulus width := by
  rw [toNat_and_mask]
  exact Nat.mod_lt _ (modulus_pos width)

/-- The bits that count of a longer word. -/
theorem toNat_truncate (width : Width) (value : UInt32) :
    (width.truncate value).toNat = value.toNat % modulus width := by
  rw [Width.truncate, toNat_and_mask, UInt32.toNat_toUInt16]
  cases width with
  | byte => exact Nat.mod_mod_of_dvd value.toNat (by decide)
  | word => exact Nat.mod_mod_of_dvd value.toNat (by decide)

/-- A carry counts for one. -/
theorem toNat_carry (carry : Bool) : carry.toUInt32.toNat = carry.toNat := by
  cases carry <;> rfl

/-- Masking with the sign bit tells the upper half of the values. -/
theorem and_signBit_ne_zero (width : Width) (word : UInt16) :
    (word &&& width.signBit != 0) = word.toNat.testBit (width.bits - 1) := by
  cases width with
  | byte => exact and_bit_ne_zero word (by decide) rfl
  | word => exact and_bit_ne_zero word (by decide) rfl

/-- The upper half of the values are those with the sign bit. -/
theorem testBit_sign {width : Width} {x : Nat} (hx : x < modulus width) :
    x.testBit (width.bits - 1) = decide (half width ≤ x) := by
  rw [Nat.testBit_eq_decide_div_mod_eq, decide_eq_decide]
  cases width with
  | byte =>
      have hx : x < 2 * 0x80 := hx
      show x / 2 ^ 7 % 2 = 1 ↔ 0x80 ≤ x
      omega
  | word =>
      have hx : x < 2 * 0x8000 := hx
      show x / 2 ^ 15 % 2 = 1 ↔ 0x8000 ≤ x
      omega

/-- A bit is set in one or in all of three words. -/
theorem xor_xor_digitBit (x y z : UInt16) :
    ((x ^^^ y ^^^ z) &&& 0x10 != 0) = true
      ↔ (x.toNat / 16 + y.toNat / 16 + z.toNat / 16) % 2 = 1 := by
  have hodd : ∀ p q r : Bool, (p ^^ q ^^ r) = true ↔ (p.toNat + q.toNat + r.toNat) % 2 = 1 := by
    decide
  have hbit : ((x ^^^ y ^^^ z) &&& 0x10 != 0) = (x ^^^ y ^^^ z).toNat.testBit 4 :=
    and_bit_ne_zero _ (by decide) rfl
  rw [hbit, UInt16.toNat_xor, UInt16.toNat_xor, Nat.testBit_xor, Nat.testBit_xor, hodd]
  simp only [Nat.toNat_testBit]
  omega

/-- Two words differ in sign, and so do two others. -/
theorem xor_and_xor_signBit {width : Width} {v w x y : UInt16} (hv : v.toNat < modulus width)
    (hw : w.toNat < modulus width) (hx : x.toNat < modulus width) (hy : y.toNat < modulus width) :
    ((v ^^^ w) &&& (x ^^^ y) &&& width.signBit != 0) = true
      ↔ ¬(half width ≤ v.toNat ↔ half width ≤ w.toNat)
        ∧ ¬(half width ≤ x.toNat ↔ half width ≤ y.toNat) := by
  have hdiffer : ∀ m n : Nat, (decide (half width ≤ m) ^^ decide (half width ≤ n)) = true
      ↔ ¬(half width ≤ m ↔ half width ≤ n) := by
    intro m n
    by_cases hm : half width ≤ m
    · simp [hm]
    · simp [hm]
  rw [and_signBit_ne_zero, UInt16.toNat_and, UInt16.toNat_xor, UInt16.toNat_xor, Nat.testBit_and,
    Nat.testBit_xor, Nat.testBit_xor, testBit_sign hv, testBit_sign hw, testBit_sign hx,
    testBit_sign hy, Bool.and_eq_true, hdiffer, hdiffer]

/-! ## Readings -/

/-- The upper half of the values are read as numbers below zero. -/
def signedNumber (half x : Nat) : Int :=
  if half ≤ x then x - (2 * half : Nat) else x

theorem signed_value (width : Width) (operand : UInt16) :
    Reading.signed.value width operand
      = signedNumber (half width) (operand.toNat % modulus width) := by
  have hmiddle : ((modulus width : Int) + 1) / 2 = half width := by
    rw [modulus]
    omega
  rw [Reading.value, Int.bmod, hmiddle, ← Int.natCast_emod, signedNumber, ← modulus]
  by_cases h : half width ≤ operand.toNat % modulus width
  · rw [if_neg (by omega), if_pos h]
  · rw [if_pos (by omega), if_neg h]

/-- The lowest four bits are among those that count. -/
theorem lowDigit_value (width : Width) (operand : UInt16) :
    Reading.lowDigit.value width operand = (operand.toNat % modulus width % 16 : Nat) := by
  cases width with
  | byte => rw [Reading.value, Nat.mod_mod_of_dvd operand.toNat (by decide)]
  | word => rw [Reading.value, Nat.mod_mod_of_dvd operand.toNat (by decide)]

/-- A number of four bits is read as itself in each of the ways. -/
theorem value_of_lt (width : Width) {operand : UInt16} (h : operand.toNat < 16)
    (reading : Reading) : reading.value width operand = operand.toNat := by
  have hhalf : 16 ≤ half width := by
    rcases half_cases width with hhalf | hhalf
    all_goals omega
  have hcounts : operand.toNat % modulus width = operand.toNat :=
    Nat.mod_eq_of_lt (by rw [modulus]; omega)
  cases reading with
  | unsigned => rw [Reading.value, hcounts]
  | signed => rw [signed_value, hcounts, signedNumber, if_neg (by omega)]
  | lowDigit => rw [Reading.value, Nat.mod_eq_of_lt h]

/-- So is zero. -/
theorem value_zero (width : Width) (reading : Reading) : reading.value width 0 = 0 :=
  value_of_lt width (by decide) reading

/-- So is one. -/
theorem value_one (width : Width) (reading : Reading) : reading.value width 1 = 1 :=
  value_of_lt width (by decide) reading

/-- What can be read of an operand fits. -/
theorem fits_value (width : Width) (operand : UInt16) (reading : Reading) :
    reading.Fits width (reading.value width operand) := by
  have hbound := Nat.mod_lt operand.toNat (modulus_pos width)
  cases reading with
  | unsigned => exact ⟨Int.natCast_nonneg _, Int.ofNat_lt.mpr hbound⟩
  | signed =>
      rw [signed_value, signedNumber]
      show -(half width : Int) ≤ _ ∧ _ < (half width : Int)
      rw [modulus] at hbound ⊢
      split
      all_goals omega
  | lowDigit => exact ⟨Int.natCast_nonneg _, Int.ofNat_lt.mpr (Nat.mod_lt _ (by decide))⟩

/-- The two readings of the bits that count have the same residue. -/
theorem signed_value_emod (width : Width) (operand : UInt16) :
    Reading.signed.value width operand % modulus width = Reading.unsigned.value width operand := by
  show Int.bmod operand.toNat (modulus width) % modulus width = _
  rw [Int.bmod_emod]
  rfl

/-- The signed reading is determined by the unsigned one. -/
theorem bmod_unsigned_value (width : Width) (operand : UInt16) :
    Int.bmod (Reading.unsigned.value width operand) (modulus width)
      = Reading.signed.value width operand := by
  rw [← signed_value_emod, Int.emod_bmod]
  exact Int.bmod_bmod

/-- Operands that are equal in one of the two readings are equal in the other. -/
theorem signed_value_eq_iff (width : Width) (a b : UInt16) :
    Reading.signed.value width a = Reading.signed.value width b
      ↔ Reading.unsigned.value width a = Reading.unsigned.value width b := by
  constructor
  · intro h
    rw [← signed_value_emod, h, signed_value_emod]
  · intro h
    rw [← bmod_unsigned_value, h, bmod_unsigned_value]

/-! ## The flags of a result -/

/-- The ones of the low byte can be counted in the whole word. -/
theorem evenParity_toUInt8 (result : UInt16) :
    evenParity result.toUInt8 = true ↔ (List.range 8).countP result.toNat.testBit % 2 = 0 := by
  have hbits : (List.range 8).countP (result.toUInt8.toNat.testBit ·)
      = (List.range 8).countP result.toNat.testBit := by
    refine List.countP_congr ?_
    intro i hi
    have hi : i < 8 := List.mem_range.mp hi
    rw [UInt16.toNat_toUInt8, Nat.testBit_mod_two_pow]
    simp [hi]
  rw [evenParity, hbits, beq_iff_eq]

/-- Sign, zero and parity tell of a result. -/
structure Shows (after : Flags) (width : Width) (result : Nat) : Prop where
  sign : after.get .sign = true ↔ half width ≤ result
  zero : after.get .zero = true ↔ result = 0
  parity : after.get .parity = true ↔ (List.range 8).countP result.testBit % 2 = 0

/-- Setting the flags of a result makes them tell of it. -/
theorem shows_setResultFlags (flags : Flags) {width : Width} {result : UInt16}
    (hbound : result.toNat < modulus width) :
    Shows (setResultFlags flags width result) width result.toNat := by
  constructor
  case sign =>
    rw [get_setResultFlags]
    show width.isNegative result = true ↔ _
    rw [Width.isNegative, and_signBit_ne_zero, testBit_sign hbound, decide_eq_true_iff]
  case zero =>
    rw [get_setResultFlags]
    show (result &&& width.mask == 0) = true ↔ _
    rw [beq_iff_eq, ← UInt16.toNat_inj, toNat_and_mask, Nat.mod_eq_of_lt hbound]
    rfl
  case parity =>
    rw [get_setResultFlags]
    exact evenParity_toUInt8 result

end Microprocessor.X86.Alu
