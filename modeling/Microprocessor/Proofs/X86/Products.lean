import Mathlib.Algebra.Group.Int.Defs
import Mathlib.Algebra.Group.Nat.Defs
import Microprocessor.Proofs.X86.Reading

/-! # Products and quotients are exact

    A product has twice the width of its operands, and so has a dividend.  With or without
    a sign the product is exact; a division is exact if its quotient fits, and an error
    otherwise.

      * `Reading.ofSigned` is how the operands are read, and `doubleValue` how the dividend is;
      * `Multiplies` and `Answers` are what the two operations have to give, and
        `multiply_exact` and `divide_answers` say that they do;
      * `divide_multiply`: a product divided by a factor. -/

namespace Microprocessor.X86.Alu

/-! ## Numbers -/

/-- How operands are read, with a sign or without. -/
def Reading.ofSigned (signed : Bool) : Reading :=
  if signed then .signed else .unsigned

/-- The number that a dividend is read as. -/
def doubleValue (width : Width) (signed : Bool) (dividend : UInt32) : Int :=
  if signed then Int.bmod dividend.toNat (modulus width ^ 2) else dividend.toNat

/-- What is too much for a quotient. -/
def quotientLimit (width : Width) (signed : Bool) : Nat :=
  if signed then half width else modulus width

/-- Whether a division is an error: the divisor is zero, or the quotient does not fit. -/
def Undefined (width : Width) (signed : Bool) (dividend divisor : Int) : Prop :=
  divisor = 0 ∨ quotientLimit width signed ≤ (dividend.tdiv divisor).natAbs

/-- The product is exact, and carry and overflow say that it is out of range. -/
structure Multiplies (width : Width) (reading : Reading) (exact : Int)
    (outcome : UInt32 × Flags) : Prop where
  product : (outcome.1.toNat : Int) = exact % (modulus width ^ 2 : Nat)
  carry : outcome.2.get .carry = true ↔ ¬reading.Fits width exact
  overflow : outcome.2.get .overflow = outcome.2.get .carry

/-- Quotient and remainder make up the dividend, and the remainder is less than the divisor and has
    the sign of the dividend. -/
structure Divides (width : Width) (reading : Reading) (dividend divisor : Int)
    (quotient remainder : UInt16) : Prop where
  exact : dividend = reading.value width quotient * divisor + reading.value width remainder
  lesser : (reading.value width remainder).natAbs < divisor.natAbs
  sign : reading.value width remainder = 0
    ∨ (reading.value width remainder).sign = dividend.sign
  quotient_lt : quotient.toNat < modulus width
  remainder_lt : remainder.toNat < modulus width

/-- What a division answers: an error where it is undefined, and exact numbers elsewhere. -/
inductive Answers (width : Width) (signed : Bool) (dividend divisor : Int) :
    Except DivideError (UInt16 × UInt16) → Prop
  | undefined (h : Undefined width signed dividend divisor) :
      Answers width signed dividend divisor (.error ⟨⟩)
  | exact {quotient remainder : UInt16} (hdefined : ¬Undefined width signed dividend divisor)
      (h : Divides width (Reading.ofSigned signed) dividend divisor quotient remainder) :
      Answers width signed dividend divisor (.ok (quotient, remainder))

/-! ## Signed numbers -/

/-- The unit reads signed operands as two's complement numbers. -/
theorem toSigned_eq (width : Width) (operand : UInt16) :
    width.toSigned operand = Reading.signed.value width operand := by
  cases width with
  | byte =>
      show operand.toUInt8.toBitVec.toInt = Int.bmod operand.toNat 256
      rw [BitVec.toInt_eq_toNat_bmod, UInt8.toNat_toBitVec, UInt16.toNat_toUInt8,
        Int.natCast_emod]
      exact Int.emod_bmod _ _
  | word => exact BitVec.toInt_eq_toNat_bmod operand.toBitVec

theorem modulus_sq (width : Width) : modulus width ^ 2 = 2 ^ (2 * width.bits) := by
  cases width <;> rfl

/-- It reads signed dividends so as well. -/
theorem signedDividend_eq (width : Width) (dividend : UInt32) :
    signedDividend width dividend = doubleValue width true dividend := by
  rw [doubleValue, if_pos rfl, modulus_sq]
  cases width with
  | byte =>
      show dividend.toUInt16.toBitVec.toInt = Int.bmod dividend.toNat (2 ^ 16)
      rw [BitVec.toInt_eq_toNat_bmod, UInt16.toNat_toBitVec, UInt32.toNat_toUInt16,
        Int.natCast_emod]
      exact Int.emod_bmod _ _
  | word => exact BitVec.toInt_eq_toNat_bmod dividend.toBitVec

/-- A number is its own balanced residue if it can be read with a sign. -/
theorem bmod_modulus_eq_iff (width : Width) (number : Int) :
    Int.bmod number (modulus width) = number ↔ Reading.signed.Fits width number := by
  have hlow := Int.le_bmod (x := number) (modulus_pos width)
  have hhigh := Int.bmod_lt (x := number) (modulus_pos width)
  show _ ↔ -(half width : Int) ≤ number ∧ number < half width
  rw [modulus] at *
  constructor
  · intro h
    omega
  · intro h
    exact Int.bmod_eq_of_le_mul_two (by omega) (by omega)

/-- A number has all the bits of a word of twice the greater width. -/
theorem toNat_ofInt (number : Int) : ((UInt32.ofInt number).toNat : Int) = number % 2 ^ 32 := by
  have hlow := Int.emod_nonneg number (b := 2 ^ 32) (by decide)
  have hhigh := Int.emod_lt_of_pos number (b := 2 ^ 32) (by decide)
  show (((number % 2 ^ 32).toNat % 2 ^ 32 : Nat) : Int) = _
  omega

/-- What is kept of a number is its residue. -/
theorem unsigned_value_truncate (width : Width) (number : Int) :
    Reading.unsigned.value width (width.truncate (UInt32.ofInt number))
      = number % modulus width := by
  show (((width.truncate _).toNat % modulus width : Nat) : Int) = _
  rw [toNat_truncate, Nat.mod_mod, Int.natCast_emod, toNat_ofInt]
  cases width with
  | byte => exact Int.emod_emod_of_dvd number (by decide)
  | word => exact Int.emod_emod_of_dvd number (by decide)

/-- With a sign it is the number itself, if that fits. -/
theorem signed_value_truncate {width : Width} {number : Int}
    (h : Reading.signed.Fits width number) :
    Reading.signed.value width (width.truncate (UInt32.ofInt number)) = number := by
  rw [← bmod_unsigned_value, unsigned_value_truncate, Int.emod_bmod, bmod_modulus_eq_iff]
  exact h

/-! ## Products -/

/-- The bits of twice the width. -/
theorem toNat_and_doubleMask (width : Width) (wide : UInt32) :
    (wide &&& doubleMask width).toNat = wide.toNat % modulus width ^ 2 := by
  rw [UInt32.toNat_and, modulus_sq]
  cases width with
  | byte => exact Nat.and_two_pow_sub_one_eq_mod wide.toNat 16
  | word => exact Nat.and_two_pow_sub_one_eq_mod wide.toNat 32

section

variable (width : Width) (a b : UInt16)

/-- Without a sign the product has room in twice the greater width. -/
theorem toNat_product_unsigned :
    ((product width false a b).1.toNat : Int)
      = Reading.unsigned.value width a * Reading.unsigned.value width b := by
  have ha := (a &&& width.mask).toNat_lt
  have hb := (b &&& width.mask).toNat_lt
  have hproduct := Nat.mul_lt_mul'' ha hb
  show ((((a &&& width.mask).toUInt32 * (b &&& width.mask).toUInt32).toNat : Nat) : Int) = _ * _
  rw [UInt32.toNat_mul, UInt16.toNat_toUInt32, UInt16.toNat_toUInt32, Nat.mod_eq_of_lt hproduct,
    Int.natCast_mul, toNat_and_mask, toNat_and_mask]
  rfl

/-- With a sign it keeps the bits that there is room for. -/
theorem toNat_product_signed :
    ((product width true a b).1.toNat : Int)
      = Reading.signed.value width a * Reading.signed.value width b % 2 ^ 32 := by
  rw [← toSigned_eq, ← toSigned_eq]
  exact toNat_ofInt _

theorem toNat_product (signed : Bool) :
    ((product width signed a b).1.toNat : Int) % (modulus width ^ 2 : Nat)
      = (Reading.ofSigned signed).value width a * (Reading.ofSigned signed).value width b
          % (modulus width ^ 2 : Nat) := by
  cases signed with
  | false => rw [toNat_product_unsigned]; rfl
  | true =>
      rw [toNat_product_signed, modulus_sq]
      cases width with
      | byte => exact Int.emod_emod_of_dvd _ (by decide)
      | word => exact Int.emod_emod_of_dvd _ (by decide)

/-- The upper half is significant if the product does not fit. -/
theorem product_significant_iff (signed : Bool) :
    (product width signed a b).2 = true
      ↔ ¬(Reading.ofSigned signed).Fits width
          ((Reading.ofSigned signed).value width a * (Reading.ofSigned signed).value width b) := by
  cases signed with
  | false =>
      have hproduct := toNat_product_unsigned width a b
      have hmask : width.mask.toUInt32.toNat = modulus width - 1 := by cases width <;> rfl
      have hpositive := modulus_pos width
      show decide (width.mask.toUInt32 < (product width false a b).1) = true
        ↔ ¬((0 : Int) ≤ Reading.unsigned.value width a * Reading.unsigned.value width b
          ∧ Reading.unsigned.value width a * Reading.unsigned.value width b < modulus width)
      rw [decide_eq_true_iff, UInt32.lt_iff_toNat_lt, hmask, ← hproduct]
      omega
  | true =>
      show (width.toSigned (width.truncate (UInt32.ofInt (width.toSigned a * width.toSigned b)))
            != width.toSigned a * width.toSigned b) = true
          ↔ ¬Reading.signed.Fits width
            (Reading.signed.value width a * Reading.signed.value width b)
      rw [bne_iff_ne, ne_eq, toSigned_eq, toSigned_eq, toSigned_eq, ← bmod_modulus_eq_iff,
        ← bmod_unsigned_value, unsigned_value_truncate, Int.emod_bmod]

/-- Products are exact. -/
theorem multiply_exact (flags : Flags) (signed : Bool) :
    Multiplies width (Reading.ofSigned signed)
      ((Reading.ofSigned signed).value width a * (Reading.ofSigned signed).value width b)
      (multiply flags width signed a b) := by
  constructor
  case product =>
    show ((((product width signed a b).1 &&& doubleMask width).toNat : Nat) : Int) = _
    rw [toNat_and_doubleMask, Int.natCast_emod, toNat_product]
  case carry =>
    rw [← product_significant_iff]
    simp [multiply]
  case overflow => simp [multiply]

end

/-! ## Quotients -/

/-- Bits above the width matter in no reading. -/
theorem value_and_mask (width : Width) (operand : UInt16) (signed : Bool) :
    (Reading.ofSigned signed).value width (operand &&& width.mask)
      = (Reading.ofSigned signed).value width operand := by
  have hunsigned : Reading.unsigned.value width (operand &&& width.mask)
      = Reading.unsigned.value width operand := by
    show (((operand &&& width.mask).toNat % modulus width : Nat) : Int) = _
    rw [toNat_and_mask, Nat.mod_mod]
    rfl
  cases signed with
  | false => exact hunsigned
  | true => exact (signed_value_eq_iff width _ _).mpr hunsigned

/-- An operand of which no bit counts is read as zero, and no other. -/
theorem and_mask_eq_zero_iff (width : Width) (operand : UInt16) (signed : Bool) :
    operand &&& width.mask = 0 ↔ (Reading.ofSigned signed).value width operand = 0 := by
  have hunsigned : operand &&& width.mask = 0 ↔ Reading.unsigned.value width operand = 0 := by
    rw [← UInt16.toNat_inj, toNat_and_mask]
    exact Int.ofNat_eq_zero.symm
  cases signed with
  | false => exact hunsigned
  | true =>
      have hzero := signed_value_eq_iff width operand 0
      rw [value_zero, value_zero] at hzero
      exact hunsigned.trans hzero.symm

section

variable {width : Width} {dividend divisor : Int}

/-- Two words that are read as a quotient and its remainder are those of an exact division. -/
theorem divides_of_values {reading : Reading} {quotient remainder : UInt16}
    (hdivisor : divisor ≠ 0) (hquotient : reading.value width quotient = dividend.tdiv divisor)
    (hremainder : reading.value width remainder = dividend.tmod divisor)
    (hquotient_lt : quotient.toNat < modulus width)
    (hremainder_lt : remainder.toNat < modulus width) :
    Divides width reading dividend divisor quotient remainder := by
  refine ⟨?_, ?_, ?_, hquotient_lt, hremainder_lt⟩
  · rw [hquotient, hremainder, Int.mul_comm]
    exact (Int.mul_tdiv_add_tmod dividend divisor).symm
  · rw [hremainder, Int.natAbs_tmod]
    exact Nat.mod_lt _ (Int.natAbs_pos.mpr hdivisor)
  · have hsign := Int.sign_tmod dividend divisor
    rw [hremainder]
    by_cases hwhole : divisor ∣ dividend
    · exact .inl (Int.tmod_eq_zero_of_dvd hwhole)
    · exact .inr (hsign.trans (if_neg hwhole))

/-- Quotient and remainder are those of the division of numbers, and no others. -/
theorem Divides.values {reading : Reading} {quotient remainder : UInt16}
    (h : Divides width reading dividend divisor quotient remainder) :
    dividend.tdiv divisor = reading.value width quotient
      ∧ dividend.tmod divisor = reading.value width remainder := by
  have hlesser := h.lesser
  have hexact : reading.value width remainder + divisor * reading.value width quotient
      = dividend := by
    rw [Int.mul_comm, Int.add_comm]
    exact h.exact.symm
  have hdivisor : divisor ≠ 0 := by omega
  by_cases hdividend : 0 ≤ dividend
  · have hremainder : 0 ≤ reading.value width remainder := by
      obtain hnone | hsign := h.sign
      · exact Int.le_of_eq hnone.symm
      · exact Int.sign_nonneg_iff.mp (hsign ▸ Int.sign_nonneg_iff.mpr hdividend)
    exact (Int.tdiv_tmod_unique hdividend hdivisor).mpr ⟨hexact, hremainder, by omega⟩
  · have hnegative : dividend < 0 := Int.not_le.mp hdividend
    have hremainder : reading.value width remainder ≤ 0 := by
      obtain hnone | hsign := h.sign
      · exact Int.le_of_eq hnone
      · refine Int.le_of_lt (Int.sign_eq_neg_one_iff_neg.mp ?_)
        rw [hsign, Int.sign_eq_neg_one_of_neg hnegative]
    exact (Int.tdiv_tmod_unique' (Int.le_of_lt hnegative) hdivisor).mpr
      ⟨hexact, by omega, hremainder⟩

end

/-- A number that is read without a sign is kept if it fits. -/
theorem unsigned_value_toUInt16 {width : Width} {number : UInt32}
    (h : number.toNat < modulus width) :
    Reading.unsigned.value width number.toUInt16 = number.toNat
      ∧ number.toUInt16.toNat < modulus width := by
  have hword : modulus width ≤ 2 ^ 16 := by cases width <;> decide
  have hkept : number.toUInt16.toNat = number.toNat := by
    rw [UInt32.toNat_toUInt16]
    exact Nat.mod_eq_of_lt (Nat.lt_of_lt_of_le h hword)
  refine ⟨?_, hkept ▸ h⟩
  show ((number.toUInt16.toNat % modulus width : Nat) : Int) = _
  rw [hkept, Nat.mod_eq_of_lt h]

section

variable (width : Width) (dividend : UInt32) (divisor : UInt16)

/-- A division without a sign is an error or exact. -/
theorem divide_answers_unsigned :
    Answers width false (doubleValue width false dividend) (Reading.unsigned.value width divisor)
      (divide width false dividend divisor) := by
  have hvalue : Reading.unsigned.value width divisor = ((divisor &&& width.mask).toNat : Nat) := by
    rw [toNat_and_mask]
    rfl
  have hbound := toNat_and_mask_lt width divisor
  rw [hvalue, doubleValue, if_neg Bool.false_ne_true, divide]
  generalize divisor &&& width.mask = divides at hbound
  dsimp only
  have hquotient : (dividend.toNat : Int).tdiv divides.toNat
      = ((dividend / divides.toUInt32).toNat : Nat) := by
    rw [← Int.ofNat_tdiv, UInt32.toNat_div, UInt16.toNat_toUInt32]
  have hremainder : (dividend.toNat : Int).tmod divides.toNat
      = ((dividend % divides.toUInt32).toNat : Nat) := by
    rw [← Int.ofNat_tmod, UInt32.toNat_mod, UInt16.toNat_toUInt32]
  have hmask : width.mask.toUInt32.toNat + 1 = modulus width := by cases width <;> rfl
  by_cases hzero : divides = 0
  · subst hzero
    exact .undefined (.inl rfl)
  rw [if_neg hzero, if_neg Bool.false_ne_true]
  have hnumber : divides.toNat ≠ 0 := fun h => hzero (UInt16.toNat_inj.mp h)
  by_cases hlarge : width.mask.toUInt32 < dividend / divides.toUInt32
  · rw [if_pos hlarge]
    rw [UInt32.lt_iff_toNat_lt] at hlarge
    refine .undefined (.inr ?_)
    rw [hquotient]
    show modulus width ≤ (dividend / divides.toUInt32).toNat
    omega
  · rw [if_neg hlarge]
    rw [UInt32.lt_iff_toNat_lt] at hlarge
    have hfits : (dividend / divides.toUInt32).toNat < modulus width := by omega
    have hremains : (dividend % divides.toUInt32).toNat < modulus width := by
      rw [UInt32.toNat_mod, UInt16.toNat_toUInt32]
      exact Nat.lt_trans (Nat.mod_lt _ (Nat.pos_of_ne_zero hnumber)) hbound
    obtain ⟨hq, hq_lt⟩ := unsigned_value_toUInt16 hfits
    obtain ⟨hr, hr_lt⟩ := unsigned_value_toUInt16 hremains
    have hdivisor : (divides.toNat : Int) ≠ 0 := Int.natCast_ne_zero.mpr hnumber
    refine .exact ?_ (divides_of_values hdivisor (hq.trans hquotient.symm)
      (hr.trans hremainder.symm) hq_lt hr_lt)
    rw [Undefined, or_iff_right hdivisor, hquotient]
    show ¬modulus width ≤ (dividend / divides.toUInt32).toNat
    omega

/-- So is a division with a sign. -/
theorem divide_answers_signed :
    Answers width true (doubleValue width true dividend) (Reading.signed.value width divisor)
      (divide width true dividend divisor) := by
  have hzero : divisor &&& width.mask = 0 ↔ Reading.signed.value width divisor = 0 :=
    and_mask_eq_zero_iff width divisor true
  have hvalue : Reading.signed.value width (divisor &&& width.mask)
      = Reading.signed.value width divisor := value_and_mask width divisor true
  have hfits := fits_value width divisor .signed
  have hlimit : width.signBit.toNat = half width := by cases width <;> rfl
  rw [divide]
  dsimp only
  rw [signedDividend_eq, toSigned_eq, hlimit, hvalue]
  generalize Reading.signed.value width divisor = number at *
  generalize doubleValue width true dividend = exact at *
  by_cases hdivisor : divisor &&& width.mask = 0
  · rw [if_pos hdivisor]
    exact .undefined (.inl (hzero.mp hdivisor))
  rw [if_neg hdivisor, if_pos rfl]
  have hnumber : number ≠ 0 := fun h => hdivisor (hzero.mpr h)
  by_cases hlarge : (half width : Int) ≤ exact.tdiv number ∨ exact.tdiv number ≤ -half width
  · rw [if_pos hlarge]
    refine .undefined (.inr ?_)
    show half width ≤ (exact.tdiv number).natAbs
    omega
  · rw [if_neg hlarge]
    have hlesser : (exact.tmod number).natAbs < number.natAbs := by
      rw [Int.natAbs_tmod]
      exact Nat.mod_lt _ (Int.natAbs_pos.mpr hnumber)
    obtain ⟨hlow, hhigh⟩ : -(half width : Int) ≤ number ∧ number < half width := hfits
    refine .exact ?_ (divides_of_values hnumber (signed_value_truncate ⟨?_, ?_⟩)
      (signed_value_truncate ⟨?_, ?_⟩) (toNat_and_mask_lt width _) (toNat_and_mask_lt width _))
    · rw [Undefined, or_iff_right hnumber]
      show ¬half width ≤ (exact.tdiv number).natAbs
      omega
    all_goals omega

/-- A division is an error or exact. -/
theorem divide_answers (signed : Bool) :
    Answers width signed (doubleValue width signed dividend)
      ((Reading.ofSigned signed).value width divisor) (divide width signed dividend divisor) := by
  cases signed with
  | false => exact divide_answers_unsigned width dividend divisor
  | true => exact divide_answers_signed width dividend divisor

end

/-! ## Products divided -/

/-- Operands that are read as one number have the same bits that count. -/
theorem and_mask_eq_of_value {width : Width} {signed : Bool} {a b : UInt16}
    (h : (Reading.ofSigned signed).value width a = (Reading.ofSigned signed).value width b) :
    a &&& width.mask = b &&& width.mask := by
  have hunsigned : Reading.unsigned.value width a = Reading.unsigned.value width b := by
    cases signed with
    | false => exact h
    | true => exact (signed_value_eq_iff width a b).mp h
  rw [← UInt16.toNat_inj, toNat_and_mask, toNat_and_mask]
  exact Int.ofNat_inj.mp hunsigned

/-- All bits of a small operand count. -/
theorem and_mask_of_lt {width : Width} {operand : UInt16} (h : operand.toNat < modulus width) :
    operand &&& width.mask = operand := by
  rw [← UInt16.toNat_inj, toNat_and_mask, Nat.mod_eq_of_lt h]

section

variable {width : Width} {signed : Bool} {a b : UInt16} {word : UInt32}

/-- A dividend that has the bits of a product is read as the product. -/
theorem doubleValue_of_product
    (h : (word.toNat : Int) = (Reading.ofSigned signed).value width a
      * (Reading.ofSigned signed).value width b % (modulus width ^ 2 : Nat)) :
    doubleValue width signed word
      = (Reading.ofSigned signed).value width a * (Reading.ofSigned signed).value width b := by
  cases signed with
  | false =>
      have ha := Nat.mod_lt a.toNat (modulus_pos width)
      have hb := Nat.mod_lt b.toNat (modulus_pos width)
      have hproduct := Nat.mul_lt_mul'' ha hb
      rw [← Nat.pow_two] at hproduct
      show (word.toNat : Int) = _
      rw [h]
      exact Int.emod_eq_of_lt (Int.natCast_nonneg _) (Int.ofNat_lt.mpr hproduct)
  | true =>
      obtain ⟨ha_low, ha_high⟩ : -(half width : Int) ≤ Reading.signed.value width a
        ∧ Reading.signed.value width a < half width := fits_value width a .signed
      obtain ⟨hb_low, hb_high⟩ : -(half width : Int) ≤ Reading.signed.value width b
        ∧ Reading.signed.value width b < half width := fits_value width b .signed
      have hproduct : (Reading.signed.value width a * Reading.signed.value width b).natAbs
          ≤ half width * half width := by
        rw [Int.natAbs_mul]
        exact Nat.mul_le_mul (by omega) (by omega)
      have hsquare : modulus width ^ 2 = 4 * (half width * half width) := by
        cases width <;> rfl
      have hpositive : 0 < half width * half width := by cases width <;> decide
      change _ = Reading.signed.value width a * Reading.signed.value width b % _ at h
      show Int.bmod (word.toNat : Int) (modulus width ^ 2)
        = Reading.signed.value width a * Reading.signed.value width b
      rw [h, Int.emod_bmod, hsquare]
      exact Int.bmod_eq_of_le_mul_two (by omega) (by omega)

/-- The quotient of a multiple is too much only if it is the least number with a sign. -/
theorem undefined_mul_iff (hb : (Reading.ofSigned signed).value width b ≠ 0) :
    Undefined width signed
        ((Reading.ofSigned signed).value width a * (Reading.ofSigned signed).value width b)
        ((Reading.ofSigned signed).value width b)
      ↔ signed = true ∧ (Reading.ofSigned signed).value width a = -half width := by
  have hfits := fits_value width a (Reading.ofSigned signed)
  rw [Undefined, or_iff_right hb, Int.mul_tdiv_cancel _ hb]
  cases signed with
  | false =>
      obtain ⟨hlow, hhigh⟩ : 0 ≤ Reading.unsigned.value width a
        ∧ Reading.unsigned.value width a < modulus width := hfits
      show modulus width ≤ (Reading.unsigned.value width a).natAbs ↔ _
      simp only [Bool.false_eq_true, false_and, iff_false]
      omega
  | true =>
      obtain ⟨hlow, hhigh⟩ : -(half width : Int) ≤ Reading.signed.value width a
        ∧ Reading.signed.value width a < half width := hfits
      show half width ≤ (Reading.signed.value width a).natAbs ↔ _ ∧ Reading.signed.value width a = _
      rw [and_iff_right rfl]
      omega

/-- A multiple is divided without a remainder. -/
theorem words_of_divides_mul {quotient remainder : UInt16}
    (hb : (Reading.ofSigned signed).value width b ≠ 0)
    (h : Divides width (Reading.ofSigned signed)
      ((Reading.ofSigned signed).value width a * (Reading.ofSigned signed).value width b)
      ((Reading.ofSigned signed).value width b) quotient remainder) :
    quotient = a &&& width.mask ∧ remainder = 0 := by
  obtain ⟨hquotient, hnone⟩ := h.values
  rw [Int.mul_tdiv_cancel _ hb] at hquotient
  rw [Int.mul_tmod_left] at hnone
  rw [← and_mask_of_lt h.quotient_lt, ← and_mask_of_lt h.remainder_lt]
  exact ⟨and_mask_eq_of_value hquotient.symm,
    (and_mask_eq_zero_iff width remainder signed).mpr hnone.symm⟩

/-- A product divided by one of its factors gives the other, unless that does not fit. -/
theorem divide_multiply (flags : Flags) (hb : (Reading.ofSigned signed).value width b ≠ 0) :
    divide width signed (multiply flags width signed a b).1 b
      = if signed = true ∧ (Reading.ofSigned signed).value width a = -half width
        then .error ⟨⟩ else .ok (a &&& width.mask, 0) := by
  have hanswers := divide_answers width (multiply flags width signed a b).1 b signed
  rw [doubleValue_of_product (multiply_exact width a b flags signed).product] at hanswers
  generalize divide width signed (multiply flags width signed a b).1 b = answer at hanswers
  rcases hanswers with hundefined | ⟨hdefined, hdivides⟩
  · rw [if_pos ((undefined_mul_iff hb).mp hundefined)]
  · obtain ⟨rfl, rfl⟩ := words_of_divides_mul hb hdivides
    rw [if_neg (mt (undefined_mul_iff hb).mpr hdefined)]

end

/-- Products are exact; a division is an error if its quotient does not fit, and exact
    otherwise; and a division by a factor takes the product back. -/
theorem products_and_quotients_exact (flags : Flags) (width : Width) (signed : Bool) :
    (∀ a b, Multiplies width (Reading.ofSigned signed)
        ((Reading.ofSigned signed).value width a * (Reading.ofSigned signed).value width b)
        (multiply flags width signed a b))
      ∧ (∀ dividend divisor, Answers width signed (doubleValue width signed dividend)
          ((Reading.ofSigned signed).value width divisor) (divide width signed dividend divisor))
      ∧ ∀ a b, (Reading.ofSigned signed).value width b ≠ 0 →
          divide width signed (multiply flags width signed a b).1 b
            = if signed = true ∧ (Reading.ofSigned signed).value width a = -half width
              then .error ⟨⟩ else .ok (a &&& width.mask, 0) := by
  refine ⟨?_, ?_, ?_⟩
  · intro a b
    exact multiply_exact width a b flags signed
  · intro dividend divisor
    exact divide_answers width dividend divisor signed
  · intro a b hb
    exact divide_multiply flags hb

/-- The least byte with a sign, times three and divided by three, is an error, and seven less than
    zero is not. -/
theorem products_and_quotients_exact_bytes :
    divide .byte true (multiply Flags.clear .byte true 0x80 3).1 3 = .error ⟨⟩
      ∧ divide .byte true (multiply Flags.clear .byte true 0xF9 3).1 3 = .ok (0xF9, 0) := by
  have hthree : (Reading.ofSigned true).value .byte 3 ≠ 0 := by decide
  obtain ⟨-, -, hdivides⟩ := products_and_quotients_exact Flags.clear .byte true
  exact ⟨(hdivides 0x80 3 hthree).trans (if_pos (by decide)),
    (hdivides 0xF9 3 hthree).trans (if_neg (by decide))⟩

end Microprocessor.X86.Alu
