import Microprocessor.Proofs.X86.LongSums

/-! # Sums and differences of packed decimals

    A packed decimal has two digits in a byte.  The bytes of two numbers are added as
    binary ones, and DAA makes decimals of each result: it adds six where the lower digit,
    and sixty (hexadecimal) where both together, have gone past nine, which it tells from
    the binary result and from the two carries.  DAS does the same for differences, and
    the carry it leaves is that of the decimals.

      * `sum_adjusts` and `difference_adjusts` are about the numbers in one byte;
      * `addPacked_carriesOn` and `subtractPacked_carriesOn`: bytes carry on like any other
        digits, in base 100;
      * `packed_decimals_exact` has sums and differences of any length. -/

namespace Microprocessor.X86.Alu

/-! ## Bytes with two digits -/

/-- Both halves of the byte are decimal digits. -/
def IsPacked (byte : UInt8) : Prop :=
  byte.toNat / 16 ≤ 9 ∧ byte.toNat % 16 ≤ 9

instance (byte : UInt8) : Decidable (IsPacked byte) :=
  inferInstanceAs (Decidable (_ ∧ _))

/-- The number of two digits. -/
def packed (byte : UInt8) : Nat :=
  10 * (byte.toNat / 16) + byte.toNat % 16

/-- The sum of two bytes with the carry, adjusted. -/
def addPacked (flags : Flags) (a b : UInt8) : UInt8 × Flags :=
  let (sum, flags) := adc flags .byte a.toUInt16 b.toUInt16
  daa flags (lowByte sum)

/-- The difference of two bytes with the borrow, adjusted. -/
def subtractPacked (flags : Flags) (a b : UInt8) : UInt8 × Flags :=
  let (difference, flags) := sbb flags .byte a.toUInt16 b.toUInt16
  das flags (lowByte difference)

/-! ## Adjustments -/

/-- The low digit is off if it is none, or if there was a carry out of it. -/
theorem lowDigitOff_iff (flags : Flags) (al : UInt8) :
    lowDigitOff flags al = true ↔ 9 < al.toNat % 16 ∨ flags.get .auxiliaryCarry = true := by
  have hdigit : (al &&& 0x0F).toNat = al.toNat % 16 := by
    rw [UInt8.toNat_and]
    exact Nat.and_two_pow_sub_one_eq_mod al.toNat 4
  rw [lowDigitOff, Bool.or_eq_true, decide_eq_true_iff, UInt8.lt_iff_toNat_lt, hdigit]
  rfl

/-- Both digits are off if they are more than 99, or if there was a carry out of them. -/
def bothDigitsOff (flags : Flags) (al : UInt8) : Bool :=
  0x99 < al || flags.get .carry

theorem bothDigitsOff_iff (flags : Flags) (al : UInt8) :
    bothDigitsOff flags al = true ↔ 0x99 < al.toNat ∨ flags.get .carry = true := by
  rw [bothDigitsOff, Bool.or_eq_true, decide_eq_true_iff, UInt8.lt_iff_toNat_lt]
  rfl

/-- What an adjustment adds or takes away. -/
def adjustment (flags : Flags) (al : UInt8) : Nat :=
  6 * (lowDigitOff flags al).toNat + 0x60 * (bothDigitsOff flags al).toNat

/-- The adjustment as the sum of what each of the two corrections takes. -/
theorem toNat_corrections (flags : Flags) (al : UInt8) :
    (if lowDigitOff flags al then (0x06 : UInt8) else 0).toNat
        + (if bothDigitsOff flags al then (0x60 : UInt8) else 0).toNat
      = adjustment flags al := by
  rw [adjustment]
  cases lowDigitOff flags al <;> cases bothDigitsOff flags al <;> rfl

theorem toNat_daa (flags : Flags) (al : UInt8) :
    (daa flags al).1.toNat = (al.toNat + adjustment flags al) % 256 := by
  show (al + (if lowDigitOff flags al then 0x06 else 0)
    + (if bothDigitsOff flags al then 0x60 else 0)).toNat = _
  rw [UInt8.toNat_add, UInt8.toNat_add, ← toNat_corrections]
  omega

theorem toNat_das (flags : Flags) (al : UInt8) :
    ((das flags al).1.toNat : Int) = (al.toNat - adjustment flags al) % 256 := by
  have hlow := (if lowDigitOff flags al then (0x06 : UInt8) else 0).toNat_lt
  have hboth := (if bothDigitsOff flags al then (0x60 : UInt8) else 0).toNat_lt
  show ((al - (if lowDigitOff flags al then 0x06 else 0)
    - (if bothDigitsOff flags al then 0x60 else 0)).toNat : Int) = _
  rw [UInt8.toNat_sub, UInt8.toNat_sub, ← toNat_corrections]
  omega

theorem get_carry_daa (flags : Flags) (al : UInt8) :
    (daa flags al).2.get .carry = bothDigitsOff flags al := by
  simp [daa, bothDigitsOff]

theorem get_carry_das (flags : Flags) (al : UInt8) :
    (das flags al).2.get .carry = bothDigitsOff flags al := by
  simp [das, bothDigitsOff]

/-! ## One byte

    Here `x` and `y` are bytes with two digits, `c` is a carry or a borrow, and `r` is what the
    binary operation leaves, with the carry `out`. -/

section

variable {x y c r d : Nat} {out low both : Bool} (hx : x / 16 ≤ 9 ∧ x % 16 ≤ 9)
  (hy : y / 16 ≤ 9 ∧ y % 16 ≤ 9) (hc : c ≤ 1) (hr : r < 256)
  (hboth : both = true ↔ 0x99 < r ∨ out = true)

include hx hy hc hr hboth

/-- An adjusted sum has two digits, and the carry is that of the decimals. -/
theorem sum_adjusts (hsum : r + 256 * out.toNat = x + y + c)
    (hlow : low = true ↔ 9 < r % 16 ∨ 16 ≤ x % 16 + y % 16 + c)
    (hd : d = (r + (6 * low.toNat + 0x60 * both.toNat)) % 256) :
    (d / 16 ≤ 9 ∧ d % 16 ≤ 9)
      ∧ 10 * (d / 16) + d % 16 + 100 * both.toNat
        = (10 * (x / 16) + x % 16) + ((10 * (y / 16) + y % 16) + c) := by
  -- In each case the two corrections are known, and what is left is linear in the digits.
  cases out <;> cases low <;> cases both
  all_goals
    simp only [Bool.toNat_false, Bool.toNat_true, true_iff, false_iff, Bool.false_eq_true,
      or_false, or_true, not_true_eq_false] at *
  all_goals omega

/-- An adjusted difference has two digits, and the borrow is that of the decimals. -/
theorem difference_adjusts (hdifference : r + y + c = x + 256 * out.toNat)
    (hlow : low = true ↔ 9 < r % 16 ∨ x % 16 < y % 16 + c)
    (hd : (d : Int) = (r - (6 * low.toNat + 0x60 * both.toNat : Nat)) % 256) :
    (d / 16 ≤ 9 ∧ d % 16 ≤ 9)
      ∧ 10 * (d / 16) + d % 16 + ((10 * (y / 16) + y % 16) + c)
        = (10 * (x / 16) + x % 16) + 100 * both.toNat := by
  cases out <;> cases low <;> cases both
  all_goals
    simp only [Bool.toNat_false, Bool.toNat_true, true_iff, false_iff, Bool.false_eq_true,
      or_false, or_true, not_true_eq_false] at *
  all_goals omega

end

/-! ## Every place -/

theorem packed_lt {byte : UInt8} (h : IsPacked byte) : packed byte < 100 := by
  obtain ⟨hhigh, hlow⟩ := h
  rw [packed]
  omega

/-- A byte is a limb of eight bits. -/
theorem limb_byte (byte : UInt8) : limb .byte byte.toUInt16 = byte.toNat := by
  rw [limb, UInt8.toNat_toUInt16]
  exact Nat.mod_eq_of_lt byte.toNat_lt

/-- The low byte is all there is of a result in bytes. -/
theorem toNat_lowByte_of_lt {result : UInt16} (h : result.toNat < modulus .byte) :
    (lowByte result).toNat = result.toNat := by
  rw [lowByte, UInt16.toNat_toUInt8]
  exact Nat.mod_eq_of_lt h

section

variable (flags : Flags) {a b : UInt8} (ha : IsPacked a) (hb : IsPacked b)

include ha hb

/-- Packed decimals are added with the carry. -/
theorem addPacked_carries :
    IsPacked (addPacked flags a b).1
      ∧ packed (addPacked flags a b).1 + 100 * ((addPacked flags a b).2.get .carry).toNat
        = packed a + (packed b + (flags.get .carry).toNat) := by
  obtain ⟨hbound, hsum⟩ := adc_carries flags .byte a.toUInt16 b.toUInt16
  have hcarried := (addCarry_computes flags .byte a.toUInt16 b.toUInt16
    (flags.get .carry)).reports.auxiliaryCarry
  rw [limb_byte, limb_byte, ← toNat_lowByte_of_lt hbound] at hsum
  let sum := lowByte (adc flags .byte a.toUInt16 b.toUInt16).1
  let after := (adc flags .byte a.toUInt16 b.toUInt16).2
  have hsum : (sum.toNat : Int) + 1 * ((256 : Nat) * (after.get .carry).toNat)
      = a.toNat + 1 * (b.toNat + (flags.get .carry).toNat) := hsum
  have hlow : lowDigitOff after sum = true
      ↔ 9 < sum.toNat % 16 ∨ 16 ≤ a.toNat % 16 + b.toNat % 16 + (flags.get .carry).toNat := by
    refine (lowDigitOff_iff after sum).trans (or_congr_right (hcarried.trans ?_))
    show ¬((0 : Int) ≤ (a.toNat % 16 : Nat) + (b.toNat % 16 : Nat) + (flags.get .carry).toNat
      ∧ (a.toNat % 16 : Nat) + (b.toNat % 16 : Nat) + ((flags.get .carry).toNat : Int) < 16) ↔ _
    omega
  have hexact : sum.toNat + 256 * (after.get .carry).toNat
      = a.toNat + b.toNat + (flags.get .carry).toNat := by
    omega
  obtain ⟨hpacked, hvalue⟩ := sum_adjusts ha hb (flags.get .carry).toNat_le sum.toNat_lt
    (bothDigitsOff_iff after sum) hexact hlow (toNat_daa after sum)
  refine ⟨hpacked, ?_⟩
  show packed (daa after sum).1 + 100 * ((daa after sum).2.get .carry).toNat = _
  rw [get_carry_daa]
  exact hvalue

/-- Packed decimals are subtracted with the borrow. -/
theorem subtractPacked_carries :
    IsPacked (subtractPacked flags a b).1
      ∧ packed (subtractPacked flags a b).1 + (packed b + (flags.get .carry).toNat)
        = packed a + 100 * ((subtractPacked flags a b).2.get .carry).toNat := by
  obtain ⟨hbound, hdifference⟩ := sbb_carries flags .byte a.toUInt16 b.toUInt16
  have hborrowed := (subBorrow_computes flags .byte a.toUInt16 b.toUInt16
    (flags.get .carry)).reports.auxiliaryCarry
  rw [limb_byte, limb_byte, ← toNat_lowByte_of_lt hbound] at hdifference
  let difference := lowByte (sbb flags .byte a.toUInt16 b.toUInt16).1
  let after := (sbb flags .byte a.toUInt16 b.toUInt16).2
  have hdifference : (difference.toNat : Int) + -1 * ((256 : Nat) * (after.get .carry).toNat)
      = a.toNat + -1 * (b.toNat + (flags.get .carry).toNat) := hdifference
  have hlow : lowDigitOff after difference = true
      ↔ 9 < difference.toNat % 16
        ∨ a.toNat % 16 < b.toNat % 16 + (flags.get .carry).toNat := by
    refine (lowDigitOff_iff after difference).trans (or_congr_right (hborrowed.trans ?_))
    show ¬((0 : Int) ≤ (a.toNat % 16 : Nat) - (b.toNat % 16 : Nat) - (flags.get .carry).toNat
      ∧ (a.toNat % 16 : Nat) - (b.toNat % 16 : Nat) - ((flags.get .carry).toNat : Int) < 16) ↔ _
    omega
  have hexact : difference.toNat + b.toNat + (flags.get .carry).toNat
      = a.toNat + 256 * (after.get .carry).toNat := by
    omega
  obtain ⟨hpacked, hvalue⟩ := difference_adjusts ha hb (flags.get .carry).toNat_le
    difference.toNat_lt (bothDigitsOff_iff after difference) hexact hlow
    (toNat_das after difference)
  refine ⟨hpacked, ?_⟩
  show packed (das after difference).1 + _
    = packed a + 100 * ((das after difference).2.get .carry).toNat
  rw [get_carry_das]
  exact hvalue

end

/-- So packed decimals are digits in base 100. -/
theorem addPacked_carriesOn : CarriesOn 1 100 IsPacked packed addPacked where
  unit := .inl rfl
  lt := packed_lt
  valid ha hb flags := (addPacked_carries flags ha hb).1
  exact ha hb flags := by
    have hvalue := (addPacked_carries flags ha hb).2
    push_cast
    omega

theorem subtractPacked_carriesOn : CarriesOn (-1) 100 IsPacked packed subtractPacked where
  unit := .inr rfl
  lt := packed_lt
  valid ha hb flags := (subtractPacked_carries flags ha hb).1
  exact ha hb flags := by
    have hvalue := (subtractPacked_carries flags ha hb).2
    push_cast
    omega

/-! ## Any number of places -/

/-- Sums and differences of packed decimals of the same length are exact, from any flags on:
    every byte has two digits again, they are those of the result modulo the numbers there are,
    and the carry says that the sum is too great or the difference below zero. -/
theorem packed_decimals_exact (flags : Flags) {places : List (UInt8 × UInt8)}
    (hpacked : ∀ place ∈ places, IsPacked place.1 ∧ IsPacked place.2) :
    let a := numeral 100 packed (places.map Prod.fst)
    let b := numeral 100 packed (places.map Prod.snd)
    let carry := (flags.get .carry).toNat
    let sum := along addPacked flags places
    let difference := along subtractPacked flags places
    (sum.1.length = places.length ∧ (∀ byte ∈ sum.1, IsPacked byte)
        ∧ numeral 100 packed sum.1 = (a + b + carry) % 100 ^ places.length
        ∧ (sum.2.get .carry = true ↔ 100 ^ places.length ≤ a + b + carry))
      ∧ (difference.1.length = places.length ∧ (∀ byte ∈ difference.1, IsPacked byte)
        ∧ (numeral 100 packed difference.1 : Int)
          = (a - b - carry) % (100 ^ places.length : Nat)
        ∧ (difference.2.get .carry = true ↔ a < b + carry)) := by
  intro a b carry sum difference
  obtain ⟨hlength, hdigits, -⟩ := addPacked_carriesOn.along_exact hpacked flags
  obtain ⟨hlength', hdigits', -⟩ := subtractPacked_carriesOn.along_exact hpacked flags
  exact ⟨⟨hlength, hdigits, addPacked_carriesOn.sum_exact hpacked flags⟩,
    hlength', hdigits', subtractPacked_carriesOn.difference_exact hpacked flags⟩

/-- With the carry set, 5899 and 6701 are added to 2601 with a carry, and subtracted to 9197 with
    a borrow. -/
theorem packed_decimals_exact_carrying :
    let flags := Flags.clear.set .carry true
    let places : List (UInt8 × UInt8) := [(0x99, 0x01), (0x58, 0x67)]
    (∀ place ∈ places, IsPacked place.1 ∧ IsPacked place.2)
      ∧ numeral 100 packed (along addPacked flags places).1 = 2601
      ∧ (along addPacked flags places).2.get .carry = true
      ∧ (numeral 100 packed (along subtractPacked flags places).1 : Int) = 9197
      ∧ (along subtractPacked flags places).2.get .carry = true := by
  intro flags places
  have hpacked : ∀ place ∈ places, IsPacked place.1 ∧ IsPacked place.2 := by
    refine List.forall_mem_cons.mpr ⟨by decide, List.forall_mem_cons.mpr ⟨by decide, ?_⟩⟩
    exact fun _ hmem => absurd hmem List.not_mem_nil
  obtain ⟨⟨-, -, hsum, hcarry⟩, -, -, hdifference, hborrow⟩ := packed_decimals_exact flags hpacked
  exact ⟨hpacked, hsum.trans (by decide), hcarry.mpr (by decide), hdifference.trans (by decide),
    hborrow.mpr (by decide)⟩

end Microprocessor.X86.Alu
