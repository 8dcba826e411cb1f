import Mathlib.Logic.Function.Iterate
import Microprocessor.Arm.BarrelShifter
import Microprocessor.Proofs.Word.Bits
import Microprocessor.Proofs.Word.Rotation

/-! # The barrel shifter goes by single places

    A shift by any amount is as many shifts by one place, and its carry is the bit that
    the last of them lets out.

      * `shiftOnce` is one place, and `shift_succ` says that one place more is one more;
      * `toBitVec_shift` and `shiftOnce_eq` have both as moves of bits;
      * `shiftInWords?` is the shifter put together from shifts of words, which are there
        for fewer places than a word has bits only, and `shiftInWords?_eq` says that it
        never asks for more;
      * `shifts_go_by_places` puts it together, for amounts that a register holds and for
        those that an instruction encodes. -/

namespace Microprocessor.Arm

/-! ## One place -/

/-- One place of a shift: the carry is the bit that goes out. -/
def shiftOnce (kind : ShiftKind) (state : Shifted) : Shifted :=
  let value := state.value
  match kind with
  | .lsl => ⟨2 * value, bit value 31⟩
  | .lsr => ⟨value / 2, bit value 0⟩
  | .asr => ⟨value / 2 ||| (value &&& 0x80000000), bit value 0⟩
  | .ror => ⟨value / 2 ||| (if bit value 0 then 0x80000000 else 0), bit value 0⟩

/-- The bits of a word, moved by some places. -/
def moved (x : BitVec 32) (places : Nat) : ShiftKind → BitVec 32
  | .lsl => x <<< places
  | .lsr => x >>> places
  | .asr => x.sshiftRight places
  | .ror => x.rotateRight places

/-- The bit that goes out with the next place. -/
def goingOut (x : BitVec 32) : ShiftKind → Bool
  | .lsl => x.msb
  | .lsr | .asr | .ror => x.getLsbD 0

/-- No place moves nothing. -/
theorem moved_zero (x : BitVec 32) (kind : ShiftKind) : moved x 0 kind = x := by
  cases kind with
  | lsl => exact BitVec.shiftLeft_zero x
  | lsr => exact BitVec.ushiftRight_zero x
  | asr => exact BitVec.sshiftRight_zero
  | ror => exact rotateRight_zero x

/-- One place more moves by one more. -/
theorem moved_succ (x : BitVec 32) (places : Nat) (kind : ShiftKind) :
    moved x (places + 1) kind = moved (moved x places kind) 1 kind := by
  cases kind with
  | lsl => exact BitVec.shiftLeft_add x places 1
  | lsr => exact BitVec.shiftRight_add x places 1
  | asr => exact BitVec.sshiftRight_add
  | ror => exact rotateRight_succ (by decide) x places

/-- Doubling is one place to the left. -/
theorem toBitVec_double (value : UInt32) : (2 * value).toBitVec = value.toBitVec <<< 1 := by
  apply BitVec.eq_of_toNat_eq
  rw [BitVec.toNat_shiftLeft, Nat.shiftLeft_eq]
  show (2 * value).toNat = _
  rw [UInt32.toNat_mul, Nat.mul_comm]
  rfl

/-- Halving is one place to the right. -/
theorem toBitVec_half (value : UInt32) : (value / 2).toBitVec = value.toBitVec >>> 1 := by
  apply BitVec.eq_of_toNat_eq
  rw [BitVec.toNat_ushiftRight, Nat.shiftRight_eq_div_pow]
  exact UInt32.toNat_div value 2

/-- While the others move to the right, a bit comes in at the top. -/
theorem toBitVec_half_or (value : UInt32) (entering : Bool) :
    (value / 2 ||| if entering then 0x80000000 else 0).toBitVec
      = ((value.toBitVec.cons entering) >>> 1).setWidth 32 := by
  have hentering : (if entering then 0x80000000 else 0 : UInt32).toBitVec
      = if entering then .twoPow 32 31 else 0#32 := by
    cases entering <;> rfl
  apply BitVec.eq_of_getLsbD_eq
  intro i hi
  rw [UInt32.toBitVec_or, toBitVec_half, hentering, BitVec.getLsbD_or, BitVec.getLsbD_ushiftRight,
    BitVec.getLsbD_setWidth, BitVec.getLsbD_ushiftRight, BitVec.getLsbD_cons, decide_eq_true hi,
    Bool.true_and]
  by_cases hlast : 1 + i = 32
  · obtain rfl : i = 31 := by omega
    cases entering <;> simp
  · have htop : 31 ≠ i := by omega
    cases entering <;> simp [hlast, htop]

/-- The bit at the top, alone. -/
theorem and_top (value : UInt32) :
    value &&& 0x80000000 = if value.toBitVec.msb then 0x80000000 else 0 := by
  have htop : (0x80000000 : UInt32).toBitVec = .twoPow 32 31 := rfl
  apply UInt32.toBitVec_inj.mp
  rw [UInt32.toBitVec_and, htop, BitVec.and_twoPow, apply_ite UInt32.toBitVec, htop,
    BitVec.msb_eq_getLsbD_last]
  rfl

/-- One place moves the bits, and lets one out. -/
theorem shiftOnce_eq (kind : ShiftKind) (state : Shifted) :
    shiftOnce kind state
      = ⟨.ofBitVec (moved state.value.toBitVec 1 kind), goingOut state.value.toBitVec kind⟩ := by
  have hmoved : (shiftOnce kind state).value.toBitVec = moved state.value.toBitVec 1 kind := by
    cases kind with
    | lsl => exact toBitVec_double state.value
    | lsr => exact toBitVec_half state.value
    | asr =>
        rw [shiftOnce, and_top]
        exact (toBitVec_half_or state.value _).trans (cons_msb_shiftRight _)
    | ror => exact (toBitVec_half_or state.value _).trans (cons_lsb_shiftRight (by decide) _)
  have hout : (shiftOnce kind state).carry = goingOut state.value.toBitVec kind := by
    cases kind with
    | lsl => exact (BitVec.msb_eq_getLsbD_last _).symm
    | lsr | asr | ror => rfl
  rw [← hmoved, ← hout]

/-! ## Any number of places -/

/-- A shift moves the bits by its amount. -/
theorem toBitVec_shift (kind : ShiftKind) (value : UInt32) (amount : Nat) (carry : Bool) :
    (shift kind value amount carry).value.toBitVec = moved value.toBitVec amount kind := by
  by_cases hzero : amount = 0
  · rw [shift.eq_def, if_pos hzero, hzero, moved_zero]
  · rw [shift.eq_def, if_neg hzero]
    cases kind <;> rfl

/-- Its carry is the bit that its last place lets out. -/
theorem carry_shift_succ (kind : ShiftKind) (value : UInt32) (places : Nat) (carry : Bool) :
    (shift kind value (places + 1) carry).carry
      = goingOut (moved value.toBitVec places kind) kind := by
  rw [shift.eq_def, if_neg (Nat.succ_ne_zero places)]
  cases kind with
  | lsl =>
      show (decide (places + 1 ≤ 32) && value.toBitVec.getLsbD (32 - (places + 1)))
        = (value.toBitVec <<< places).msb
      rw [BitVec.msb_eq_getLsbD_last, BitVec.getLsbD_shiftLeft]
      by_cases hwithin : places + 1 ≤ 32
      · have hplace : 32 - 1 - places = 32 - (places + 1) := by omega
        rw [hplace, decide_eq_true hwithin, decide_eq_false (show ¬32 - 1 < places by omega)]
        rfl
      · rw [decide_eq_false hwithin, decide_eq_true (show 32 - 1 < places by omega)]
        rfl
  | lsr =>
      show value.toBitVec.getLsbD places = (value.toBitVec >>> places).getLsbD 0
      rw [BitVec.getLsbD_ushiftRight, Nat.add_zero]
  | asr =>
      show value.toBitVec.getLsbD (min (places + 1) 32 - 1)
        = (value.toBitVec.sshiftRight places).getLsbD 0
      rw [BitVec.getLsbD_sshiftRight, BitVec.msb_eq_getLsbD_last]
      by_cases hwithin : places < 32
      · rw [show min (places + 1) 32 - 1 = places by omega]
        simp [hwithin]
      · rw [show min (places + 1) 32 - 1 = 31 by omega]
        simp [hwithin]
  | ror =>
      show value.toBitVec.getLsbD (places % 32) = (value.toBitVec.rotateRight places).getLsbD 0
      have hplaces : places % 32 < 32 := Nat.mod_lt _ (by decide)
      rw [BitVec.getLsbD_rotateRight]
      by_cases hnone : places % 32 = 0
      · simp [hnone]
      · simp [hplaces, show 0 < 32 - places % 32 by omega]

/-- One place more is one more. -/
theorem shift_succ (kind : ShiftKind) (value : UInt32) (places : Nat) (carry : Bool) :
    shift kind value (places + 1) carry = shiftOnce kind (shift kind value places carry) := by
  have hvalue : (shift kind value (places + 1) carry).value
      = .ofBitVec (moved (moved value.toBitVec places kind) 1 kind) := by
    rw [← moved_succ, ← toBitVec_shift kind value (places + 1) carry]
  rw [shiftOnce_eq, toBitVec_shift, ← hvalue, ← carry_shift_succ kind value places carry]

/-- A shift is as many shifts by one place. -/
theorem shift_eq_iterate (kind : ShiftKind) (value : UInt32) (amount : Nat) (carry : Bool) :
    shift kind value amount carry = (shiftOnce kind)^[amount] ⟨value, carry⟩ := by
  induction amount with
  | zero => rfl
  | succ places ih => rw [shift_succ, ih, Function.iterate_succ_apply']

/-! ## Rotation through the carry -/

/-- The value, with the carry as one bit more above it. -/
def Shifted.withCarry (state : Shifted) : BitVec 33 :=
  state.value.toBitVec.cons state.carry

/-- A rotation through the carry is one place of the bits and the carry together. -/
theorem withCarry_rotateThroughCarry (value : UInt32) (carry : Bool) :
    (rotateThroughCarry value carry).withCarry
      = (Shifted.mk value carry).withCarry.rotateRight 1 := by
  have hvalue : (rotateThroughCarry value carry).value
      = value / 2 ||| if carry then 0x80000000 else 0 := by
    have hhalf : value >>> 1 = value / 2 := UInt32.toBitVec_inj.mp (toBitVec_half value).symm
    rw [← hhalf, UInt32.or_comm]
    rfl
  show (rotateThroughCarry value carry).value.toBitVec.cons (value.toBitVec.getLsbD 0) = _
  rw [hvalue, toBitVec_half_or]
  exact cons_lsb_cons_shiftRight (by decide) value.toBitVec carry

/-! ## Shifts of words -/

/-- A word shifted by fewer places than it has bits.  By more places, no shift of words is
    there. -/
def shiftWord? (kind : ShiftKind) (value : UInt32) (places : Nat) : Option UInt32 :=
  if places < 32 then
    some <|
      match kind with
      | .lsl => value <<< UInt32.ofNat places
      | .lsr => value >>> UInt32.ofNat places
      | .asr => (value.toInt32 >>> Int32.ofNat places).toUInt32
      | .ror => rotateRight value places
  else none

/-- A bit, shifted down to the bottom. -/
def wordBit? (value : UInt32) (n : Nat) : Option Bool := do
  return (← shiftWord? .lsr value n) &&& 1 != 0

/-- The shifter put together from shifts of words, with the amounts they are not there for
    told apart. -/
def shiftInWords? (kind : ShiftKind) (value : UInt32) (amount : Nat) (carry : Bool) :
    Option Shifted :=
  if amount = 0 then some ⟨value, carry⟩
  else
    match kind with
    | .lsl =>
      if amount < 32 then do
        return ⟨← shiftWord? .lsl value amount, ← wordBit? value (32 - amount)⟩
      else if amount = 32 then do return ⟨0, ← wordBit? value 0⟩
      else some ⟨0, false⟩
    | .lsr =>
      if amount < 32 then do
        return ⟨← shiftWord? .lsr value amount, ← wordBit? value (amount - 1)⟩
      else if amount = 32 then do return ⟨0, ← wordBit? value 31⟩
      else some ⟨0, false⟩
    | .asr =>
      if amount < 32 then do
        return ⟨← shiftWord? .asr value amount, ← wordBit? value (amount - 1)⟩
      else do return if ← wordBit? value 31 then ⟨0xFFFFFFFF, true⟩ else ⟨0, false⟩
    | .ror =>
      if amount % 32 = 0 then do return ⟨value, ← wordBit? value 31⟩
      else do
        return ⟨← shiftWord? .ror value (amount % 32), ← wordBit? value (amount % 32 - 1)⟩

/-- The same for amounts that an instruction encodes. -/
def shiftEncodedInWords? (kind : ShiftKind) (value : UInt32) (amount : Nat) (carry : Bool) :
    Option Shifted :=
  match kind, amount with
  | .lsr, 0 | .asr, 0 => shiftInWords? kind value 32 carry
  | .ror, 0 => do
    return ⟨(← shiftWord? .lsl carry.toUInt32 31) ||| (← shiftWord? .lsr value 1),
      value &&& 1 != 0⟩
  | _, amount => shiftInWords? kind value amount carry

/-- A shift of words moves the bits. -/
theorem shiftWord?_of_lt (kind : ShiftKind) (value : UInt32) {places : Nat} (h : places < 32) :
    shiftWord? kind value places = some (.ofBitVec (moved value.toBitVec places kind)) := by
  have hplaces : (BitVec.ofNat 32 places).toNat = places := by
    rw [BitVec.toNat_ofNat]
    exact Nat.mod_eq_of_lt (by omega)
  have hmod : (BitVec.ofNat 32 places % 32#32).toNat = places := by
    rw [BitVec.toNat_umod, hplaces]
    exact Nat.mod_eq_of_lt h
  -- The amount of a signed shift is signed itself.
  have hsigned : ((BitVec.ofNat 32 places).smod 32#32).toNat = places := by
    have hall : ∀ n < 32, ((BitVec.ofNat 32 n).smod 32#32).toNat = n := by decide
    exact hall places h
  rw [shiftWord?.eq_def, if_pos h]
  refine congrArg some (UInt32.toBitVec_inj.mp ?_)
  cases kind with
  | lsl => exact (UInt32.toBitVec_shiftLeft _ _).trans (congrArg (value.toBitVec <<< ·) hmod)
  | lsr => exact (UInt32.toBitVec_shiftRight _ _).trans (congrArg (value.toBitVec >>> ·) hmod)
  | asr =>
      exact (Int32.toBitVec_shiftRight _ _).trans (congrArg value.toBitVec.sshiftRight hsigned)
  | ror => rfl

theorem wordBit?_of_lt (value : UInt32) {n : Nat} (h : n < 32) :
    wordBit? value n = some (bit value n) := by
  have hone : UInt32.ofBitVec (value.toBitVec >>> n) &&& 1
      = if bit value n then 1 else 0 := by
    apply UInt32.toNat_inj.mp
    have hbit : (value.toNat >>> n) % 2 = (bit value n).toNat := by
      rw [bit, Nat.toNat_testBit, Nat.shiftRight_eq_div_pow]
    rw [UInt32.toNat_and]
    show (value.toBitVec >>> n).toNat &&& 2 ^ 1 - 1 = _
    rw [Nat.and_two_pow_sub_one_eq_mod, BitVec.toNat_ushiftRight]
    refine hbit.trans ?_
    cases bit value n <;> rfl
  rw [wordBit?, shiftWord?_of_lt .lsr value h]
  show some (UInt32.ofBitVec (value.toBitVec >>> n) &&& 1 != 0) = some (bit value n)
  rw [hone]
  cases bit value n <;> rfl

/-- All places with a sign leave nothing but the sign. -/
theorem sshiftRight_of_le (x : BitVec 32) {places : Nat} (h : 32 ≤ places) :
    x.sshiftRight places = if x.msb then .allOnes 32 else 0#32 := by
  apply BitVec.eq_of_getLsbD_eq
  intro i hi
  rw [BitVec.getLsbD_sshiftRight, decide_eq_false (show ¬32 ≤ i by omega),
    if_neg (show ¬places + i < 32 by omega)]
  cases x.msb with
  | true =>
      rw [if_pos rfl, BitVec.getLsbD_allOnes, decide_eq_true hi]
      rfl
  | false =>
      rw [if_neg Bool.false_ne_true, BitVec.getLsbD_zero]
      rfl

/-- Whatever the amount, the shifter asks for no shift of words that is not there. -/
theorem shiftInWords?_eq (kind : ShiftKind) (value : UInt32) (amount : Nat) (carry : Bool) :
    shiftInWords? kind value amount carry = some (shift kind value amount carry) := by
  by_cases hzero : amount = 0
  · rw [shiftInWords?.eq_def, shift.eq_def, if_pos hzero, if_pos hzero]
  rw [shiftInWords?.eq_def, shift.eq_def, if_neg hzero, if_neg hzero]
  cases kind with
  | lsl =>
      rcases Nat.lt_trichotomy amount 32 with hless | rfl | hmore
      · have hwithin : decide (amount ≤ 32) = true := decide_eq_true (Nat.le_of_lt hless)
        simp only [hless, if_true, shiftWord?_of_lt .lsl value hless,
          wordBit?_of_lt value (show 32 - amount < 32 by omega), hwithin, Bool.true_and]
        rfl
      · simp only [wordBit?_of_lt value (show 0 < 32 by decide),
          BitVec.shiftLeft_eq_zero (x := value.toBitVec) (Nat.le_refl 32)]
        rfl
      · have hbeyond : decide (amount ≤ 32) = false := decide_eq_false (by omega)
        have hgone : value.toBitVec <<< amount = 0#32 := BitVec.shiftLeft_eq_zero (by omega)
        simp only [show ¬amount < 32 by omega, show ¬amount = 32 by omega, if_false, hbeyond, hgone]
        rfl
  | lsr =>
      rcases Nat.lt_trichotomy amount 32 with hless | rfl | hmore
      · simp only [hless, if_true, shiftWord?_of_lt .lsr value hless,
          wordBit?_of_lt value (show amount - 1 < 32 by omega)]
        rfl
      · simp only [wordBit?_of_lt value (show 31 < 32 by decide),
          BitVec.ushiftRight_eq_zero (x := value.toBitVec) (Nat.le_refl 32)]
        rfl
      · have hgone : value.toBitVec >>> amount = 0#32 := BitVec.ushiftRight_eq_zero (by omega)
        simp only [show ¬amount < 32 by omega, show ¬amount = 32 by omega, if_false, hgone,
          bit_of_le value (show 32 ≤ amount - 1 by omega)]
        rfl
  | asr =>
      by_cases hless : amount < 32
      · simp only [hless, if_true, shiftWord?_of_lt .asr value hless,
          wordBit?_of_lt value (show amount - 1 < 32 by omega),
          show min amount 32 = amount by omega]
        rfl
      · have hsign : value.toBitVec.msb = bit value 31 := BitVec.msb_eq_getLsbD_last _
        simp only [hless, if_false, wordBit?_of_lt value (show 31 < 32 by decide),
          sshiftRight_of_le value.toBitVec (show 32 ≤ amount by omega), hsign,
          show min amount 32 = 32 by omega]
        cases bit value 31 <;> rfl
  | ror =>
      have hrest : amount % 32 < 32 := Nat.mod_lt amount (by decide)
      have hrotated : rotateRight value amount = rotateRight value (amount % 32) :=
        congrArg UInt32.ofBitVec BitVec.rotateRight_mod_eq_rotateRight.symm
      by_cases hround : amount % 32 = 0
      · have hlast : (amount - 1) % 32 = 31 := by omega
        have hnone : rotateRight value 0 = value := congrArg UInt32.ofBitVec (rotateRight_zero _)
        simp only [hround, if_true, wordBit?_of_lt value (show 31 < 32 by decide), hrotated, hnone,
          hlast]
        rfl
      · have hlast : (amount - 1) % 32 = amount % 32 - 1 := by omega
        simp only [hround, if_false, shiftWord?_of_lt .ror value hrest,
          wordBit?_of_lt value (show amount % 32 - 1 < 32 by omega), hrotated, hlast]
        rfl

/-- Nor does it for an amount that an instruction encodes. -/
theorem shiftEncodedInWords?_eq (kind : ShiftKind) (value : UInt32) (amount : Nat) (carry : Bool) :
    shiftEncodedInWords? kind value amount carry = some (shiftEncoded kind value amount carry) := by
  have hthrough : shiftEncodedInWords? .ror value 0 carry
      = some (rotateThroughCarry value carry) := by
    have htop : UInt32.ofBitVec (moved carry.toUInt32.toBitVec 31 .lsl)
        = if carry then 0x80000000 else 0 := by
      cases carry <;> rfl
    have hlow : (value &&& 1 != 0) = bit value 0 :=
      Option.some.inj (wordBit?_of_lt value (show 0 < 32 by decide))
    simp only [shiftEncodedInWords?, shiftWord?_of_lt _ _ (show 31 < 32 by decide),
      shiftWord?_of_lt _ _ (show 1 < 32 by decide), htop, hlow]
    rfl
  cases amount with
  | zero =>
      cases kind with
      | lsl => exact shiftInWords?_eq .lsl value 0 carry
      | lsr => exact shiftInWords?_eq .lsr value 32 carry
      | asr => exact shiftInWords?_eq .asr value 32 carry
      | ror => exact hthrough
  | succ places =>
      have hplain := fun kind => shiftInWords?_eq kind value (places + 1) carry
      cases kind with
      | lsl => exact hplain .lsl
      | lsr => exact hplain .lsr
      | asr => exact hplain .asr
      | ror => exact hplain .ror

/-! ## All amounts -/

/-- For every kind of shift, a shift by the bottom byte of a register, and by an encoded amount
    other than zero, is as many single places, each of which lets one bit out into the carry.  The
    encoded zeros are no place to the left, 32 places to the right, and one place of the bits and
    the carry together.  Whatever the amount, words are shifted by fewer places than they have
    bits. -/
theorem shifts_go_by_places (kind : ShiftKind) (value : UInt32) (carry : Bool) :
    (∀ amount : UInt32, shiftByRegister kind value amount carry
        = (shiftOnce kind)^[amount.toNat % 256] ⟨value, carry⟩)
      ∧ (∀ places : Nat, shiftEncoded kind value (places + 1) carry
        = (shiftOnce kind)^[places + 1] ⟨value, carry⟩)
      ∧ shiftEncoded .lsl value 0 carry = ⟨value, carry⟩
      ∧ shiftEncoded .lsr value 0 carry = (shiftOnce .lsr)^[32] ⟨value, carry⟩
      ∧ shiftEncoded .asr value 0 carry = (shiftOnce .asr)^[32] ⟨value, carry⟩
      ∧ (shiftEncoded .ror value 0 carry).withCarry
        = (Shifted.mk value carry).withCarry.rotateRight 1
      ∧ (∀ amount : UInt32, shiftInWords? kind value (amount.toNat % 256) carry
        = some (shiftByRegister kind value amount carry))
      ∧ ∀ amount : Nat, shiftEncodedInWords? kind value amount carry
        = some (shiftEncoded kind value amount carry) := by
  have hencoded : ∀ places, shiftEncoded kind value (places + 1) carry
      = shift kind value (places + 1) carry := by
    intro places
    cases kind <;> rfl
  refine ⟨fun amount => shift_eq_iterate kind value _ carry, ?_, rfl,
    shift_eq_iterate .lsr value 32 carry, shift_eq_iterate .asr value 32 carry,
    withCarry_rotateThroughCarry value carry, fun amount => shiftInWords?_eq kind value _ carry,
    fun amount => shiftEncodedInWords?_eq kind value amount carry⟩
  intro places
  rw [hencoded]
  exact shift_eq_iterate kind value (places + 1) carry

end Microprocessor.Arm
