import Mathlib.Algebra.Group.Int.Defs
import Mathlib.Algebra.Group.Nat.Defs
import Microprocessor.Proofs.Word.Rotation
import Microprocessor.Proofs.X86.Reading

/-! # Shifts and rotates in closed form

    Shifts and rotates go on by one place, as often as they are told to.  Where they get
    to can be said at once: rotates turn the bits that count, or these and the carry,
    and shifts multiply or divide by a power of two.

      * `shifted` and `lastOut` are the closed forms of the value and the carry;
      * `shiftOnce_eq`: one place is one of two moves, `bits_left` and `bits_right`;
      * `shiftPlaces_follows` is the induction on places, for any view of the bits in
        which one place is one step;
      * `shift_closed` has the value and every flag. -/

namespace Microprocessor.X86.Alu

/-! ## Closed forms -/

/-- The bits of an operand that count. -/
def bits (width : Width) (operand : UInt16) : BitVec width.bits :=
  .ofNat width.bits operand.toNat

section

variable {width : Nat} (x : BitVec width) (carry : Bool) (places : Nat)

/-- The value after some places. -/
def shifted : ShiftOp → Nat
  | .rol => (x.rotateLeft (places % width)).toNat
  | .ror => (x.rotateRight (places % width)).toNat
  | .rcl => ((x.cons carry).rotateLeft (places % (width + 1))).toNat % 2 ^ width
  | .rcr => ((x.cons carry).rotateRight (places % (width + 1))).toNat % 2 ^ width
  | .shl => x.toNat * 2 ^ places % 2 ^ width
  | .shr => x.toNat / 2 ^ places
  | .sar => (x.toInt / (2 ^ places : Nat) % (2 ^ width : Nat)).toNat

/-- The carry after some places: the last bit that has gone out. -/
def lastOut : ShiftOp → Bool
  | .rol => (x.rotateLeft (places % width)).getLsbD 0
  | .ror => (x.rotateRight (places % width)).msb
  | .rcl => ((x.cons carry).rotateLeft (places % (width + 1))).msb
  | .rcr => ((x.cons carry).rotateRight (places % (width + 1))).msb
  | .shl => places ≤ width && x.getLsbD (width - places)
  | .shr => places ≤ width && x.getLsbD (places - 1)
  | .sar => if places ≤ width then x.getLsbD (places - 1) else x.msb

end

/-! ## Bits -/

theorem modulus_eq_two_pow (width : Width) : modulus width = 2 ^ width.bits := by
  cases width <;> rfl

theorem one_lt_bits (width : Width) : 1 < width.bits := by
  cases width <;> decide

theorem toNat_bits (width : Width) (operand : UInt16) :
    (bits width operand).toNat = operand.toNat % modulus width := by
  rw [modulus_eq_two_pow]
  exact BitVec.toNat_ofNat _ _

/-- A signed number has the bits of its residue. -/
theorem toNat_eq_toInt_emod {width : Nat} (x : BitVec width) :
    x.toNat = (x.toInt % (2 ^ width : Nat)).toNat := by
  rw [BitVec.toInt_eq_toNat_bmod, Int.bmod_emod, ← Int.natCast_emod, Int.toNat_natCast,
    Nat.mod_eq_of_lt x.isLt]

theorem getLsbD_bits (width : Width) (operand : UInt16) (i : Nat) :
    (bits width operand).getLsbD i = (decide (i < width.bits) && operand.toNat.testBit i) :=
  BitVec.getLsbD_ofNat ..

/-- Below the carry are the bits. -/
theorem toNat_cons_mod {width : Nat} (x : BitVec width) (carry : Bool) :
    (x.cons carry).toNat % 2 ^ width = x.toNat := by
  rw [BitVec.toNat_cons', Nat.shiftLeft_eq, Nat.mul_add_mod_self_right, Nat.mod_eq_of_lt x.isLt]

/-- Masking takes nothing away that counts. -/
theorem bits_and_mask (width : Width) (operand : UInt16) :
    bits width (operand &&& width.mask) = bits width operand := by
  apply BitVec.eq_of_toNat_eq
  rw [toNat_bits, toNat_bits, toNat_and_mask, Nat.mod_mod]

/-! ## One place -/

/-- One place to the left, with a bit that comes in at the bottom. -/
def left (width : Width) (value : UInt16) (entering : Bool) : UInt16 :=
  ((value <<< 1) &&& width.mask) ||| entering.toUInt16

/-- One place to the right, with a bit that comes in at the top. -/
def right (width : Width) (value : UInt16) (entering : Bool) : UInt16 :=
  (value >>> 1) ||| (if entering then width.signBit else 0)

theorem left_lt (width : Width) (value : UInt16) (entering : Bool) :
    (left width value entering).toNat < modulus width := by
  have hentering : entering.toUInt16.toNat < modulus width := by
    cases entering <;> cases width <;> decide
  have hshifted := toNat_and_mask_lt width (value <<< 1)
  rw [modulus_eq_two_pow] at hentering hshifted ⊢
  rw [left, UInt16.toNat_or]
  exact Nat.or_lt_two_pow hshifted hentering

theorem right_lt {width : Width} {value : UInt16} (hvalue : value.toNat < modulus width)
    (entering : Bool) : (right width value entering).toNat < modulus width := by
  have hentering : (if entering then width.signBit else 0 : UInt16).toNat < modulus width := by
    cases entering <;> cases width <;> decide
  have hshifted : (value >>> 1).toNat < modulus width := by
    have hhalved : (value >>> 1).toNat = value.toNat >>> 1 := UInt16.toNat_shiftRight ..
    rw [hhalved, Nat.shiftRight_eq_div_pow]
    omega
  rw [modulus_eq_two_pow] at hentering hshifted ⊢
  rw [right, UInt16.toNat_or]
  exact Nat.or_lt_two_pow hshifted hentering

/-- To the left, a bit comes in at the bottom. -/
theorem bits_left (width : Width) (value : UInt16) (entering : Bool) :
    bits width (left width value entering) = (bits width value).shiftConcat entering := by
  have hentering : ∀ i, entering.toUInt16.toNat.testBit i = (decide (i = 0) && entering) := by
    intro i
    cases entering with
    | false => exact (Nat.zero_testBit i).trans (Bool.and_false _).symm
    | true =>
        show Nat.testBit (2 ^ 0) i = _
        rw [Nat.testBit_two_pow, Bool.and_true, decide_eq_decide, eq_comm]
  have hmask : width.mask.toNat = 2 ^ width.bits - 1 := by cases width <;> rfl
  have hshifted : (value <<< 1).toNat = value.toNat <<< 1 % 2 ^ 16 := UInt16.toNat_shiftLeft ..
  have hwidth : width.bits ≤ 16 := by cases width <;> decide
  apply BitVec.eq_of_getLsbD_eq
  intro i hi
  rw [left, getLsbD_bits, BitVec.getLsbD_shiftConcat, getLsbD_bits, UInt16.toNat_or, UInt16.toNat_and,
    Nat.testBit_or, Nat.testBit_and, hentering, hmask, Nat.testBit_two_pow_sub_one, hshifted,
    Nat.testBit_mod_two_pow, Nat.testBit_shiftLeft]
  by_cases hzero : i = 0
  · simp [hzero]
  · simp [hzero, hi, show i < 16 by omega, show 1 ≤ i by omega, show i - 1 < width.bits by omega]

/-- To the right, a bit comes in at the top. -/
theorem bits_right {width : Width} {value : UInt16} (hvalue : value.toNat < modulus width)
    (entering : Bool) :
    bits width (right width value entering)
      = (((bits width value).cons entering) >>> 1).setWidth width.bits := by
  have hpositive : 0 < width.bits := by cases width <;> decide
  have hentering : ∀ i, (if entering then width.signBit else 0 : UInt16).toNat.testBit i
      = (decide (i + 1 = width.bits) && entering) := by
    intro i
    have hsign : width.signBit.toNat = 2 ^ (width.bits - 1) := by cases width <;> rfl
    cases entering with
    | false => exact (Nat.zero_testBit i).trans (Bool.and_false _).symm
    | true =>
        rw [if_pos rfl, hsign, Nat.testBit_two_pow, Bool.and_true, decide_eq_decide]
        omega
  have hshifted : (value >>> 1).toNat = value.toNat >>> 1 := UInt16.toNat_shiftRight ..
  apply BitVec.eq_of_getLsbD_eq
  intro i hi
  rw [right, getLsbD_bits, BitVec.getLsbD_setWidth, BitVec.getLsbD_ushiftRight, BitVec.getLsbD_cons,
    getLsbD_bits, UInt16.toNat_or, Nat.testBit_or, hentering, hshifted, Nat.testBit_shiftRight,
    Nat.add_comm 1 i]
  by_cases hlast : i + 1 = width.bits
  · have hbeyond : value.toNat.testBit width.bits = false :=
      Nat.testBit_lt_two_pow (modulus_eq_two_pow width ▸ hvalue)
    simp [hlast, hbeyond]
  · simp [hlast, hi, show i + 1 < width.bits by omega]

/-- The bit at the top. -/
theorem msb_bits (width : Width) (value : UInt16) :
    (value &&& width.signBit != 0) = (bits width value).msb := by
  have hpositive : 0 < width.bits := by cases width <;> decide
  rw [and_signBit_ne_zero, BitVec.msb_eq_getLsbD_last, getLsbD_bits,
    decide_eq_true (Nat.sub_one_lt_of_lt hpositive), Bool.true_and]

/-- The bit at the bottom. -/
theorem lsb_bits (width : Width) (value : UInt16) :
    (value &&& 1 != 0) = (bits width value).getLsbD 0 := by
  have hpositive : 0 < width.bits := by cases width <;> decide
  have hone : (value &&& 1 != 0) = value.toNat.testBit 0 := and_bit_ne_zero value (by decide) rfl
  rw [hone, getLsbD_bits, decide_eq_true hpositive, Bool.true_and]

/-- Whether the operation goes to the left. -/
def goesLeft : ShiftOp → Bool
  | .rol | .rcl | .shl => true
  | .ror | .rcr | .shr | .sar => false

/-- The bit that comes in. -/
def entering {width : Nat} (op : ShiftOp) (x : BitVec width) (carry : Bool) : Bool :=
  match op with
  | .rol | .sar => x.msb
  | .ror => x.getLsbD 0
  | .rcl | .rcr => carry
  | .shl | .shr => false

/-- The bit at the top, alone. -/
theorem and_signBit (width : Width) (value : UInt16) :
    value &&& width.signBit = if (bits width value).msb then width.signBit else 0 := by
  have hpower : width.signBit.toBitVec = .twoPow 16 (width.bits - 1) := by cases width <;> rfl
  have htop : (bits width value).msb = value.toBitVec.getLsbD (width.bits - 1) := by
    rw [← msb_bits, and_signBit_ne_zero]
    rfl
  apply UInt16.toBitVec_inj.mp
  rw [UInt16.toBitVec_and, hpower, BitVec.and_twoPow, htop, apply_ite UInt16.toBitVec, hpower]
  rfl

/-- One place on is one to the left or to the right, and the bit that goes out is the carry. -/
theorem shiftOnce_eq (op : ShiftOp) (width : Width) (value : UInt16) (carry : Bool) :
    shiftOnce op width value carry
      = if goesLeft op then
          (left width value (entering op (bits width value) carry), (bits width value).msb)
        else (right width value (entering op (bits width value) carry),
          (bits width value).getLsbD 0) := by
  rw [left, right]
  cases op with
  | rol => rw [entering, ← msb_bits]; rfl
  | ror => rw [entering, ← lsb_bits]; rfl
  | rcl => rw [← msb_bits]; rfl
  | rcr => rw [← lsb_bits]; rfl
  | shl => rw [← msb_bits, shiftOnce]; exact congrArg (fun v => (v, _)) UInt16.or_zero.symm
  | shr => rw [← lsb_bits, shiftOnce]; exact congrArg (fun v => (v, _)) UInt16.or_zero.symm
  | sar => rw [← lsb_bits, shiftOnce, and_signBit]; rfl

/-- The value keeps to the bits that count. -/
theorem shiftOnce_lt (op : ShiftOp) {width : Width} {value : UInt16}
    (hvalue : value.toNat < modulus width) (carry : Bool) :
    (shiftOnce op width value carry).1.toNat < modulus width := by
  rw [shiftOnce_eq]
  split
  · exact left_lt width value _
  · exact right_lt hvalue _

/-! ## Any number of places -/

/-- One place more. -/
theorem shiftPlaces_succ (op : ShiftOp) (width : Width) (places : Nat) (value : UInt16)
    (carry : Bool) :
    shiftPlaces op width (places + 1) (value, carry)
      = shiftOnce op width (shiftPlaces op width places (value, carry)).1
          (shiftPlaces op width places (value, carry)).2 := by
  induction places generalizing value carry with
  | zero => rfl
  | succ places ih => exact ih _ _

theorem shiftPlaces_lt (op : ShiftOp) {width : Width} {value : UInt16}
    (hvalue : value.toNat < modulus width) (carry : Bool) (places : Nat) :
    (shiftPlaces op width places (value, carry)).1.toNat < modulus width := by
  induction places with
  | zero => exact hvalue
  | succ places ih =>
      rw [shiftPlaces_succ]
      exact shiftOnce_lt op ih _

/-- To the left the last bit to go out was at the top. -/
theorem carry_left {op : ShiftOp} (hop : goesLeft op = true) {width : Width} {value : UInt16}
    {carry : Bool} {places : Nat} :
    (shiftPlaces op width (places + 1) (value, carry)).2
      = (bits width (shiftPlaces op width places (value, carry)).1).msb := by
  rw [shiftPlaces_succ, shiftOnce_eq, if_pos hop]

/-- To the right it was at the bottom. -/
theorem carry_right {op : ShiftOp} (hop : goesLeft op = false) {width : Width} {value : UInt16}
    {carry : Bool} {places : Nat} :
    (shiftPlaces op width (places + 1) (value, carry)).2
      = (bits width (shiftPlaces op width places (value, carry)).1).getLsbD 0 := by
  rw [shiftPlaces_succ, shiftOnce_eq, hop, if_neg Bool.false_ne_true]

/-- If in some view one place is one step, then in that view places are as many steps. -/
theorem shiftPlaces_follows {α : Type} {op : ShiftOp} {width : Width} (view : UInt16 × Bool → α)
    (steps : α → Nat → α) (hzero : ∀ x, steps x 0 = x)
    (hsucc : ∀ x places, steps x (places + 1) = steps (steps x places) 1)
    (honce : ∀ (value : UInt16) (carry : Bool), value.toNat < modulus width →
      view (shiftOnce op width value carry) = steps (view (value, carry)) 1)
    {value : UInt16} (hvalue : value.toNat < modulus width) (carry : Bool) (places : Nat) :
    view (shiftPlaces op width places (value, carry)) = steps (view (value, carry)) places := by
  induction places with
  | zero => exact (hzero _).symm
  | succ places ih =>
      rw [shiftPlaces_succ, honce _ _ (shiftPlaces_lt op hvalue carry places), ih, ← hsucc]

section

variable {width : Width} {value : UInt16} (hvalue : value.toNat < modulus width) (carry : Bool)
  (places : Nat)

include hvalue

theorem bits_rol :
    bits width (shiftPlaces .rol width places (value, carry)).1
      = (bits width value).rotateLeft places := by
  have hwidth := one_lt_bits width
  refine shiftPlaces_follows (fun state => bits width state.1) BitVec.rotateLeft
    rotateLeft_zero (rotateLeft_succ hwidth) ?_ hvalue carry places
  intro value carry _
  rw [shiftOnce_eq]
  exact (bits_left width value _).trans (shiftConcat_msb hwidth _)

theorem bits_ror :
    bits width (shiftPlaces .ror width places (value, carry)).1
      = (bits width value).rotateRight places := by
  have hwidth := one_lt_bits width
  refine shiftPlaces_follows (fun state => bits width state.1) BitVec.rotateRight
    rotateRight_zero (rotateRight_succ hwidth) ?_ hvalue carry places
  intro value carry hvalue
  rw [shiftOnce_eq]
  exact (bits_right hvalue _).trans (cons_lsb_shiftRight hwidth _)

theorem cons_rcl :
    (bits width (shiftPlaces .rcl width places (value, carry)).1).cons
        (shiftPlaces .rcl width places (value, carry)).2
      = ((bits width value).cons carry).rotateLeft places := by
  have hwidth := one_lt_bits width
  refine shiftPlaces_follows (fun state => (bits width state.1).cons state.2) BitVec.rotateLeft
    rotateLeft_zero (rotateLeft_succ (Nat.lt_succ_of_lt hwidth)) ?_ hvalue carry
    places
  intro value carry _
  rw [shiftOnce_eq]
  show BitVec.cons _ (bits width (left width value carry)) = _
  rw [bits_left]
  exact cons_msb_shiftConcat hwidth _ carry

theorem cons_rcr :
    (bits width (shiftPlaces .rcr width places (value, carry)).1).cons
        (shiftPlaces .rcr width places (value, carry)).2
      = ((bits width value).cons carry).rotateRight places := by
  have hwidth := one_lt_bits width
  refine shiftPlaces_follows (fun state => (bits width state.1).cons state.2) BitVec.rotateRight
    rotateRight_zero (rotateRight_succ (Nat.lt_succ_of_lt hwidth)) ?_ hvalue carry
    places
  intro value carry hvalue
  rw [shiftOnce_eq]
  show BitVec.cons _ (bits width (right width value carry)) = _
  rw [bits_right hvalue]
  exact cons_lsb_cons_shiftRight hwidth _ carry

theorem bits_shl :
    bits width (shiftPlaces .shl width places (value, carry)).1 = bits width value <<< places := by
  refine shiftPlaces_follows (fun state => bits width state.1) (· <<< ·)
    BitVec.shiftLeft_zero (fun x places => BitVec.shiftLeft_add x places 1) ?_ hvalue carry places
  intro value carry _
  rw [shiftOnce_eq]
  exact (bits_left width value _).trans (shiftConcat_false _)

theorem bits_shr :
    bits width (shiftPlaces .shr width places (value, carry)).1 = bits width value >>> places := by
  refine shiftPlaces_follows (fun state => bits width state.1) (· >>> ·)
    BitVec.ushiftRight_zero (fun x places => BitVec.shiftRight_add x places 1) ?_ hvalue carry
    places
  intro value carry hvalue
  rw [shiftOnce_eq]
  exact (bits_right hvalue _).trans (cons_false_shiftRight _)

theorem bits_sar :
    bits width (shiftPlaces .sar width places (value, carry)).1
      = (bits width value).sshiftRight places := by
  refine shiftPlaces_follows (fun state => bits width state.1) BitVec.sshiftRight
    (fun x => BitVec.sshiftRight_zero) (fun x places => BitVec.sshiftRight_add) ?_ hvalue carry
    places
  intro value carry hvalue
  rw [shiftOnce_eq]
  exact (bits_right hvalue _).trans (cons_msb_shiftRight _)

/-- The value after some places is the closed form. -/
theorem toNat_shiftPlaces (op : ShiftOp) :
    (shiftPlaces op width places (value, carry)).1.toNat
      = shifted (bits width value) carry places op := by
  have hresult : (shiftPlaces op width places (value, carry)).1.toNat
      = (bits width (shiftPlaces op width places (value, carry)).1).toNat := by
    rw [toNat_bits, Nat.mod_eq_of_lt (shiftPlaces_lt op hvalue carry places)]
  rw [hresult]
  cases op with
  | rol => rw [bits_rol hvalue, shifted, BitVec.rotateLeft_mod_eq_rotateLeft]
  | ror => rw [bits_ror hvalue, shifted, BitVec.rotateRight_mod_eq_rotateRight]
  | rcl => rw [shifted, BitVec.rotateLeft_mod_eq_rotateLeft, ← cons_rcl hvalue, toNat_cons_mod]
  | rcr => rw [shifted, BitVec.rotateRight_mod_eq_rotateRight, ← cons_rcr hvalue, toNat_cons_mod]
  | shl => rw [bits_shl hvalue, shifted, BitVec.toNat_shiftLeft, Nat.shiftLeft_eq]
  | shr => rw [bits_shr hvalue, shifted, BitVec.toNat_ushiftRight, Nat.shiftRight_eq_div_pow]
  | sar =>
      rw [bits_sar hvalue, shifted, toNat_eq_toInt_emod, BitVec.toInt_sshiftRight,
        Int.shiftRight_eq_div_pow]

/-- The carry after some places is the closed form, unless there have been none. -/
theorem carry_shiftPlaces (op : ShiftOp) :
    (shiftPlaces op width (places + 1) (value, carry)).2
      = lastOut (bits width value) carry (places + 1) op := by
  have hwidth := one_lt_bits width
  cases op with
  | rol =>
      rw [carry_left rfl, bits_rol hvalue, lastOut, BitVec.rotateLeft_mod_eq_rotateLeft,
        rotateLeft_succ hwidth, getLsbD_rotateLeft_one hwidth _ (Nat.lt_of_succ_lt hwidth),
        if_pos rfl]
  | ror =>
      have htop : width.bits - 1 + 1 = width.bits := by omega
      rw [carry_right rfl, bits_ror hvalue, lastOut, BitVec.rotateRight_mod_eq_rotateRight,
        rotateRight_succ hwidth, BitVec.msb_eq_getLsbD_last,
        getLsbD_rotateRight_one hwidth _ (by omega), if_pos htop]
  | rcl =>
      rw [lastOut, BitVec.rotateLeft_mod_eq_rotateLeft, ← cons_rcl hvalue]
      exact BitVec.msb_cons.symm
  | rcr =>
      rw [lastOut, BitVec.rotateRight_mod_eq_rotateRight, ← cons_rcr hvalue]
      exact BitVec.msb_cons.symm
  | shl =>
      rw [carry_left rfl, bits_shl hvalue, lastOut, BitVec.msb_eq_getLsbD_last,
        BitVec.getLsbD_shiftLeft]
      by_cases hwithin : places + 1 ≤ width.bits
      · have hplace : width.bits - 1 - places = width.bits - (places + 1) := by omega
        simp [hwithin, hplace, show width.bits - 1 < width.bits by omega,
          show ¬width.bits - 1 < places by omega]
      · simp [hwithin, show width.bits - 1 < places by omega]
  | shr =>
      rw [carry_right rfl, bits_shr hvalue, lastOut, BitVec.getLsbD_ushiftRight]
      by_cases hwithin : places + 1 ≤ width.bits
      · simp [hwithin]
      · have hbeyond : (bits width value).getLsbD places = false :=
          BitVec.getLsbD_of_ge _ _ (by omega)
        simp [hwithin, hbeyond]
  | sar =>
      rw [carry_right rfl, bits_sar hvalue, lastOut, BitVec.getLsbD_sshiftRight]
      by_cases hwithin : places + 1 ≤ width.bits
      · simp [hwithin, show ¬width.bits ≤ 0 by omega, show places < width.bits by omega]
      · simp [hwithin, show ¬width.bits ≤ 0 by omega, show ¬places < width.bits by omega]

end

/-! ## Flags -/

/-- What a shift or rotate leaves that goes on by some places. -/
structure Shifts (before : Flags) (op : ShiftOp) (width : Width) (operand : UInt16)
    (places : Nat) (outcome : UInt16 × Flags) : Prop where
  value : outcome.1.toNat = shifted (bits width operand) (before.get .carry) places op
  carry : outcome.2.get .carry = lastOut (bits width operand) (before.get .carry) places op
  overflow : places = 1 →
    (outcome.2.get .overflow = true ↔ (bits width outcome.1).msb ≠ (bits width operand).msb)
  shows : isShift op = true → Shows outcome.2 width outcome.1.toNat
  auxiliaryCarry : isShift op = true → outcome.2.get .auxiliaryCarry = false
  rotates : isShift op = false → ∀ flag ∈ [Flag.sign, .zero, .auxiliaryCarry, .parity],
    outcome.2.get flag = before.get flag
  others : ∀ flag ∈ [Flag.trap, .interruptEnable, .direction],
    outcome.2.get flag = before.get flag

/-- To the right, the bit that comes in is at the top. -/
theorem msb_right {width : Width} {value : UInt16} (hvalue : value.toNat < modulus width)
    (entering : Bool) : (bits width (right width value entering)).msb = entering := by
  have hwidth := one_lt_bits width
  rw [bits_right hvalue, BitVec.msb_eq_getLsbD_last, BitVec.getLsbD_setWidth,
    BitVec.getLsbD_ushiftRight, BitVec.getLsbD_cons, if_pos (by omega),
    decide_eq_true (by omega), Bool.true_and]

/-- Below it is the bit that was there. -/
theorem next_right {width : Width} {value : UInt16} (hvalue : value.toNat < modulus width)
    (entering : Bool) :
    (right width value entering &&& (width.signBit >>> 1) != 0) = (bits width value).msb := by
  have hnext : (right width value entering &&& (width.signBit >>> 1) != 0)
      = (right width value entering).toNat.testBit (width.bits - 2) := by
    cases width with
    | byte => exact and_bit_ne_zero _ (by decide) rfl
    | word => exact and_bit_ne_zero _ (by decide) rfl
  have hwidth := one_lt_bits width
  have hplace : 1 + (width.bits - 2) = width.bits - 1 := by omega
  have hbit := congrArg (BitVec.getLsbD · (width.bits - 2)) (bits_right hvalue entering)
  simp only [getLsbD_bits width (right width value entering), BitVec.getLsbD_setWidth,
    BitVec.getLsbD_ushiftRight, BitVec.getLsbD_cons, hplace] at hbit
  rw [hnext, BitVec.msb_eq_getLsbD_last]
  rw [decide_eq_true (by omega), Bool.true_and, Bool.true_and, if_neg (by omega)] at hbit
  exact hbit

/-- By one place, overflow says that the bit at the top has changed. -/
theorem shiftOverflow_one (op : ShiftOp) (width : Width) (operand : UInt16) (carry : Bool) :
    let outcome := shiftOnce op width (operand &&& width.mask) carry
    shiftOverflow op width operand 1 outcome.1 outcome.2 = true
      ↔ (bits width outcome.1).msb ≠ (bits width operand).msb := by
  have hvalue := toNat_and_mask_lt width operand
  have hmsb := congrArg BitVec.msb (bits_and_mask width operand)
  rw [shiftOnce_eq]
  cases op with
  | rol | rcl | shl =>
      show ((left width _ _ &&& width.signBit != 0) != (bits width (operand &&& width.mask)).msb)
          = true ↔ (bits width (left width _ _)).msb ≠ _
      rw [msb_bits, bne_iff_ne, hmsb]
  | ror | rcr =>
      show ((right width _ _ &&& width.signBit != 0)
            != (right width _ _ &&& (width.signBit >>> 1) != 0)) = true
          ↔ (bits width (right width _ _)).msb ≠ _
      rw [msb_bits, next_right hvalue, bne_iff_ne, hmsb]
  | shr =>
      show (operand &&& width.signBit != 0 && true) = true
          ↔ (bits width (right width _ false)).msb ≠ _
      rw [msb_bits, msb_right hvalue, Bool.and_true, ne_comm, ne_eq, Bool.not_eq_false]
  | sar =>
      show false = true
          ↔ (bits width (right width _ (bits width (operand &&& width.mask)).msb)).msb ≠ _
      rw [msb_right hvalue, hmsb]
      exact ⟨fun h => absurd h Bool.false_ne_true, fun h => absurd rfl h⟩

/-- Shifts and rotates come to their closed forms.  By one place, overflow says that the bit at
    the top has changed; shifts set the flags of their result, and rotates leave them alone.  By no
    places at all, nothing changes. -/
theorem shift_closed (flags : Flags) (op : ShiftOp) (width : Width) (operand : UInt16)
    (count : UInt8) :
    (count ≠ 0 → Shifts flags op width operand count.toNat (shift flags op width operand count))
      ∧ shift flags op width operand 0 = (operand &&& width.mask, flags) := by
  refine ⟨?_, rfl⟩
  intro hcount
  have hvalue := toNat_and_mask_lt width operand
  have hresult := toNat_shiftPlaces hvalue (flags.get .carry) count.toNat op
  have hcarry : (shiftPlaces op width count.toNat (operand &&& width.mask, flags.get .carry)).2
      = lastOut (bits width operand) (flags.get .carry) count.toNat op := by
    obtain ⟨places, hplaces⟩ := Nat.exists_eq_succ_of_ne_zero
      (fun hzero => hcount (UInt8.toNat_inj.mp hzero) : count.toNat ≠ 0)
    rw [hplaces, carry_shiftPlaces hvalue, bits_and_mask]
  have hoverflow : count.toNat = 1 →
      let state := shiftPlaces op width count.toNat (operand &&& width.mask, flags.get .carry)
      shiftOverflow op width operand count state.1 state.2 = true
        ↔ (bits width state.1).msb ≠ (bits width operand).msb := by
    intro hone
    obtain rfl : count = 1 := UInt8.toNat_inj.mp hone
    exact shiftOverflow_one op width operand (flags.get .carry)
  have hbound := shiftPlaces_lt op hvalue (flags.get .carry) count.toNat
  rw [bits_and_mask] at hresult
  rw [shift, if_neg hcount]
  generalize shiftPlaces op width count.toNat (operand &&& width.mask, flags.get .carry) = state
    at hresult hcarry hoverflow hbound ⊢
  obtain ⟨value, carry⟩ := state
  simp only at hresult hcarry hoverflow hbound ⊢
  cases hop : isShift op with
  | true =>
      constructor
      case value => exact hresult
      case carry => simpa using hcarry
      case overflow => simpa using hoverflow
      case shows => exact fun _ => shows_setResultFlags _ hbound
      case auxiliaryCarry => simp
      case rotates => simp [hop]
      case others => simp
  | false =>
      constructor
      case value => exact hresult
      case carry => simpa using hcarry
      case overflow => simpa using hoverflow
      case shows => simp [hop]
      case auxiliaryCarry => simp [hop]
      case rotates => simp
      case others => simp

/-- A byte is rotated through the carry by 28 places, which is once around and then by one; a word
    is shifted by more places than it has bits, and its sign is all that is left. -/
theorem shift_closed_around :
    Shifts .clear .rcl .byte 0x81 28 (shift .clear .rcl .byte 0x81 28)
      ∧ (shift .clear .rcl .byte 0x81 28).1 = 0x02
      ∧ Shifts .clear .sar .word 0x8000 200 (shift .clear .sar .word 0x8000 200)
      ∧ (shift .clear .sar .word 0x8000 200).1 = 0xFFFF :=
  ⟨(shift_closed .clear .rcl .byte 0x81 28).1 (by decide), by decide +kernel,
    (shift_closed .clear .sar .word 0x8000 200).1 (by decide), by decide +kernel⟩

end Microprocessor.X86.Alu
