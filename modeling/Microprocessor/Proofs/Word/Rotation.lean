/-! # Shifts and rotations one place at a time

    A rotation by some places is as many rotations by one place.  By one place, every bit
    takes the bit beside it, and the one at the end takes the one at the other end.  A
    shift by one place differs in the bit that comes in.

      * `getLsbD_rotateLeft_one` and `getLsbD_rotateRight_one` are one place;
      * `shiftConcat_false`, `cons_false_shiftRight` and `cons_msb_shiftRight` are shifts by one
        place, by the bit that comes in;
      * `shiftConcat_msb` and `cons_lsb_shiftRight` are the rotations, and
        `cons_msb_shiftConcat` and `cons_lsb_cons_shiftRight` those with one bit more;
      * `rotateLeft_succ` and `rotateRight_succ` are one place more. -/

namespace Microprocessor

variable {width : Nat}

theorem rotateLeft_zero (x : BitVec width) : x.rotateLeft 0 = x := by
  apply BitVec.eq_of_getLsbD_eq
  intro i hi
  simp [hi]

theorem rotateRight_zero (x : BitVec width) : x.rotateRight 0 = x := by
  apply BitVec.eq_of_getLsbD_eq
  intro i hi
  simp [hi]

theorem shiftConcat_false (x : BitVec width) : x.shiftConcat false = x <<< 1 := by
  apply BitVec.eq_of_getLsbD_eq
  intro i hi
  rw [BitVec.getLsbD_shiftConcat, BitVec.getLsbD_shiftLeft]
  by_cases hzero : i = 0
  · simp [hzero]
  · simp [hzero, hi]

theorem cons_false_shiftRight (x : BitVec width) :
    ((x.cons false) >>> 1).setWidth width = x >>> 1 := by
  apply BitVec.eq_of_getLsbD_eq
  intro i hi
  rw [BitVec.getLsbD_setWidth, BitVec.getLsbD_ushiftRight, BitVec.getLsbD_ushiftRight,
    BitVec.getLsbD_cons, decide_eq_true hi, Bool.true_and]
  by_cases hlast : 1 + i = width
  · simp [hlast]
  · simp [hlast]

theorem cons_msb_shiftRight (x : BitVec width) :
    ((x.cons x.msb) >>> 1).setWidth width = x.sshiftRight 1 := by
  apply BitVec.eq_of_getLsbD_eq
  intro i hi
  rw [BitVec.getLsbD_setWidth, BitVec.getLsbD_ushiftRight, BitVec.getLsbD_sshiftRight,
    BitVec.getLsbD_cons, decide_eq_true hi, Bool.true_and]
  by_cases hlast : 1 + i = width
  · simp [hlast, hi]
  · simp [hlast, hi, show 1 + i < width by omega]

variable (hwidth : 1 < width) (x : BitVec width)

include hwidth

theorem getLsbD_rotateLeft_one {i : Nat} (hi : i < width) :
    (x.rotateLeft 1).getLsbD i = if i = 0 then x.msb else x.getLsbD (i - 1) := by
  rw [BitVec.getLsbD_rotateLeft_of_le hwidth, BitVec.msb_eq_getLsbD_last]
  by_cases h : i = 0
  · simp [h]
  · simp [h, hi]

theorem getLsbD_rotateRight_one {i : Nat} (hi : i < width) :
    (x.rotateRight 1).getLsbD i = if i + 1 = width then x.getLsbD 0 else x.getLsbD (i + 1) := by
  rw [BitVec.getLsbD_rotateRight_of_lt hwidth]
  by_cases h : i + 1 = width
  · simp [h, hi, show ¬i < width - 1 by omega, show i - (width - 1) = 0 by omega]
  · simp [h, hi, show i < width - 1 by omega, Nat.add_comm]

/-- One place to the left, the bit that goes out comes in at the bottom. -/
theorem shiftConcat_msb : x.shiftConcat x.msb = x.rotateLeft 1 := by
  apply BitVec.eq_of_getLsbD_eq
  intro i hi
  rw [getLsbD_rotateLeft_one hwidth x hi, BitVec.getLsbD_shiftConcat, decide_eq_true hi,
    Bool.true_and]

/-- One place to the right, the bit that goes out comes in at the top. -/
theorem cons_lsb_shiftRight : ((x.cons (x.getLsbD 0)) >>> 1).setWidth width = x.rotateRight 1 := by
  apply BitVec.eq_of_getLsbD_eq
  intro i hi
  rw [getLsbD_rotateRight_one hwidth x hi, BitVec.getLsbD_setWidth, BitVec.getLsbD_ushiftRight,
    BitVec.getLsbD_cons, decide_eq_true hi, Bool.true_and, Nat.add_comm 1 i]

/-- The same with a bit above the others, where the bit goes that goes out. -/
theorem cons_msb_shiftConcat (top : Bool) :
    (x.shiftConcat top).cons x.msb = (x.cons top).rotateLeft 1 := by
  apply BitVec.eq_of_getLsbD_eq
  intro i hi
  rw [getLsbD_rotateLeft_one (Nat.lt_succ_of_lt hwidth) _ hi, BitVec.msb_cons,
    BitVec.getLsbD_cons, BitVec.getLsbD_cons, BitVec.getLsbD_shiftConcat,
    BitVec.msb_eq_getLsbD_last]
  by_cases hout : i = width
  · simp [hout, show width ≠ 0 by omega, show width - 1 ≠ width by omega]
  · have hbelow : i < width := by omega
    simp [hout, hbelow, show i - 1 ≠ width by omega]

/-- The same to the right. -/
theorem cons_lsb_cons_shiftRight (top : Bool) :
    (((x.cons top) >>> 1).setWidth width).cons (x.getLsbD 0) = (x.cons top).rotateRight 1 := by
  apply BitVec.eq_of_getLsbD_eq
  intro i hi
  rw [getLsbD_rotateRight_one (Nat.lt_succ_of_lt hwidth) _ hi, BitVec.getLsbD_cons,
    BitVec.getLsbD_setWidth, BitVec.getLsbD_ushiftRight, BitVec.getLsbD_cons,
    BitVec.getLsbD_cons, BitVec.getLsbD_cons]
  by_cases hout : i = width
  · simp [hout, show 0 ≠ width by omega]
  · have hbelow : i < width := by omega
    simp [hout, hbelow, Nat.add_comm 1 i]

/-- After the last place a rotation is back at the first. -/
theorem succ_mod (places : Nat) :
    (places + 1) % width = if places % width + 1 = width then 0 else places % width + 1 := by
  have hplaces : places % width < width := Nat.mod_lt places (by omega)
  rw [← Nat.mod_add_mod]
  by_cases h : places % width + 1 = width
  · rw [if_pos h, h, Nat.mod_self]
  · rw [if_neg h]
    exact Nat.mod_eq_of_lt (by omega)

theorem rotateLeft_succ (places : Nat) :
    x.rotateLeft (places + 1) = (x.rotateLeft places).rotateLeft 1 := by
  have hplaces : places % width < width := Nat.mod_lt places (by omega)
  apply BitVec.eq_of_getLsbD_eq
  intro i hi
  rw [getLsbD_rotateLeft_one hwidth _ hi, BitVec.msb_eq_getLsbD_last]
  simp only [BitVec.getLsbD_rotateLeft, succ_mod hwidth, hi]
  generalize places % width = r at *
  grind

theorem rotateRight_succ (places : Nat) :
    x.rotateRight (places + 1) = (x.rotateRight places).rotateRight 1 := by
  have hplaces : places % width < width := Nat.mod_lt places (by omega)
  apply BitVec.eq_of_getLsbD_eq
  intro i hi
  rw [getLsbD_rotateRight_one hwidth _ hi]
  simp only [BitVec.getLsbD_rotateRight, succ_mod hwidth, hi]
  generalize places % width = r at *
  by_cases hlast : i + 1 = width
  · grind
  · have hnext : i + 1 < width := by omega
    grind

end Microprocessor
