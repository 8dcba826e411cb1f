import Microprocessor.Word.Field
import Microprocessor.Word.Pattern

/-! # Words cut into fields

    A word can be cut into fields that lie side by side, and is put together again
    from them.  Fields, single bits and bit patterns all come down to runs of bits.

      * `join` puts values of given widths side by side, `cut` takes a word apart, and
        `join_cut` says that this is the way back;
      * `toNat_field`, `toNat_bit` and `holds_of_pattern` say what is read of a word. -/

namespace Microprocessor

/-! ## Runs of bits -/

/-- The number that `width` bits of a word are, from bit `low` up. -/
def bitsAt (word : UInt32) (low width : Nat) : Nat :=
  word.toNat / Nat.pow 2 low % Nat.pow 2 width

theorem bitsAt_lt (word : UInt32) (low width : Nat) : bitsAt word low width < Nat.pow 2 width :=
  Nat.mod_lt _ (Nat.pow_pos (by decide))

/-- Runs of bits that lie side by side are one run. -/
theorem bitsAt_add (word : UInt32) (low width more : Nat) :
    bitsAt word low (width + more)
      = bitsAt word (low + width) more * Nat.pow 2 width + bitsAt word low width := by
  have hwidth : Nat.pow 2 (width + more) = Nat.pow 2 width * Nat.pow 2 more := Nat.pow_add 2 width more
  have hlow : Nat.pow 2 (low + width) = Nat.pow 2 low * Nat.pow 2 width := Nat.pow_add 2 low width
  rw [bitsAt, bitsAt, bitsAt, hwidth, hlow, Nat.mod_mul, Nat.div_div_eq_div_mul, Nat.add_comm,
    Nat.mul_comm]

/-- A run of bits within another. -/
theorem bitsAt_within (word : UInt32) (low : Nat) {skip width total : Nat}
    (h : skip + width ≤ total) :
    bitsAt word (low + skip) width = bitsAt word low total / Nat.pow 2 skip % Nat.pow 2 width := by
  obtain ⟨rest, rfl⟩ := Nat.exists_eq_add_of_le h
  have hpos : 0 < Nat.pow 2 skip := Nat.pow_pos (by decide)
  rw [Nat.add_assoc, bitsAt_add, bitsAt_add, Nat.mul_comm _ (Nat.pow 2 skip),
    Nat.mul_add_div hpos, Nat.div_eq_of_lt (bitsAt_lt word low skip), Nat.add_zero,
    Nat.mul_add_mod_self_right, Nat.mod_eq_of_lt (bitsAt_lt word (low + skip) width)]

/-- A field is a run of bits. -/
theorem toNat_field (word : UInt32) {high low : Nat} (h : high + 1 - low ≤ 32) :
    (field word high low).toNat = bitsAt word low (high + 1 - low) := by
  have hbound : bitsAt word low (high + 1 - low) < UInt32.size :=
    Nat.lt_of_lt_of_le (bitsAt_lt _ _ _) (Nat.pow_le_pow_right (by decide) h)
  show (UInt32.ofNat ((word.toNat >>> low) % Nat.pow 2 (high + 1 - low))).toNat = _
  rw [Nat.shiftRight_eq_div_pow]
  exact UInt32.toNat_ofNat_of_lt hbound

/-- So is a single bit. -/
@[simp] theorem toNat_bit (word : UInt32) (n : Nat) : (bit word n).toNat = bitsAt word n 1 :=
  Nat.toNat_testBit word.toNat n

/-- Whether a pattern accepts a field, by the bits of the field. -/
theorem accepts_field (pattern : BitPattern) (word : UInt32) {high low : Nat}
    (h : high + 1 - low ≤ 32) :
    pattern.accepts (field word high low)
      = decide (bitsAt word low (high + 1 - low) &&& pattern.mask.toNat = pattern.value.toNat) := by
  rw [← toNat_field word h, ← UInt32.toNat_and]
  exact decide_eq_decide.mpr UInt32.toNat_inj.symm

/-- What a pattern that accepts a field, or that does not, says about some of its bits.  For
    the patterns in use that can be tested value by value. -/
theorem holds_of_pattern {pattern : BitPattern} {word : UInt32} {high low : Nat} {accepted : Bool}
    (h : pattern.accepts (field word high low) = accepted) (skip width : Nat) (holds : Nat → Prop)
    (hpattern : high + 1 - low ≤ 32 ∧ skip + width ≤ high + 1 - low
      ∧ ∀ x < Nat.pow 2 (high + 1 - low),
          decide (x &&& pattern.mask.toNat = pattern.value.toNat) = accepted →
            holds (x / Nat.pow 2 skip % Nat.pow 2 width)) :
    holds (bitsAt word (low + skip) width) := by
  obtain ⟨hwidth, hwithin, hvalues⟩ := hpattern
  rw [accepts_field pattern word hwidth] at h
  rw [bitsAt_within word low hwithin]
  exact hvalues _ (bitsAt_lt word low _) h

/-- Bits that a pattern fixes, in a field that it accepts. -/
theorem bitsAt_of_pattern {pattern : BitPattern} {word : UInt32} {high low : Nat}
    (h : pattern.accepts (field word high low) = true) (skip width value : Nat)
    (hpattern : high + 1 - low ≤ 32 ∧ skip + width ≤ high + 1 - low
      ∧ ∀ x < Nat.pow 2 (high + 1 - low),
          decide (x &&& pattern.mask.toNat = pattern.value.toNat) = true →
            x / Nat.pow 2 skip % Nat.pow 2 width = value) :
    bitsAt word (low + skip) width = value :=
  holds_of_pattern h skip width (· = value) hpattern

/-! ## Cutting and joining -/

/-- The width of fields together. -/
@[simp] def totalWidth : List Nat → Nat
  | [] => 0
  | width :: rest => width + totalWidth rest

/-- The values of fields, each with its width, side by side; the first is uppermost. -/
def join : List (Nat × Nat) → Nat
  | [] => 0
  | (_, value) :: rest => value * Nat.pow 2 (totalWidth (rest.map Prod.fst)) + join rest

/-- The lowermost fields of a word, of given widths. -/
def cut (word : UInt32) : List Nat → List (Nat × Nat)
  | [] => []
  | width :: rest => (width, bitsAt word (totalWidth rest) width) :: cut word rest

theorem map_fst_cut (word : UInt32) (widths : List Nat) :
    (cut word widths).map Prod.fst = widths := by
  induction widths with
  | nil => rfl
  | cons width rest ih => exact congrArg (width :: ·) ih

/-- The fields of a word, put together again. -/
theorem join_cut (word : UInt32) (widths : List Nat) :
    join (cut word widths) = bitsAt word 0 (totalWidth widths) := by
  induction widths with
  | nil => exact (Nat.mod_one _).symm
  | cons width rest ih =>
      show bitsAt word (totalWidth rest) width
        * Nat.pow 2 (totalWidth ((cut word rest).map Prod.fst)) + join (cut word rest) = _
      rw [map_fst_cut, ih, totalWidth, Nat.add_comm width, bitsAt_add, Nat.zero_add]

end Microprocessor
