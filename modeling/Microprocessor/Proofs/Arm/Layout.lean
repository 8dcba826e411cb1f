import Microprocessor.Arm.Instruction
import Microprocessor.Proofs.Word.Field

/-! # How operations are laid out in words

    The way back from an operation to its word: the fields below the condition, from
    the uppermost down, each with its width and its value.  Together they fill the
    28 bits.

      * `Operation.layout` is written from the operation alone;
      * `Operation.hasIgnoredBits` names the operations of which the word has bits
        that nothing reads;
      * the lemmas say what each number that a layout is made of was in the word. -/

namespace Microprocessor.Arm

/-! ## Numbers -/

/-- The operation's number. -/
def DataOp.number : DataOp → Nat
  | .and => 0
  | .eor => 1
  | .sub => 2
  | .rsb => 3
  | .add => 4
  | .adc => 5
  | .sbc => 6
  | .rsc => 7
  | .tst => 8
  | .teq => 9
  | .cmp => 10
  | .cmn => 11
  | .orr => 12
  | .mov => 13
  | .bic => 14
  | .mvn => 15

/-- The kind's number. -/
def ShiftKind.number : ShiftKind → Nat
  | .lsl => 0
  | .lsr => 1
  | .asr => 2
  | .ror => 3

/-- The load bit of a halfword transfer.  Bytes and halves with a sign are only ever
    loaded, and what would be their stores are the doubleword transfers. -/
def HalfwordKind.loadBit (load : Bool) : HalfwordKind → Nat
  | .unsignedHalf => load.toNat
  | .signedByte | .signedHalf => 1
  | .double => 0

/-- Bits 6 and 5 of a halfword transfer. -/
def HalfwordKind.number (load : Bool) : HalfwordKind → Nat
  | .unsignedHalf => 0b01
  | .signedByte => 0b10
  | .signedHalf => 0b11
  | .double => if load then 0b10 else 0b11

/-! ## Layouts -/

/-- A field of one bit. -/
def flagField (value : Bool) : Nat × Nat :=
  (1, value.toNat)

/-- A field that names a register. -/
def Register.field (register : Register) : Nat × Nat :=
  (4, register.number.val)

/-- Bits 24 down to 20 of a transfer, of which bit 22 has a meaning of its own in each
    kind of transfer. -/
def Indexing.fields (indexing : Indexing) (bit22 : Bool) (load : Nat) : List (Nat × Nat) :=
  [flagField indexing.preIndex, flagField indexing.add, flagField bit22,
    flagField indexing.writeBack, (1, load)]

/-- The fields of a register that is shifted by an immediate amount. -/
def shiftedFields (rm : Register) (shift : ShiftKind) (amount : UInt8) : List (Nat × Nat) :=
  [(5, amount.toNat), (2, shift.number), (1, 0), rm.field]

/-- Bits 27 to 25 of data processing: whether the operand is an immediate. -/
def ShifterOperand.space : ShifterOperand → Nat
  | .immediate .. => 0b001
  | .register .. => 0b000

/-- Bits 11 down to 0 of data processing. -/
def ShifterOperand.fields : ShifterOperand → List (Nat × Nat)
  | .immediate imm8 rotate => [(4, rotate.toNat), (8, imm8.toNat)]
  | .register rm shift (.immediate amount) => shiftedFields rm shift amount
  | .register rm shift (.register rs) => [rs.field, (1, 0), (2, shift.number), (1, 1), rm.field]

/-- Bits 27 to 25 of a single transfer: whether the offset is in a register. -/
def TransferOffset.space : TransferOffset → Nat
  | .immediate _ => 0b010
  | .register .. => 0b011

/-- Bits 11 down to 0 of a single transfer. -/
def TransferOffset.fields : TransferOffset → List (Nat × Nat)
  | .immediate offset => [(12, offset.toNat)]
  | .register rm shift amount => shiftedFields rm shift amount

/-- The fields of a branch offset, in words. -/
def offsetField (offset : Int32) : Nat × Nat :=
  (24, offset.toUInt32.toNat / 4 % Nat.pow 2 24)

/-- Everything below the condition of a word that is kept whole. -/
def wholeField (word : UInt32) : Nat × Nat :=
  (28, word.toNat % Nat.pow 2 28)

namespace Operation

/-- Whether the word of an operation has bits that nothing reads. -/
def hasIgnoredBits : Operation → Bool
  | .swap .. | .statusToRegister .. | .registerToStatus .. | .branchExchange ..
  | .countLeadingZeros .. => true
  | .halfwordTransfer _ _ _ _ _ (.register _) => true
  | _ => false

/-- The fields of an operation's word below the condition.  An operation with ignored
    bits has no layout of its own. -/
@[simp] def layout : Operation → List (Nat × Nat)
  | .dataProcessing op setFlags rn rd operand =>
      [(3, operand.space), (4, op.number), flagField setFlags, rn.field, rd.field]
        ++ operand.fields
  | .moveWide top rd imm16 =>
      [(3, 0b001), (5, if top then 0b10100 else 0b10000), (4, imm16.toNat / 4096), rd.field,
        (12, imm16.toNat % 4096)]
  | .multiply accumulate setFlags rd rn rs rm =>
      [(3, 0b000), (1, 0), (3, if accumulate then 0b001 else 0b000), flagField setFlags, rd.field,
        rn.field, rs.field, (4, 0b1001), rm.field]
  | .multiplyLong signed accumulate setFlags rdHi rdLo rs rm =>
      [(3, 0b000), (1, 0), (1, 1), flagField signed, flagField accumulate, flagField setFlags,
        rdHi.field, rdLo.field, rs.field, (4, 0b1001), rm.field]
  | .singleTransfer load byte indexing rn rd offset =>
      (3, offset.space) :: indexing.fields byte load.toNat ++ [rn.field, rd.field]
        ++ offset.fields
  | .halfwordTransfer load kind indexing rn rd (.immediate offset) =>
      (3, 0b000) :: indexing.fields true (kind.loadBit load)
        ++ [rn.field, rd.field, (4, offset.toNat / 16), (1, 1), (2, kind.number load), (1, 1),
          (4, offset.toNat % 16)]
  | .blockTransfer load indexing userBank rn registers =>
      (3, 0b100) :: indexing.fields userBank load.toNat ++ [rn.field, (16, registers.toNat)]
  | .branch link offset => [(3, 0b101), flagField link, offsetField offset]
  | .branchLinkExchange offset =>
      [(3, 0b101), (1, offset.toUInt32.toNat / 2 % 2), offsetField offset]
  | .supervisorCall comment => [(3, 0b111), (1, 1), (24, comment.toNat)]
  | .breakpoint comment =>
      [(3, 0b000), (2, 0b10), (2, 0b01), (1, 0), (12, comment.toNat / 16), (1, 0), (3, 0b111),
        (4, comment.toNat % 16)]
  | .coprocessor word | .media word | .unconditional word | .undefined word => [wholeField word]
  | .halfwordTransfer _ _ _ _ _ (.register _) | .swap .. | .statusToRegister ..
  | .registerToStatus .. | .branchExchange .. | .countLeadingZeros .. => []

end Operation

/-! ## What the numbers were in the word -/

@[simp] theorem flagField_bit (word : UInt32) (n : Nat) :
    flagField (bit word n) = (1, bitsAt word n 1) :=
  congrArg (1, ·) (toNat_bit word n)

@[simp] theorem Register.field_ofField (word : UInt32) (low : Nat) :
    (Register.ofField word low).field = (4, bitsAt word low 4) := by
  have hwidth : low + 3 + 1 - low = 4 := by omega
  have hbits := @toNat_field word (low + 3) low (by omega)
  rw [hwidth] at hbits
  show (4, (Microprocessor.field word (low + 3) low).toNat % 16) = _
  rw [hbits, Nat.mod_eq_of_lt (bitsAt_lt word low 4)]

@[simp] theorem DataOp.number_ofField (word : UInt32) :
    (DataOp.ofField (field word 24 21)).number = bitsAt word 21 4 := by
  have hbits := @toNat_field word 24 21 (by decide)
  have hlt := bitsAt_lt word 21 4
  rw [DataOp.ofField, hbits, Nat.mod_eq_of_lt hlt]
  generalize bitsAt word 21 4 = k at hlt
  revert k
  decide

@[simp] theorem ShiftKind.number_ofField (word : UInt32) :
    (ShiftKind.ofField (field word 6 5)).number = bitsAt word 5 2 := by
  have hbits := @toNat_field word 6 5 (by decide)
  have hlt := bitsAt_lt word 5 2
  rw [ShiftKind.ofField, hbits, Nat.mod_eq_of_lt hlt]
  generalize bitsAt word 5 2 = k at hlt
  revert k
  decide

theorem Condition.field_ofField (word : UInt32) :
    (Condition.ofField (Microprocessor.field word 31 28)).field = bitsAt word 28 4 := by
  have hbits := @toNat_field word 31 28 (by decide)
  have hlt := bitsAt_lt word 28 4
  rw [Condition.ofField, hbits, Nat.mod_eq_of_lt hlt]
  generalize bitsAt word 28 4 = k at hlt
  revert k
  decide

@[simp] theorem Indexing.fields_ofWord (word : UInt32) (bit22 : Bool) (load : Nat) :
    (Indexing.ofWord word).fields bit22 load
      = [(1, bitsAt word 24 1), (1, bitsAt word 23 1), flagField bit22, (1, bitsAt word 21 1),
          (1, load)] := by
  simp [Indexing.fields, Indexing.ofWord]

/-- The fields of a halfword transfer's kind, other than that of the swaps. -/
theorem HalfwordKind.fields_ofWord (word : UInt32) (h : bitsAt word 5 2 ≠ 0) :
    (Classification.halfwordKind word).2.loadBit (Classification.halfwordKind word).1
        = bitsAt word 20 1
      ∧ (Classification.halfwordKind word).2.number (Classification.halfwordKind word).1
        = bitsAt word 5 2 := by
  have hbits := @toNat_field word 6 5 (by decide)
  have hload := toNat_bit word 20
  have hlt := bitsAt_lt word 5 2
  rw [Classification.halfwordKind, hbits, ← hload]
  generalize bit word 20 = load
  generalize bitsAt word 5 2 = k at h hlt
  revert load h
  revert k
  decide

theorem toNat_toUInt8_field (word : UInt32) {high low : Nat} (h : high + 1 - low ≤ 8) :
    (field word high low).toUInt8.toNat = bitsAt word low (high + 1 - low) := by
  have hlt : bitsAt word low (high + 1 - low) < Nat.pow 2 8 :=
    Nat.lt_of_lt_of_le (bitsAt_lt _ _ _) (Nat.pow_le_pow_right (by decide) h)
  rw [UInt32.toNat_toUInt8, toNat_field word (Nat.le_trans h (by decide))]
  exact Nat.mod_eq_of_lt hlt

theorem toNat_toUInt16_field (word : UInt32) {high low : Nat} (h : high + 1 - low ≤ 16) :
    (field word high low).toUInt16.toNat = bitsAt word low (high + 1 - low) := by
  have hlt : bitsAt word low (high + 1 - low) < Nat.pow 2 16 :=
    Nat.lt_of_lt_of_le (bitsAt_lt _ _ _) (Nat.pow_le_pow_right (by decide) h)
  rw [UInt32.toNat_toUInt16, toNat_field word (Nat.le_trans h (by decide))]
  exact Nat.mod_eq_of_lt hlt

/-- Numbers of given widths, side by side, are a number of both widths together. -/
theorem append_lt {upper lower width more : Nat} (hupper : upper < Nat.pow 2 width)
    (hlower : lower < Nat.pow 2 more) :
    upper * Nat.pow 2 more + lower < Nat.pow 2 (width + more) := by
  calc upper * Nat.pow 2 more + lower
      < upper * Nat.pow 2 more + Nat.pow 2 more := Nat.add_lt_add_left hlower _
    _ = (upper + 1) * Nat.pow 2 more := (Nat.succ_mul _ _).symm
    _ ≤ Nat.pow 2 width * Nat.pow 2 more := Nat.mul_le_mul_right _ hupper
    _ = Nat.pow 2 (width + more) := (Nat.pow_add 2 _ _).symm

/-- A field put above the lowermost one, where both fit into `total` bits. -/
theorem appended_lt (word : UInt32) {low width more total : Nat} (h : width + more ≤ total) :
    bitsAt word low width * Nat.pow 2 more + bitsAt word 0 more < Nat.pow 2 total :=
  Nat.lt_of_lt_of_le (append_lt (bitsAt_lt word low width) (bitsAt_lt word 0 more))
    (Nat.pow_le_pow_right (by decide) h)

theorem toNat_append_field (word : UInt32) {high low n : Nat} (shift : UInt32)
    (hn : shift.toNat = n + 1) (hlow : low ≤ high) (h : high + 1 - low + (n + 1) ≤ 32) :
    ((field word high low <<< shift) ||| field word n 0).toNat
      = bitsAt word low (high + 1 - low) * Nat.pow 2 (n + 1) + bitsAt word 0 (n + 1) := by
  have hsplit := Nat.shiftLeft_add_eq_or_of_lt (bitsAt_lt word 0 (n + 1))
    (bitsAt word low (high + 1 - low))
  rw [Nat.shiftLeft_eq] at hsplit
  have hupper : bitsAt word low (high + 1 - low) * Nat.pow 2 (n + 1) < Nat.pow 2 32 :=
    Nat.lt_of_le_of_lt (Nat.le_add_right _ _) (appended_lt word h)
  rw [UInt32.toNat_or, UInt32.toNat_shiftLeft, hn, toNat_field word (by omega),
    toNat_field word (by omega), Nat.mod_eq_of_lt (by omega : n + 1 < 32), Nat.shiftLeft_eq]
  show bitsAt word low (high + 1 - low) * Nat.pow 2 (n + 1) % Nat.pow 2 32 ||| _ = _
  rw [Nat.mod_eq_of_lt hupper]
  exact hsplit.symm

/-- The two fields, out of what they were put together to. -/
theorem split_append_field (word : UInt32) {high low n total : Nat} (shift : UInt32)
    (hn : shift.toNat = n + 1)
    (hfits : low ≤ high ∧ high + 1 - low + (n + 1) ≤ total ∧ total ≤ 32) :
    ((field word high low <<< shift) ||| field word n 0).toNat % Nat.pow 2 total
          / Nat.pow 2 (n + 1) = bitsAt word low (high + 1 - low)
      ∧ ((field word high low <<< shift) ||| field word n 0).toNat % Nat.pow 2 total
          % Nat.pow 2 (n + 1) = bitsAt word 0 (n + 1) := by
  obtain ⟨hlow, h, htotal⟩ := hfits
  have hpos : 0 < Nat.pow 2 (n + 1) := Nat.pow_pos (by decide)
  have hlower := bitsAt_lt word 0 (n + 1)
  rw [toNat_append_field word shift hn hlow (Nat.le_trans h htotal),
    Nat.mod_eq_of_lt (appended_lt word h), Nat.mul_comm, Nat.mul_add_div hpos,
    Nat.div_eq_of_lt hlower, Nat.mul_add_mod, Nat.mod_eq_of_lt hlower]
  exact ⟨rfl, rfl⟩

end Microprocessor.Arm
