import Microprocessor.Arm.Operand

/-! # The barrel shifter

    A shift gives a value and a carry: the last bit to leave the value.  A
    shift by nothing leaves both alone.

      * `shift` takes any amount, as a register holds it;
      * `shiftEncoded` takes the amount that an instruction encodes, where
        zero has a meaning of its own. -/

namespace Microprocessor.Arm

/-- A shifted value, and the bit carried out of it. -/
structure Shifted where
  value : UInt32
  carry : Bool
  deriving DecidableEq

/-- Shifts `value` by `amount` places, with `carry` the carry before it. -/
def shift (kind : ShiftKind) (value : UInt32) (amount : Nat) (carry : Bool) : Shifted :=
  if amount = 0 then ⟨value, carry⟩
  else
    match kind with
    | .lsl => ⟨.ofBitVec (value.toBitVec <<< amount), amount ≤ 32 && bit value (32 - amount)⟩
    | .lsr => ⟨.ofBitVec (value.toBitVec >>> amount), bit value (amount - 1)⟩
    | .asr => ⟨.ofBitVec (value.toBitVec.sshiftRight amount), bit value (min amount 32 - 1)⟩
    | .ror => ⟨rotateRight value amount, bit value ((amount - 1) % 32)⟩

/-- Rotates one place to the right through the carry. -/
def rotateThroughCarry (value : UInt32) (carry : Bool) : Shifted :=
  let top : UInt32 := if carry then 0x80000000 else 0
  ⟨top ||| (value >>> 1), bit value 0⟩

/-- Shifts by an encoded amount.  Zero stands for no shift to the left, 32
    places to the right, or a rotation through the carry. -/
def shiftEncoded (kind : ShiftKind) (value : UInt32) (amount : Nat) (carry : Bool) : Shifted :=
  match kind, amount with
  | .lsr, 0 | .asr, 0 => shift kind value 32 carry
  | .ror, 0 => rotateThroughCarry value carry
  | _, amount => shift kind value amount carry

/-- Shifts by the bottom byte of a register's value. -/
def shiftByRegister (kind : ShiftKind) (value amount : UInt32) (carry : Bool) : Shifted :=
  shift kind value (amount.toNat % 256) carry

end Microprocessor.Arm
