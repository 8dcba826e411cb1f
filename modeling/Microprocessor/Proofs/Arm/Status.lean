import Microprocessor.Arm.DataProcessing

/-! # The bits of a program status

    A status is read and written under masks, so what a write leaves alone is
    what lies outside its mask.

      * `Status.get_set` is the one lemma about bits that are set;
      * `Status.control` is all but the condition flags: the interrupt masks, the
        state bit and the mode;
      * `Status.control_record`: an operation that sets flags leaves it alone;
      * `Processor.replaceable_thumb` and `Processor.replaceable_user` say what an
        instruction cannot replace;
      * `Exception.mode?_handlerStatus` and its neighbours say what a handler
        starts with. -/

namespace Microprocessor.Arm

/-! ## Words under masks -/

/-- A mask is applied to each part of a word. -/
theorem or_and (a b kept : UInt32) : (a ||| b) &&& kept = (a &&& kept) ||| (b &&& kept) := by
  apply UInt32.toNat_inj.mp
  rw [UInt32.toNat_and, UInt32.toNat_or, UInt32.toNat_or, UInt32.toNat_and, UInt32.toNat_and]
  exact Nat.and_or_distrib_right a.toNat b.toNat kept.toNat

/-- Bits outside a mask are no bits of it. -/
theorem not_and_of_disjoint {mask kept : UInt32} (h : mask &&& kept = 0) :
    ~~~mask &&& kept = kept := by
  calc ~~~mask &&& kept
      = (mask &&& kept) ||| (~~~mask &&& kept) := by rw [h, UInt32.zero_or]
    _ = (mask ||| ~~~mask) &&& kept := (or_and mask (~~~mask) kept).symm
    _ = kept := by rw [UInt32.or_not_self, UInt32.neg_one_and]

/-- Setting bits leaves those outside the mask alone. -/
theorem set_and {mask kept : UInt32} (word : UInt32) (h : mask &&& kept = 0) :
    (word ||| mask) &&& kept = word &&& kept := by
  rw [or_and, h, UInt32.or_zero]

/-- Clearing bits leaves those outside the mask alone. -/
theorem clear_and {mask kept : UInt32} (word : UInt32) (h : mask &&& kept = 0) :
    (word &&& ~~~mask) &&& kept = word &&& kept := by
  rw [UInt32.and_assoc, not_and_of_disjoint h]

namespace Status

/-- Replacing the bits under a mask leaves those outside it alone. -/
theorem replace_and (status : Status) {mask kept : UInt32} (value : UInt32)
    (h : mask &&& kept = 0) : (status.replace mask value).word &&& kept = status.word &&& kept := by
  show ((status.word &&& ~~~mask) ||| (value &&& mask)) &&& kept = status.word &&& kept
  rw [or_and, clear_and status.word h, UInt32.and_assoc, h, UInt32.and_zero, UInt32.or_zero]

/-- Replacing one bit leaves the others alone. -/
theorem set_word_and (status : Status) {bit : StatusBit} {kept : UInt32} (value : Bool)
    (h : bit.mask &&& kept = 0) : (status.set bit value).word &&& kept = status.word &&& kept := by
  cases value with
  | true => exact set_and status.word h
  | false => exact clear_and status.word h

/-- A bit is read off the word under its mask. -/
theorem get_congr {status other : Status} {bit : StatusBit}
    (h : status.word &&& bit.mask = other.word &&& bit.mask) : status.get bit = other.get bit := by
  rw [get, get, h]

/-- A bit that has been set is set. -/
theorem get_set_self (status : Status) (bit : StatusBit) (value : Bool) :
    (status.set bit value).get bit = value := by
  have hmask : bit.mask ≠ 0 := by cases bit <;> decide
  cases value with
  | true =>
      have hset : (status.word ||| bit.mask) &&& bit.mask = bit.mask := by
        apply UInt32.toBitVec_inj.mp
        ext i hi
        rw [UInt32.toBitVec_and, UInt32.toBitVec_or, BitVec.getElem_and, BitVec.getElem_or]
        cases bit.mask.toBitVec[i] with
        | true => rw [Bool.or_true, Bool.and_true]
        | false => rw [Bool.and_false]
      show ((status.word ||| bit.mask) &&& bit.mask != 0) = true
      rw [hset]
      exact bne_iff_ne.mpr hmask
  | false =>
      show ((status.word &&& ~~~bit.mask) &&& bit.mask != 0) = false
      rw [UInt32.and_assoc, UInt32.not_and_self, UInt32.and_zero]
      rfl

/-- A bit that is set leaves the others alone. -/
@[simp] theorem get_set (status : Status) (bit other : StatusBit) (value : Bool) :
    (status.set bit value).get other = if bit = other then value else status.get other := by
  by_cases hsame : bit = other
  · rw [if_pos hsame, hsame, get_set_self]
  · have hdisjoint : bit.mask &&& other.mask = 0 := by
      revert hsame
      cases bit <;> cases other <;> decide
    rw [if_neg hsame]
    exact get_congr (set_word_and status value hdisjoint)

/-! ## All but the flags -/

/-- All but the condition flags: the interrupt masks, the state bit, the mode. -/
def control (status : Status) : UInt32 :=
  status.word &&& ~~~flagsMask

/-- Setting a flag leaves all but the flags alone. -/
theorem control_set (status : Status) {bit : StatusBit} (value : Bool)
    (h : bit.mask &&& ~~~flagsMask = 0) : (status.set bit value).control = status.control :=
  set_word_and status value h

/-- So does setting the two flags that describe a value. -/
theorem control_set_set (status : Status) (negative zero : Bool) :
    ((status.set .negative negative).set .zero zero).control = status.control := by
  rw [control_set _ _ (by decide), control_set _ _ (by decide)]

/-- Describing a value leaves all but the flags alone. -/
theorem control_describe (status : Status) (value : UInt32) :
    (status.describe value).control = status.control :=
  status.control_set_set _ _

/-- Setting the flags of an outcome leaves all else alone. -/
theorem control_record (status : Status) (outcome : Outcome) :
    (status.record outcome).control = status.control := by
  rw [record, control_set _ _ (by decide), control_set _ _ (by decide), control_describe]

/-- What is read under a mask without flags depends on the rest alone. -/
theorem and_of_control {status other : Status} {kept : UInt32} (h : status.control = other.control)
    (hkept : ~~~flagsMask &&& kept = kept) : status.word &&& kept = other.word &&& kept := by
  rw [← hkept, ← UInt32.and_assoc, ← UInt32.and_assoc]
  exact congrArg (· &&& kept) h

/-- The mode does not depend on the flags. -/
theorem mode?_of_control {status other : Status} (h : status.control = other.control) :
    status.mode? = other.mode? := by
  rw [mode?, mode?, and_of_control h (by decide)]

/-- The bank does not depend on the flags. -/
theorem bank_of_control {status other : Status} (h : status.control = other.control) :
    status.bank = other.bank := by
  rw [bank, bank, mode?_of_control h]

/-- In User mode the shared bank is in use. -/
theorem bank_of_user {status : Status} (h : status.mode? = some .user) : status.bank = .user := by
  rw [bank, h]
  rfl

end Status

/-! ## What an instruction cannot replace -/

namespace Processor

/-- The state bit is not among the bits that an instruction may replace. -/
theorem replaceable_thumb (processor : Processor) (mask : UInt32) :
    processor.replaceable mask &&& StatusBit.thumb.mask = 0 := by
  rw [replaceable, UInt32.and_assoc, UInt32.not_and_self, UInt32.and_zero]

/-- In User mode an instruction may replace flags alone. -/
theorem replaceable_user {processor : Processor} (h : processor.status.mode? = some .user)
    (mask : UInt32) : processor.replaceable mask &&& ~~~Status.flagsMask = 0 := by
  rw [replaceable, if_pos h, UInt32.and_assoc, UInt32.and_assoc,
    show Status.flagsMask &&& (~~~StatusBit.thumb.mask &&& ~~~Status.flagsMask) = 0 by decide,
    UInt32.and_zero]

end Processor

/-! ## What a handler starts with -/

namespace Exception

/-- What is read of the handler's status under a mask of its mode, its state and
    the mask of interrupts is the handler's own. -/
theorem handlerStatus_and (exception : Exception) (status : Status) {kept : UInt32}
    (hreplaced : ~~~(Status.modeMask ||| StatusBit.thumb.mask) &&& kept = 0)
    (hother : StatusBit.fiqMask.mask &&& kept = 0) :
    (exception.handlerStatus status).word &&& kept
      = (exception.mode.field ||| StatusBit.irqMask.mask) &&& kept := by
  have hentered :
      ((status.word &&& ~~~(Status.modeMask ||| StatusBit.thumb.mask)) ||| exception.mode.field
          ||| StatusBit.irqMask.mask) &&& kept
        = (exception.mode.field ||| StatusBit.irqMask.mask) &&& kept := by
    rw [UInt32.or_assoc, or_and, UInt32.and_assoc, hreplaced, UInt32.and_zero, UInt32.zero_or]
  cases exception with
  | supervisorCall => exact hentered
  | irq => exact hentered
  | fiq => exact (Status.set_word_and _ true hother).trans hentered

/-- A handler runs in the mode of its exception. -/
theorem mode?_handlerStatus (exception : Exception) (status : Status) :
    (exception.handlerStatus status).mode? = some exception.mode := by
  rw [Status.mode?, handlerStatus_and exception status (by decide) (by decide)]
  cases exception <;> decide

/-- A handler uses the bank of its mode. -/
theorem bank_handlerStatus (exception : Exception) (status : Status) :
    (exception.handlerStatus status).bank = exception.mode.bank := by
  rw [Status.bank, mode?_handlerStatus]

/-- A handler starts with the state bit clear. -/
theorem thumb_handlerStatus (exception : Exception) (status : Status) :
    (exception.handlerStatus status).get .thumb = false := by
  rw [Status.get, handlerStatus_and exception status (by decide) (by decide)]
  cases exception <;> decide

/-- No exception is handled in the shared bank. -/
theorem bank_ne_user (exception : Exception) : exception.mode.bank ≠ .user := by
  cases exception <;> decide

/-- The bank of an exception belongs to its mode alone. -/
theorem mode?_of_bank {exception : Exception} {status : Status}
    (h : status.bank = exception.mode.bank) : status.mode? = some exception.mode := by
  rw [Status.bank] at h
  cases hmode : status.mode? with
  | none =>
      rw [hmode] at h
      exact absurd h.symm exception.bank_ne_user
  | some mode =>
      rw [hmode] at h
      cases exception <;> cases mode <;> first | rfl | cases h

end Exception

end Microprocessor.Arm
