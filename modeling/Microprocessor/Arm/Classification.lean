import Microprocessor.Arm.Operation
import Microprocessor.Word.Pattern

/-! # Classification of A32 instruction words

    A word is classified level by level: each level takes some fields and
    compares them with bit patterns, and an earlier pattern goes before a
    later one.  Every word has a class, so classification cannot fail.

    The patterns are named for what they select and spelled out in their
    comments, most significant bit first. -/

namespace Microprocessor.Arm.Classification

/-! ## Patterns of the data-processing space

    The first field is bits 24 to 20, the second bits 7 to 4. -/

/-- `10xx0`: the space of miscellaneous instructions. -/
def miscellaneousSpace : BitPattern := ⟨0b11001, 0b10000⟩

/-- `xxx0`: the second operand is shifted by an immediate amount. -/
def immediateShift : BitPattern := ⟨0b0001, 0b0000⟩

/-- `0xx1`: the second operand is shifted by a register. -/
def registerShift : BitPattern := ⟨0b1001, 0b0001⟩

/-- `0xxx`: a miscellaneous instruction proper. -/
def miscellaneousProper : BitPattern := ⟨0b1000, 0b0000⟩

/-- `1xx0`: a halfword multiply. -/
def halfwordMultiply : BitPattern := ⟨0b1001, 0b1000⟩

/-- `1001`: multiplies and synchronisation. -/
def multiplySpace : BitPattern := ⟨0b1111, 0b1001⟩

/-- `0xxxx`: multiplies and not synchronisation. -/
def multiplyProper : BitPattern := ⟨0b10000, 0b00000⟩

/-- `1011`: halfword transfers. -/
def halfwordSpace : BitPattern := ⟨0b1111, 0b1011⟩

/-- `11x1`: signed and doubleword transfers. -/
def signedSpace : BitPattern := ⟨0b1101, 0b1101⟩

/-- `0xx1x`: transfers with the rights of User mode. -/
def unprivileged : BitPattern := ⟨0b10010, 0b00010⟩

/-- `10000`: a 16-bit immediate into the low half. -/
def moveLow : BitPattern := ⟨0b11111, 0b10000⟩

/-- `10100`: a 16-bit immediate into the top half. -/
def moveTop : BitPattern := ⟨0b11111, 0b10100⟩

/-- `10x10`: an immediate into a status register. -/
def immediateToStatus : BitPattern := ⟨0b11011, 0b10010⟩

/-! ## Patterns of the other spaces -/

/-- `000x` in bits 23 to 20: a multiply. -/
def multiplyPlain : BitPattern := ⟨0b1110, 0b0000⟩

/-- `001x` in bits 23 to 20: a multiply that accumulates. -/
def multiplyAccumulate : BitPattern := ⟨0b1110, 0b0010⟩

/-- `1xxx` in bits 23 to 20: a multiply with a 64-bit result. -/
def multiplyWide : BitPattern := ⟨0b1000, 0b1000⟩

/-- `0x00` in bits 23 to 20: a swap. -/
def swapPlain : BitPattern := ⟨0b1011, 0b0000⟩

/-- `0xxxxx` in bits 25 to 20: a block transfer. -/
def blockSpace : BitPattern := ⟨0b100000, 0b000000⟩

/-- `10xxxx` in bits 25 to 20: a branch without link. -/
def branchPlain : BitPattern := ⟨0b110000, 0b100000⟩

/-- `00000x` in bits 25 to 20: not assigned among the coprocessor words. -/
def coprocessorUnassigned : BitPattern := ⟨0b111110, 0b000000⟩

/-- `11xxxx` in bits 25 to 20: a supervisor call. -/
def supervisorSpace : BitPattern := ⟨0b110000, 0b110000⟩

/-- `101xxxxx` in bits 27 to 20: a branch that changes the instruction set. -/
def exchangingBranch : BitPattern := ⟨0b11100000, 0b10100000⟩

/-- `11111` in bits 24 to 20: the first half of the permanently undefined
    encoding. -/
def permanentlyUndefinedHigh : BitPattern := ⟨0b11111, 0b11111⟩

/-- `111` in bits 7 to 5: its second half. -/
def permanentlyUndefinedLow : BitPattern := ⟨0b111, 0b111⟩

/-! ## Second operands -/

/-- A rotated byte. -/
def rotatedImmediate (word : UInt32) : ShifterOperand :=
  .immediate (field word 7 0).toUInt8 (field word 11 8).toUInt8

/-- A register shifted by an immediate amount. -/
def shiftedRegister (word : UInt32) : ShifterOperand :=
  .register (.ofField word 0) (.ofField (field word 6 5)) (.immediate (field word 11 7).toUInt8)

/-- A register shifted by another register. -/
def registerShiftedRegister (word : UInt32) : ShifterOperand :=
  .register (.ofField word 0) (.ofField (field word 6 5)) (.register (.ofField word 8))

/-! ## Levels -/

/-- Data processing with a given second operand. -/
def dataProcessing (word : UInt32) (operand : ShifterOperand) : Operation :=
  .dataProcessing (.ofField (field word 24 21)) (bit word 20) (.ofField word 16)
    (.ofField word 12) operand

/-- Status transfers, exchanges, leading zeros and breakpoints. -/
def miscellaneous (word : UInt32) : Operation :=
  match (field word 6 4).toNat, (field word 22 21).toNat with
  | 0b000, 0b00 | 0b000, 0b10 => .statusToRegister (bit word 22) (.ofField word 12)
  | 0b000, _ =>
    .registerToStatus (bit word 22) (field word 19 16).toUInt8
      (.register (.ofField word 0) .lsl (.immediate 0))
  | 0b001, 0b01 => .branchExchange false (.ofField word 0)
  | 0b001, 0b11 => .countLeadingZeros (.ofField word 12) (.ofField word 0)
  | 0b011, 0b01 => .branchExchange true (.ofField word 0)
  | 0b111, 0b01 => .breakpoint ((field word 19 8 <<< 4) ||| field word 3 0).toUInt16
  | _, _ => .undefined word

/-- The multiplies.  Those that subtract or add twice are not assigned. -/
def multiply (word : UInt32) : Operation :=
  let op := field word 23 20
  if multiplyPlain.accepts op || multiplyAccumulate.accepts op then
    .multiply (multiplyAccumulate.accepts op) (bit word 20) (.ofField word 16) (.ofField word 12)
      (.ofField word 8) (.ofField word 0)
  else if multiplyWide.accepts op then
    .multiplyLong (bit word 22) (bit word 21) (bit word 20) (.ofField word 16) (.ofField word 12)
      (.ofField word 8) (.ofField word 0)
  else .undefined word

/-- Swaps; exclusive transfers are not assigned. -/
def synchronisation (word : UInt32) : Operation :=
  if swapPlain.accepts (field word 23 20) then
    .swap (bit word 22) (.ofField word 16) (.ofField word 12) (.ofField word 0)
  else .undefined word

/-- Whether a halfword transfer loads, and what it moves. -/
def halfwordKind (word : UInt32) : Bool × HalfwordKind :=
  let load := bit word 20
  match (field word 6 5).toNat with
  | 0b01 => (load, .unsignedHalf)
  | 0b10 => (true, if load then .signedByte else .double)
  | 0b11 => if load then (true, .signedHalf) else (false, .double)
  | _ => (false, .double)

/-- Halfword, signed and doubleword transfers. -/
def halfwordTransfer (word : UInt32) : Operation :=
  let (load, kind) := halfwordKind word
  let offset : HalfwordOffset :=
    if bit word 22 then .immediate ((field word 11 8 <<< 4) ||| field word 3 0).toUInt8
    else .register (.ofField word 0)
  .halfwordTransfer load kind (.ofWord word) (.ofField word 16) (.ofField word 12) offset

/-- Multiplies, synchronisation and halfword transfers. -/
def multiplyOrTransfer (word : UInt32) : Operation :=
  let op1 := field word 24 20
  let op2 := field word 7 4
  if multiplySpace.accepts op2 then
    if multiplyProper.accepts op1 then multiply word else synchronisation word
  else if halfwordSpace.accepts op2 || signedSpace.accepts op2 then
    if unprivileged.accepts op1 then .undefined word else halfwordTransfer word
  else .undefined word

/-- Data processing and miscellaneous instructions with an immediate. -/
def immediateSpace (word : UInt32) : Operation :=
  let op1 := field word 24 20
  if moveLow.accepts op1 || moveTop.accepts op1 then
    .moveWide (moveTop.accepts op1) (.ofField word 12)
      ((field word 19 16 <<< 12) ||| field word 11 0).toUInt16
  else if immediateToStatus.accepts op1 then
    .registerToStatus (bit word 22) (field word 19 16).toUInt8 (rotatedImmediate word)
  else dataProcessing word (rotatedImmediate word)

/-- Data processing and miscellaneous instructions with a register. -/
def registerSpace (word : UInt32) : Operation :=
  let op2 := field word 7 4
  if miscellaneousSpace.accepts (field word 24 20) then
    if miscellaneousProper.accepts op2 then miscellaneous word
    else if halfwordMultiply.accepts op2 then .undefined word
    else multiplyOrTransfer word
  else if immediateShift.accepts op2 then dataProcessing word (shiftedRegister word)
  else if registerShift.accepts op2 then dataProcessing word (registerShiftedRegister word)
  else multiplyOrTransfer word

/-- Loads and stores of words and bytes. -/
def singleTransfer (word : UInt32) : Operation :=
  let offset : TransferOffset :=
    if bit word 25 then
      .register (.ofField word 0) (.ofField (field word 6 5)) (field word 11 7).toUInt8
    else .immediate (field word 11 0).toUInt16
  .singleTransfer (bit word 20) (bit word 22) (.ofWord word) (.ofField word 16) (.ofField word 12)
    offset

/-- Media instructions, and the encoding that stays undefined. -/
def media (word : UInt32) : Operation :=
  if permanentlyUndefinedHigh.accepts (field word 24 20)
      && permanentlyUndefinedLow.accepts (field word 7 5) then
    .undefined word
  else .media word

/-- The signed offset of a branch, in bytes. -/
def branchOffset (word : UInt32) : Int32 :=
  Int32.ofInt (4 * signExtend (field word 23 0) 24)

/-- Branches and block transfers. -/
def branchOrBlock (word : UInt32) : Operation :=
  let op := field word 25 20
  if blockSpace.accepts op then
    .blockTransfer (bit word 20) (.ofWord word) (bit word 22) (.ofField word 16)
      (field word 15 0).toUInt16
  else .branch (!branchPlain.accepts op) (branchOffset word)

/-- Coprocessor instructions and supervisor calls. -/
def coprocessorOrSupervisor (word : UInt32) : Operation :=
  let op := field word 25 20
  if coprocessorUnassigned.accepts op then .undefined word
  else if supervisorSpace.accepts op then .supervisorCall (field word 23 0)
  else .coprocessor word

/-- The space without conditions.  Bit 24 of the exchanging branch adds half a
    word to its offset. -/
def unconditional (word : UInt32) : Operation :=
  if exchangingBranch.accepts (field word 27 20) then
    .branchLinkExchange (branchOffset word ||| (if bit word 24 then 2 else 0))
  else .unconditional word

/-- The classes of the conditional space, by bits 27 to 25 and bit 4. -/
def conditional (word : UInt32) : Operation :=
  match (field word 27 25).toNat with
  | 0b000 => registerSpace word
  | 0b001 => immediateSpace word
  | 0b010 => singleTransfer word
  | 0b011 => if bit word 4 then media word else singleTransfer word
  | 0b100 | 0b101 => branchOrBlock word
  | _ => coprocessorOrSupervisor word

/-- The condition and the operation of a word. -/
def classify (word : UInt32) : Condition × Operation :=
  match Condition.ofField (field word 31 28) with
  | .unconditional => (.unconditional, unconditional word)
  | condition => (condition, conditional word)

end Microprocessor.Arm.Classification
