import Microprocessor.Proofs.Encoding.Reader
import Microprocessor.X86.Instruction

/-! # Decoding takes what an instruction consists of, and no more

    Every reader of the decoder is sequential: the templates and the extension
    opcodes take at most five bytes after the opcode, and with up to four
    modifiers an instruction takes from one to ten.  An unassigned slot takes
    its operands too. -/

namespace Microprocessor.X86

open ByteReader

/-! ## Operands -/

theorem ModRM.read_sequential : Sequential 1 1 ModRM.read :=
  sequential_nextByte.compute _

theorem ModRM.readAddress_sequential (modrm : ModRM) : Sequential 0 2 modrm.readAddress := by
  rw [ModRM.readAddress]
  split
  · split
    · exact (sequential_nextWord.compute _).mono (by decide) (by decide)
    · exact .done _
  · split
    · exact (sequential_nextByte.compute _).mono (by decide) (by decide)
    · exact (sequential_nextWord.compute _).mono (by decide) (by decide)

theorem ModRM.readOperand_sequential (modrm : ModRM) (width : Width) :
    Sequential 0 2 (modrm.readOperand width) := by
  rw [ModRM.readOperand]
  split
  · exact .done _
  · exact modrm.readAddress_sequential.compute _

theorem readImmediate_sequential (width : Width) : Sequential 1 2 (readImmediate width) := by
  cases width with
  | byte => exact (sequential_nextByte.compute _).mono (by decide) (by decide)
  | word => exact sequential_nextWord.mono (by decide) (by decide)

/-- A ModRM byte and the operand it names, followed by at most two bytes. -/
theorem sequential_rm {α : Type} {width : Width} {rest : ModRM → Operand → ByteReader α}
    (h : ∀ modrm rm, Sequential 0 2 (rest modrm rm)) :
    Sequential 0 5 (ModRM.read >>= fun modrm => modrm.readOperand width >>= rest modrm) := by
  have hread : Sequential (1 + (0 + 0)) (1 + (2 + 2))
      (ModRM.read >>= fun modrm => modrm.readOperand width >>= rest modrm) :=
    ModRM.read_sequential.bind fun modrm =>
      (modrm.readOperand_sequential width).bind fun rm => h modrm rm
  exact hread.mono (Nat.zero_le _) (Nat.le_refl _)

/-- A ModRM byte and the memory operand it names, if it does. -/
theorem sequential_address {α : Type} {register : ModRM → α}
    {memory : ModRM → EffectiveAddress → α} :
    Sequential 0 5 (ModRM.read >>= fun modrm =>
      if modrm.isRegister then pure (register modrm)
      else modrm.readAddress >>= fun address => pure (memory modrm address)) := by
  have hread : ∀ modrm : ModRM, Sequential 0 2
      (if modrm.isRegister then pure (register modrm)
        else modrm.readAddress >>= fun address => pure (memory modrm address)) := by
    intro modrm
    split
    · exact .done _
    · exact modrm.readAddress_sequential.compute _
  exact (ModRM.read_sequential.bind hread).mono (by decide) (by decide)

/-- A byte and nothing more. -/
theorem sequential_byte {α : Type} (f : UInt8 → α) :
    Sequential 0 5 (nextByte >>= fun byte => pure (f byte)) :=
  (sequential_nextByte.compute f).mono (by decide) (by decide)

/-- A word and nothing more. -/
theorem sequential_word {α : Type} (f : UInt16 → α) :
    Sequential 0 5 (nextWord >>= fun word => pure (f word)) :=
  (sequential_nextWord.compute f).mono (by decide) (by decide)

/-- An immediate value and nothing more. -/
theorem sequential_immediate {α : Type} (width : Width) (f : UInt16 → α) :
    Sequential 0 5 (readImmediate width >>= fun value => pure (f value)) :=
  ((readImmediate_sequential width).compute f).mono (by decide) (by decide)

/-- An offset and a segment. -/
theorem sequential_far {α : Type} (f : UInt16 → UInt16 → α) :
    Sequential 0 5 (nextWord >>= fun offset => nextWord >>= fun segment =>
      pure (f offset segment)) :=
  (sequential_nextWord.bind fun offset => sequential_nextWord.compute (f offset)).mono
    (by decide) (by decide)

/-! ## Templates -/

namespace Template

theorem arithRm_sequential (opcode : UInt8) : Sequential 0 5 (arithRm.parse opcode) :=
  sequential_rm fun _ _ => .done _

theorem arithAccumulator_sequential (opcode : UInt8) :
    Sequential 0 5 (arithAccumulator.parse opcode) :=
  sequential_immediate _ _

theorem testXchgRm_sequential (opcode : UInt8) : Sequential 0 5 (testXchgRm.parse opcode) :=
  sequential_rm fun _ _ => .done _

theorem testAccumulator_sequential (opcode : UInt8) :
    Sequential 0 5 (testAccumulator.parse opcode) :=
  sequential_immediate _ _

theorem asciiAdjust_sequential (opcode : UInt8) : Sequential 0 5 (asciiAdjust.parse opcode) :=
  sequential_byte _

theorem movRm_sequential (opcode : UInt8) : Sequential 0 5 (movRm.parse opcode) :=
  sequential_rm fun _ _ => .done _

theorem movSegment_sequential (opcode : UInt8) : Sequential 0 5 (movSegment.parse opcode) :=
  sequential_rm fun modrm _ => by
    split
    · exact .done _
    · exact .done _

theorem lea_sequential (opcode : UInt8) : Sequential 0 5 (lea.parse opcode) :=
  sequential_address

theorem popRm_sequential (opcode : UInt8) : Sequential 0 5 (popRm.parse opcode) :=
  sequential_rm fun _ _ => .done _

theorem movAccumulatorMemory_sequential (opcode : UInt8) :
    Sequential 0 5 (movAccumulatorMemory.parse opcode) :=
  sequential_word _

theorem movRegisterImmediate_sequential (opcode : UInt8) :
    Sequential 0 5 (movRegisterImmediate.parse opcode) :=
  sequential_immediate _ _

theorem loadFarPointer_sequential (opcode : UInt8) :
    Sequential 0 5 (loadFarPointer.parse opcode) :=
  sequential_address

theorem movRmImmediate_sequential (opcode : UInt8) :
    Sequential 0 5 (movRmImmediate.parse opcode) :=
  sequential_rm fun _ _ =>
    ((readImmediate_sequential _).compute _).mono (by decide) (by decide)

theorem portTransfer_sequential (opcode : UInt8) :
    Sequential 0 5 (portTransfer.parse opcode) := by
  simp only [portTransfer]
  split
  · exact ((sequential_nextByte.map _).compute _).mono (by decide) (by decide)
  · exact .done _

theorem conditionalJump_sequential (opcode : UInt8) :
    Sequential 0 5 (conditionalJump.parse opcode) :=
  sequential_byte _

theorem callFar_sequential (opcode : UInt8) : Sequential 0 5 (callFar.parse opcode) :=
  sequential_far _

theorem ret_sequential (opcode : UInt8) : Sequential 0 5 (ret.parse opcode) := by
  simp only [ret]
  split
  · exact sequential_word _
  · exact .done _

theorem interrupt_sequential (opcode : UInt8) : Sequential 0 5 (interrupt.parse opcode) := by
  simp only [interrupt]
  split
  · exact .done _
  · exact sequential_byte _
  · exact .done _
  · exact .done _

theorem loop_sequential (opcode : UInt8) : Sequential 0 5 (loop.parse opcode) :=
  sequential_byte _

theorem callJump_sequential (opcode : UInt8) : Sequential 0 5 (callJump.parse opcode) := by
  simp only [callJump]
  split
  · exact sequential_word _
  · exact sequential_word _
  · exact sequential_far _
  · exact sequential_byte _

theorem escape_sequential (opcode : UInt8) : Sequential 0 5 (escape.parse opcode) :=
  sequential_rm fun _ _ => .done _

/-- Every template takes at most five bytes after the opcode. -/
theorem parse_sequential :
    ∀ template ∈ templates, ∀ opcode, Sequential 0 5 (template.parse opcode) := by
  -- The templates that are unfolded here take nothing after the opcode.
  simp only [templates, List.forall_mem_cons, List.not_mem_nil, false_implies, implies_true,
    and_true, arithRm_sequential, arithAccumulator_sequential, conditionalJump_sequential,
    testXchgRm_sequential, movRm_sequential, movSegment_sequential, lea_sequential,
    popRm_sequential, callFar_sequential, movAccumulatorMemory_sequential,
    testAccumulator_sequential, movRegisterImmediate_sequential, ret_sequential,
    loadFarPointer_sequential, movRmImmediate_sequential, interrupt_sequential,
    asciiAdjust_sequential, escape_sequential, loop_sequential, portTransfer_sequential,
    callJump_sequential, pushSegment, popSegment, decimalAdjust, incDecRegister,
    pushPopRegister, xchgAccumulator, convert, wait, flagsTransfer, string, translate, halt,
    flagOperation, Sequential.done]

end Template

/-! ## Extension opcodes -/

namespace Extension

theorem immediate_sequential (opcode : UInt8) : Sequential 0 5 (immediate opcode) :=
  sequential_rm fun modrm dst => by
    split
    · exact (sequential_nextByte.map signExtendByte).compute _ |>.mono (by decide) (by decide)
    · exact ((readImmediate_sequential _).compute _).mono (by decide) (by decide)

theorem shift_sequential (opcode : UInt8) : Sequential 0 5 (shift opcode) :=
  sequential_rm fun modrm target => by
    split
    · exact .done _
    · exact .done _

theorem unary_sequential (opcode : UInt8) : Sequential 0 5 (unary opcode) :=
  sequential_rm fun modrm target => by
    split
    case h_1 => exact ((readImmediate_sequential _).compute _).mono (by decide) (by decide)
    case h_2 => exact ((readImmediate_sequential _).compute _).mono (by decide) (by decide)
    all_goals exact .done _

theorem incDecByte_sequential : Sequential 0 5 incDecByte :=
  sequential_rm fun modrm target => by
    split
    all_goals exact .done _

theorem word_sequential : Sequential 0 5 word :=
  sequential_rm fun modrm target => by
    split
    all_goals exact .done _

/-- Every extension opcode takes at most five bytes after it. -/
theorem reader?_sequential {opcode : UInt8} {reader : ByteReader Operation}
    (h : reader? opcode = some reader) : Sequential 0 5 reader := by
  rw [reader?] at h
  split at h
  all_goals cases h
  all_goals first
    | exact immediate_sequential opcode
    | exact shift_sequential opcode
    | exact unary_sequential opcode
    | exact incDecByte_sequential
    | exact word_sequential

end Extension

/-! ## Instructions -/

/-- What follows an opcode takes at most five bytes. -/
theorem readOperation_sequential (opcode : UInt8) : Sequential 0 5 (readOperation opcode) := by
  rw [readOperation]
  split
  · rename_i template htemplate
    exact Template.parse_sequential template (List.mem_of_find?_eq_some htemplate) opcode
  · split
    · rename_i reader hreader
      exact Extension.reader?_sequential hreader
    · exact .done _

/-- Reading modifiers and then going on with the byte that is not one takes that
    byte first, whichever it is. -/
theorem readUpTo_bind {α : Type} (rest : Prefixes → UInt8 → ByteReader α) (room : Nat)
    (prefixes : Prefixes) :
    (Prefixes.readUpTo (room + 1) prefixes >>= fun prefixes => nextByte >>= rest prefixes)
      = nextByte >>= fun byte =>
          match Modifier.ofByte? byte with
          | some modifier =>
            Prefixes.readUpTo room (prefixes.add modifier) >>= fun prefixes =>
              nextByte >>= rest prefixes
          | none => rest prefixes byte := by
  rw [Prefixes.readUpTo, bind_assoc]
  -- A modifier is taken after it was looked at; any other byte is the opcode.
  refine peek_bind ?_
  intro byte source position hbyte
  cases Modifier.ofByte? byte with
  | some modifier =>
      simp only
      rw [bind_assoc, nextByte_bind_of_some hbyte]
  | none =>
      simp only
      rw [pure_bind, nextByte_bind_of_some hbyte]

/-- Reading up to `room` modifiers and then the byte after them. -/
theorem readUpTo_sequential {α : Type} {rest : Prefixes → UInt8 → ByteReader α} {most : Nat}
    (hrest : ∀ prefixes byte, Sequential 0 most (rest prefixes byte)) (room : Nat)
    (prefixes : Prefixes) :
    Sequential 1 (room + most + 1)
      (Prefixes.readUpTo room prefixes >>= fun prefixes => nextByte >>= rest prefixes) := by
  induction room generalizing prefixes with
  | zero =>
      rw [Prefixes.readUpTo, pure_bind]
      exact .next fun byte => (hrest prefixes byte).mono (Nat.le_refl _) (by omega)
  | succ room ih =>
      rw [readUpTo_bind]
      refine .next fun byte => ?_
      cases Modifier.ofByte? byte with
      | some modifier => exact (ih (prefixes.add modifier)).mono (Nat.zero_le _) (by omega)
      | none => exact (hrest prefixes byte).mono (Nat.le_refl _) (by omega)

/-- An encoding is from one to ten bytes long. -/
theorem readEncoding_sequential : Sequential 1 10 readEncoding :=
  readUpTo_sequential
    (fun _ opcode => (readOperation_sequential opcode).compute _) Prefixes.maximum .none

end Microprocessor.X86
