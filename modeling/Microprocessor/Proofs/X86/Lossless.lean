import Microprocessor.Proofs.X86.SelfDelimiting
import Microprocessor.Proofs.X86.Spelling

/-! # Decoding loses nothing

    The bytes of an encoding from the opcode on can be told from the opcode and the
    operation, if it is recognised: they spell it.  Only a test of `r/m` with an
    immediate has two spellings.

      * `Template.parse_spells` and `Extension.reader?_spells` say so of what
        follows an opcode, family by family;
      * `readEncoding_takes` puts the modifiers before it;
      * `decode_lossless` compares two encodings. -/

namespace Microprocessor.X86

open ByteReader

/-! ## Templates -/

namespace Template

variable {opcode : UInt8}

/-- Which templates do not recognise an opcode, if another does.  The near and far calls
    and jumps are four. -/
theorem recognises_apart (opcode : UInt8) :
    (arithAccumulator.recognises opcode = true → ¬arithRm.recognises opcode = true)
      ∧ (testXchgRm.recognises opcode = true → ¬xchgAccumulator.recognises opcode = true)
      ∧ (testAccumulator.recognises opcode = true → ¬testXchgRm.recognises opcode = true)
      ∧ (movAccumulatorMemory.recognises opcode = true →
        ¬(movRm.recognises opcode || movSegment.recognises opcode) = true)
      ∧ (movRegisterImmediate.recognises opcode = true →
        ¬(movRm.recognises opcode || movSegment.recognises opcode) = true
          ∧ ¬movAccumulatorMemory.recognises opcode = true)
      ∧ (movRmImmediate.recognises opcode = true →
        ¬(movRm.recognises opcode || movSegment.recognises opcode) = true
          ∧ ¬movAccumulatorMemory.recognises opcode = true
          ∧ ¬movRegisterImmediate.recognises opcode = true)
      ∧ (callJump.recognises opcode = true →
        opcode = 0xE8 ∨ opcode = 0xE9 ∨ opcode = 0xEA ∨ opcode = 0xEB) := by
  revert opcode
  decide +kernel

theorem arithRm_spells (h : arithRm.recognises opcode = true) :
    Takes (Spells opcode) (arithRm.parse opcode) := by
  refine takes_rm ?_
  intro modrm rm hreg
  have hspelling := directedSpelling_directed opcode rm (modrm.regOperand (.ofOpcode opcode))
  rw [ModRM.number_regOperand hreg] at hspelling
  refine takes_pure (.of_eq ?_)
  rw [List.append_nil, ← hspelling]
  exact (if_pos h).symm

theorem arithAccumulator_spells (h : arithAccumulator.recognises opcode = true) :
    Takes (Spells opcode) (arithAccumulator.parse opcode) := by
  have hother := (recognises_apart opcode).1 h
  refine (readImmediate_takes _).compute ?_
  rintro value _ rfl
  refine .of_eq ?_
  show _ = if arithRm.recognises opcode then _
    else if arithAccumulator.recognises opcode then _ else _
  rw [if_neg hother, if_pos h]

theorem incDecRegister_spells (h : incDecRegister.recognises opcode = true) :
    Takes (Spells opcode) (incDecRegister.parse opcode) :=
  takes_pure (.of_eq (if_pos h).symm)

theorem testXchgRm_spells (h : testXchgRm.recognises opcode = true) :
    Takes (Spells opcode) (testXchgRm.parse opcode) := by
  have hother := (recognises_apart opcode).2.1 h
  refine takes_rm ?_
  intro modrm rm hreg
  refine takes_pure ?_
  rw [List.append_nil]
  split
  · refine .of_eq ?_
    show _ = if testXchgRm.recognises opcode then _ else _
    rw [if_pos h, ModRM.number_regOperand hreg]
  · refine .of_eq ?_
    show _ = if xchgAccumulator.recognises opcode then _ else _
    rw [if_neg hother, ModRM.number_regOperand hreg]

theorem testAccumulator_spells (h : testAccumulator.recognises opcode = true) :
    Takes (Spells opcode) (testAccumulator.parse opcode) := by
  have hother := (recognises_apart opcode).2.2.1 h
  refine (readImmediate_takes _).compute ?_
  rintro value _ rfl
  refine .of_eq ?_
  show _ = if testXchgRm.recognises opcode then _
    else if testAccumulator.recognises opcode then _ else _
  rw [if_neg hother, if_pos h]

theorem asciiAdjust_spells : Takes (Spells opcode) (asciiAdjust.parse opcode) := by
  refine takes_nextByte.compute ?_
  rintro base _ rfl
  split
  · exact .plain _
  · exact .plain _

theorem convert_spells : Takes (Spells opcode) (convert.parse opcode) := by
  refine takes_pure ?_
  split
  · exact .plain _
  · exact .plain _

theorem pushSegment_spells (h : pushSegment.recognises opcode = true) :
    Takes (Spells opcode) (pushSegment.parse opcode) := by
  have hother : opcode ≠ 0xFF := by
    rintro rfl
    cases h
  exact takes_pure (.of_eq (if_neg hother).symm)

theorem popSegment_spells (h : popSegment.recognises opcode = true) :
    Takes (Spells opcode) (popSegment.parse opcode) := by
  have hother : opcode ≠ 0x8F := by
    rintro rfl
    cases h
  exact takes_pure (.of_eq (if_neg hother).symm)

theorem pushPopRegister_spells (h : pushPopRegister.recognises opcode = true) :
    Takes (Spells opcode) (pushPopRegister.parse opcode) := by
  have hpush : opcode ≠ 0xFF := by
    rintro rfl
    cases h
  have hpop : opcode ≠ 0x8F := by
    rintro rfl
    cases h
  refine takes_pure ?_
  split
  · exact .of_eq (if_neg hpush).symm
  · exact .of_eq (if_neg hpop).symm

theorem movRm_spells (h : movRm.recognises opcode = true) :
    Takes (Spells opcode) (movRm.parse opcode) := by
  refine takes_rm ?_
  intro modrm rm hreg
  have hspelling := directedSpelling_directed opcode rm (modrm.regOperand (.ofOpcode opcode))
  rw [ModRM.number_regOperand hreg] at hspelling
  refine takes_pure (.of_eq ?_)
  rw [List.append_nil, ← hspelling]
  exact (if_pos (Bool.or_eq_true_iff.mpr (.inl h))).symm

theorem movSegment_spells (h : movSegment.recognises opcode = true) :
    Takes (Spells opcode) (movSegment.parse opcode) := by
  refine takes_rm ?_
  intro modrm rm _
  split
  · exact takes_pure (.unknown _)
  · rename_i hnumber
    have hspelling := directedSpelling_directed opcode rm (.segment (.ofIndex modrm.reg))
    have hreg : (Operand.segment (.ofIndex modrm.reg)).number = modrm.reg :=
      SegmentRegister.ofNat_index_ofIndex hnumber
    rw [hreg] at hspelling
    refine takes_pure (.of_eq ?_)
    rw [List.append_nil, ← hspelling]
    exact (if_pos (Bool.or_eq_true_iff.mpr (.inr h))).symm

theorem lea_spells : Takes (Spells opcode) (lea.parse opcode) := by
  refine takes_address (fun _ _ => .unknown _) ?_
  intro modrm address hreg
  refine .of_eq ?_
  show _ = address.spelling (.ofNat (WordRegister.ofIndex modrm.reg).index)
  rw [WordRegister.ofNat_index_ofIndex, hreg]

theorem loadFarPointer_spells : Takes (Spells opcode) (loadFarPointer.parse opcode) := by
  refine takes_address (fun _ _ => .unknown _) ?_
  intro modrm address hreg
  refine .of_eq ?_
  show _ = address.spelling (.ofNat (WordRegister.ofIndex modrm.reg).index)
  rw [WordRegister.ofNat_index_ofIndex, hreg]

theorem popRm_spells (h : popRm.recognises opcode = true) :
    Takes (Spells opcode) (popRm.parse opcode) := by
  refine takes_rm ?_
  intro modrm target _
  refine takes_pure ?_
  rw [List.append_nil]
  split
  · rename_i hreg
    refine .of_eq ?_
    show _ = if opcode = 0x8F then target.spelling 0 else []
    rw [if_pos (eq_of_beq h), hreg]
  · exact .unknown _

theorem xchgAccumulator_spells (h : xchgAccumulator.recognises opcode = true) :
    Takes (Spells opcode) (xchgAccumulator.parse opcode) :=
  takes_pure (.of_eq (if_pos h).symm)

theorem flagsTransfer_spells : Takes (Spells opcode) (flagsTransfer.parse opcode) := by
  refine takes_pure ?_
  split
  all_goals exact .plain _

theorem movAccumulatorMemory_spells (h : movAccumulatorMemory.recognises opcode = true) :
    Takes (Spells opcode) (movAccumulatorMemory.parse opcode) := by
  have hother := (recognises_apart opcode).2.2.2.1 h
  refine takes_nextWord.compute ?_
  rintro offset _ rfl
  split
  · rename_i hdirection
    refine .of_eq ?_
    show _ = if movRm.recognises opcode || movSegment.recognises opcode then _
      else if movAccumulatorMemory.recognises opcode then
        (if opcode &&& 0b10 = 0 then _ else _ : Operand).offsetSpelling else _
    rw [if_neg hother, if_pos h, if_pos hdirection]
    rfl
  · rename_i hdirection
    refine .of_eq ?_
    show _ = if movRm.recognises opcode || movSegment.recognises opcode then _
      else if movAccumulatorMemory.recognises opcode then
        (if opcode &&& 0b10 = 0 then _ else _ : Operand).offsetSpelling else _
    rw [if_neg hother, if_pos h, if_neg hdirection]
    rfl

theorem movRegisterImmediate_spells (h : movRegisterImmediate.recognises opcode = true) :
    Takes (Spells opcode) (movRegisterImmediate.parse opcode) := by
  obtain ⟨hother, hmemory⟩ := (recognises_apart opcode).2.2.2.2.1 h
  refine (readImmediate_takes _).compute ?_
  rintro value _ rfl
  refine .of_eq ?_
  show _ = if movRm.recognises opcode || movSegment.recognises opcode then _
    else if movAccumulatorMemory.recognises opcode then _
    else if movRegisterImmediate.recognises opcode then _ else _
  rw [if_neg hother, if_neg hmemory, if_pos h]

theorem movRmImmediate_spells (h : movRmImmediate.recognises opcode = true) :
    Takes (Spells opcode) (movRmImmediate.parse opcode) := by
  obtain ⟨hother, hmemory, hregister⟩ := (recognises_apart opcode).2.2.2.2.2.1 h
  refine takes_rm ?_
  intro modrm target _
  refine (readImmediate_takes _).compute ?_
  rintro value _ rfl
  split
  · rename_i hreg
    refine .of_eq ?_
    show _ = if movRm.recognises opcode || movSegment.recognises opcode then _
      else if movAccumulatorMemory.recognises opcode then _
      else if movRegisterImmediate.recognises opcode then _ else _
    rw [if_neg hother, if_neg hmemory, if_neg hregister, hreg]
  · exact .unknown _

theorem portTransfer_spells : Takes (Spells opcode) (portTransfer.parse opcode) := by
  have htransfer : ∀ width port bytes, bytes = Port.spelling port →
      Spells opcode
        (if opcode &&& 0b10 = 0 then .input width port else .output width port) bytes := by
    rintro width port _ rfl
    split
    · exact .plain _
    · exact .plain _
  simp only [portTransfer]
  split
  · have hport : Takes (fun port bytes => bytes = Port.spelling port)
        (Port.immediate <$> nextByte) :=
      takes_nextByte.map fun _ _ hbytes => hbytes
    exact hport.compute (htransfer _)
  · exact takes_pure (htransfer _ _ _ rfl)

theorem conditionalJump_spells : Takes (Spells opcode) (conditionalJump.parse opcode) := by
  refine takes_nextByte.compute ?_
  rintro displacement _ rfl
  exact .plain _

theorem callFar_spells : Takes (Spells opcode) (callFar.parse opcode) := by
  refine takes_nextWord.bind ?_
  rintro offset _ rfl
  refine takes_nextWord.compute ?_
  rintro segment _ rfl
  exact .plain _

theorem ret_spells : Takes (Spells opcode) (ret.parse opcode) := by
  have hret : ∀ count bytes, bytes = (if opcode &&& 1 = 0 then bytesOfWord count else []) →
      Spells opcode (if opcode &&& 0x08 = 0 then .ret count else .retFar count) bytes := by
    intro count bytes hbytes
    split
    · exact .of_eq hbytes
    · exact .of_eq hbytes
  simp only [ret]
  split
  · rename_i hcount
    refine takes_nextWord.compute ?_
    intro count bytes hbytes
    exact hret count bytes (by rw [if_pos hcount, hbytes])
  · rename_i hcount
    exact takes_pure (hret 0 [] (if_neg hcount).symm)

theorem interrupt_spells : Takes (Spells opcode) (interrupt.parse opcode) := by
  simp only [interrupt]
  split
  · rename_i hopcode
    have hother : opcode ≠ 0xCD := by
      rintro rfl
      cases hopcode
    exact takes_pure (.of_eq (if_neg hother).symm)
  · rename_i hopcode
    refine takes_nextByte.compute ?_
    rintro vector _ rfl
    exact .of_eq (if_pos (UInt8.toNat_inj.mp hopcode)).symm
  · exact takes_pure (.plain _)
  · exact takes_pure (.plain _)

theorem loop_spells : Takes (Spells opcode) (loop.parse opcode) := by
  refine takes_nextByte.compute ?_
  rintro displacement _ rfl
  exact .plain _

theorem callJump_spells (h : callJump.recognises opcode = true) :
    Takes (Spells opcode) (callJump.parse opcode) := by
  simp only [callJump]
  split
  · refine takes_nextWord.compute ?_
    rintro displacement _ rfl
    exact .plain _
  · rename_i hopcode
    have hother : opcode ≠ 0xEB := by
      rintro rfl
      cases hopcode
    refine takes_nextWord.compute ?_
    rintro displacement _ rfl
    exact .of_eq (if_neg hother).symm
  · refine takes_nextWord.bind ?_
    rintro offset _ rfl
    refine takes_nextWord.compute ?_
    rintro segment _ rfl
    exact .plain _
  · rename_i hcall hjump hfar
    have hshort : opcode = 0xEB := by
      obtain rfl | rfl | rfl | hshort := (recognises_apart opcode).2.2.2.2.2.2 h
      · exact absurd rfl hcall
      · exact absurd rfl hjump
      · exact absurd rfl hfar
      · exact hshort
    refine takes_nextByte.compute ?_
    rintro displacement _ rfl
    refine .of_eq ?_
    show _ = if opcode = 0xEB then [lowByte (signExtendByte displacement)] else _
    rw [if_pos hshort, lowByte_signExtendByte]

theorem escape_spells : Takes (Spells opcode) (escape.parse opcode) := by
  refine takes_rm ?_
  intro modrm operand hreg
  have hnumber : ((opcode &&& 7) <<< 3 ||| modrm.reg) &&& 7 = modrm.reg := by
    have hhigh : (opcode &&& 7) <<< 3 &&& 7 = 0 := by
      have hlt : opcode.toNat % 8 < 8 := Nat.mod_lt _ (by decide)
      rw [and_seven opcode]
      generalize opcode.toNat % 8 = k at hlt
      revert k
      decide
    have hdistrib : ∀ a b c : UInt8, (a ||| b) &&& c = (a &&& c) ||| (b &&& c) :=
      fun _ _ _ => UInt8.toBitVec_inj.mp BitVec.and_or_distrib_right
    rw [hdistrib, hhigh, UInt8.zero_or, hreg]
  refine takes_pure (.of_eq ?_)
  show _ = operand.spelling (((opcode &&& 7) <<< 3 ||| modrm.reg) &&& 7)
  rw [List.append_nil, hnumber]

/-- What a template reads after an opcode that it recognises spells the
    operation. -/
theorem parse_spells :
    ∀ template ∈ templates, ∀ {opcode : UInt8}, template.recognises opcode = true →
      Takes (Spells opcode) (template.parse opcode) := by
  simp only [templates, List.forall_mem_cons, List.not_mem_nil, false_implies, implies_true,
    and_true]
  -- In the order of the table.
  exact ⟨arithRm_spells, arithAccumulator_spells, pushSegment_spells, popSegment_spells,
    fun _ => takes_pure (.plain _), incDecRegister_spells, pushPopRegister_spells,
    fun _ => conditionalJump_spells, testXchgRm_spells, movRm_spells, movSegment_spells,
    fun _ => lea_spells, popRm_spells, xchgAccumulator_spells, fun _ => convert_spells,
    fun _ => callFar_spells, fun _ => takes_pure (.plain _), fun _ => flagsTransfer_spells,
    movAccumulatorMemory_spells, fun _ => takes_pure (.plain _), testAccumulator_spells,
    movRegisterImmediate_spells, fun _ => ret_spells, fun _ => loadFarPointer_spells,
    movRmImmediate_spells, fun _ => interrupt_spells, fun _ => asciiAdjust_spells,
    fun _ => takes_pure (.plain _), fun _ => escape_spells, fun _ => loop_spells,
    fun _ => portTransfer_spells, callJump_spells, fun _ => takes_pure (.plain _),
    fun _ => takes_pure (.plain _)⟩

end Template

/-! ## Extension opcodes -/

namespace Extension

variable {opcode : UInt8}

theorem immediate_spells (h : opcode = 0x80 ∨ opcode = 0x81 ∨ opcode = 0x82 ∨ opcode = 0x83) :
    Takes (Spells opcode) (immediate opcode) := by
  have hother : ¬Template.arithRm.recognises opcode = true
      ∧ ¬Template.arithAccumulator.recognises opcode = true := by
    obtain rfl | rfl | rfl | rfl := h
    all_goals decide
  refine takes_rm ?_
  intro modrm dst hreg
  have hspells : ∀ value bytes,
      bytes = (Operand.immediate value).immediateSpelling
        (if opcode = 0x83 then .byte else .ofOpcode opcode) →
      Spells opcode (.arith (.ofIndex modrm.reg) (.ofOpcode opcode) dst (.immediate value))
        (dst.spelling modrm.reg ++ bytes) := by
    rintro value _ rfl
    refine .of_eq ?_
    show _ = if Template.arithRm.recognises opcode then _
      else if Template.arithAccumulator.recognises opcode then _
      else dst.spelling (ArithOp.ofIndex modrm.reg).number ++ _
    rw [if_neg hother.1, if_neg hother.2, ArithOp.number_ofIndex, hreg]
  split
  · rename_i hbyte
    have hvalue : Takes (fun value bytes => bytes = (Operand.immediate value).immediateSpelling .byte)
        (signExtendByte <$> nextByte) := by
      refine takes_nextByte.map ?_
      rintro byte _ rfl
      show [byte] = [lowByte (signExtendByte byte)]
      rw [lowByte_signExtendByte]
    refine hvalue.compute ?_
    intro value bytes hbytes
    exact hspells value bytes (by rw [if_pos hbyte, hbytes])
  · rename_i hbyte
    refine (readImmediate_takes _).compute ?_
    intro value bytes hbytes
    exact hspells value bytes (by rw [if_neg hbyte, hbytes])

/-- The shift's number is what selects it. -/
theorem number_of_shiftOp? {reg : UInt8} {op : ShiftOp} (hreg : reg &&& 7 = reg)
    (h : shiftOp? reg = some op) : op.number = reg := by
  have hlt := toNat_lt_of_and_seven hreg
  rw [shiftOp?] at h
  rw [← UInt8.ofNat_toNat (x := reg)]
  generalize reg.toNat = k at h hlt
  cases op <;> (revert h; revert k; decide)

theorem shift_spells : Takes (Spells opcode) (shift opcode) := by
  refine takes_rm ?_
  intro modrm target hreg
  split
  · rename_i op hop
    refine takes_pure (.of_eq ?_)
    show _ = target.spelling op.number
    rw [List.append_nil, number_of_shiftOp? hreg hop]
  · exact takes_pure (.unknown _)

/-- A slot, from its number. -/
theorem eq_ofNat {reg : UInt8} {n : Nat} (h : reg.toNat = n) : reg = .ofNat n := by
  rw [← h, UInt8.ofNat_toNat]

theorem unary_spells (h : opcode = 0xF6 ∨ opcode = 0xF7) :
    Takes (Spells opcode) (unary opcode) := by
  have hother : ¬Template.testXchgRm.recognises opcode = true
      ∧ ¬Template.testAccumulator.recognises opcode = true := by
    obtain rfl | rfl := h
    all_goals decide
  refine takes_rm ?_
  intro modrm target hreg
  split
  case h_1 hslot =>
    refine (readImmediate_takes _).compute ?_
    rintro value _ rfl
    refine .of_eq ?_
    show _ = if Template.testXchgRm.recognises opcode then _
      else if Template.testAccumulator.recognises opcode then _ else _
    rw [if_neg hother.1, if_neg hother.2, eq_ofNat hslot]
    rfl
  case h_2 hslot =>
    refine (readImmediate_takes _).compute ?_
    rintro value _ rfl
    rw [eq_ofNat hslot]
    exact .test _ target (.immediate value) h
  case h_8 h0 h1 h2 h3 h4 h5 h6 =>
    have hslot : modrm.reg.toNat = 7 := by
      have hlt := toNat_lt_of_and_seven hreg
      rw [imp_false] at h0 h1 h2 h3 h4 h5 h6
      omega
    refine takes_pure (.of_eq ?_)
    rw [List.append_nil, eq_ofNat hslot]
    rfl
  all_goals
    rename_i hslot
    refine takes_pure (.of_eq ?_)
    rw [List.append_nil, eq_ofNat hslot]
    rfl

theorem incDecByte_spells : Takes (Spells 0xFE) incDecByte := by
  refine takes_rm ?_
  intro modrm target hreg
  split
  case h_3 => exact takes_pure (.unknown _)
  all_goals
    rename_i hslot
    refine takes_pure (.of_eq ?_)
    rw [List.append_nil, eq_ofNat hslot]
    rfl

theorem word_spells : Takes (Spells 0xFF) word := by
  refine takes_rm ?_
  intro modrm target hreg
  split
  case h_8 => exact takes_pure (.unknown _)
  all_goals
    rename_i hslot
    refine takes_pure (.of_eq ?_)
    rw [List.append_nil, eq_ofNat hslot]
    rfl

/-- What follows an extension opcode spells the operation. -/
theorem reader?_spells {reader : ByteReader Operation} (h : reader? opcode = some reader) :
    Takes (Spells opcode) reader := by
  rw [reader?] at h
  split at h
  case h_13 => cases h
  all_goals
    rename_i hopcode
    obtain rfl := eq_ofNat hopcode
    cases h
  case h_1 | h_2 | h_3 | h_4 => exact immediate_spells (by decide)
  case h_5 | h_6 | h_7 | h_8 => exact shift_spells
  case h_9 | h_10 => exact unary_spells (by decide)
  case h_11 => exact incDecByte_spells
  case h_12 => exact word_spells

end Extension

/-! ## Instructions -/

/-- What follows an opcode spells the operation. -/
theorem readOperation_spells (opcode : UInt8) : Takes (Spells opcode) (readOperation opcode) := by
  rw [readOperation]
  split
  · rename_i template htemplate
    have hrecognises : template.recognises opcode = true := by
      have hfound := List.find?_some htemplate
      exact hfound
    exact Template.parse_spells template (List.mem_of_find?_eq_some htemplate) hrecognises
  · split
    · rename_i reader hreader
      exact Extension.reader?_spells hreader
    · exact takes_pure (.unknown _)

/-- Every modifier taken is counted. -/
theorem Prefixes.readUpTo_takes (room : Nat) (before : Prefixes) :
    Takes (fun prefixes bytes => before.count + bytes.length = prefixes.count)
      (readUpTo room before) := by
  induction room generalizing before with
  | zero => exact takes_pure rfl
  | succ room ih =>
      rw [readUpTo]
      refine takes_peek.bind ?_
      rintro byte _ rfl
      cases Modifier.ofByte? byte with
      | none => exact takes_pure rfl
      | some modifier =>
          have hcount : (before.add modifier).count = before.count + 1 := by
            cases modifier <;> rfl
          refine takes_nextByte.bind ?_
          rintro taken _ rfl
          intro source start stop prefixes hread
          obtain ⟨bytes, hbytes, hstop, hwanted⟩ := ih (before.add modifier) _ _ _ _ hread
          refine ⟨bytes, hbytes, hstop, ?_⟩
          rw [hcount] at hwanted
          show before.count + (bytes.length + 1) = prefixes.count
          omega

/-- An encoding is its modifiers, the opcode, and what spells the operation. -/
theorem readEncoding_takes :
    Takes (fun encoding bytes => ∃ modifiers body, bytes = modifiers ++ encoding.2.1 :: body
        ∧ modifiers.length = encoding.1.count ∧ Spells encoding.2.1 encoding.2.2 body)
      readEncoding := by
  refine (Prefixes.readUpTo_takes Prefixes.maximum .none).bind ?_
  intro prefixes modifiers hmodifiers
  refine takes_nextByte.bind ?_
  rintro opcode _ rfl
  refine (readOperation_spells opcode).compute ?_
  intro operation body hspells
  refine ⟨modifiers, body, rfl, ?_, hspells⟩
  rw [← hmodifiers]
  exact (Nat.zero_add _).symm

/-- The bytes of an instruction from the opcode on, where it begins at an index of a
    list. -/
def Instruction.body (instruction : Instruction) (bytes : List UInt8) (start : Nat) :
    List UInt8 :=
  ((bytes.drop start).take instruction.length).drop instruction.prefixes.count

/-- They are the opcode and what spells the operation. -/
theorem decode_spells {bytes : List UInt8} {start : Nat} {instruction : Instruction}
    (h : decode (.ofList bytes) start = .ok instruction) :
    ∃ rest, instruction.body bytes start = instruction.opcode :: rest
      ∧ Spells instruction.opcode instruction.operation rest := by
  obtain ⟨prefixes, opcode, operation, stop, hread, rfl⟩ := decode_eq_ok h
  obtain ⟨taken, hcarries, hstop, modifiers, rest, htaken, hcount, hspells⟩ :=
    readEncoding_takes _ _ _ _ hread
  refine ⟨rest, ?_, hspells⟩
  have hlength : stop - start = taken.length := by omega
  have hslice := ByteSource.take_of_carries hcarries
  show ((bytes.drop start).take (stop - start)).drop prefixes.count = opcode :: rest
  rw [hlength, hslice, htaken, ← hcount]
  exact List.drop_left

/-- The mode of a memory operand is not that of a register. -/
theorem EffectiveAddress.mode_cases (address : EffectiveAddress) :
    address.mode = 0b00 ∨ address.mode = 0b01 ∨ address.mode = 0b10 := by
  rw [mode]
  split
  · exact .inl rfl
  · split
    · exact .inl rfl
    · exact .inr (.inl rfl)
    · exact .inr (.inr rfl)

/-- Two lists of bytes are alike, but that they begin with ModRM bytes of which one
    has 0 and the other 1 in its `reg` field. -/
def DifferInSlot (first second : List UInt8) : Prop :=
  ∃ mode rm zero one rest, first = zero :: rest ∧ second = one :: rest
    ∧ ModRM.ofByte zero = ⟨mode, 0, rm⟩ ∧ ModRM.ofByte one = ⟨mode, 1, rm⟩

theorem DifferInSlot.append {first second : List UInt8} (h : DifferInSlot first second)
    (more : List UInt8) : DifferInSlot (first ++ more) (second ++ more) := by
  obtain ⟨mode, rm, zero, one, rest, rfl, rfl, hzero, hone⟩ := h
  exact ⟨mode, rm, zero, one, rest ++ more, rfl, rfl, hzero, hone⟩

/-- An operand, if it has a ModRM byte, is spelled alike beside the fields 0 and 1. -/
theorem Operand.spelling_zero_one (operand : Operand) :
    operand.spelling 0 = operand.spelling 1
      ∨ DifferInSlot (operand.spelling 0) (operand.spelling 1) := by
  cases operand with
  | segment _ => exact .inl rfl
  | immediate _ => exact .inl rfl
  | register r =>
      refine .inr ⟨0b11, r.number, _, _, [], rfl, rfl, ?_⟩
      cases r with
      | byte r => cases r <;> decide
      | word r => cases r <;> decide
  | memory address =>
      refine .inr ⟨address.mode, address.base.number, _, _, _, rfl, rfl, ?_⟩
      have hmode := address.mode_cases
      generalize address.mode = mode at hmode
      generalize address.base = base
      obtain rfl | rfl | rfl := hmode
      all_goals cases base <;> decide

/-- What spells an operation that is recognised is its spelling, or the other
    spelling of a test. -/
theorem Spells.eq_spelling {opcode : UInt8} {operation : Operation} {bytes : List UInt8}
    (h : Spells opcode operation bytes) (hknown : operation ≠ .unknown) :
    bytes = operation.spelling opcode
      ∨ (opcode = 0xF6 ∨ opcode = 0xF7) ∧ DifferInSlot (operation.spelling opcode) bytes
        ∧ ∃ width target src, operation = .test width target src
          ∧ bytes = target.spelling 1 ++ src.immediateSpelling width := by
  cases h with
  | unknown => exact absurd rfl hknown
  | plain => exact .inl rfl
  | test width target src hopcode =>
      have hplain : (Operation.test width target src).spelling opcode
          = target.spelling 0 ++ src.immediateSpelling width := by
        obtain rfl | rfl := hopcode
        all_goals rfl
      rw [hplain]
      obtain hsame | hdiffer := target.spelling_zero_one
      · exact .inl (by rw [hsame])
      · exact .inr ⟨hopcode, hdiffer.append _, width, target, src, rfl, rfl⟩

/-- Encodings with the same opcode and the same operation, if it is recognised, have
    the same bytes from the opcode on, whatever modifiers they have and wherever they
    stand.  Only two tests of `r/m` with an immediate may differ, in the `reg` fields of
    their ModRM bytes, of which one is 0 and the other 1. -/
theorem decode_lossless {bytes other : List UInt8} {start place : Nat}
    {first second : Instruction} (hfirst : decode (.ofList bytes) start = .ok first)
    (hsecond : decode (.ofList other) place = .ok second)
    (hopcode : first.opcode = second.opcode) (hoperation : first.operation = second.operation)
    (hknown : first.operation ≠ .unknown) :
    ∃ rest rest', first.body bytes start = first.opcode :: rest
      ∧ second.body other place = first.opcode :: rest'
      ∧ (rest = rest'
        ∨ (first.opcode = 0xF6 ∨ first.opcode = 0xF7)
          ∧ (∃ width target src, first.operation = .test width target src)
          ∧ (DifferInSlot rest rest' ∨ DifferInSlot rest' rest)) := by
  obtain ⟨rest, hbody, hspells⟩ := decode_spells hfirst
  obtain ⟨rest', hbody', hspells'⟩ := decode_spells hsecond
  rw [← hopcode, ← hoperation] at hspells'
  rw [← hopcode] at hbody'
  refine ⟨rest, rest', hbody, hbody', ?_⟩
  obtain hplain | ⟨hslots, hdiffer, width, target, src, htest, hone⟩ :=
    hspells.eq_spelling hknown
  · obtain hplain' | ⟨hslots, hdiffer, width, target, src, htest, -⟩ :=
      hspells'.eq_spelling hknown
    · exact .inl (hplain.trans hplain'.symm)
    · rw [← hplain] at hdiffer
      exact .inr ⟨hslots, ⟨width, target, src, htest⟩, .inl hdiffer⟩
  · obtain hplain' | ⟨-, -, width', target', src', htest', hone'⟩ :=
      hspells'.eq_spelling hknown
    · rw [← hplain'] at hdiffer
      exact .inr ⟨hslots, ⟨width, target, src, htest⟩, .inr hdiffer⟩
    · rw [htest] at htest'
      cases htest'
      exact .inl (hone.trans hone'.symm)

/-- `TEST AL, 5` with 0 in the `reg` field, and the same behind an override with 1. -/
theorem decode_lossless_slots :
    ∃ first second, decode (.ofList [0xF6, 0xC0, 0x05]) 0 = .ok first
      ∧ decode (.ofList [0x90, 0x26, 0xF6, 0xC8, 0x05]) 1 = .ok second
      ∧ first.opcode = second.opcode ∧ first.operation = second.operation
      ∧ first.operation ≠ .unknown
      ∧ (DifferInSlot [0xC0, 0x05] [0xC8, 0x05] ∨ DifferInSlot [0xC8, 0x05] [0xC0, 0x05]) := by
  refine ⟨_, _, rfl, rfl, rfl, rfl, by decide, ?_⟩
  obtain ⟨rest, rest', hbody, hbody', hrest⟩ :=
    @decode_lossless [0xF6, 0xC0, 0x05] [0x90, 0x26, 0xF6, 0xC8, 0x05] 0 1 _ _ rfl rfl rfl rfl
      (by decide)
  obtain rfl : [0xC0, 0x05] = rest := (List.cons.inj hbody).2
  obtain rfl : [0xC8, 0x05] = rest' := (List.cons.inj hbody').2
  obtain hsame | ⟨-, -, hdiffer⟩ := hrest
  · cases hsame
  · exact hdiffer

end Microprocessor.X86
