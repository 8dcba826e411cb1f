import Microprocessor.Proofs.Encoding.Reader
import Microprocessor.X86.Execution

/-! # What decoded instructions write to

    The operand that an instruction writes is a general register of the width of
    the operation, or lies in memory: a ModRM byte names nothing else, and where an
    encoding has an immediate value it is the source.  Segment registers are
    written by moves, by pops and by the loads of far pointers, CS by moves alone.

      * `Operation.Placed` is asked of what the templates and the extension opcodes
        read, and `decode_placed` says that it holds of every decoded instruction;
      * `decode_writable`: so the report of an immediate destination, which
        `Machine.execute` has for such an instruction, is never made of one that
        was decoded. -/

namespace Microprocessor.X86

open ByteReader

/-! ## Places -/

/-- The operand is a general register of a width, or lies in memory. -/
def Operand.IsPlace (width : Width) : Operand → Prop
  | .register r => r.width = width
  | .memory _ => True
  | .segment _ | .immediate _ => False

/-- What an operation writes has a place of its width.  A move may also write any
    segment register; a pop and the load of a far pointer write any but CS.  The
    first operand of an exchange is a register. -/
def Operation.Placed : Operation → Prop
  | .arith _ width target _ | .incDec _ width target | .unary _ width target
  | .shift _ width target _ => target.IsPlace width
  | .mov width target _ => target.IsPlace width ∨ ∃ register, target = .segment register
  | .xchg width a b => (a.isRegister = true ∧ a.IsPlace width) ∧ b.IsPlace width
  | .pop target => target.IsPlace .word ∨ ∃ register, register ≠ .cs ∧ target = .segment register
  | .loadFarPointer segment _ _ => segment ≠ .cs
  | _ => True

/-- What the operation writes is no immediate. -/
def Operation.Writable (operation : Operation) : Prop :=
  operation.hasImmediateDestination = false

/-- A place is no immediate. -/
theorem Operand.IsPlace.isImmediate {width : Width} {operand : Operand}
    (h : operand.IsPlace width) : operand.isImmediate = false := by
  cases operand with
  | immediate value => exact h.elim
  | register _ | segment _ | memory _ => rfl

/-- What has a place is no immediate. -/
theorem Operation.Placed.writable {operation : Operation} (h : operation.Placed) :
    operation.Writable := by
  cases operation with
  | arith op width target source =>
      show (op.writesResult && target.isImmediate) = false
      rw [Operand.IsPlace.isImmediate h, Bool.and_false]
  | incDec op width target => exact Operand.IsPlace.isImmediate h
  | unary op width target => exact Operand.IsPlace.isImmediate h
  | shift op width target count => exact Operand.IsPlace.isImmediate h
  | mov width target source =>
      obtain h | ⟨register, rfl⟩ := h
      · exact h.isImmediate
      · rfl
  | xchg width a b =>
      show (a.isImmediate || b.isImmediate) = false
      rw [h.1.2.isImmediate, h.2.isImmediate]
      rfl
  | pop target =>
      obtain h | ⟨register, -, rfl⟩ := h
      · exact h.isImmediate
      · rfl
  | _ => rfl

/-! ## Operands -/

/-- A register that is named by its width has it. -/
theorem Register.width_ofIndex (width : Width) (n : UInt8) : (ofIndex width n).width = width := by
  cases width <;> rfl

/-- So has the accumulator. -/
theorem Register.width_accumulator (width : Width) : (accumulator width).width = width := by
  cases width <;> rfl

/-- The operand that a ModRM byte names is a place. -/
theorem ModRM.readOperand_gives (modrm : ModRM) (width : Width) :
    Gives (fun operand => operand.IsPlace width) (modrm.readOperand width) := by
  rw [ModRM.readOperand]
  split
  · exact gives_pure (Register.width_ofIndex width modrm.rm)
  · exact gives_compute fun _ => trivial

/-- A ModRM byte and the operand it names, followed by anything. -/
theorem gives_rm {goal : Operation → Prop} {width : Width}
    {rest : ModRM → Operand → ByteReader Operation}
    (h : ∀ modrm rm, rm.IsPlace width → Gives goal (rest modrm rm)) :
    Gives goal (ModRM.read >>= fun modrm => modrm.readOperand width >>= rest modrm) := by
  refine gives_bind ?_
  intro modrm
  exact (modrm.readOperand_gives width).bind (h modrm)

/-- A ModRM byte and the memory operand it names, if it does. -/
theorem gives_address {goal : Operation → Prop} {register : ModRM → Operation}
    {memory : ModRM → EffectiveAddress → Operation} (hregister : ∀ modrm, goal (register modrm))
    (hmemory : ∀ modrm address, goal (memory modrm address)) :
    Gives goal (ModRM.read >>= fun modrm =>
      if modrm.isRegister then pure (register modrm)
      else modrm.readAddress >>= fun address => pure (memory modrm address)) := by
  refine gives_bind ?_
  intro modrm
  split
  · exact gives_pure (hregister modrm)
  · exact gives_compute (hmemory modrm)

/-- What holds of two operands holds of the one that is written. -/
theorem directed_fst (goal : Operand → Prop) (opcode : UInt8) {rm reg : Operand} (hrm : goal rm)
    (hreg : goal reg) : goal (Template.directed opcode rm reg).1 := by
  rw [Template.directed]
  split
  · exact hrm
  · exact hreg

/-! ## Templates -/

namespace Template

theorem arithRm_placed (opcode : UInt8) : Gives Operation.Placed (arithRm.parse opcode) := by
  refine gives_rm ?_
  intro modrm rm hrm
  refine gives_pure ?_
  exact directed_fst (Operand.IsPlace _) opcode hrm (Register.width_ofIndex _ modrm.reg)

theorem arithAccumulator_placed (opcode : UInt8) :
    Gives Operation.Placed (arithAccumulator.parse opcode) := by
  refine gives_compute ?_
  intro value
  exact Register.width_accumulator _

theorem incDecRegister_placed (opcode : UInt8) :
    Gives Operation.Placed (incDecRegister.parse opcode) :=
  gives_pure rfl

theorem popSegment_placed {opcode : UInt8} (h : popSegment.recognises opcode = true) :
    Gives Operation.Placed (popSegment.parse opcode) := by
  refine gives_pure (.inr ⟨.ofIndex (opcode >>> 3), ?_, rfl⟩)
  -- The one opcode of the pattern that names CS is not recognised.
  obtain ⟨bits⟩ := opcode
  revert bits
  decide +kernel

theorem pushPopRegister_placed (opcode : UInt8) :
    Gives Operation.Placed (pushPopRegister.parse opcode) := by
  refine gives_pure ?_
  split
  · trivial
  · exact .inl rfl

theorem testXchgRm_placed (opcode : UInt8) :
    Gives Operation.Placed (testXchgRm.parse opcode) := by
  refine gives_rm ?_
  intro modrm rm hrm
  refine gives_pure ?_
  split
  · trivial
  · exact ⟨⟨rfl, Register.width_ofIndex _ modrm.reg⟩, hrm⟩

theorem movRm_placed (opcode : UInt8) : Gives Operation.Placed (movRm.parse opcode) := by
  refine gives_rm ?_
  intro modrm rm hrm
  refine gives_pure ?_
  exact .inl (directed_fst (Operand.IsPlace _) opcode hrm (Register.width_ofIndex _ modrm.reg))

theorem movSegment_placed (opcode : UInt8) :
    Gives Operation.Placed (movSegment.parse opcode) := by
  refine gives_rm ?_
  intro modrm rm hrm
  split
  · exact gives_pure trivial
  · refine gives_pure ?_
    exact directed_fst (fun operand => operand.IsPlace .word ∨ ∃ register, operand = .segment register)
      opcode (.inl hrm) (.inr ⟨_, rfl⟩)

theorem popRm_placed (opcode : UInt8) : Gives Operation.Placed (popRm.parse opcode) := by
  refine gives_rm ?_
  intro modrm rm hrm
  refine gives_pure ?_
  split
  · exact .inl hrm
  · trivial

theorem xchgAccumulator_placed (opcode : UInt8) :
    Gives Operation.Placed (xchgAccumulator.parse opcode) :=
  gives_pure ⟨⟨rfl, rfl⟩, rfl⟩

theorem convert_placed (opcode : UInt8) : Gives Operation.Placed (convert.parse opcode) := by
  refine gives_pure ?_
  split
  · trivial
  · trivial

theorem flagsTransfer_placed (opcode : UInt8) :
    Gives Operation.Placed (flagsTransfer.parse opcode) := by
  refine gives_pure ?_
  split
  all_goals trivial

theorem movAccumulatorMemory_placed (opcode : UInt8) :
    Gives Operation.Placed (movAccumulatorMemory.parse opcode) := by
  refine gives_compute ?_
  intro offset
  split
  · exact .inl (Register.width_accumulator _)
  · exact .inl trivial

theorem movRegisterImmediate_placed (opcode : UInt8) :
    Gives Operation.Placed (movRegisterImmediate.parse opcode) :=
  gives_compute fun _ => .inl (Register.width_ofIndex _ opcode)

theorem loadFarPointer_placed (opcode : UInt8) :
    Gives Operation.Placed (loadFarPointer.parse opcode) := by
  refine gives_address (fun _ => trivial) ?_
  intro modrm address
  show (if opcode = 0xC4 then SegmentRegister.es else .ds) ≠ .cs
  split <;> decide

theorem ret_placed (opcode : UInt8) : Gives Operation.Placed (ret.parse opcode) := by
  have hret : ∀ count, (if opcode &&& 0x08 = 0 then Operation.ret count else .retFar count).Placed
      := by
    intro count
    split
    · trivial
    · trivial
  simp only [ret]
  split
  · exact gives_compute hret
  · exact gives_pure (hret 0)

theorem movRmImmediate_placed (opcode : UInt8) :
    Gives Operation.Placed (movRmImmediate.parse opcode) := by
  refine gives_rm ?_
  intro modrm target htarget
  refine gives_compute ?_
  intro value
  split
  · exact .inl htarget
  · trivial

theorem interrupt_placed (opcode : UInt8) :
    Gives Operation.Placed (interrupt.parse opcode) := by
  simp only [interrupt]
  split
  · exact gives_pure trivial
  · exact gives_compute fun _ => trivial
  · exact gives_pure trivial
  · exact gives_pure trivial

theorem asciiAdjust_placed (opcode : UInt8) :
    Gives Operation.Placed (asciiAdjust.parse opcode) := by
  refine gives_compute ?_
  intro base
  split
  · trivial
  · trivial

theorem portTransfer_placed (opcode : UInt8) :
    Gives Operation.Placed (portTransfer.parse opcode) := by
  have htransfer : ∀ width port,
      (if opcode &&& 0b10 = 0 then Operation.input width port
        else .output width port).Placed := by
    intro width port
    split
    · trivial
    · trivial
  simp only [portTransfer]
  split
  · exact gives_compute (htransfer _)
  · exact gives_pure (htransfer _ _)

theorem callJump_placed (opcode : UInt8) :
    Gives Operation.Placed (callJump.parse opcode) := by
  simp only [callJump]
  split
  · exact gives_compute fun _ => trivial
  · exact gives_compute fun _ => trivial
  · exact gives_bind fun _ => gives_compute fun _ => trivial
  · exact gives_compute fun _ => trivial

/-- Every template reads an operation whose writes have places, after an opcode that
    it recognises. -/
theorem parse_placed :
    ∀ template ∈ templates, ∀ {opcode : UInt8}, template.recognises opcode = true →
      Gives Operation.Placed (template.parse opcode) := by
  simp only [templates, List.forall_mem_cons, List.not_mem_nil, false_implies, implies_true,
    and_true]
  -- In the order of the table.
  exact ⟨fun _ => arithRm_placed _, fun _ => arithAccumulator_placed _,
    fun _ => gives_pure trivial, popSegment_placed, fun _ => gives_pure trivial,
    fun _ => incDecRegister_placed _, fun _ => pushPopRegister_placed _,
    fun _ => gives_compute fun _ => trivial, fun _ => testXchgRm_placed _,
    fun _ => movRm_placed _, fun _ => movSegment_placed _,
    fun _ => gives_address (fun _ => trivial) fun _ _ => trivial, fun _ => popRm_placed _,
    fun _ => xchgAccumulator_placed _, fun _ => convert_placed _,
    fun _ => gives_bind fun _ => gives_compute fun _ => trivial, fun _ => gives_pure trivial,
    fun _ => flagsTransfer_placed _, fun _ => movAccumulatorMemory_placed _,
    fun _ => gives_pure trivial, fun _ => gives_compute fun _ => trivial,
    fun _ => movRegisterImmediate_placed _, fun _ => ret_placed _,
    fun _ => loadFarPointer_placed _, fun _ => movRmImmediate_placed _,
    fun _ => interrupt_placed _, fun _ => asciiAdjust_placed _, fun _ => gives_pure trivial,
    fun _ => gives_rm fun _ _ _ => gives_pure trivial, fun _ => gives_compute fun _ => trivial,
    fun _ => portTransfer_placed _, fun _ => callJump_placed _, fun _ => gives_pure trivial,
    fun _ => gives_pure trivial⟩

end Template

/-! ## Extension opcodes -/

namespace Extension

theorem immediate_placed (opcode : UInt8) :
    Gives Operation.Placed (immediate opcode) := by
  refine gives_rm ?_
  intro modrm target htarget
  split
  · exact gives_compute fun _ => htarget
  · exact gives_compute fun _ => htarget

theorem shift_placed (opcode : UInt8) : Gives Operation.Placed (shift opcode) := by
  refine gives_rm ?_
  intro modrm target htarget
  split
  · exact gives_pure htarget
  · exact gives_pure trivial

theorem unary_placed (opcode : UInt8) : Gives Operation.Placed (unary opcode) := by
  refine gives_rm ?_
  intro modrm target htarget
  split
  case h_1 => exact gives_compute fun _ => trivial
  case h_2 => exact gives_compute fun _ => trivial
  case h_3 => exact gives_pure htarget
  case h_4 => exact gives_pure htarget
  all_goals exact gives_pure trivial

theorem incDecByte_placed : Gives Operation.Placed incDecByte := by
  refine gives_rm ?_
  intro modrm target htarget
  split
  · exact gives_pure htarget
  · exact gives_pure htarget
  · exact gives_pure trivial

theorem word_placed : Gives Operation.Placed word := by
  refine gives_rm ?_
  intro modrm target htarget
  split
  case h_1 => exact gives_pure htarget
  case h_2 => exact gives_pure htarget
  all_goals exact gives_pure trivial

/-- Every extension opcode has an operation whose writes have places. -/
theorem reader?_placed {opcode : UInt8} {reader : ByteReader Operation}
    (h : reader? opcode = some reader) : Gives Operation.Placed reader := by
  rw [reader?] at h
  split at h
  case h_1 | h_2 | h_3 | h_4 =>
    cases h
    exact immediate_placed opcode
  case h_5 | h_6 | h_7 | h_8 =>
    cases h
    exact shift_placed opcode
  case h_9 | h_10 =>
    cases h
    exact unary_placed opcode
  case h_11 =>
    cases h
    exact incDecByte_placed
  case h_12 =>
    cases h
    exact word_placed
  case h_13 => cases h

end Extension

/-! ## Instructions -/

/-- What follows an opcode is an operation whose writes have places. -/
theorem readOperation_placed (opcode : UInt8) :
    Gives Operation.Placed (readOperation opcode) := by
  rw [readOperation]
  split
  · rename_i template htemplate
    have hrecognises : template.recognises opcode = true := by
      have hfound := List.find?_some htemplate
      exact hfound
    exact Template.parse_placed template (List.mem_of_find?_eq_some htemplate) hrecognises
  · split
    · rename_i reader hreader
      exact Extension.reader?_placed hreader
    · exact gives_pure trivial

/-- What a decoded instruction writes has a place. -/
theorem decode_placed {source : ByteSource} {start : Nat} {instruction : Instruction}
    (h : decode source start = .ok instruction) : instruction.operation.Placed := by
  have hencoding : Gives (fun encoding => encoding.2.2.Placed) readEncoding := by
    refine gives_bind ?_
    intro prefixes
    refine gives_bind ?_
    intro opcode
    refine (readOperation_placed opcode).bind ?_
    intro operation hoperation
    exact gives_pure hoperation
  rw [decode] at h
  cases hread : readEncoding source start with
  | error failure =>
      rw [hread] at h
      cases h
  | ok read =>
      rw [hread] at h
      cases h
      exact hencoding _ _ _ _ hread

/-- No decoded instruction writes to an immediate. -/
theorem decode_writable {source : ByteSource} {start : Nat} {instruction : Instruction}
    (h : decode source start = .ok instruction) : instruction.operation.Writable :=
  (decode_placed h).writable

end Microprocessor.X86
