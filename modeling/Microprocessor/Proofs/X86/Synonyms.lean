import Microprocessor.Proofs.X86.Modifiers
import Microprocessor.Proofs.X86.Spelling

/-! # Several encodings of one operation

    Many operations have a short encoding, for the accumulator, a register or a fixed
    count, beside the general one with a ModRM byte.  The two are read by different
    families.

      * `Abbreviates` lists the pairs, and `Encodes` says that bytes are decoded as an
        operation wherever they lie;
      * `HasDirection` are the opcodes whose bit 1 orders the operands, and
        `Operation.Exchanges` relates what the two orders give;
      * `encodings_agree` is about both. -/

namespace Microprocessor.X86

open ByteReader

/-! ## Pairs of encodings -/

/-- Wherever the bytes lie, all of them and no more are decoded as the operation. -/
def Encodes (bytes : List UInt8) (operation : Operation) : Prop :=
  ∀ (source : ByteSource) (start : Nat), source.Carries start bytes →
    ∃ opcode, bytes.head? = some opcode
      ∧ decode source start
        = .ok ⟨opcode, .none, operation, bytes.length, Timing.estimate operation .none⟩

/-- The first encoding is a short form of the second. -/
inductive Abbreviates : List UInt8 → List UInt8 → Prop
  /-- AL and an immediate byte.  Opcode 82 is another spelling of 80. -/
  | arithAl (k immediate opcode : UInt8) (hk : k < 8) (hopcode : opcode = 0x80 ∨ opcode = 0x82) :
      Abbreviates [0x04 + 8 * k, immediate] [opcode, ModRM.byte ⟨0b11, k, 0⟩, immediate]
  /-- AX and an immediate word. -/
  | arithAx (k : UInt8) (immediate : UInt16) (hk : k < 8) :
      Abbreviates ((0x05 + 8 * k) :: bytesOfWord immediate)
        (0x81 :: ModRM.byte ⟨0b11, k, 0⟩ :: bytesOfWord immediate)
  /-- Any word and an immediate byte that is sign-extended. -/
  | arithSigned (modrm immediate : UInt8) (displacement : List UInt8)
      (h : displacement.length = (ModRM.ofByte modrm).displacementLength) :
      Abbreviates (0x83 :: modrm :: (displacement ++ [immediate]))
        (0x81 :: modrm :: (displacement ++ bytesOfWord (signExtendByte immediate)))
  | inc (r : UInt8) (hr : r < 8) : Abbreviates [0x40 + r] [0xFF, ModRM.byte ⟨0b11, 0, r⟩]
  | dec (r : UInt8) (hr : r < 8) : Abbreviates [0x48 + r] [0xFF, ModRM.byte ⟨0b11, 1, r⟩]
  | push (r : UInt8) (hr : r < 8) : Abbreviates [0x50 + r] [0xFF, ModRM.byte ⟨0b11, 6, r⟩]
  | pop (r : UInt8) (hr : r < 8) : Abbreviates [0x58 + r] [0x8F, ModRM.byte ⟨0b11, 0, r⟩]
  | exchange (r : UInt8) (hr : r < 8) : Abbreviates [0x90 + r] [0x87, ModRM.byte ⟨0b11, 0, r⟩]
  /-- The accumulator and a fixed offset, which as a ModRM operand is `r/m` 110 of mode 00. -/
  | loadAl (offset : UInt16) :
      Abbreviates (0xA0 :: bytesOfWord offset)
        (0x8A :: ModRM.byte ⟨0b00, 0, 0b110⟩ :: bytesOfWord offset)
  | loadAx (offset : UInt16) :
      Abbreviates (0xA1 :: bytesOfWord offset)
        (0x8B :: ModRM.byte ⟨0b00, 0, 0b110⟩ :: bytesOfWord offset)
  | storeAl (offset : UInt16) :
      Abbreviates (0xA2 :: bytesOfWord offset)
        (0x88 :: ModRM.byte ⟨0b00, 0, 0b110⟩ :: bytesOfWord offset)
  | storeAx (offset : UInt16) :
      Abbreviates (0xA3 :: bytesOfWord offset)
        (0x89 :: ModRM.byte ⟨0b00, 0, 0b110⟩ :: bytesOfWord offset)
  | testAl (immediate : UInt8) :
      Abbreviates [0xA8, immediate] [0xF6, ModRM.byte ⟨0b11, 0, 0⟩, immediate]
  | testAx (immediate : UInt16) :
      Abbreviates (0xA9 :: bytesOfWord immediate)
        (0xF7 :: ModRM.byte ⟨0b11, 0, 0⟩ :: bytesOfWord immediate)
  | movByte (r immediate : UInt8) (hr : r < 8) :
      Abbreviates [0xB0 + r, immediate] [0xC6, ModRM.byte ⟨0b11, 0, r⟩, immediate]
  | movWord (r : UInt8) (immediate : UInt16) (hr : r < 8) :
      Abbreviates ((0xB8 + r) :: bytesOfWord immediate)
        (0xC7 :: ModRM.byte ⟨0b11, 0, r⟩ :: bytesOfWord immediate)
  | ret : Abbreviates [0xC3] [0xC2, 0, 0]
  | retFar : Abbreviates [0xCB] [0xCA, 0, 0]
  | breakpoint : Abbreviates [0xCC] [0xCD, 3]
  | jump (displacement : UInt8) :
      Abbreviates [0xEB, displacement] (0xE9 :: bytesOfWord (signExtendByte displacement))

/-- The opcodes of the two families whose bit 1 is the direction. -/
inductive HasDirection : UInt8 → Prop
  | arith (k form : UInt8) (hk : k < 8) (hform : form < 4) : HasDirection (8 * k + form)
  | mov (form : UInt8) (hform : form < 4) : HasDirection (0x88 + form)

/-- The operations differ in the order of their operands. -/
inductive Operation.Exchanges : Operation → Operation → Prop
  | arith (op : ArithOp) (width : Width) (dst src : Operand) :
      Exchanges (.arith op width dst src) (.arith op width src dst)
  | mov (width : Width) (dst src : Operand) :
      Exchanges (.mov width dst src) (.mov width src dst)

/-! ## What is read from given bytes -/

theorem reads_readImmediate_byte (immediate : UInt8) :
    Reads (readImmediate .byte) [immediate] immediate.toUInt16 :=
  (reads_nextByte immediate).compute _

theorem reads_readImmediate_word (immediate : UInt16) :
    Reads (readImmediate .word) (bytesOfWord immediate) immediate :=
  reads_nextWord immediate

theorem ModRM.reads_read (modrm : UInt8) : Reads ModRM.read [modrm] (ofByte modrm) :=
  (reads_nextByte modrm).compute _

/-- As many bytes as the displacement has are read for a memory operand. -/
theorem ModRM.reads_readAddress {modrm : ModRM} (hmemory : modrm.mode ≠ 0b11)
    {displacement : List UInt8} (h : displacement.length = modrm.displacementLength) :
    ∃ address, Reads modrm.readAddress displacement address := by
  have hword : displacement.length = 2 → ∃ word, Reads nextWord displacement word := by
    intro hlength
    match displacement, hlength with
    | [low, high], _ =>
      refine ⟨wordOfBytes low high, ?_⟩
      rw [← bytesOfWord_wordOfBytes low high]
      exact reads_nextWord _
  rw [displacementLength, if_neg hmemory] at h
  rw [readAddress]
  by_cases hzero : modrm.mode = 0b00
  · rw [if_pos hzero] at h ⊢
    by_cases hdirect : modrm.rm = 0b110
    · rw [if_pos hdirect] at h ⊢
      obtain ⟨offset, hread⟩ := hword h
      exact ⟨_, hread.compute _⟩
    · rw [if_neg hdirect] at h ⊢
      obtain rfl := List.length_eq_zero_iff.mp h
      exact ⟨_, reads_pure _⟩
  · rw [if_neg hzero] at h ⊢
    by_cases hone : modrm.mode = 0b01
    · rw [if_pos hone] at h ⊢
      obtain ⟨byte, rfl⟩ := List.length_eq_one_iff.mp h
      exact ⟨_, (reads_nextByte byte).compute _⟩
    · rw [if_neg hone] at h ⊢
      obtain ⟨word, hread⟩ := hword h
      exact ⟨_, hread.compute _⟩

/-- As many are read for any operand. -/
theorem ModRM.reads_readOperand (modrm : ModRM) (width : Width) {displacement : List UInt8}
    (h : displacement.length = modrm.displacementLength) :
    ∃ operand, Reads (modrm.readOperand width) displacement operand := by
  rw [readOperand, isRegister]
  by_cases hregister : modrm.mode = 0b11
  · rw [displacementLength, hregister] at h
    obtain rfl := List.length_eq_zero_iff.mp h
    rw [if_pos (by simpa using hregister)]
    exact ⟨_, reads_pure _⟩
  · obtain ⟨address, hread⟩ := reads_readAddress hregister h
    rw [if_neg (by simpa using hregister)]
    exact ⟨_, hread.compute _⟩

/-- Three bits make eight numbers. -/
theorem lt_eight_cases {n : UInt8} (h : n < 8) :
    n = 0 ∨ n = 1 ∨ n = 2 ∨ n = 3 ∨ n = 4 ∨ n = 5 ∨ n = 6 ∨ n = 7 := by
  have hlt : n.toNat < 8 := h
  simp only [← UInt8.toNat_inj]
  show n.toNat = 0 ∨ n.toNat = 1 ∨ n.toNat = 2 ∨ n.toNat = 3 ∨ n.toNat = 4 ∨ n.toNat = 5
    ∨ n.toNat = 6 ∨ n.toNat = 7
  omega

/-- The fields of the byte of a register are those it is made of. -/
theorem ModRM.ofByte_byte {reg rm : UInt8} (hreg : reg < 8) (hrm : rm < 8) :
    ofByte (byte ⟨0b11, reg, rm⟩) = ⟨0b11, reg, rm⟩ := by
  rcases lt_eight_cases hreg with rfl | rfl | rfl | rfl | rfl | rfl | rfl | rfl
  all_goals
    rcases lt_eight_cases hrm with rfl | rfl | rfl | rfl | rfl | rfl | rfl | rfl
  all_goals rfl

/-- A ModRM byte that names registers, followed by anything. -/
theorem reads_register {rest : ModRM → Operand → ByteReader Operation} {width : Width}
    {reg rm : UInt8} (hreg : reg < 8) (hrm : rm < 8) {bytes : List UInt8} {operation : Operation}
    (h : Reads (rest ⟨0b11, reg, rm⟩ (.register (.ofIndex width rm))) bytes operation) :
    Reads (ModRM.read >>= fun modrm => modrm.readOperand width >>= rest modrm)
      (ModRM.byte ⟨0b11, reg, rm⟩ :: bytes) operation := by
  refine (ModRM.reads_read _).bind ?_
  rw [ModRM.ofByte_byte hreg hrm]
  exact (reads_pure (Operand.register (.ofIndex width rm))).bind h

/-! ## Opcodes that carry a number -/

/-- The operation of the accumulator is in the middle of the opcode. -/
theorem readOperation_accumulator {k : UInt8} (hk : k < 8) :
    (readOperation (0x04 + 8 * k) = readImmediate .byte >>= fun value =>
        pure (.arith (.ofIndex k) .byte (.register (.byte .al)) (.immediate value)))
      ∧ readOperation (0x05 + 8 * k) = readImmediate .word >>= fun value =>
        pure (.arith (.ofIndex k) .word (.register (.word .ax)) (.immediate value)) := by
  rcases lt_eight_cases hk with rfl | rfl | rfl | rfl | rfl | rfl | rfl | rfl
  all_goals exact ⟨rfl, rfl⟩

/-- What is read after the opcodes that have a register in their lowest bits. -/
structure RegisterOpcodes (r : UInt8) : Prop where
  inc : readOperation (0x40 + r) = pure (.incDec .inc .word (.register (.ofIndex .word r)))
  dec : readOperation (0x48 + r) = pure (.incDec .dec .word (.register (.ofIndex .word r)))
  push : readOperation (0x50 + r) = pure (.push (.register (.ofIndex .word r)))
  pop : readOperation (0x58 + r) = pure (.pop (.register (.ofIndex .word r)))
  exchange : readOperation (0x90 + r)
    = pure (.xchg .word (.register (.word .ax)) (.register (.ofIndex .word r)))
  movByte : readOperation (0xB0 + r) = readImmediate .byte >>= fun value =>
    pure (.mov .byte (.register (.ofIndex .byte r)) (.immediate value))
  movWord : readOperation (0xB8 + r) = readImmediate .word >>= fun value =>
    pure (.mov .word (.register (.ofIndex .word r)) (.immediate value))

theorem readOperation_register {r : UInt8} (hr : r < 8) : RegisterOpcodes r := by
  rcases lt_eight_cases hr with rfl | rfl | rfl | rfl | rfl | rfl | rfl | rfl
  all_goals exact ⟨rfl, rfl, rfl, rfl, rfl, rfl, rfl⟩

/-! ## The general encodings -/

/-- Opcodes 80, 81 and 82 with a register. -/
theorem reads_arithImmediate {k : UInt8} (hk : k < 8) :
    (∀ opcode immediate : UInt8, opcode = 0x80 ∨ opcode = 0x82 →
      Reads (readOperation opcode) [ModRM.byte ⟨0b11, k, 0⟩, immediate]
        (.arith (.ofIndex k) .byte (.register (.byte .al)) (.immediate immediate.toUInt16)))
      ∧ ∀ immediate : UInt16,
        Reads (readOperation 0x81) (ModRM.byte ⟨0b11, k, 0⟩ :: bytesOfWord immediate)
          (.arith (.ofIndex k) .word (.register (.word .ax)) (.immediate immediate)) := by
  constructor
  · rintro opcode immediate (rfl | rfl)
    all_goals exact reads_register hk (by decide) ((reads_readImmediate_byte immediate).compute _)
  · intro immediate
    exact reads_register hk (by decide) ((reads_readImmediate_word immediate).compute _)

/-- Opcodes 81 and 83 with any operand. -/
theorem reads_arithSigned (modrm immediate : UInt8) {displacement : List UInt8}
    (h : displacement.length = (ModRM.ofByte modrm).displacementLength) :
    ∃ dst,
      Reads (readOperation 0x83) (modrm :: (displacement ++ [immediate]))
          (.arith (.ofIndex (ModRM.ofByte modrm).reg) .word dst
            (.immediate (signExtendByte immediate)))
        ∧ Reads (readOperation 0x81)
          (modrm :: (displacement ++ bytesOfWord (signExtendByte immediate)))
          (.arith (.ofIndex (ModRM.ofByte modrm).reg) .word dst
            (.immediate (signExtendByte immediate))) := by
  obtain ⟨dst, hdst⟩ := (ModRM.ofByte modrm).reads_readOperand .word h
  refine ⟨dst, ?_, ?_⟩
  · have hvalue := (reads_nextByte immediate).map signExtendByte
    exact (ModRM.reads_read modrm).bind (hdst.bind (hvalue.compute _))
  · have hvalue := reads_readImmediate_word (signExtendByte immediate)
    exact (ModRM.reads_read modrm).bind (hdst.bind (hvalue.compute _))

/-- Opcodes 88 to 8B with the accumulator and a fixed offset. -/
theorem reads_movDirect (offset : UInt16) :
    Reads (readOperation 0x8A) (ModRM.byte ⟨0b00, 0, 0b110⟩ :: bytesOfWord offset)
        (.mov .byte (.register (.byte .al)) (.memory (.direct offset)))
      ∧ Reads (readOperation 0x8B) (ModRM.byte ⟨0b00, 0, 0b110⟩ :: bytesOfWord offset)
        (.mov .word (.register (.word .ax)) (.memory (.direct offset)))
      ∧ Reads (readOperation 0x88) (ModRM.byte ⟨0b00, 0, 0b110⟩ :: bytesOfWord offset)
        (.mov .byte (.memory (.direct offset)) (.register (.byte .al)))
      ∧ Reads (readOperation 0x89) (ModRM.byte ⟨0b00, 0, 0b110⟩ :: bytesOfWord offset)
        (.mov .word (.memory (.direct offset)) (.register (.word .ax))) := by
  have hmodrm := ModRM.reads_read (ModRM.byte ⟨0b00, 0, 0b110⟩)
  have haddress : Reads (ModRM.mk 0b00 0 0b110).readAddress (bytesOfWord offset) (.direct offset) :=
    (reads_nextWord offset).compute _
  have hoperand : ∀ width, Reads ((ModRM.mk 0b00 0 0b110).readOperand width) (bytesOfWord offset)
      (.memory (.direct offset)) := fun _ => haddress.compute _
  exact ⟨hmodrm.bind ((hoperand .byte).compute _), hmodrm.bind ((hoperand .word).compute _),
    hmodrm.bind ((hoperand .byte).compute _), hmodrm.bind ((hoperand .word).compute _)⟩

/-! ## Whole instructions -/

/-- Without modifiers the opcode is the first byte. -/
theorem readEncoding_opcode {source : ByteSource} {start : Nat} {opcode : UInt8}
    (hbyte : source start = some opcode) (hopcode : opcode ∉ modifierBytes) :
    readEncoding source start = readModified .none opcode source (start + 1) := by
  have hnone : ∀ byte, source start = some byte → byte ∉ modifierBytes := by
    intro byte hother
    obtain rfl : opcode = byte := Option.some.inj (hbyte.symm.trans hother)
    exact hopcode
  exact (readUpTo_of_not_modifier readModified Prefixes.maximum .none hnone).trans
    (nextByte_bind_of_some hbyte)

/-- An opcode and what is read after it, if that is an operation. -/
theorem encodes_of_reads {opcode : UInt8} {body : List UInt8} {operation : Operation}
    (h : Reads (readOperation opcode) body operation) (hknown : operation ≠ .unknown) :
    Encodes (opcode :: body) operation := by
  have hopcode : opcode ∉ modifierBytes := by
    intro hmodifier
    have hread := h (.ofList body) 0 fun i _ => by rw [Nat.zero_add, ByteSource.ofList]
    rw [readOperation_modifier hmodifier] at hread
    injection hread with hsame
    exact hknown (Prod.mk.inj hsame).1.symm
  intro source start hcarries
  obtain ⟨hbyte, hbody⟩ := hcarries.of_cons
  refine ⟨opcode, rfl, ?_⟩
  rw [decode, readEncoding_opcode hbyte hopcode, readModified, bind_apply, h _ _ hbody]
  show Except.ok (Instruction.mk _ _ _ (start + 1 + body.length - start) _) = _
  rw [Nat.add_assoc, Nat.add_sub_cancel_left, Nat.add_comm]
  rfl

/-- The short and the general encoding of a pair are decoded as one operation. -/
theorem agrees_of_abbreviates {short general : List UInt8} (h : Abbreviates short general) :
    ∃ operation, operation ≠ .unknown ∧ Encodes short operation ∧ Encodes general operation := by
  have hagree : ∀ {first second : UInt8} {body other : List UInt8} {operation : Operation},
      operation ≠ .unknown → Reads (readOperation first) body operation →
      Reads (readOperation second) other operation →
      ∃ operation, operation ≠ .unknown ∧ Encodes (first :: body) operation
        ∧ Encodes (second :: other) operation := by
    intro first second body other operation hknown hfirst hsecond
    exact ⟨operation, hknown, encodes_of_reads hfirst hknown, encodes_of_reads hsecond hknown⟩
  cases h with
  | arithAl k immediate opcode hk hopcode =>
      refine hagree (by nofun) ?_ ((reads_arithImmediate hk).1 opcode immediate hopcode)
      rw [(readOperation_accumulator hk).1]
      exact (reads_readImmediate_byte immediate).compute _
  | arithAx k immediate hk =>
      refine hagree (by nofun) ?_ ((reads_arithImmediate hk).2 immediate)
      rw [(readOperation_accumulator hk).2]
      exact (reads_readImmediate_word immediate).compute _
  | arithSigned modrm immediate displacement hlength =>
      obtain ⟨dst, hshort, hgeneral⟩ := reads_arithSigned modrm immediate hlength
      exact hagree (by nofun) hshort hgeneral
  | inc r hr =>
      refine hagree (by nofun) ?_ (reads_register (by decide) hr (reads_pure _))
      rw [(readOperation_register hr).inc]
      exact reads_pure _
  | dec r hr =>
      refine hagree (by nofun) ?_ (reads_register (by decide) hr (reads_pure _))
      rw [(readOperation_register hr).dec]
      exact reads_pure _
  | push r hr =>
      refine hagree (by nofun) ?_ (reads_register (by decide) hr (reads_pure _))
      rw [(readOperation_register hr).push]
      exact reads_pure _
  | pop r hr =>
      refine hagree (by nofun) ?_ (reads_register (by decide) hr (reads_pure _))
      rw [(readOperation_register hr).pop]
      exact reads_pure _
  | exchange r hr =>
      refine hagree (by nofun) ?_ (reads_register (by decide) hr (reads_pure _))
      rw [(readOperation_register hr).exchange]
      exact reads_pure _
  | loadAl offset =>
      exact hagree (by nofun) ((reads_nextWord offset).compute _) (reads_movDirect offset).1
  | loadAx offset =>
      exact hagree (by nofun) ((reads_nextWord offset).compute _) (reads_movDirect offset).2.1
  | storeAl offset =>
      exact hagree (by nofun) ((reads_nextWord offset).compute _) (reads_movDirect offset).2.2.1
  | storeAx offset =>
      exact hagree (by nofun) ((reads_nextWord offset).compute _) (reads_movDirect offset).2.2.2
  | testAl immediate =>
      have hvalue := reads_readImmediate_byte immediate
      exact hagree (by nofun) (hvalue.compute _)
        (reads_register (by decide) (by decide) (hvalue.compute _))
  | testAx immediate =>
      have hvalue := reads_readImmediate_word immediate
      exact hagree (by nofun) (hvalue.compute _)
        (reads_register (by decide) (by decide) (hvalue.compute _))
  | movByte r immediate hr =>
      have hvalue := reads_readImmediate_byte immediate
      refine hagree (by nofun) ?_ (reads_register (by decide) hr (hvalue.compute _))
      rw [(readOperation_register hr).movByte]
      exact hvalue.compute _
  | movWord r immediate hr =>
      have hvalue := reads_readImmediate_word immediate
      refine hagree (by nofun) ?_ (reads_register (by decide) hr (hvalue.compute _))
      rw [(readOperation_register hr).movWord]
      exact hvalue.compute _
  | ret =>
      exact hagree (by nofun) (reads_pure _) ((reads_nextWord 0).compute _)
  | retFar =>
      exact hagree (by nofun) (reads_pure _) ((reads_nextWord 0).compute _)
  | breakpoint =>
      exact hagree (by nofun) (reads_pure _) ((reads_nextByte 3).compute _)
  | jump displacement =>
      exact hagree (by nofun) ((reads_nextByte displacement).compute _)
        ((reads_nextWord (signExtendByte displacement)).compute _)

/-! ## The direction bit -/

/-- Reads a ModRM byte and makes an operation of the operand that it names. -/
def readRm (width : Width) (operation : ModRM → Operand → Operation) : ByteReader Operation := do
  let modrm ← ModRM.read
  let rm ← modrm.readOperand width
  return operation modrm rm

/-- An operation on the operand and a register, in the order of the direction bit. -/
def directedOperation (operation : Width → Operand → Operand → Operation) (form : UInt8)
    (modrm : ModRM) (rm : Operand) : Operation :=
  let operands := Template.directed form rm (modrm.regOperand (.ofOpcode form))
  operation (.ofOpcode form) operands.1 operands.2

/-- Two bits make four numbers. -/
theorem lt_four_cases {n : UInt8} (h : n < 4) : n = 0 ∨ n = 1 ∨ n = 2 ∨ n = 3 := by
  have hlt : n.toNat < 4 := h
  simp only [← UInt8.toNat_inj]
  show n.toNat = 0 ∨ n.toNat = 1 ∨ n.toNat = 2 ∨ n.toNat = 3
  omega

/-- The other direction of a form exchanges the operands and keeps the width. -/
theorem directedOperation_flip {form : UInt8} (hform : form < 4)
    {operation : Width → Operand → Operand → Operation}
    (h : ∀ width dst src, (operation width dst src).Exchanges (operation width src dst))
    (modrm : ModRM) (rm : Operand) :
    (directedOperation operation form modrm rm).Exchanges
      (directedOperation operation (form ^^^ 2) modrm rm) := by
  rcases lt_four_cases hform with rfl | rfl | rfl | rfl
  all_goals exact h _ _ _

/-- What an opcode with a direction bit reads, and what its other direction reads. -/
theorem HasDirection.readOperation {opcode : UInt8} (h : HasDirection opcode) :
    ∃ width first second,
      (∀ modrm rm, (first modrm rm : Operation).Exchanges (second modrm rm))
        ∧ readOperation opcode = readRm width first
        ∧ readOperation (opcode ^^^ 2) = readRm width second := by
  cases h with
  | arith k form hk hform =>
      refine ⟨.ofOpcode form, directedOperation (.arith (.ofIndex k)) form,
        directedOperation (.arith (.ofIndex k)) (form ^^^ 2),
        directedOperation_flip hform fun _ _ _ => .arith _ _ _ _, ?_⟩
      rcases lt_eight_cases hk with rfl | rfl | rfl | rfl | rfl | rfl | rfl | rfl
      all_goals
        rcases lt_four_cases hform with rfl | rfl | rfl | rfl
      all_goals exact ⟨rfl, rfl⟩
  | mov form hform =>
      refine ⟨.ofOpcode form, directedOperation .mov form, directedOperation .mov (form ^^^ 2),
        directedOperation_flip hform fun _ _ _ => .mov _ _ _, ?_⟩
      rcases lt_four_cases hform with rfl | rfl | rfl | rfl
      all_goals exact ⟨rfl, rfl⟩

/-- Readers that differ in the order of operands take the same bytes. -/
theorem readRm_exchanges {width : Width} {first second : ModRM → Operand → Operation}
    (h : ∀ modrm rm, (first modrm rm).Exchanges (second modrm rm)) (source : ByteSource)
    (start : Nat) :
    (∃ failure, readRm width first source start = .error failure
        ∧ readRm width second source start = .error failure)
      ∨ ∃ operation other stop, operation.Exchanges other
        ∧ readRm width first source start = .ok (operation, stop)
        ∧ readRm width second source start = .ok (other, stop) := by
  simp only [readRm, bind_apply]
  cases ModRM.read source start with
  | error failure => exact .inl ⟨failure, rfl, rfl⟩
  | ok read =>
      cases hoperand : read.1.readOperand width source read.2 with
      | error failure => exact .inl ⟨failure, by simp only [hoperand], by simp only [hoperand]⟩
      | ok rm =>
          refine .inr ⟨_, _, rm.2, h read.1 rm.1, ?_, ?_⟩
          · simp only [hoperand]
            rfl
          · simp only [hoperand]
            rfl

/-- An opcode with a direction bit is none of the modifiers. -/
theorem HasDirection.not_modifier {opcode : UInt8} (h : HasDirection opcode) :
    opcode ∉ modifierBytes ∧ opcode ^^^ 2 ∉ modifierBytes := by
  cases h with
  | arith k form hk hform =>
      rcases lt_eight_cases hk with rfl | rfl | rfl | rfl | rfl | rfl | rfl | rfl
      all_goals
        rcases lt_four_cases hform with rfl | rfl | rfl | rfl
      all_goals decide
  | mov form hform =>
      rcases lt_four_cases hform with rfl | rfl | rfl | rfl
      all_goals decide

/-- The two directions of an opcode, with the same bytes after it, are decoded alike. -/
theorem decode_exchanges {opcode : UInt8} (h : HasDirection opcode) (rest : List UInt8) :
    (∃ failure, decode (.ofList (opcode :: rest)) 0 = .error failure
        ∧ decode (.ofList ((opcode ^^^ 2) :: rest)) 0 = .error failure)
      ∨ ∃ first second, decode (.ofList (opcode :: rest)) 0 = .ok first
        ∧ decode (.ofList ((opcode ^^^ 2) :: rest)) 0 = .ok second
        ∧ first.operation.Exchanges second.operation ∧ first.length = second.length
        ∧ first.prefixes = second.prefixes := by
  have hplain : ∀ byte, byte ∉ modifierBytes →
      readEncoding (.ofList (byte :: rest)) 0
        = match readOperation byte (.ofList rest) 0 with
          | .ok (operation, stop) => .ok ((.none, byte, operation), 1 + stop)
          | .error failure => .error ⟨1 + failure.position⟩ := by
    intro byte hbyte
    have hmoved := (readOperation_sequential byte).apply_append [byte] rest
    have hmoved : readOperation byte (.ofList (byte :: rest)) (0 + 1) = _ := hmoved
    rw [readEncoding_opcode rfl hbyte, readModified, bind_apply, hmoved]
    cases readOperation byte (.ofList rest) 0 with
    | error failure => rfl
    | ok read => rfl
  obtain ⟨hopcode, hother⟩ := h.not_modifier
  obtain ⟨width, first, second, hexchange, hfirst, hsecond⟩ := h.readOperation
  rw [decode, decode, hplain _ hopcode, hplain _ hother, hfirst, hsecond]
  rcases readRm_exchanges hexchange (.ofList rest) 0 with
    ⟨failure, hfailed, hfailed'⟩ | ⟨operation, other, stop, hoperation, hread, hread'⟩
  · rw [hfailed, hfailed']
    exact .inl ⟨_, rfl, rfl⟩
  · rw [hread, hread']
    exact .inr ⟨_, _, rfl, rfl, hoperation, rfl, rfl⟩

/-! ## Both -/

/-- Short encodings and general ones are decoded as the same operation, whatever follows them,
    and to flip the direction bit of an opcode is to exchange the operands. -/
theorem encodings_agree :
    (∀ short general, Abbreviates short general →
      ∃ operation, operation ≠ .unknown ∧ Encodes short operation ∧ Encodes general operation)
    ∧ ∀ opcode, HasDirection opcode → ∀ rest : List UInt8,
      (∃ failure, decode (.ofList (opcode :: rest)) 0 = .error failure
        ∧ decode (.ofList ((opcode ^^^ 2) :: rest)) 0 = .error failure)
      ∨ ∃ first second, decode (.ofList (opcode :: rest)) 0 = .ok first
        ∧ decode (.ofList ((opcode ^^^ 2) :: rest)) 0 = .ok second
        ∧ first.operation.Exchanges second.operation ∧ first.length = second.length
        ∧ first.prefixes = second.prefixes :=
  ⟨fun _ _ => agrees_of_abbreviates, fun _ => decode_exchanges⟩

/-- `INC CX` in one byte and in two, and `ADD [BX], AL` with its direction flipped. -/
theorem encodings_agree_inc :
    (∃ operation, operation ≠ .unknown ∧ Encodes [0x41] operation ∧ Encodes [0xFF, 0xC1] operation)
      ∧ ∃ first second, decode (.ofList [0x00, 0x07]) 0 = .ok first
        ∧ decode (.ofList [0x02, 0x07]) 0 = .ok second
        ∧ first.operation.Exchanges second.operation := by
  constructor
  · exact encodings_agree.1 [0x41] [0xFF, 0xC1] (.inc 1 (by decide))
  · rcases encodings_agree.2 0x00 (.arith 0 0 (by decide) (by decide)) [0x07] with
      ⟨failure, hfailed, -⟩ | ⟨first, second, hfirst, hsecond, hexchange, -⟩
    · cases hfailed
    · exact ⟨first, second, hfirst, hsecond, hexchange⟩

end Microprocessor.X86
