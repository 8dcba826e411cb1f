import Microprocessor.Proofs.Encoding.Taken
import Microprocessor.X86.Instruction

/-! # How operations are spelled

    The way back from an operation to its encoding: the bytes that follow the
    opcode, written out from the operation and the opcode alone.  The opcode picks
    among the forms that an operation has, such as the short forms with the
    accumulator.

      * `Operand.spelling` is the ModRM byte of an operand with its displacement,
        and `ModRM.readOperand_takes` says that it is what is read for the operand;
      * `Operation.spelling` is what follows the opcode;
      * `Spells` also has the second spelling of a test with an immediate, and
        leaves open how an encoding goes on that is not recognised. -/

namespace Microprocessor.X86

open ByteReader

/-! ## Numbers -/

/-- The register's number. -/
def ByteRegister.index : ByteRegister → Nat
  | .al => 0
  | .cl => 1
  | .dl => 2
  | .bl => 3
  | .ah => 4
  | .ch => 5
  | .dh => 6
  | .bh => 7

/-- The register's number, of either width. -/
def Register.number : Register → UInt8
  | .byte register => .ofNat register.index
  | .word register => .ofNat register.index

/-- The `r/m` field of a base.  A fixed offset takes the place of BP without a
    displacement. -/
def AddressBase.number : AddressBase → UInt8
  | .bxSi => 0
  | .bxDi => 1
  | .bpSi => 2
  | .bpDi => 3
  | .si => 4
  | .di => 5
  | .bp | .direct => 6
  | .bx => 7

/-- The operation's number. -/
def ArithOp.number : ArithOp → UInt8
  | .add => 0
  | .or => 1
  | .adc => 2
  | .sbb => 3
  | .and => 4
  | .sub => 5
  | .xor => 6
  | .cmp => 7

/-- The operation's number. -/
def IncDecOp.number : IncDecOp → UInt8
  | .inc => 0
  | .dec => 1

/-- The operation's number among those with one operand. -/
def UnaryOp.number : UnaryOp → UInt8
  | .not => 2
  | .neg => 3

/-- The operation's number among those with one operand. -/
def MulDivOp.number : MulDivOp → UInt8
  | .mul => 4
  | .imul => 5
  | .div => 6
  | .idiv => 7

/-- The operation's number. -/
def ShiftOp.number : ShiftOp → UInt8
  | .rol => 0
  | .ror => 1
  | .rcl => 2
  | .rcr => 3
  | .shl => 4
  | .shr => 5
  | .sar => 7

/-! ## The ModRM byte and what belongs to it -/

/-- The byte of the fields. -/
def ModRM.byte (modrm : ModRM) : UInt8 :=
  modrm.mode <<< 6 ||| modrm.reg <<< 3 ||| modrm.rm

/-- The mode of a memory operand. -/
def EffectiveAddress.mode (address : EffectiveAddress) : UInt8 :=
  if address.base = .direct then 0b00
  else
    match address.displacementBytes with
    | 0 => 0b00
    | 1 => 0b01
    | _ => 0b10

/-- The displacement of a memory operand. -/
def EffectiveAddress.displacementSpelling (address : EffectiveAddress) : List UInt8 :=
  match address.displacementBytes with
  | 0 => []
  | 1 => [lowByte address.displacement]
  | _ => bytesOfWord address.displacement

/-- A memory operand beside a `reg` field. -/
def EffectiveAddress.spelling (reg : UInt8) (address : EffectiveAddress) : List UInt8 :=
  ModRM.byte ⟨address.mode, reg, address.base.number⟩ :: address.displacementSpelling

namespace Operand

/-- An operand beside a `reg` field. -/
def spelling (reg : UInt8) : Operand → List UInt8
  | .register r => [ModRM.byte ⟨0b11, reg, r.number⟩]
  | .memory address => address.spelling reg
  | .segment _ | .immediate _ => []

/-- The `reg` field of an operand. -/
def number : Operand → UInt8
  | .register r => r.number
  | .segment r => .ofNat r.index
  | .memory _ | .immediate _ => 0

/-- An immediate value. -/
def immediateSpelling : Width → Operand → List UInt8
  | .byte, .immediate value => [lowByte value]
  | .word, .immediate value => bytesOfWord value
  | _, _ => []

/-- A fixed offset without a ModRM byte. -/
def offsetSpelling : Operand → List UInt8
  | .memory address => bytesOfWord address.displacement
  | _ => []

end Operand

/-- A register and another operand, in the order of the direction bit. -/
def directedSpelling (opcode : UInt8) (dst src : Operand) : List UInt8 :=
  let (rm, reg) := Template.directed opcode dst src
  rm.spelling reg.number

/-- The port of a port instruction. -/
def Port.spelling : Port → List UInt8
  | .immediate number => [number]
  | .dx => []

/-! ## Operations -/

/-- The bytes that follow the opcode. -/
def Operation.spelling (opcode : UInt8) : Operation → List UInt8
  | .arith op width dst src =>
    if Template.arithRm.recognises opcode then directedSpelling opcode dst src
    else if Template.arithAccumulator.recognises opcode then src.immediateSpelling width
    else dst.spelling op.number ++ src.immediateSpelling (if opcode = 0x83 then .byte else width)
  | .test width dst src =>
    if Template.testXchgRm.recognises opcode then dst.spelling src.number
    else if Template.testAccumulator.recognises opcode then src.immediateSpelling width
    else dst.spelling 0 ++ src.immediateSpelling width
  | .incDec op _ target =>
    if Template.incDecRegister.recognises opcode then [] else target.spelling op.number
  | .unary op _ target => target.spelling op.number
  | .mulDiv op _ source => source.spelling op.number
  | .shift op _ target _ => target.spelling op.number
  | .mov width dst src =>
    if Template.movRm.recognises opcode || Template.movSegment.recognises opcode then
      directedSpelling opcode dst src
    else if Template.movAccumulatorMemory.recognises opcode then
      (if opcode &&& 0b10 = 0 then src else dst).offsetSpelling
    else if Template.movRegisterImmediate.recognises opcode then src.immediateSpelling width
    else dst.spelling 0 ++ src.immediateSpelling width
  | .xchg _ a b =>
    if Template.xchgAccumulator.recognises opcode then [] else b.spelling a.number
  | .lea dst address | .loadFarPointer _ dst address => address.spelling (.ofNat dst.index)
  | .push operand => if opcode = 0xFF then operand.spelling 6 else []
  | .pop operand => if opcode = 0x8F then operand.spelling 0 else []
  | .asciiAdjustMultiply base | .asciiAdjustDivide base => [base]
  | .jumpConditional _ displacement | .loop _ displacement => [displacement.toUInt8]
  | .jumpRelative displacement =>
    if opcode = 0xEB then [lowByte displacement.toUInt16] else bytesOfWord displacement.toUInt16
  | .callRelative displacement => bytesOfWord displacement.toUInt16
  | .jumpFar segment offset | .callFar segment offset => bytesOfWord offset ++ bytesOfWord segment
  | .callIndirect target => target.spelling 2
  | .callFarIndirect address => address.spelling 3
  | .jumpIndirect target => target.spelling 4
  | .jumpFarIndirect address => address.spelling 5
  | .ret count | .retFar count => if opcode &&& 1 = 0 then bytesOfWord count else []
  | .interrupt vector => if opcode = 0xCD then [vector] else []
  | .input _ port | .output _ port => port.spelling
  | .escape number operand => operand.spelling (number &&& 7)
  | .pushFlags | .popFlags | .storeAhIntoFlags | .loadAhFromFlags | .convertByteToWord
  | .convertWordToDouble | .translate | .adjust _ | .interruptOnOverflow | .interruptReturn
  | .string _ _ | .flag _ | .halt | .wait | .unknown => []

/-- The bytes may follow the opcode in an encoding of the operation. -/
inductive Spells (opcode : UInt8) : Operation → List UInt8 → Prop
  | unknown (bytes : List UInt8) : Spells opcode .unknown bytes
  | plain (operation : Operation) : Spells opcode operation (operation.spelling opcode)
  /-- Slot 1 beside slot 0. -/
  | test (width : Width) (target src : Operand) (h : opcode = 0xF6 ∨ opcode = 0xF7) :
      Spells opcode (.test width target src) (target.spelling 1 ++ src.immediateSpelling width)

/-- The plain spelling, given by an equation. -/
theorem Spells.of_eq {opcode : UInt8} {operation : Operation} {bytes : List UInt8}
    (h : bytes = operation.spelling opcode) : Spells opcode operation bytes :=
  h ▸ .plain operation

/-! ## Numbers are what is read -/

/-- The low three bits, as a number. -/
theorem and_seven (n : UInt8) : n &&& 7 = .ofNat (n.toNat % 8) := by
  have hlt : n.toNat % 8 < 8 := Nat.mod_lt _ (by decide)
  apply UInt8.toNat_inj.mp
  rw [UInt8.toNat_and, UInt8.toNat_ofNat_of_lt' (Nat.lt_trans hlt (by decide))]
  exact Nat.and_two_pow_sub_one_eq_mod n.toNat 3

/-- A number of three bits is below 8. -/
theorem toNat_lt_of_and_seven {n : UInt8} (h : n &&& 7 = n) : n.toNat < 8 := by
  rw [← h, UInt8.toNat_and]
  exact Nat.lt_of_le_of_lt Nat.and_le_right (by decide)

theorem Register.number_ofIndex (width : Width) (n : UInt8) :
    (ofIndex width n).number = n &&& 7 := by
  have hlt : n.toNat % 8 < 8 := Nat.mod_lt _ (by decide)
  rw [and_seven]
  cases width with
  | byte =>
      rw [ofIndex, ByteRegister.ofIndex]
      generalize n.toNat % 8 = k at hlt
      revert k
      decide
  | word =>
      rw [ofIndex, WordRegister.ofIndex]
      generalize n.toNat % 8 = k at hlt
      revert k
      decide

/-- The `reg` field of the register that it names. -/
theorem ModRM.number_regOperand {modrm : ModRM} (h : modrm.reg &&& 7 = modrm.reg)
    (width : Width) : (modrm.regOperand width).number = modrm.reg := by
  show (Register.ofIndex width modrm.reg).number = modrm.reg
  rw [Register.number_ofIndex, h]

theorem WordRegister.ofNat_index_ofIndex (n : UInt8) :
    UInt8.ofNat (ofIndex n).index = n &&& 7 :=
  Register.number_ofIndex .word n

theorem SegmentRegister.ofNat_index_ofIndex {n : UInt8} (h : ¬3 < n) :
    UInt8.ofNat (ofIndex n).index = n := by
  have hlt : n.toNat < 4 := Nat.lt_succ_of_le (Nat.le_of_not_lt h)
  rw [← UInt8.ofNat_toNat (x := n)]
  generalize n.toNat = k at hlt
  revert k
  decide

theorem AddressBase.number_ofRm (rm : UInt8) : (ofRm rm).number = rm &&& 7 := by
  have hlt : rm.toNat % 8 < 8 := Nat.mod_lt _ (by decide)
  rw [and_seven, ofRm]
  generalize rm.toNat % 8 = k at hlt
  revert k
  decide

theorem ArithOp.number_ofIndex (n : UInt8) : (ofIndex n).number = n &&& 7 := by
  have hlt : n.toNat % 8 < 8 := Nat.mod_lt _ (by decide)
  rw [and_seven, ofIndex]
  generalize n.toNat % 8 = k at hlt
  revert k
  decide

/-- The operands of an encoding, put into the order of the direction bit, are
    spelled as they stand in it. -/
theorem directedSpelling_directed (opcode : UInt8) (rm reg : Operand) :
    directedSpelling opcode (Template.directed opcode rm reg).1
        (Template.directed opcode rm reg).2
      = rm.spelling reg.number := by
  by_cases h : opcode &&& 0b10 = 0
  · simp only [directedSpelling, Template.directed, if_pos h]
  · simp only [directedSpelling, Template.directed, if_neg h]

/-! ## Fields are what is read -/

/-- What is asked of every byte can be tested. -/
instance decidableForallByte {p : UInt8 → Prop} [DecidablePred p] : Decidable (∀ b, p b) :=
  decidable_of_iff (∀ bits : BitVec 8, p ⟨bits⟩) ⟨fun h b => h b.toBitVec, fun h bits => h ⟨bits⟩⟩

namespace ModRM

/-- A byte is made of its fields. -/
theorem byte_ofByte (b : UInt8) : (ofByte b).byte = b := by
  revert b
  decide +kernel

/-- Two bits are the mode, three name a register and three more the operand. -/
theorem ofByte_fields (b : UInt8) :
    ((ofByte b).mode = 0b00 ∨ (ofByte b).mode = 0b01 ∨ (ofByte b).mode = 0b10
        ∨ (ofByte b).mode = 0b11)
      ∧ (ofByte b).reg &&& 7 = (ofByte b).reg ∧ (ofByte b).rm &&& 7 = (ofByte b).rm := by
  have hmode : (b >>> 6).toNat < 4 := by
    have hbyte := b.toNat_lt
    rw [UInt8.toNat_shiftRight, Nat.shiftRight_eq_div_pow]
    show b.toNat / 64 < 4
    omega
  refine ⟨?_, ?_, ?_⟩
  · simp only [← UInt8.toNat_inj]
    show (b >>> 6).toNat = 0 ∨ (b >>> 6).toNat = 1 ∨ (b >>> 6).toNat = 2 ∨ (b >>> 6).toNat = 3
    omega
  · exact UInt8.and_assoc (b >>> 3) 7 7
  · exact UInt8.and_assoc b 7 7

end ModRM

/-- The base that a number selects is not that of a fixed offset. -/
theorem AddressBase.ofRm_ne_direct (rm : UInt8) : ofRm rm ≠ .direct := by
  rw [ofRm]
  split
  all_goals nofun

/-- A memory operand with a base, spelled with the fields of a byte. -/
theorem EffectiveAddress.spelling_ofRm {b : UInt8} (displacement : UInt16) (size : Nat)
    (hmode : (EffectiveAddress.mk (.ofRm (ModRM.ofByte b).rm) displacement size).mode
      = (ModRM.ofByte b).mode) :
    (EffectiveAddress.mk (.ofRm (ModRM.ofByte b).rm) displacement size).spelling
        (ModRM.ofByte b).reg
      = b :: (EffectiveAddress.mk (.ofRm (ModRM.ofByte b).rm) displacement size).displacementSpelling
      := by
  obtain ⟨-, -, hrm⟩ := ModRM.ofByte_fields b
  rw [spelling, hmode, AddressBase.number_ofRm, hrm]
  exact congrArg (· :: _) (ModRM.byte_ofByte b)

/-! ## What is read is the spelling -/

theorem lowByte_signExtendByte (byte : UInt8) : lowByte (signExtendByte byte) = byte := by
  apply UInt8.toBitVec_inj.mp
  show (byte.toBitVec.signExtend 16).setWidth 8 = byte.toBitVec
  ext i hi
  have hwide : i < 16 := by omega
  simp [BitVec.getElem_signExtend, hi, hwide]

theorem lowByte_toUInt16 (byte : UInt8) : lowByte byte.toUInt16 = byte :=
  UInt8.toUInt8_toUInt16 byte

/-- What is read for a memory operand is its displacement, and the ModRM byte
    before it tells the rest. -/
theorem ModRM.readAddress_takes {b : UInt8} (h : (ofByte b).isRegister = false) :
    Takes (fun address bytes => address.spelling (ofByte b).reg = b :: bytes)
      (ofByte b).readAddress := by
  have hbase := AddressBase.ofRm_ne_direct (ofByte b).rm
  rw [readAddress]
  split
  · rename_i hmode
    split
    · rename_i hrm
      -- The one number that stands for no base.
      refine takes_nextWord.compute ?_
      rintro offset _ rfl
      have hbyte : byte ⟨0b00, (ofByte b).reg, 0b110⟩ = b := by
        rw [← hmode, ← hrm]
        exact byte_ofByte b
      exact congrArg (· :: bytesOfWord offset) hbyte
    · refine takes_pure ?_
      exact EffectiveAddress.spelling_ofRm 0 0 ((if_neg hbase).trans hmode.symm)
  · rename_i hmode
    split
    · rename_i hmode
      refine takes_nextByte.compute ?_
      rintro displacement _ rfl
      have hspelling := EffectiveAddress.spelling_ofRm (signExtendByte displacement) 1
        ((if_neg hbase).trans hmode.symm)
      refine hspelling.trans ?_
      show b :: [lowByte (signExtendByte displacement)] = _
      rw [lowByte_signExtendByte]
    · rename_i hother
      refine takes_nextWord.compute ?_
      rintro displacement _ rfl
      have hmode : (ofByte b).mode = 0b10 := by
        obtain ⟨h0 | h1 | h2 | h3, -, -⟩ := ofByte_fields b
        · exact absurd h0 hmode
        · exact absurd h1 hother
        · exact h2
        · rw [isRegister, h3] at h
          cases h
      exact EffectiveAddress.spelling_ofRm displacement 2 ((if_neg hbase).trans hmode.symm)

/-- The same for the operand that a ModRM byte names. -/
theorem ModRM.readOperand_takes (b : UInt8) (width : Width) :
    Takes (fun operand bytes => operand.spelling (ofByte b).reg = b :: bytes)
      ((ofByte b).readOperand width) := by
  rw [readOperand]
  split
  · rename_i hregister
    refine takes_pure ?_
    obtain ⟨-, -, hrm⟩ := ofByte_fields b
    have hmode : (ofByte b).mode = 0b11 := eq_of_beq hregister
    show [byte ⟨0b11, (ofByte b).reg, (Register.ofIndex width (ofByte b).rm).number⟩] = [b]
    rw [Register.number_ofIndex, hrm, ← hmode]
    exact congrArg (· :: []) (byte_ofByte b)
  · rename_i hmemory
    refine (readAddress_takes (Bool.eq_false_iff.mpr hmemory)).compute ?_
    intro address bytes hbytes
    exact hbytes

theorem readImmediate_takes (width : Width) :
    Takes (fun value bytes => bytes = (Operand.immediate value).immediateSpelling width)
      (readImmediate width) := by
  cases width with
  | byte =>
      refine takes_nextByte.compute ?_
      rintro byte _ rfl
      show [byte] = [lowByte byte.toUInt16]
      rw [lowByte_toUInt16]
  | word => exact takes_nextWord

theorem ModRM.read_takes :
    Takes (fun modrm bytes => ∃ b, modrm = .ofByte b ∧ bytes = [b]) ModRM.read := by
  refine takes_nextByte.compute ?_
  intro b bytes hbytes
  exact ⟨b, rfl, hbytes⟩

/-- A ModRM byte and the operand it names, followed by anything. -/
theorem takes_rm {wanted : Operation → List UInt8 → Prop} {width : Width}
    {rest : ModRM → Operand → ByteReader Operation}
    (h : ∀ modrm rm, modrm.reg &&& 7 = modrm.reg →
      Takes (fun operation bytes => wanted operation (rm.spelling modrm.reg ++ bytes))
        (rest modrm rm)) :
    Takes wanted (ModRM.read >>= fun modrm => modrm.readOperand width >>= rest modrm) := by
  refine ModRM.read_takes.bind ?_
  rintro _ _ ⟨b, rfl, rfl⟩
  refine (ModRM.readOperand_takes b width).bind ?_
  intro rm bytes hrm
  have hrest := h (.ofByte b) rm (ModRM.ofByte_fields b).2.1
  rw [hrm] at hrest
  exact hrest

/-- A ModRM byte and the memory operand it names, if it does. -/
theorem takes_address {wanted : Operation → List UInt8 → Prop} {register : ModRM → Operation}
    {memory : ModRM → EffectiveAddress → Operation}
    (hregister : ∀ modrm bytes, wanted (register modrm) bytes)
    (hmemory : ∀ modrm address, modrm.reg &&& 7 = modrm.reg →
      wanted (memory modrm address) (address.spelling modrm.reg)) :
    Takes wanted (ModRM.read >>= fun modrm =>
      if modrm.isRegister then pure (register modrm)
      else modrm.readAddress >>= fun address => pure (memory modrm address)) := by
  refine ModRM.read_takes.bind ?_
  rintro _ _ ⟨b, rfl, rfl⟩
  split
  · exact takes_pure (hregister _ _)
  · rename_i h
    refine (ModRM.readAddress_takes (Bool.eq_false_iff.mpr h)).compute ?_
    intro address bytes hbytes
    have hspelling := hmemory (.ofByte b) address (ModRM.ofByte_fields b).2.1
    rw [hbytes] at hspelling
    exact hspelling

end Microprocessor.X86
