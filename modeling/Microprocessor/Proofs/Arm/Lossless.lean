import Microprocessor.Proofs.Arm.Layout

/-! # The decoder loses nothing

    Every class of words keeps all the fields of the word that do not select the class,
    and the class fixes the rest.  So an operation and a condition belong to one word
    only, but for the operations of which the word has bits that nothing reads.

      * `Operation.Keeps` is the layout of an operation being a cut of the word, and
        each level of the classification has its lemma;
      * `keeps_conditional` and `keeps_unconditional` put the levels together;
      * `ofWord_lossless` is the result about two words. -/

namespace Microprocessor.Arm

open Classification

/-- The operation's layout, if it has one, is the word cut into fields. -/
def Operation.Keeps (word : UInt32) (operation : Operation) : Prop :=
  operation.hasIgnoredBits = true
    ∨ ∃ widths, totalWidth widths = 28 ∧ operation.layout = cut word widths

/-- An operation that is given as the word keeps it. -/
theorem wholeField_eq (word : UInt32) : [wholeField word] = cut word [28] := by
  show [(28, _)] = [(28, word.toNat / 1 % _)]
  rw [Nat.div_one]

theorem keeps_undefined (word : UInt32) : (Operation.undefined word).Keeps word :=
  .inr ⟨[28], rfl, wholeField_eq word⟩

section Levels

variable (word : UInt32)

/-- The class of a word, of which the last bit is also the first of other fields. -/
theorem bitsAt_class : bitsAt word 25 3 = bitsAt word 26 2 * 2 + bitsAt word 25 1 :=
  bitsAt_add word 25 1 2

/-! ## Data processing -/

theorem fields_rotatedImmediate : (rotatedImmediate word).fields = cut word [4, 8] := by
  have hrotate := @toNat_toUInt8_field word 11 8 (by decide)
  have himm := @toNat_toUInt8_field word 7 0 (by decide)
  rw [rotatedImmediate, ShifterOperand.fields, hrotate, himm]
  rfl

theorem shiftedFields_ofWord (h : bitsAt word 4 1 = 0) :
    shiftedFields (.ofField word 0) (.ofField (field word 6 5)) (field word 11 7).toUInt8
      = cut word [5, 2, 1, 4] := by
  have hamount := @toNat_toUInt8_field word 11 7 (by decide)
  rw [shiftedFields, hamount]
  simp [cut, h]

theorem fields_registerShiftedRegister (h7 : bitsAt word 7 1 = 0) (h4 : bitsAt word 4 1 = 1) :
    (registerShiftedRegister word).fields = cut word [4, 1, 2, 1, 4] := by
  simp [registerShiftedRegister, ShifterOperand.fields, cut, h7, h4]

theorem keeps_dataProcessing (operand : ShifterOperand) (widths : List Nat)
    (hclass : bitsAt word 25 3 = operand.space) (hsum : totalWidth widths = 12)
    (hfields : operand.fields = cut word widths) :
    (dataProcessing word operand).Keeps word := by
  refine .inr ⟨3 :: 4 :: 1 :: 4 :: 4 :: widths, by simp [hsum], ?_⟩
  simp [dataProcessing, Operation.layout, cut, hsum, hclass, hfields]

theorem keeps_moveWide (hclass : bitsAt word 25 3 = 0b001) {top : Bool}
    (hop : bitsAt word 20 5 = if top then 0b10100 else 0b10000) :
    (Operation.moveWide top (.ofField word 12)
      ((field word 19 16 <<< 12) ||| field word 11 0).toUInt16).Keeps word := by
  obtain ⟨hupper, hlower⟩ : ((field word 19 16 <<< 12) ||| field word 11 0).toUInt16.toNat / 4096
        = bitsAt word 16 4
      ∧ ((field word 19 16 <<< 12) ||| field word 11 0).toUInt16.toNat % 4096
        = bitsAt word 0 12 :=
    split_append_field word 12 rfl (by decide)
  refine .inr ⟨[3, 5, 4, 4, 12], rfl, ?_⟩
  rw [Operation.layout, Register.field_ofField, hupper, hlower, ← hop, ← hclass]
  rfl

theorem keeps_immediateSpace (hclass : bitsAt word 25 3 = 0b001) :
    (immediateSpace word).Keeps word := by
  rw [immediateSpace]
  split
  case isTrue hmove =>
    refine keeps_moveWide word hclass ?_
    cases htop : moveTop.accepts (field word 24 20) with
    | true =>
        exact bitsAt_of_pattern htop 0 5 0b10100 (by decide)
    | false =>
        rw [htop, Bool.or_false] at hmove
        exact bitsAt_of_pattern hmove 0 5 0b10000 (by decide)
  case isFalse =>
    split
    case isTrue =>
      exact .inl rfl
    case isFalse =>
      exact keeps_dataProcessing word _ [4, 8] hclass rfl (fields_rotatedImmediate word)

/-! ## Multiplies and halfword transfers -/

theorem keeps_multiply (hclass : bitsAt word 25 3 = 0b000) (h24 : bitsAt word 24 1 = 0)
    (hmark : bitsAt word 4 4 = 0b1001) : (multiply word).Keeps word := by
  rw [multiply]
  split
  case isTrue hplain =>
    have hop : bitsAt word 21 3
        = if multiplyAccumulate.accepts (field word 23 20) then 0b001 else 0b000 := by
      cases haccumulate : multiplyAccumulate.accepts (field word 23 20) with
      | true =>
          exact bitsAt_of_pattern haccumulate 1 3 0b001 (by decide)
      | false =>
          rw [haccumulate, Bool.or_false] at hplain
          exact bitsAt_of_pattern hplain 1 3 0b000 (by decide)
    refine .inr ⟨[3, 1, 3, 1, 4, 4, 4, 4, 4], rfl, ?_⟩
    simp [Operation.layout, cut, hclass, h24, hmark, hop]
  case isFalse =>
    split
    case isTrue hwide =>
      have h23 : bitsAt word 23 1 = 1 := bitsAt_of_pattern hwide 3 1 1 (by decide)
      refine .inr ⟨[3, 1, 1, 1, 1, 1, 4, 4, 4, 4, 4], rfl, ?_⟩
      simp [Operation.layout, cut, hclass, h24, hmark, h23]
    case isFalse =>
      exact keeps_undefined word

theorem keeps_synchronisation : (synchronisation word).Keeps word := by
  rw [synchronisation]
  split
  case isTrue =>
    exact .inl rfl
  case isFalse =>
    exact keeps_undefined word

theorem keeps_halfwordTransfer (hclass : bitsAt word 25 3 = 0b000) (h7 : bitsAt word 7 1 = 1)
    (h4 : bitsAt word 4 1 = 1) (hkind : bitsAt word 5 2 ≠ 0b00) :
    (halfwordTransfer word).Keeps word := by
  obtain ⟨hload, hnumber⟩ := HalfwordKind.fields_ofWord word hkind
  obtain ⟨hupper, hlower⟩ : ((field word 11 8 <<< 4) ||| field word 3 0).toUInt8.toNat / 16
        = bitsAt word 8 4
      ∧ ((field word 11 8 <<< 4) ||| field word 3 0).toUInt8.toNat % 16 = bitsAt word 0 4 :=
    split_append_field word 4 rfl (by decide)
  have h22 := flagField_bit word 22
  rw [halfwordTransfer]
  generalize halfwordKind word = pair at hload hnumber ⊢
  obtain ⟨load, kind⟩ := pair
  cases hbit : bit word 22 with
  | false =>
      exact .inl rfl
  | true =>
      rw [hbit] at h22
      refine .inr ⟨[3, 1, 1, 1, 1, 1, 4, 4, 4, 1, 2, 1, 4], rfl, ?_⟩
      rw [if_pos rfl, Operation.layout, hload, hnumber, hupper, hlower, Indexing.fields_ofWord, h22]
      simp [cut, hclass, h7, h4]

theorem keeps_multiplyOrTransfer (hclass : bitsAt word 25 3 = 0b000) :
    (multiplyOrTransfer word).Keeps word := by
  rw [multiplyOrTransfer]
  split
  case isTrue hmark =>
    split
    case isTrue hproper =>
      exact keeps_multiply word hclass (bitsAt_of_pattern hproper 4 1 0 (by decide))
        (bitsAt_of_pattern hmark 0 4 0b1001 (by decide))
    case isFalse =>
      exact keeps_synchronisation word
  case isFalse =>
    split
    case isTrue htransfer =>
      split
      case isTrue =>
        exact keeps_undefined word
      case isFalse =>
        rcases Bool.or_eq_true_iff.mp htransfer with hhalf | hsigned
        · have hkind : bitsAt word 5 2 = 0b01 := bitsAt_of_pattern hhalf 1 2 0b01 (by decide)
          exact keeps_halfwordTransfer word hclass (bitsAt_of_pattern hhalf 3 1 1 (by decide))
            (bitsAt_of_pattern hhalf 0 1 1 (by decide)) (by omega)
        · have h6 : bitsAt word 6 1 = 1 := bitsAt_of_pattern hsigned 2 1 1 (by decide)
          have hkind : bitsAt word 5 2 = bitsAt word 6 1 * 2 + bitsAt word 5 1 :=
            bitsAt_add word 5 1 1
          exact keeps_halfwordTransfer word hclass (bitsAt_of_pattern hsigned 3 1 1 (by decide))
            (bitsAt_of_pattern hsigned 0 1 1 (by decide)) (by omega)
    case isFalse =>
      exact keeps_undefined word

/-! ## Data processing and miscellaneous instructions with a register -/

theorem keeps_miscellaneous (hclass : bitsAt word 25 3 = 0b000) (h23 : bitsAt word 23 2 = 0b10)
    (h20 : bitsAt word 20 1 = 0) (h7 : bitsAt word 7 1 = 0) :
    (miscellaneous word).Keeps word := by
  have hlow := @toNat_field word 6 4 (by decide)
  have hhigh := @toNat_field word 22 21 (by decide)
  obtain ⟨hupper, hlower⟩ : ((field word 19 8 <<< 4) ||| field word 3 0).toUInt16.toNat / 16
        = bitsAt word 8 12
      ∧ ((field word 19 8 <<< 4) ||| field word 3 0).toUInt16.toNat % 16 = bitsAt word 0 4 :=
    split_append_field word 4 rfl (by decide)
  rw [miscellaneous]
  split
  case h_7 hop2 hop1 =>
    rw [hop2] at hlow
    rw [hop1] at hhigh
    refine .inr ⟨[3, 2, 2, 1, 12, 1, 3, 4], rfl, ?_⟩
    rw [Operation.layout, hupper, hlower]
    simp [cut, hclass, h23, h20, h7, ← hlow, ← hhigh]
  case h_8 =>
    exact keeps_undefined word
  all_goals exact .inl rfl

theorem keeps_registerSpace (hclass : bitsAt word 25 3 = 0b000) :
    (registerSpace word).Keeps word := by
  rw [registerSpace]
  split
  case isTrue hmiscellaneous =>
    split
    case isTrue hproper =>
      exact keeps_miscellaneous word hclass (bitsAt_of_pattern hmiscellaneous 3 2 0b10 (by decide))
        (bitsAt_of_pattern hmiscellaneous 0 1 0 (by decide))
        (bitsAt_of_pattern hproper 3 1 0 (by decide))
    case isFalse =>
      split
      case isTrue =>
        exact keeps_undefined word
      case isFalse =>
        exact keeps_multiplyOrTransfer word hclass
  case isFalse =>
    split
    case isTrue himmediate =>
      exact keeps_dataProcessing word _ [5, 2, 1, 4] hclass rfl (shiftedFields_ofWord word
        (bitsAt_of_pattern himmediate 0 1 0 (by decide)))
    case isFalse =>
      split
      case isTrue hregister =>
        exact keeps_dataProcessing word _ [4, 1, 2, 1, 4] hclass rfl
          (fields_registerShiftedRegister word
            (bitsAt_of_pattern hregister 3 1 0 (by decide))
            (bitsAt_of_pattern hregister 0 1 1 (by decide)))
      case isFalse =>
        exact keeps_multiplyOrTransfer word hclass

/-! ## The other classes -/

theorem keeps_singleTransfer (hclass : bitsAt word 25 3 = 0b010
      ∨ bitsAt word 25 3 = 0b011 ∧ bitsAt word 4 1 = 0) :
    (singleTransfer word).Keeps word := by
  have hsplit := bitsAt_class word
  have hbit := toNat_bit word 25
  rw [singleTransfer]
  cases h25 : bit word 25 with
  | false =>
      rw [h25] at hbit
      have hspace : bitsAt word 25 3 = 0b010 := by
        simp at hbit
        omega
      have hoffset := @toNat_toUInt16_field word 11 0 (by decide)
      refine .inr ⟨[3, 1, 1, 1, 1, 1, 4, 4, 12], rfl, ?_⟩
      rw [if_neg Bool.false_ne_true, Operation.layout, TransferOffset.fields, hoffset]
      simp [TransferOffset.space, cut, hspace]
  | true =>
      rw [h25] at hbit
      obtain ⟨hspace, h4⟩ : bitsAt word 25 3 = 0b011 ∧ bitsAt word 4 1 = 0 := by
        simp at hbit
        omega
      refine .inr ⟨[3, 1, 1, 1, 1, 1, 4, 4, 5, 2, 1, 4], rfl, ?_⟩
      simp [Operation.layout, TransferOffset.space, TransferOffset.fields,
        shiftedFields_ofWord word h4, cut, hspace]

theorem keeps_media : (media word).Keeps word := by
  rw [media]
  split
  case isTrue =>
    exact keeps_undefined word
  case isFalse =>
    exact .inr ⟨[28], rfl, wholeField_eq word⟩

/-- The offset of a branch, as a number of words. -/
theorem toNat_branchOffset :
    ∃ words, words % Nat.pow 2 24 = bitsAt word 0 24
      ∧ (branchOffset word).toUInt32.toNat = words * 4 := by
  have hfield : (field word 23 0).toNat = bitsAt word 0 24 := toNat_field word (by decide)
  have hlt : bitsAt word 0 24 < 16777216 := bitsAt_lt word 0 24
  have hvalue : (branchOffset word).toUInt32.toNat
      = (4 * (bitsAt word 0 24 : Int).bmod 16777216 % 4294967296).toNat := by
    rw [← hfield]
    exact BitVec.toNat_ofInt _
  refine ⟨(branchOffset word).toUInt32.toNat / 4, ?_, ?_⟩
  · show _ % 16777216 = _
    rw [hvalue, Int.bmod_def]
    split <;> omega
  · rw [hvalue, Int.bmod_def]
    split <;> omega

theorem keeps_branch (hclass : bitsAt word 25 3 = 0b101) {link : Bool}
    (hlink : flagField link = (1, bitsAt word 24 1)) :
    (Operation.branch link (branchOffset word)).Keeps word := by
  obtain ⟨words, hwords, hoffset⟩ := toNat_branchOffset word
  refine .inr ⟨[3, 1, 24], rfl, ?_⟩
  rw [Operation.layout, offsetField, hoffset, Nat.mul_div_cancel _ (by decide), hwords, hlink,
    ← hclass]
  rfl

theorem keeps_branchOrBlock (hclass : bitsAt word 25 3 = 0b100 ∨ bitsAt word 25 3 = 0b101) :
    (branchOrBlock word).Keeps word := by
  have hsplit := bitsAt_class word
  rw [branchOrBlock]
  split
  case isTrue hblock =>
    have h25 : bitsAt word 25 1 = 0 := bitsAt_of_pattern hblock 5 1 0 (by decide)
    have hspace : bitsAt word 25 3 = 0b100 := by omega
    have hregisters := @toNat_toUInt16_field word 15 0 (by decide)
    refine .inr ⟨[3, 1, 1, 1, 1, 1, 4, 16], rfl, ?_⟩
    rw [Operation.layout, hregisters]
    simp [cut, hspace]
  case isFalse hbranch =>
    have h25 : bitsAt word 25 1 = 1 :=
      holds_of_pattern (Bool.eq_false_iff.mpr hbranch) 5 1 (· = 1) (by decide)
    refine keeps_branch word (by omega) ?_
    cases hplain : branchPlain.accepts (field word 25 20) with
    | true =>
        rw [bitsAt_of_pattern hplain 4 1 0 (by decide)]
        rfl
    | false =>
        have hnot : bitsAt word 24 2 ≠ 0b10 :=
          holds_of_pattern hplain 4 2 (· ≠ 0b10) (by decide)
        have hpair : bitsAt word 24 2 = bitsAt word 25 1 * 2 + bitsAt word 24 1 :=
          bitsAt_add word 24 1 1
        have hlt : bitsAt word 24 1 < 2 := bitsAt_lt word 24 1
        have h24 : bitsAt word 24 1 = 1 := by omega
        rw [h24]
        rfl

theorem keeps_coprocessorOrSupervisor (hclass : 0b110 ≤ bitsAt word 25 3) :
    (coprocessorOrSupervisor word).Keeps word := by
  rw [coprocessorOrSupervisor]
  split
  case isTrue =>
    exact keeps_undefined word
  case isFalse =>
    split
    case isTrue hsupervisor =>
      have h25 : bitsAt word 25 1 = 1 := bitsAt_of_pattern hsupervisor 5 1 1 (by decide)
      have h24 : bitsAt word 24 1 = 1 := bitsAt_of_pattern hsupervisor 4 1 1 (by decide)
      have hsplit := bitsAt_class word
      have hspace : bitsAt word 25 3 = 0b111 := by
        have := bitsAt_lt word 25 3
        simp at this
        omega
      refine .inr ⟨[3, 1, 24], rfl, ?_⟩
      simp [Operation.layout, cut, hspace, h24, toNat_field]
    case isFalse =>
      exact .inr ⟨[28], rfl, wholeField_eq word⟩

theorem keeps_conditional : (conditional word).Keeps word := by
  have hclass : (field word 27 25).toNat = bitsAt word 25 3 := toNat_field word (by decide)
  rw [conditional]
  split
  case h_1 hspace =>
    exact keeps_registerSpace word (hclass.symm.trans hspace)
  case h_2 hspace =>
    exact keeps_immediateSpace word (hclass.symm.trans hspace)
  case h_3 hspace =>
    exact keeps_singleTransfer word (.inl (hclass.symm.trans hspace))
  case h_4 hspace =>
    split
    case isTrue =>
      exact keeps_media word
    case isFalse h4 =>
      refine keeps_singleTransfer word (.inr ⟨hclass.symm.trans hspace, ?_⟩)
      rw [← toNat_bit, Bool.eq_false_iff.mpr h4]
      rfl
  case h_5 hspace =>
    exact keeps_branchOrBlock word (.inl (hclass.symm.trans hspace))
  case h_6 hspace =>
    exact keeps_branchOrBlock word (.inr (hclass.symm.trans hspace))
  case h_7 h0 h1 h2 h3 h4 h5 =>
    refine keeps_coprocessorOrSupervisor word ?_
    rw [hclass, imp_false] at h0 h1 h2 h3 h4 h5
    omega

/-- Bit 24 of the exchanging branch is the one below the offset in words. -/
theorem keeps_unconditional : (unconditional word).Keeps word := by
  rw [unconditional]
  split
  case isTrue hbranch =>
    have hclass : bitsAt word 25 3 = 0b101 :=
      bitsAt_of_pattern hbranch 5 3 0b101 (by decide +kernel)
    obtain ⟨words, hwords, hoffset⟩ := toNat_branchOffset word
    have h24 := toNat_bit word 24
    have hsum : (branchOffset word ||| (if bit word 24 then 2 else 0)).toUInt32.toNat
        = words * 4 + bitsAt word 24 1 * 2 := by
      rw [Int32.toUInt32_or, UInt32.toNat_or, hoffset, ← h24]
      cases bit word 24 with
      | false =>
          exact Nat.or_zero _
      | true =>
          have hor := @Nat.shiftLeft_add_eq_or_of_lt 2 2 (by decide) words
          rw [Nat.shiftLeft_eq] at hor
          exact hor.symm
    have hlt : bitsAt word 24 1 < 2 := bitsAt_lt word 24 1
    have hhalf : (words * 4 + bitsAt word 24 1 * 2) / 2 % 2 = bitsAt word 24 1 := by omega
    have hquarter : (words * 4 + bitsAt word 24 1 * 2) / 4 = words := by omega
    refine .inr ⟨[3, 1, 24], rfl, ?_⟩
    rw [Operation.layout, offsetField, hsum, hhalf, hquarter, hwords, ← hclass]
    rfl
  case isFalse =>
    exact .inr ⟨[28], rfl, wholeField_eq word⟩

end Levels

/-! ## Whole words -/

/-- Every word's operation keeps the word below the condition. -/
theorem keeps_ofWord (word : UInt32) : (Instruction.ofWord word).operation.Keeps word := by
  show (classify word).2.Keeps word
  rw [classify]
  split
  case h_1 =>
    exact keeps_unconditional word
  case h_2 =>
    exact keeps_conditional word

/-- The condition of an instruction is the one in the uppermost field. -/
theorem condition_ofWord (word : UInt32) :
    (Instruction.ofWord word).condition.field = bitsAt word 28 4 := by
  have hcondition : (Instruction.ofWord word).condition = Condition.ofField (field word 31 28) := by
    show (classify word).1 = _
    rw [classify]
    split
    case h_1 hspace =>
      exact hspace.symm
    case h_2 =>
      rfl
  rw [hcondition, Condition.field_ofField]

/-- A word, put together again from its condition and its operation. -/
theorem toNat_eq_join_layout (word : UInt32)
    (h : (Instruction.ofWord word).operation.hasIgnoredBits = false) :
    word.toNat = (Instruction.ofWord word).condition.field * Nat.pow 2 28
      + join (Instruction.ofWord word).operation.layout := by
  rcases keeps_ofWord word with hignored | ⟨widths, hsum, hlayout⟩
  · rw [h] at hignored
    contradiction
  · have hwhole : bitsAt word 0 32 = bitsAt word 28 4 * Nat.pow 2 28 + bitsAt word 0 28 :=
      bitsAt_add word 0 28 4
    rw [hlayout, join_cut, hsum, condition_ofWord, ← hwhole]
    show word.toNat = word.toNat / 1 % Nat.pow 2 32
    rw [Nat.div_one, Nat.mod_eq_of_lt word.toNat_lt]

/-- Two words with one condition and one operation are the same word, unless the operation
    is a swap, a transfer from or to a status register, a branch to a register, a count of
    leading zeros or a halfword transfer with its offset in a register. -/
theorem ofWord_lossless (first second : UInt32) (hne : first ≠ second)
    (hcondition : (Instruction.ofWord first).condition = (Instruction.ofWord second).condition)
    (hoperation : (Instruction.ofWord first).operation = (Instruction.ofWord second).operation) :
    (Instruction.ofWord first).operation.hasIgnoredBits = true := by
  cases hkept : (Instruction.ofWord first).operation.hasIgnoredBits with
  | true =>
      rfl
  | false =>
      have hfirst := toNat_eq_join_layout first hkept
      have hsecond := toNat_eq_join_layout second (hoperation ▸ hkept)
      rw [hcondition, hoperation, ← hsecond] at hfirst
      exact absurd (UInt32.toNat_inj.mp hfirst) hne

/-- The bits of a branch to a register that should be one can be zero. -/
theorem ofWord_lossless_branchExchange :
    (0xE12FFF1E : UInt32) ≠ 0xE120001E
      ∧ (Instruction.ofWord 0xE12FFF1E).condition = (Instruction.ofWord 0xE120001E).condition
      ∧ (Instruction.ofWord 0xE12FFF1E).operation = (Instruction.ofWord 0xE120001E).operation
      ∧ (Instruction.ofWord 0xE12FFF1E).operation.hasIgnoredBits = true := by
  have hne : (0xE12FFF1E : UInt32) ≠ 0xE120001E := by decide
  have hcondition : (Instruction.ofWord 0xE12FFF1E).condition
      = (Instruction.ofWord 0xE120001E).condition := by decide
  have hoperation : (Instruction.ofWord 0xE12FFF1E).operation
      = (Instruction.ofWord 0xE120001E).operation := by decide
  exact ⟨hne, hcondition, hoperation,
    ofWord_lossless 0xE12FFF1E 0xE120001E hne hcondition hoperation⟩

end Microprocessor.Arm
