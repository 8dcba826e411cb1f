import Microprocessor.Proofs.X86.Cells
import Microprocessor.Proofs.X86.Flags
import Microprocessor.Proofs.X86.Stack

/-! # The flags between operations

    Of the sixteen bits of the flags nine belong to a flag and can be written,
    and the others are never stored.  So nothing of the flags is lost where they
    are saved, on the stack or in AH.

      * `Flags.ChangesOnly` says which flags an operation can change, and
        `Alu.Computation.changesOnly` says so of the arithmetic unit;
      * `Flags.Canonical` is what the stored bits are like, and
        `Flags.Canonical.afterAll` keeps it along any changes;
      * `Flags.Canonical.restore_word` and `Flags.restoreLowByte_lowByte` are the
        two ways out and back. -/

namespace Microprocessor.X86

/-! ## Bits and flags -/

/-- The flags that describe a result. -/
def Flag.arithmetic : List Flag :=
  [.carry, .parity, .auxiliaryCarry, .zero, .sign, .overflow]

/-- The flags of the low byte. -/
def Flag.low : List Flag :=
  [.sign, .zero, .auxiliaryCarry, .parity, .carry]

namespace Flags

/-- The bits that can be written are those of the flags. -/
theorem getLsbD_writable : ∀ i < 16,
    writable.toBitVec.getLsbD i = decide (i ∈ Flag.all.map Flag.index) := by
  decide

/-- The bits of the low byte that can be written are those of its flags. -/
theorem getLsbD_lowWritable : ∀ i < 16,
    lowWritable.toBitVec.getLsbD i = decide (i ∈ Flag.low.map Flag.index) := by
  decide

/-- Every flag is among all of them. -/
theorem mem_all (flag : Flag) : flag ∈ Flag.all := by
  cases flag <;> decide

/-! ## What can change -/

/-- Beside those of some flags, no stored bit has changed. -/
def ChangesOnly (before : Flags) (flags : List Flag) (after : Flags) : Prop :=
  ∀ i < 16, i ∉ flags.map Flag.index →
    after.stored.toBitVec.getLsbD i = before.stored.toBitVec.getLsbD i

namespace ChangesOnly

variable {flags : List Flag}

theorem refl (before : Flags) : before.ChangesOnly flags before :=
  fun _ _ _ => rfl

theorem trans {a b c : Flags} (hab : a.ChangesOnly flags b) (hbc : b.ChangesOnly flags c) :
    a.ChangesOnly flags c :=
  fun i hi hother => (hbc i hi hother).trans (hab i hi hother)

/-- Setting one of the flags changes no other bit. -/
theorem set {before after : Flags} (h : before.ChangesOnly flags after) {flag : Flag}
    (hflag : flag ∈ flags) (value : Bool) : before.ChangesOnly flags (after.set flag value) := by
  intro i hi hother
  have hindex : flag.index ≠ i := by
    rintro rfl
    exact hother (List.mem_map_of_mem hflag)
  rw [getLsbD_set after flag value hi, if_neg hindex]
  exact h i hi hother

end ChangesOnly

/-! ## Stored bits -/

/-- No bit is stored but those of the flags. -/
def Canonical (flags : Flags) : Prop :=
  flags.stored &&& ~~~writable = 0

instance : DecidablePred Canonical :=
  fun flags => inferInstanceAs (Decidable (flags.stored &&& ~~~writable = 0))

/-- Such flags differ from clear ones in flags alone. -/
theorem canonical_iff {flags : Flags} :
    flags.Canonical ↔ clear.ChangesOnly Flag.all flags := by
  have hmasked : ∀ i < 16, (flags.stored &&& ~~~writable).toBitVec.getLsbD i
      = (flags.stored.toBitVec.getLsbD i && !decide (i ∈ Flag.all.map Flag.index)) := by
    intro i hi
    rw [UInt16.toBitVec_and, UInt16.toBitVec_not, BitVec.getLsbD_and, BitVec.getLsbD_not,
      decide_eq_true hi, Bool.true_and, getLsbD_writable i hi]
  constructor
  · intro h i hi hother
    have hbit := hmasked i hi
    rw [show flags.stored &&& ~~~writable = 0 from h, decide_eq_false hother, Bool.not_false,
      Bool.and_true] at hbit
    exact hbit.symm
  · intro h
    refine UInt16.toBitVec_inj.mp (BitVec.eq_of_getLsbD_eq fun i hi => ?_)
    rw [hmasked i hi]
    by_cases hflag : i ∈ Flag.all.map Flag.index
    · rw [decide_eq_true hflag, Bool.not_true, Bool.and_false]
      exact BitVec.getLsbD_zero.symm
    · rw [h i hi hflag]
      show ((0#16).getLsbD i && _) = (0#16).getLsbD i
      rw [BitVec.getLsbD_zero, Bool.false_and]

/-- What changes flags alone stores no other bit. -/
theorem ChangesOnly.canonical {before after : Flags} {flags : List Flag}
    (h : before.ChangesOnly flags after) (hbefore : before.Canonical) : after.Canonical := by
  refine canonical_iff.mpr ((canonical_iff.mp hbefore).trans fun i hi hother => ?_)
  refine h i hi fun hmem => hother ?_
  obtain ⟨flag, -, hindex⟩ := List.mem_map.mp hmem
  exact hindex ▸ List.mem_map_of_mem (mem_all flag)

theorem canonical_clear : Canonical clear :=
  rfl

/-- Nothing but flags is taken from a word. -/
theorem canonical_restore (value : UInt16) : (restore value).Canonical := by
  rw [Canonical, restore, UInt16.and_assoc]
  exact UInt16.and_zero

/-! ## Out and back -/

/-- A flag's bit is the same in the word as where it is stored. -/
theorem getLsbD_word (flags : Flags) {i : Nat} (hi : i < 16) (hflag : i ∈ Flag.all.map Flag.index) :
    flags.word.toBitVec.getLsbD i = flags.stored.toBitVec.getLsbD i := by
  have hmasked := congrArg (fun word => word.toBitVec.getLsbD i) flags.word_and_writable
  simp only [UInt16.toBitVec_and, BitVec.getLsbD_and, getLsbD_writable i hi, hflag, decide_true,
    Bool.and_true] at hmasked
  exact hmasked

/-- Such flags have nothing to mask. -/
theorem Canonical.stored_and_writable {flags : Flags} (h : flags.Canonical) :
    flags.stored &&& writable = flags.stored := by
  refine UInt16.toBitVec_inj.mp (BitVec.eq_of_getLsbD_eq fun i hi => ?_)
  rw [UInt16.toBitVec_and, BitVec.getLsbD_and, getLsbD_writable i hi]
  by_cases hflag : i ∈ Flag.all.map Flag.index
  · rw [decide_eq_true hflag, Bool.and_true]
  · have hclear : flags.stored.toBitVec.getLsbD i = false :=
      (canonical_iff.mp h i hi hflag).trans BitVec.getLsbD_zero
    rw [hclear, Bool.false_and]

/-- The word adds the bits that read as ones to those that are stored. -/
theorem Canonical.toNat_word {flags : Flags} (h : flags.Canonical) :
    flags.word.toNat = flags.stored.toNat + reservedOnes.toNat := by
  have hdisjoint : flags.stored.toBitVec &&& reservedOnes.toBitVec = 0#16 := by
    rw [← h.stored_and_writable, UInt16.toBitVec_and, BitVec.and_assoc]
    exact BitVec.and_zero
  rw [word, h.stored_and_writable]
  calc (flags.stored.toBitVec ||| reservedOnes.toBitVec).toNat
      = (flags.stored.toBitVec + reservedOnes.toBitVec).toNat := by
        rw [BitVec.add_eq_or_of_and_eq_zero _ _ hdisjoint]
    _ = flags.stored.toNat + reservedOnes.toNat :=
        BitVec.toNat_add_of_and_eq_zero hdisjoint

/-- The flags survive being saved as a word. -/
theorem Canonical.restore_word {flags : Flags} (h : flags.Canonical) :
    restore flags.word = flags := by
  rw [restore, word_and_writable, h.stored_and_writable]

/-- The low byte puts back its flags alone. -/
theorem getLsbD_restoreLowByte (flags : Flags) (value : UInt8) {i : Nat} (hi : i < 16) :
    (flags.restoreLowByte value).stored.toBitVec.getLsbD i
      = if i ∈ Flag.low.map Flag.index then value.toBitVec.getLsbD i
        else flags.stored.toBitVec.getLsbD i := by
  have hlow := getLsbD_lowWritable i hi
  have hvalue : value.toUInt16.toBitVec.getLsbD i = value.toBitVec.getLsbD i := by
    rw [UInt8.toBitVec_toUInt16, BitVec.getLsbD_setWidth, decide_eq_true hi, Bool.true_and]
  rw [restoreLowByte, UInt16.toBitVec_or, UInt16.toBitVec_and, UInt16.toBitVec_and,
    UInt16.toBitVec_not, BitVec.getLsbD_or, BitVec.getLsbD_and, BitVec.getLsbD_and,
    BitVec.getLsbD_not, decide_eq_true hi, hlow, hvalue]
  by_cases hflag : i ∈ Flag.low.map Flag.index
  · simp [hflag]
  · simp [hflag]

theorem changesOnly_restoreLowByte (flags : Flags) (value : UInt8) :
    flags.ChangesOnly Flag.low (flags.restoreLowByte value) := by
  intro i hi hother
  rw [getLsbD_restoreLowByte flags value hi, if_neg hother]

/-- The flags survive being saved as a low byte. -/
theorem restoreLowByte_lowByte (flags : Flags) : flags.restoreLowByte flags.lowByte = flags := by
  refine eq_of_getLsbD_eq fun i hi => ?_
  rw [getLsbD_restoreLowByte flags _ hi]
  split
  · rename_i hlow
    obtain ⟨hbyte, hflag⟩ : i < 8 ∧ i ∈ Flag.all.map Flag.index := by
      revert i
      decide
    rw [lowByte, UInt16.toBitVec_toUInt8, BitVec.getLsbD_setWidth, decide_eq_true hbyte,
      Bool.true_and, getLsbD_word flags hi hflag]
  · rfl

end Flags

/-! ## The arithmetic unit -/

namespace Alu

/-- What the arithmetic unit can be asked to compute, with all that it takes beside
    the flags.  The complement and the division are not among it: they neither take
    nor leave flags. -/
inductive Computation
  | add (width : Width) (a b : UInt16)
  | adc (width : Width) (a b : UInt16)
  | sub (width : Width) (a b : UInt16)
  | sbb (width : Width) (a b : UInt16)
  | cmp (width : Width) (a b : UInt16)
  | inc (width : Width) (a : UInt16)
  | dec (width : Width) (a : UInt16)
  | neg (width : Width) (a : UInt16)
  | and (width : Width) (a b : UInt16)
  | or (width : Width) (a b : UInt16)
  | xor (width : Width) (a b : UInt16)
  | test (width : Width) (a b : UInt16)
  | shift (op : ShiftOp) (width : Width) (value : UInt16) (count : UInt8)
  | multiply (width : Width) (signed : Bool) (a b : UInt16)
  | daa (al : UInt8)
  | das (al : UInt8)
  | aaa (ax : UInt16)
  | aas (ax : UInt16)
  | aam (al base : UInt8)
  | aad (ax : UInt16) (base : UInt8)

/-- The flags that a computation leaves.  One that is not defined leaves them as they
    are. -/
def Computation.flags (before : Flags) : Computation → Flags
  | .add width a b => (Alu.add before width a b).2
  | .adc width a b => (Alu.adc before width a b).2
  | .sub width a b => (Alu.sub before width a b).2
  | .sbb width a b => (Alu.sbb before width a b).2
  | .cmp width a b => Alu.cmp before width a b
  | .inc width a => (Alu.inc before width a).2
  | .dec width a => (Alu.dec before width a).2
  | .neg width a => (Alu.neg before width a).2
  | .and width a b => (Alu.and before width a b).2
  | .or width a b => (Alu.or before width a b).2
  | .xor width a b => (Alu.xor before width a b).2
  | .test width a b => Alu.test before width a b
  | .shift op width value count => (Alu.shift before op width value count).2
  | .multiply width signed a b => (Alu.multiply before width signed a b).2
  | .daa al => (Alu.daa before al).2
  | .das al => (Alu.das before al).2
  | .aaa ax => (Alu.aaa before ax).2
  | .aas ax => (Alu.aas before ax).2
  | .aam al base =>
    match Alu.aam before al base with
    | .ok (_, after) => after
    | .error _ => before
  | .aad ax base => (Alu.aad before ax base).2

section

variable {before flags : Flags}

/-- Setting the flags of a result changes no flag beside those of arithmetic. -/
theorem changesOnly_setResultFlags (h : before.ChangesOnly Flag.arithmetic flags) (width : Width)
    (result : UInt16) :
    before.ChangesOnly Flag.arithmetic (setResultFlags flags width result) :=
  ((h.set (by decide) _).set (by decide) _).set (by decide) _

theorem changesOnly_addCarry (before : Flags) (width : Width) (a b : UInt16) (carry : Bool) :
    before.ChangesOnly Flag.arithmetic (addCarry before width a b carry).2 :=
  changesOnly_setResultFlags
    ((((Flags.ChangesOnly.refl before).set (by decide) _).set (by decide) _).set (by decide) _) _ _

theorem changesOnly_subBorrow (before : Flags) (width : Width) (a b : UInt16) (borrow : Bool) :
    before.ChangesOnly Flag.arithmetic (subBorrow before width a b borrow).2 :=
  changesOnly_setResultFlags
    ((((Flags.ChangesOnly.refl before).set (by decide) _).set (by decide) _).set (by decide) _) _ _

theorem changesOnly_logical (before : Flags) (width : Width) (result : UInt16) :
    before.ChangesOnly Flag.arithmetic (logical before width result).2 :=
  changesOnly_setResultFlags
    ((((Flags.ChangesOnly.refl before).set (by decide) _).set (by decide) _).set (by decide) _) _ _

/-- A shift sets the flags of its result, a rotate carry and overflow alone, and
    either nothing if it goes no place. -/
theorem changesOnly_shift (before : Flags) (op : ShiftOp) (width : Width) (value : UInt16)
    (count : UInt8) :
    before.ChangesOnly Flag.arithmetic (shift before op width value count).2 := by
  rw [shift]
  simp only
  split
  · exact .refl before
  · have hrotated : ∀ carry overflow, before.ChangesOnly Flag.arithmetic
        ((before.set .carry carry).set .overflow overflow) := fun carry overflow =>
      ((Flags.ChangesOnly.refl before).set (by decide) _).set (by decide) _
    split
    · exact changesOnly_setResultFlags ((hrotated _ _).set (by decide) _) _ _
    · exact hrotated _ _

end

/-- No computation changes a flag beside those of arithmetic. -/
theorem Computation.changesOnly (before : Flags) (computation : Computation) :
    before.ChangesOnly Flag.arithmetic (computation.flags before) := by
  have hself : before.ChangesOnly Flag.arithmetic before := .refl before
  have hadjusted : ∀ auxiliary carry, before.ChangesOnly Flag.arithmetic
      ((before.set .auxiliaryCarry auxiliary).set .carry carry) := fun auxiliary carry =>
    (hself.set (by decide) _).set (by decide) _
  cases computation with
  | add width a b | adc width a b => exact changesOnly_addCarry before width a b _
  | sub width a b | sbb width a b | cmp width a b =>
      exact changesOnly_subBorrow before width a b _
  | inc width a => exact (changesOnly_addCarry before width a 1 false).set (by decide) _
  | dec width a => exact (changesOnly_subBorrow before width a 1 false).set (by decide) _
  | neg width a => exact (changesOnly_subBorrow before width 0 a false).set (by decide) _
  | and width a b | or width a b | xor width a b | test width a b =>
      exact changesOnly_logical before width _
  | shift op width value count => exact changesOnly_shift before op width value count
  | multiply width signed a b =>
      exact changesOnly_setResultFlags ((hself.set (by decide) _).set (by decide) _) _ _
  | daa al | das al => exact changesOnly_setResultFlags (hadjusted _ _) _ _
  | aaa ax =>
      rw [flags, Alu.aaa]
      split <;> exact hadjusted _ _
  | aas ax =>
      rw [flags, Alu.aas]
      split <;> exact hadjusted _ _
  | aam al base =>
      rw [flags, Alu.aam]
      by_cases hbase : base = 0
      · rw [if_pos hbase]
        exact hself
      · rw [if_neg hbase]
        exact changesOnly_setResultFlags hself _ _
  | aad ax base => exact changesOnly_setResultFlags hself _ _

end Alu

/-! ## Any changes -/

namespace Flags

/-- What can be done to the flags: a computation, or putting some or all of them to a
    value. -/
inductive Change
  | compute (computation : Alu.Computation)
  | set (flag : Flag) (value : Bool)
  | restore (value : UInt16)
  | restoreLowByte (value : UInt8)

/-- The flags after a change. -/
def after (flags : Flags) : Change → Flags
  | .compute computation => computation.flags flags
  | .set flag value => flags.set flag value
  | .restore value => restore value
  | .restoreLowByte value => flags.restoreLowByte value

/-- The flags after some changes, of which the latest comes first. -/
def afterAll (flags : Flags) : List Change → Flags
  | [] => flags
  | change :: earlier => (flags.afterAll earlier).after change

/-- No change stores a bit that is not a flag's. -/
theorem Canonical.after {flags : Flags} (h : flags.Canonical) (change : Change) :
    (flags.after change).Canonical := by
  cases change with
  | compute computation => exact (computation.changesOnly flags).canonical h
  | set flag value => exact ((ChangesOnly.refl flags).set (mem_all flag) value).canonical h
  | restore value => exact canonical_restore value
  | restoreLowByte value => exact (changesOnly_restoreLowByte flags value).canonical h

/-- So none is stored after any number of changes. -/
theorem Canonical.afterAll {flags : Flags} (h : flags.Canonical) (changes : List Change) :
    (flags.afterAll changes).Canonical := by
  induction changes with
  | nil => exact h
  | cons change earlier ih => exact ih.after change

end Flags

end Microprocessor.X86
