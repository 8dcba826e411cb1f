import Microprocessor.Proofs.X86.Comparison
import Microprocessor.Proofs.X86.StringElements
import Microprocessor.Terminal.Console

/-! # Searches in strings

    Repeated CMPS compares the elements of two strings, and repeated SCAS those of one with
    AL or AX, until they differ or until they are equal, as the prefix says.  Only the last
    comparison shows in the flags, since a comparison sets all the flags that it changes
    whatever they were.

      * `Alu.cmp_cmp`: a comparison leaves no trace of an earlier one;
      * `Machine.hit` is what is looked for;
      * `Machine.stringSteps_compares` is what any number of comparisons leave behind, and
        `Machine.endsAt_eq_hit` says that their flags tell the hits;
      * `searches_stop_at_hit` is where the whole instruction stops, and with what. -/

namespace Microprocessor.X86

/-! ## Comparisons -/

namespace Alu

/-- A comparison sets its flags whatever another one has left. -/
theorem cmp_cmp (flags : Flags) (width : Width) (a b c d : UInt16) :
    cmp (cmp flags width a b) width c d = cmp flags width c d := by
  apply Flags.eq_of_getLsbD_eq
  intro i hi
  -- The six flags of the later comparison hide the same six of the earlier one, and all the
  -- other bits are those of `flags`.
  simp only [cmp, sub, subBorrow, setResultFlags, Flags.getLsbD_set _ _ _ hi]
  grind

/-- After a comparison, zero says that the operands are the same. -/
theorem zero_cmp_iff (flags : Flags) (width : Width) (a b : UInt16) :
    (cmp flags width a b).get .zero = true ↔ a &&& width.mask = b &&& width.mask := by
  rw [← UInt16.toNat_inj, toNat_and_mask, toNat_and_mask]
  exact (zero_iff_eq (sub_computes flags width a b)).trans Int.ofNat_inj

end Alu

/-- Whether two operands are what a repeated comparison looks for: REPE stops where they differ,
    and REPNE where they are equal. -/
def Repeat.seeks (repetition : Repeat) (a b : UInt16) : Bool :=
  match repetition with
  | .equal => a != b
  | .notEqual => a == b

/-- REPE ends where zero is clear, and REPNE where it is set. -/
theorem endsRepetition_iff (repetition : Repeat) (zero : Bool) :
    Machine.endsRepetition repetition zero = true ↔ zero = decide (repetition = .notEqual) := by
  cases repetition <;> cases zero <;> decide

namespace Machine

variable {δ : Type} (machine : Machine δ) (instruction : Instruction) {op : StringOp}
  (width : Width)

/-- Whether comparison `i` is a hit. -/
def hit (op : StringOp) (repetition : Repeat) (i : Nat) : Bool :=
  repetition.seeks (machine.stringValue instruction width op i)
    (machine.bus.read width (machine.regs.destinationElement width i))

/-- The flags of a comparison tell whether it is a hit. -/
theorem endsRepetition_comparison (repetition : Repeat) (i : Nat) :
    endsRepetition repetition ((machine.comparison instruction width op i).get .zero)
      = machine.hit instruction width op repetition i := by
  have hzero : (machine.comparison instruction width op i).get .zero
      = (machine.stringValue instruction width op i
        == machine.bus.read width (machine.regs.destinationElement width i)) := by
    rw [Bool.eq_iff_iff, comparison, Alu.zero_cmp_iff, stringValue_and_mask, Bus.read_and_mask,
      beq_iff_eq]
  rw [hzero]
  cases repetition <;> rfl

/-- After a step, the comparisons to come are counted from the next one. -/
theorem comparison_stringStep (h : op.compares = true) (i : Nat) :
    (machine.stringStep instruction op width).comparison instruction width op i
      = machine.comparison instruction width op (i + 1) := by
  have hdirection := machine.comparison_direction instruction width op 0
  rw [machine.stringStep_compares instruction width h, comparison,
    stringValue_afterElements machine instruction width hdirection, Nat.add_comm]
  refine (congrArg (fun place => Alu.cmp _ width _ (machine.bus.read width place))
    (RegisterFile.destinationElement_afterElements hdirection i)).trans ?_
  rw [Nat.add_comm]
  exact Alu.cmp_cmp _ width _ _ _ _

/-- Any number of comparisons move the indices on and leave the flags of the last one. -/
theorem stringSteps_compares (h : op.compares = true) (count : Nat) :
    machine.stringSteps instruction op width (count + 1)
      = ⟨{ machine.unit with
            regs := machine.regs.afterElements op width (count + 1)
              (machine.comparison instruction width op count) (machine.regs.word .cx) },
          machine.bus⟩ := by
  induction count generalizing machine with
  | zero => exact machine.stringStep_compares instruction width h
  | succ count ih =>
      have hdirection := machine.comparison_direction instruction width op 0
      rw [stringSteps_succ, ih, machine.comparison_stringStep instruction width h,
        machine.stringStep_compares instruction width h, Nat.add_comm (count + 1)]
      exact congrArg (fun regs => Machine.mk { machine.unit with regs } machine.bus)
        (RegisterFile.afterElements_afterElements hdirection (count + 1) _ _)

/-- The flags end a repetition at the hits. -/
theorem endsAt_eq_hit (h : op.compares = true) (repetition : Repeat) :
    machine.endsAt instruction op width repetition
      = machine.hit instruction width op repetition := by
  funext i
  rw [endsAt, h, Bool.true_and, machine.stringSteps_compares instruction width h]
  exact machine.endsRepetition_comparison instruction width repetition i

/-- A repetition ends with the first hit, or with the last element. -/
theorem repeatString_compares (h : op.compares = true) (repetition : Repeat) (count : Nat) :
    let last := firstOrLast (machine.hit instruction width op repetition) (count + 1)
    machine.repeatString instruction op width repetition (count + 1)
      = ⟨{ machine.unit with
            regs := machine.regs.afterElements op width (last + 1)
              (machine.comparison instruction width op last) (UInt16.ofNat (count - last)) },
          machine.bus⟩ := by
  intro last
  rw [repeatString_eq, endsAt_eq_hit machine instruction width h,
    machine.stringSteps_compares instruction width h]
  rfl

end Machine

/-- Repeated CMPS and SCAS go through and do not touch memory.  They end with the first hit or,
    if there is none, with the last element that CX allows for: DI, and after CMPS also SI, is past
    that element, CX says how many are left, the flags are those of its comparison, and no other
    register has changed.  So zero tells whether there was a hit.  If CX is zero, nothing changes. -/
theorem searches_stop_at_hit {δ : Type} [PortDevice δ] {instruction : Instruction} {op : StringOp}
    {width : Width} {repetition : Repeat} (hoperation : instruction.operation = .string op width)
    (hcompares : op.compares = true) (hrepeated : instruction.prefixes.repetition = some repetition)
    (machine : Machine δ) (address : UInt32) (faults : FaultUnit) :
    let count := (machine.regs.word .cx).toNat
    let hit := machine.hit instruction width op repetition
    let last := firstOrLast hit count
    let executed := machine.execute instruction address faults
    executed.fault = none
      ∧ executed.bus = machine.bus
      ∧ (0 < count →
        executed.core.regs
            = machine.regs.afterElements op width (last + 1)
                (machine.comparison instruction width op last)
                (UInt16.ofNat (count - (last + 1)))
          ∧ (executed.core.regs.flags.get .zero = decide (repetition = .notEqual)
            ↔ ∃ i < count, hit i = true))
      ∧ (count = 0 → executed.core.regs = machine.regs) := by
  intro count hit last executed
  have hexecuted : executed
      = (machine.begun.repeatString instruction op width repetition count).complete
          (machine.regs.flags.get .trap) faults := by
    have hstring := machine.execute_string hoperation address faults
    rw [Machine.string, hrepeated] at hstring
    exact hstring
  cases hcount : count with
  | zero =>
      rw [hcount] at hexecuted
      rw [hexecuted]
      exact ⟨rfl, rfl, fun hpos => absurd hpos (Nat.lt_irrefl 0), fun _ => rfl⟩
  | succ left =>
      have hlast : last = firstOrLast hit (left + 1) := congrArg (firstOrLast hit) hcount
      rw [hcount, machine.begun.repeatString_compares instruction width hcompares] at hexecuted
      have hregs : executed.core.regs
          = machine.regs.afterElements op width (last + 1)
              (machine.comparison instruction width op last)
              (UInt16.ofNat (left + 1 - (last + 1))) := by
        rw [hexecuted, hlast, Nat.add_sub_add_right]
        rfl
      refine ⟨?_, ?_, fun _ => ⟨hregs, ?_⟩, fun hzero => absurd hzero (Nat.succ_ne_zero left)⟩
      · rw [hexecuted]
        rfl
      · rw [hexecuted]
        rfl
      · rw [← hit_firstOrLast_iff, ← hlast, hregs, ← endsRepetition_iff]
        exact Bool.eq_iff_iff.mp
          (machine.endsRepetition_comparison instruction width repetition last)

/-- An 8086 about to look for 03h in the four bytes at 10h. -/
def searching : Machine Terminal.Console where
  unit := ExecutionUnit.initial.mapRegs fun regs => { regs with ax := ⟨3⟩, cx := ⟨4⟩, di := 0x10 }
  bus := .of ((Memory.ofConfiguration ⟨32, none⟩).writeBytes 0x10 [1, 2, 3, 4]) .empty 6 2

/-- `REPNE SCASB` finds it as the third byte and leaves one. -/
theorem searches_stop_at_hit_third :
    ∃ instruction, decode (.ofList [0xF2, 0xAE]) 0 = .ok instruction
      ∧ (searching.execute instruction 0 .initial).core.regs.word .di = 0x13
      ∧ (searching.execute instruction 0 .initial).core.regs.word .cx = 1
      ∧ (searching.execute instruction 0 .initial).core.regs.flags.get .zero = true := by
  let instruction : Instruction :=
    ⟨0xAE, ⟨none, some .notEqual, false, 1⟩, .string .scas .byte, 2, 24⟩
  obtain ⟨-, -, hstops, -⟩ :=
    @searches_stop_at_hit Terminal.Console _ instruction _ _ _ rfl rfl rfl searching 0 .initial
  obtain ⟨hregs, hzero⟩ := hstops (by decide)
  refine ⟨instruction, rfl, ?_, ?_, hzero.mpr ⟨2, by decide, by decide⟩⟩
  · rw [hregs]
    decide
  · rw [hregs]
    decide

end Microprocessor.X86
