import Mathlib.Logic.Function.Iterate
import Microprocessor.Proofs.X86.Execution

/-! # Repeated string instructions

    A repeated string instruction is the unrepeated one, executed up to CX times, and CX
    says how many times are left.  What is left to ask of it is how often it is executed,
    and that depends on the flags that a comparison leaves.

      * `firstOrLast` is where a search ends;
      * `Machine.stringSteps` is the unrepeated instruction so many times in order;
      * `Machine.repeatString_eq` says how often that is, whatever the operation. -/

namespace Microprocessor.X86

/-! ## Where a search ends -/

/-- The least number below `count` that is a hit, or the last one if there is none. -/
def firstOrLast (hit : Nat → Bool) (count : Nat) : Nat :=
  ((List.range count).find? hit).getD (count - 1)

section FirstOrLast

variable {hit : Nat → Bool} {count : Nat}

/-- A hit at the start ends the search. -/
theorem firstOrLast_of_hit (h : hit 0 = true) : firstOrLast hit (count + 1) = 0 := by
  rw [firstOrLast, List.range_succ_eq_map, List.find?_cons_of_pos h]
  rfl

/-- Without one, the search goes on behind it. -/
theorem firstOrLast_succ (h : hit 0 = false) :
    firstOrLast hit (count + 2) = firstOrLast (fun i => hit (i + 1)) (count + 1) + 1 := by
  rw [firstOrLast, firstOrLast, List.range_succ_eq_map,
    List.find?_cons_of_neg (ne_true_of_eq_false h), List.find?_map]
  show (Option.map Nat.succ ((List.range (count + 1)).find? fun i => hit (i + 1))).getD (count + 1)
    = ((List.range (count + 1)).find? fun i => hit (i + 1)).getD count + 1
  cases (List.range (count + 1)).find? fun i => hit (i + 1) with
  | none => rfl
  | some i => rfl

/-- One number leaves no choice. -/
theorem firstOrLast_one : firstOrLast hit 1 = 0 := by
  cases h : hit 0 with
  | true => exact firstOrLast_of_hit h
  | false => simp [firstOrLast, h]

/-- A search without a hit goes on up to the last number. -/
theorem firstOrLast_of_forall (h : ∀ i < count + 1, hit i = false) :
    firstOrLast hit (count + 1) = count := by
  have hnone : (List.range (count + 1)).find? hit = none := by
    refine List.find?_eq_none.mpr fun i hi => ?_
    exact ne_true_of_eq_false (h i (List.mem_range.mp hi))
  rw [firstOrLast, hnone]
  rfl

/-- A search ends at a hit if there is one. -/
theorem hit_firstOrLast_iff :
    hit (firstOrLast hit (count + 1)) = true ↔ ∃ i, i < count + 1 ∧ hit i = true := by
  cases hfind : (List.range (count + 1)).find? hit with
  | some i =>
      have hfirst : firstOrLast hit (count + 1) = i := by
        rw [firstOrLast, hfind]
        rfl
      have hhit := List.find?_some hfind
      rw [hfirst]
      exact ⟨fun _ => ⟨i, List.mem_range.mp (List.mem_of_find?_eq_some hfind), hhit⟩, fun _ => hhit⟩
  | none =>
      have hmiss : ∀ i, i < count + 1 → ¬hit i = true := by
        intro i hi
        exact List.find?_eq_none.mp hfind i (List.mem_range.mpr hi)
      have hlast : firstOrLast hit (count + 1) < count + 1 := by
        rw [firstOrLast, hfind]
        exact Nat.lt_succ_self count
      refine ⟨fun h => absurd h (hmiss _ hlast), ?_⟩
      rintro ⟨i, hi, h⟩
      exact absurd h (hmiss i hi)

end FirstOrLast

namespace Machine

variable {δ : Type} (machine : Machine δ) (instruction : Instruction) (op : StringOp)
  (width : Width)

/-! ## Steps -/

/-- Sets CX. -/
def setCount (machine : Machine δ) (left : UInt16) : Machine δ :=
  machine.mapRegs fun regs => regs.setWord .cx left

/-- The unrepeated instruction `count` times in order. -/
def stringSteps (count : Nat) : Machine δ :=
  (fun machine => machine.stringStep instruction op width)^[count] machine

/-- The first step, and the others after it. -/
theorem stringSteps_succ (count : Nat) :
    machine.stringSteps instruction op width (count + 1)
      = (machine.stringStep instruction op width).stringSteps instruction op width count := rfl

/-- What can be done before a step as well as after it can be done before or after any number
    of steps. -/
theorem stringSteps_comm {f : Machine δ → Machine δ}
    (h : ∀ machine : Machine δ,
      (f machine).stringStep instruction op width = f (machine.stringStep instruction op width))
    (count : Nat) :
    (f machine).stringSteps instruction op width count
      = f (machine.stringSteps instruction op width count) := by
  have hcommute : Function.Commute
      (fun machine : Machine δ => machine.stringStep instruction op width) f := h
  exact hcommute.iterate_left count machine

/-- No step looks at CX. -/
theorem stringStep_setCount (left : UInt16) :
    (machine.setCount left).stringStep instruction op width
      = (machine.stringStep instruction op width).setCount left := by
  cases op <;> cases width <;> rfl

theorem stringSteps_setCount (left : UInt16) (count : Nat) :
    (machine.setCount left).stringSteps instruction op width count
      = (machine.stringSteps instruction op width count).setCount left :=
  machine.stringSteps_comm instruction op width
    (fun machine => machine.stringStep_setCount instruction op width left) count

/-! ## Repetition -/

/-- Whether the flags end the repetition after element `i`, counted from zero. -/
def endsAt (repetition : Repeat) (i : Nat) : Bool :=
  op.compares
    && endsRepetition repetition
      ((machine.stringSteps instruction op width (i + 1)).regs.flags.get .zero)

/-- A repetition is as many steps as it takes until the flags end it or none are left. -/
theorem repeatString_eq (repetition : Repeat) (count : Nat) :
    machine.repeatString instruction op width repetition (count + 1)
      = (machine.stringSteps instruction op width
          (firstOrLast (machine.endsAt instruction op width repetition) (count + 1) + 1)).setCount
        (UInt16.ofNat
          (count - firstOrLast (machine.endsAt instruction op width repetition) (count + 1))) := by
  induction count generalizing machine with
  | zero =>
      rw [firstOrLast_one, repeatString]
      exact ite_self _
  | succ count ih =>
      let stepped := machine.stringStep instruction op width
      let counted := stepped.setCount (UInt16.ofNat (count + 1))
      -- The count that is left does not change which of the steps to come ends the repetition.
      have hlater : counted.endsAt instruction op width repetition
          = fun i => machine.endsAt instruction op width repetition (i + 1) := by
        funext i
        rw [endsAt, stringSteps_setCount]
        rfl
      cases hends : machine.endsAt instruction op width repetition 0 with
      | true =>
          rw [firstOrLast_of_hit hends]
          exact if_pos hends
      | false =>
          rw [firstOrLast_succ hends, ← hlater]
          refine (if_neg (ne_true_of_eq_false hends)).trans ((ih counted).trans ?_)
          rw [stringSteps_setCount, Nat.add_sub_add_right]
          rfl

/-- A repeated operation that compares nothing is executed as often as CX says. -/
theorem repeatString_of_not_compares (h : op.compares = false) (repetition : Repeat) (count : Nat) :
    machine.repeatString instruction op width repetition (count + 1)
      = (machine.stringSteps instruction op width (count + 1)).setCount 0 := by
  have hnever : ∀ i < count + 1, machine.endsAt instruction op width repetition i = false := by
    intro i _
    rw [endsAt, h, Bool.false_and]
  rw [repeatString_eq, firstOrLast_of_forall hnever, Nat.sub_self]
  rfl

/-! ## Whole instructions -/

variable [PortDevice δ] {instruction op width}

/-- A string instruction goes through. -/
theorem execute_string (h : instruction.operation = .string op width) (address : UInt32)
    (faults : FaultUnit) :
    machine.execute instruction address faults
      = (machine.begun.string instruction op width).complete (machine.regs.flags.get .trap)
          faults := by
  obtain ⟨opcode, prefixes, operation, length, clocks⟩ := instruction
  obtain rfl : operation = .string op width := h
  rfl

end Machine

end Microprocessor.X86
