import Microprocessor.X86.Execution

/-! # How 8086 instructions are executed

    What can be said once about execution, and is used for whatever an instruction
    leaves alone.

      * `Machine.string_kept`: what working on one element keeps, a string
        instruction keeps however often it is repeated;
      * `Machine.Ends` lists the ways in which an instruction can end, once it has
        lifted the shadow over the maskable line, and `Machine.execute_ends` says
        that there are no others. -/

namespace Microprocessor.X86.Machine

variable {δ : Type}

/-! ## Repetition -/

section Repetition

variable {kept : Machine δ → Prop} {instruction : Instruction} {op : StringOp} {width : Width}
  (hstep : ∀ machine, kept machine → kept (machine.stringStep instruction op width))
  (hcount : ∀ machine left, kept machine →
    kept (machine.mapRegs fun regs => regs.setWord .cx left))

include hstep hcount

/-- Working on elements and counting them keeps what the two keep. -/
theorem repeatString_kept (repetition : Repeat) (count : Nat) {machine : Machine δ}
    (h : kept machine) : kept (machine.repeatString instruction op width repetition count) := by
  induction count generalizing machine with
  | zero => exact h
  | succ count ih =>
      have hcounted := hcount _ (UInt16.ofNat count) (hstep machine h)
      unfold repeatString
      simp only
      split
      · exact hcounted
      · exact ih hcounted

/-- So does a string instruction, repeated or not. -/
theorem string_kept {machine : Machine δ} (h : kept machine) :
    kept (machine.string instruction op width) := by
  rw [string]
  split
  · exact hstep machine h
  · exact repeatString_kept hstep hcount _ _ h

end Repetition

/-! ## Ends -/

/-- What an instruction begins with: the shadow over the maskable line is
    lifted. -/
def begun (machine : Machine δ) : Machine δ :=
  machine.mapUnit fun unit => { unit with shadow := false }

/-- What an instruction can leave behind, where `armed` says whether TF was set.  The
    operations that address a port have no effect beside the one that is named. -/
inductive Ends [PortDevice δ] (machine : Machine δ) (instruction : Instruction) (armed : Bool) :
    Executed ExecutionUnit δ → Prop
  /-- A fault stops it before it does anything. -/
  | stops (faults : FaultUnit) (fault : Fault)
      (hidle : instruction.operation.hasImmediateDestination = false →
        machine.perform instruction instruction.operation = machine) :
      Ends machine instruction armed (machine.stopped faults fault)
  | performs (faults : FaultUnit) :
      Ends machine instruction armed
        ((machine.perform instruction instruction.operation).complete armed faults)
  | reads {width : Width} {port : Port} {value : UInt16} {bus : Bus δ} (faults : FaultUnit)
      (hidle : machine.perform instruction instruction.operation = machine)
      (hread : machine.bus.portInput width (machine.portNumber port) = .ok (value, bus)) :
      Ends machine instruction armed
        (complete ⟨machine.unit.setAccumulator width value, bus⟩ armed faults)
  /-- Nothing answers, and the idle bus is read. -/
  | readsIdle (width : Width) (faults : FaultUnit)
      (hidle : machine.perform instruction instruction.operation = machine) :
      Ends machine instruction armed
        ((machine.mapUnit fun unit => unit.setAccumulator width width.mask).complete armed faults)
  | writes {width : Width} {port : Port} {value : UInt16} {bus : Bus δ} (faults : FaultUnit)
      (hidle : machine.perform instruction instruction.operation = machine)
      (hwritten : machine.bus.portOutput width (machine.portNumber port) value = .ok bus) :
      Ends machine instruction armed (complete ⟨machine.unit, bus⟩ armed faults)

/-- Every instruction ends in one of these ways. -/
theorem execute_ends [PortDevice δ] (machine : Machine δ) (instruction : Instruction)
    (address : UInt32) (faults : FaultUnit) :
    machine.begun.Ends instruction (machine.regs.flags.get .trap)
      (machine.execute instruction address faults) := by
  obtain ⟨opcode, prefixes, operation, length, clocks⟩ := instruction
  cases operation with
  | unknown =>
      rw [execute]
      unfold undefined
      simp only
      split
      · exact .performs _
      · exact .stops _ _ fun _ => rfl
  | input width port =>
      rw [execute]
      simp only [input]
      split
      · rename_i hread
        exact .reads faults rfl hread
      · split
        · exact .readsIdle width _ rfl
        · exact .stops _ _ fun _ => rfl
  | output width port =>
      rw [execute]
      simp only [output]
      split
      · rename_i hwritten
        exact .writes faults rfl hwritten
      · split
        · exact .performs _
        · exact .stops _ _ fun _ => rfl
  | _ =>
      rw [execute]
      simp only
      split
      · rename_i himmediate
        exact .stops _ _ fun hwritable => absurd himmediate (ne_true_of_eq_false hwritable)
      · exact .performs faults

end Microprocessor.X86.Machine
