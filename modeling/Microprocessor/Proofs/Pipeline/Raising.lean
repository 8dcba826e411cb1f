import Microprocessor.Arm.Execution
import Microprocessor.Proofs.X86.Destination
import Microprocessor.Proofs.X86.Execution
import Microprocessor.Terminal.Console

/-! # Faults are raised before anything is done

    An instruction raises one fault at most, and it raises it before it touches a
    register, memory or a device.  If the fault is masked, it goes on from there;
    if not, everything is as it was.

      * `Executed.RaisesFirst` says so of an instruction, whatever is masked;
      * `X86.Machine.execute_raisesFirst` and `Arm.Machine.execute_raisesFirst`:
        all instructions are such;
      * `faulting_instruction_undone` is what follows for an instruction that a
        fault stops. -/

namespace Microprocessor

/-! ## Recording -/

namespace FaultTable

theorem get_set_self {α : Type} (table : FaultTable α) (kind : FaultKind) (value : α) :
    (table.set kind value).get kind = value := by
  cases kind <;> rfl

end FaultTable

namespace FaultUnit

variable {faults : FaultUnit} {fault : Fault}

/-- A recorded fault is the latest of its kind. -/
theorem get_active_record (faults : FaultUnit) (fault : Fault) :
    (faults.record fault).active.get fault.kind = some fault :=
  FaultTable.get_set_self faults.active fault.kind (some fault)

/-- A masked fault is recorded and passes. -/
theorem fire_of_masked (h : faults.isMasked fault.kind = true) :
    faults.fire fault = (faults.record fault, none) := by
  rw [fire, if_pos h]

/-- Any other is recorded and stops the run. -/
theorem fire_of_unmasked (h : faults.isMasked fault.kind = false) :
    faults.fire fault = (faults.record fault, some fault) := by
  rw [fire, if_neg (ne_true_of_eq_false h)]

end FaultUnit

/-! ## Instructions that raise faults first -/

namespace Executed

variable {κ δ : Type} {core : κ} {bus : Bus δ} {run : FaultUnit → Executed κ δ}

/-- What an instruction does about faults, whatever is masked.  It raises none, or
    it raises one of the program's; if that is masked, it goes through, and if not,
    it leaves the core and the bus as given. -/
inductive RaisesFirst (core : κ) (bus : Bus δ) (run : FaultUnit → Executed κ δ) : Prop
  | quiet (hquiet : ∀ faults, (run faults).faults = faults ∧ (run faults).fault = none)
  | raises (fault : Fault)
      (hkind : fault.kind = .undefinedInstruction ∨ fault.kind = .unattachedPort)
      (hpasses : ∀ faults, faults.isMasked fault.kind = true →
        (run faults).faults = faults.record fault ∧ (run faults).fault = none)
      (hstops : ∀ faults, faults.isMasked fault.kind = false →
        run faults = ⟨core, bus, faults.record fault, some fault⟩)

/-- An instruction that begins by firing a fault raises it first. -/
theorem RaisesFirst.of_fire (fault : Fault)
    (hkind : fault.kind = .undefinedInstruction ∨ fault.kind = .unattachedPort)
    (passes : FaultUnit → Executed κ δ)
    (hpasses : ∀ faults, (passes faults).faults = faults ∧ (passes faults).fault = none)
    (hrun : ∀ faults, run faults = match faults.fire fault with
      | (faults, none) => passes faults
      | (faults, some fault) => ⟨core, bus, faults, some fault⟩) : RaisesFirst core bus run := by
  refine .raises fault hkind ?_ ?_
  · intro faults hmasked
    rw [hrun, FaultUnit.fire_of_masked hmasked]
    exact hpasses (faults.record fault)
  · intro faults hunmasked
    rw [hrun, FaultUnit.fire_of_unmasked hunmasked]

/-- The fault stopped the instruction before it did anything.  It is recorded, and
    nothing else is; with its kind masked the instruction goes through, and the
    fault is recorded all the same. -/
structure Undone (core : κ) (bus : Bus δ) (run : FaultUnit → Executed κ δ) (faults : FaultUnit)
    (fault : Fault) : Prop where
  core_eq : (run faults).core = core
  bus_eq : (run faults).bus = bus
  unmasked : faults.isMasked fault.kind = false
  recorded : (run faults).faults = faults.record fault
  active : (run faults).faults.active.get fault.kind = some fault
  passes : ∀ masking : FaultUnit, masking.isMasked fault.kind = true →
    (run masking).fault = none ∧ (run masking).faults.active.get fault.kind = some fault

/-- A fault that is raised first leaves everything undone. -/
theorem RaisesFirst.undone (h : RaisesFirst core bus run) {faults : FaultUnit} {fault : Fault}
    (hstopped : (run faults).fault = some fault) : Undone core bus run faults fault := by
  cases h with
  | quiet hquiet =>
      rw [(hquiet faults).2] at hstopped
      cases hstopped
  | raises raised _ hpasses hstops =>
      cases hmasked : faults.isMasked raised.kind with
      | true =>
          rw [(hpasses faults hmasked).2] at hstopped
          cases hstopped
      | false =>
          have hrun := hstops faults hmasked
          obtain rfl : raised = fault := by
            rw [hrun] at hstopped
            exact Option.some.inj hstopped
          refine ⟨?_, ?_, hmasked, ?_, ?_, ?_⟩
          · rw [hrun]
          · rw [hrun]
          · rw [hrun]
          · rw [hrun]
            exact faults.get_active_record raised
          · intro masking hmasking
            obtain ⟨hfaults, hfault⟩ := hpasses masking hmasking
            rw [hfaults]
            exact ⟨hfault, masking.get_active_record raised⟩

end Executed

open Executed

/-! ## The 8086 -/

namespace X86.Machine

variable {δ : Type}

theorem undefined_raisesFirst (machine : Machine δ) (armed : Bool) (instruction : Instruction)
    (address : UInt32) :
    RaisesFirst machine.unit machine.bus (machine.undefined armed instruction address) :=
  .of_fire ⟨some address, .undefinedInstruction instruction.opcode.toUInt32 instruction.text⟩
    (.inl rfl) (machine.complete armed) (fun _ => ⟨rfl, rfl⟩) fun _ => rfl

variable [PortDevice δ]

theorem input_raisesFirst (machine : Machine δ) (armed : Bool) (address : UInt32)
    (width : Width) (port : Port) :
    RaisesFirst machine.unit machine.bus
      fun faults => machine.input armed address faults width port := by
  simp only [input]
  cases machine.bus.portInput width (machine.portNumber port) with
  | ok read => exact .quiet fun _ => ⟨rfl, rfl⟩
  | error failure =>
      exact .of_fire _ (.inr rfl)
        ((machine.mapUnit fun unit => unit.setAccumulator width width.mask).complete armed)
        (fun _ => ⟨rfl, rfl⟩) fun _ => rfl

theorem output_raisesFirst (machine : Machine δ) (armed : Bool) (address : UInt32)
    (width : Width) (port : Port) :
    RaisesFirst machine.unit machine.bus
      fun faults => machine.output armed address faults width port := by
  simp only [output]
  cases machine.bus.portOutput width (machine.portNumber port) (machine.unit.accumulator width) with
  | ok bus => exact .quiet fun _ => ⟨rfl, rfl⟩
  | error failure =>
      exact .of_fire _ (.inr rfl) (machine.complete armed) (fun _ => ⟨rfl, rfl⟩) fun _ => rfl

/-- An instruction that writes to no immediate raises faults first, once it has
    lifted the shadow over the maskable line. -/
theorem execute_raisesFirst (machine : Machine δ) {instruction : Instruction}
    (hwritable : instruction.operation.Writable) (address : UInt32) :
    RaisesFirst { machine.unit with shadow := false } machine.bus
      (machine.execute instruction address) := by
  obtain ⟨opcode, prefixes, operation, length, clocks⟩ := instruction
  cases operation with
  | unknown => exact undefined_raisesFirst machine.begun _ _ address
  | input width port => exact input_raisesFirst machine.begun _ address width port
  | output width port => exact output_raisesFirst machine.begun _ address width port
  | _ =>
      refine .quiet fun faults => ?_
      rw [execute]
      simp only
      rw [if_neg (ne_true_of_eq_false hwritable)]
      exact ⟨rfl, rfl⟩

end X86.Machine

/-! ## The ARM -/

/-- Every A32 instruction raises faults first. -/
theorem Arm.Machine.execute_raisesFirst {δ : Type} (machine : Arm.Machine δ)
    (instruction : Arm.Instruction) (here : UInt32) :
    RaisesFirst machine.processor machine.bus (machine.execute instruction here) := by
  cases hsatisfied : machine.processor.status.satisfies instruction.condition with
  | false =>
      refine .quiet fun faults => ?_
      rw [execute, hsatisfied]
      exact ⟨rfl, rfl⟩
  | true =>
      cases hunmodelled : machine.isUnmodelled here instruction.operation with
      | false =>
          refine .quiet fun faults => ?_
          rw [execute, hsatisfied, hunmodelled]
          exact ⟨rfl, rfl⟩
      | true =>
          refine .of_fire
            ⟨some here, .undefinedInstruction instruction.word instruction.text⟩ (.inl rfl)
            (machine.perform here instruction.operation).finished (fun _ => ⟨rfl, rfl⟩) ?_
          intro faults
          rw [execute, hsatisfied, hunmodelled]
          rfl

/-! ## Stopped instructions -/

/-- An instruction that a fault stops has done nothing.  On the 8086 the registers
    with the flags, the halt and whatever is pending are as they were, but for the
    shadow, which every instruction lifts; on the ARM so are the registers, the
    status and the banks; and on both so are memory and the devices.  The fault's
    kind is not masked and the fault is recorded; if the kind is masked, the same
    instruction goes through and the fault is recorded all the same. -/
theorem faulting_instruction_undone {δ : Type} [PortDevice δ] :
    (∀ (source : ByteSource) (start : Nat) (instruction : X86.Instruction),
        X86.decode source start = .ok instruction →
        ∀ (machine : X86.Machine δ) (address : UInt32) (faults : FaultUnit) (fault : Fault),
          (machine.execute instruction address faults).fault = some fault →
          Undone { machine.unit with shadow := false } machine.bus
            (machine.execute instruction address) faults fault)
      ∧ ∀ (word : UInt32) (machine : Arm.Machine δ) (here : UInt32) (faults : FaultUnit)
          (fault : Fault), (machine.execute (.ofWord word) here faults).fault = some fault →
          Undone machine.processor machine.bus (machine.execute (.ofWord word) here) faults
            fault := by
  constructor
  · intro source start instruction hdecode machine address faults fault hstopped
    have hwritable := X86.decode_writable hdecode
    exact (machine.execute_raisesFirst hwritable address).undone hstopped
  · intro word machine here faults fault hstopped
    exact (machine.execute_raisesFirst (.ofWord word) here).undone hstopped

/-- An 8086 with nothing on its ports. -/
def portlessMachine : X86.Machine Terminal.Console where
  unit := .initial
  bus := .of ⟨#[], none⟩ .empty 6 2

/-- An ARM whose R0 holds the address of an instruction of the other set. -/
def oddMachine : Arm.Machine Terminal.Console where
  processor := Arm.Processor.initial.put (.ofNumber 0) 0x8001
  bus := .of ⟨#[], none⟩ .empty 4 4

/-- With nothing masked IN AL,DX leaves AL alone where nothing answers, and BLX R0
    saves no return address. -/
theorem faulting_instruction_undone_unmasked :
    (∃ instruction fault, X86.decode (.ofList [0xEC]) 0 = .ok instruction
        ∧ Undone portlessMachine.unit portlessMachine.bus
            (portlessMachine.execute instruction 0)
            (FaultUnit.initial.unmask .unattachedPort) fault)
      ∧ ∃ fault, Undone oddMachine.processor oddMachine.bus
          (oddMachine.execute (.ofWord 0xE12FFF30) 0)
          (FaultUnit.initial.unmask .undefinedInstruction) fault := by
  obtain ⟨hx86, harm⟩ := @faulting_instruction_undone Terminal.Console _
  constructor
  · refine ⟨_, ⟨some 0, .unattachedPort 0 none⟩, rfl, ?_⟩
    exact hx86 (.ofList [0xEC]) 0 _ rfl portlessMachine 0 _ _ rfl
  · refine ⟨⟨some 0, .undefinedInstruction 0xE12FFF30 (Arm.Instruction.ofWord 0xE12FFF30).text⟩, ?_⟩
    exact harm 0xE12FFF30 oddMachine 0 _ _ rfl

end Microprocessor
