import Microprocessor.Proofs.X86.StringElements
import Microprocessor.Terminal.Console

/-! # Blocks that are copied and filled

    Repeated MOVS copies a block and repeated STOS fills one, element by element, in the
    order in which the indices move.  If no byte that is written is one that another
    element is written to or read from, the order does not show, and every element arrives.
    If some are, the block is what so many unrepeated instructions make of it.

      * `Machine.Separate` is when the order does not show, and `Machine.Transfers` what
        the block is then; `Machine.transfers_stringSteps` is the induction;
      * `Machine.executeTimes` is an instruction so many times in order;
      * `blocks_transferred` is both together. -/

namespace Microprocessor.X86

/-- The instruction without a repetition. -/
def Instruction.unrepeated (instruction : Instruction) : Instruction :=
  { instruction with prefixes := { instruction.prefixes with repetition := none } }

namespace Machine

variable {δ : Type}

/-! ## What is to be done -/

/-- The bytes of `count` elements of the destination differ and can be written, and if there is a
    source, they are not among its bytes. -/
structure Separate (machine : Machine δ) (instruction : Instruction) (op : StringOp)
    (width : Width) (count : Nat) : Prop where
  distinct : (machine.regs.destinationBytes width count).Nodup
  writable : ∀ address ∈ machine.regs.destinationBytes width count,
    machine.bus.memory.Writable address
  apart : op.readsSource = true → ∀ address ∈ machine.regs.sourceBytes instruction width count,
    address ∉ machine.regs.destinationBytes width count

/-- Every element of the destination has the value that the operation took for it at first, and
    no other byte has changed. -/
structure Transfers (machine : Machine δ) (instruction : Instruction) (op : StringOp)
    (width : Width) (count : Nat) (after : Bus δ) : Prop where
  elements : ∀ i < count,
    after.read width (machine.regs.destinationElement width i)
      = machine.stringValue instruction width op i
  others : ∀ address, address ∉ machine.regs.destinationBytes width count →
    after.memory.fetch? address = machine.bus.memory.fetch? address

/-! ## One step -/

section Step

variable (machine : Machine δ) (instruction : Instruction) {op : StringOp} (width : Width)
  (h : op.stores = true)

include h

/-- After a step, the elements to come are counted from the next one. -/
theorem destinationElement_stringStep (i : Nat) :
    (machine.stringStep instruction op width).regs.destinationElement width i
      = machine.regs.destinationElement width (i + 1) := by
  rw [machine.stringStep_stores instruction width h, Nat.add_comm]
  exact RegisterFile.destinationElement_afterElements rfl i

theorem sourceElement_stringStep (hop : op.readsSource = true) (i : Nat) :
    (machine.stringStep instruction op width).regs.sourceElement instruction width i
      = machine.regs.sourceElement instruction width (i + 1) := by
  rw [machine.stringStep_stores instruction width h, Nat.add_comm]
  exact RegisterFile.sourceElement_afterElements rfl hop instruction i

/-- The bytes of an element come before those of the elements after it. -/
theorem destinationBytes_succ (count : Nat) :
    machine.regs.destinationBytes width (count + 1)
      = (machine.regs.destinationElement width 0).addresses width
        ++ (machine.stringStep instruction op width).regs.destinationBytes width count := by
  rw [RegisterFile.destinationBytes, List.range_succ_eq_map, List.flatMap_cons, List.flatMap_map,
    RegisterFile.destinationBytes]
  simp only [machine.destinationElement_stringStep instruction width h]

theorem sourceBytes_succ (hop : op.readsSource = true) (count : Nat) :
    machine.regs.sourceBytes instruction width (count + 1)
      = (machine.regs.sourceElement instruction width 0).addresses width
        ++ (machine.stringStep instruction op width).regs.sourceBytes instruction width count := by
  rw [RegisterFile.sourceBytes, List.range_succ_eq_map, List.flatMap_cons, List.flatMap_map,
    RegisterFile.sourceBytes]
  simp only [machine.sourceElement_stringStep instruction width h hop]

/-- A step leaves the values to come alone if it does not write where they are read. -/
theorem stringValue_stringStep {i : Nat}
    (hapart : op.readsSource = true →
      ∀ address ∈ (machine.regs.sourceElement instruction width (i + 1)).addresses width,
        address ∉ (machine.regs.destinationElement width 0).addresses width) :
    (machine.stringStep instruction op width).stringValue instruction width op i
      = machine.stringValue instruction width op (i + 1) := by
  rw [machine.stringStep_stores instruction width h, stringValue_afterElements machine instruction
    width rfl, Nat.add_comm]
  refine machine.stringValue_congr instruction width fun hop address hmem => ?_
  exact machine.bus.fetch?_write_of_notMem _ (hapart hop address hmem)

/-- What is separate stays so. -/
theorem Separate.stringStep {count : Nat}
    (hseparate : machine.Separate instruction op width (count + 1)) :
    (machine.stringStep instruction op width).Separate instruction op width count := by
  obtain ⟨hdistinct, hwritable, hapart⟩ := hseparate
  rw [machine.destinationBytes_succ instruction width h] at hdistinct hwritable hapart
  constructor
  case distinct => exact (List.nodup_append.mp hdistinct).2.1
  case writable =>
    intro address hmem
    have hbefore := hwritable address (List.mem_append_right _ hmem)
    rw [machine.stringStep_stores instruction width h]
    exact (machine.bus.writable_write _ _ _ _).mpr hbefore
  case apart =>
    intro hop address hsource hdestination
    rw [machine.sourceBytes_succ instruction width h hop] at hapart
    exact hapart hop address (List.mem_append_right _ hsource)
      (List.mem_append_right _ hdestination)

/-! ## Any number of steps -/

/-- Any number of steps move the indices on, and do nothing else to the unit. -/
theorem unit_stringSteps (count : Nat) :
    (machine.stringSteps instruction op width count).unit
      = { machine.unit with
          regs := machine.regs.afterElements op width count machine.regs.flags
            (machine.regs.word .cx) } := by
  induction count generalizing machine with
  | zero =>
      rw [RegisterFile.afterElements_zero]
      rfl
  | succ count ih =>
      rw [stringSteps_succ, ih, machine.stringStep_stores instruction width h, Nat.add_comm]
      exact congrArg (fun regs => { machine.unit with regs })
        (RegisterFile.afterElements_afterElements rfl count _ _)

/-- Separate blocks are transferred, whichever element comes first. -/
theorem transfers_stringSteps (count : Nat)
    (hseparate : machine.Separate instruction op width count) :
    machine.Transfers instruction op width count
      (machine.stringSteps instruction op width count).bus := by
  induction count generalizing machine with
  | zero => exact ⟨fun i hi => absurd hi (Nat.not_lt_zero i), fun _ _ => rfl⟩
  | succ count ih =>
      have hlater := ih _ (hseparate.stringStep machine instruction width h)
      have hbytes := machine.destinationBytes_succ instruction width h count
      have hwritten : (machine.stringStep instruction op width).bus
          = machine.bus.write width (machine.regs.destinationElement width 0)
              (machine.stringValue instruction width op 0) :=
        congrArg Machine.bus (machine.stringStep_stores instruction width h)
      have hfirst : ∀ address ∈ (machine.regs.destinationElement width 0).addresses width,
          address ∈ machine.regs.destinationBytes width (count + 1) := by
        intro address hmem
        rw [hbytes]
        exact List.mem_append_left _ hmem
      rw [stringSteps_succ]
      constructor
      case elements =>
        intro i hi
        cases i with
        | zero =>
            -- No later element is written there.
            have hkept := hseparate.distinct
            rw [hbytes, List.nodup_append] at hkept
            refine (Bus.read_congr fun address hmem => hlater.others address fun hlate => ?_).trans ?_
            · exact hkept.2.2 address hmem address hlate rfl
            · rw [hwritten, machine.bus.read_write _ fun address hmem =>
                hseparate.writable address (hfirst address hmem), machine.stringValue_and_mask]
        | succ i =>
            have helement := hlater.elements i (Nat.lt_of_succ_lt_succ hi)
            rw [machine.destinationElement_stringStep instruction width h] at helement
            rw [helement]
            refine machine.stringValue_stringStep instruction width h fun hop address hmem hbyte => ?_
            have hsource : address ∈ machine.regs.sourceBytes instruction width (count + 1) :=
              List.mem_flatMap.mpr ⟨i + 1, List.mem_range.mpr hi, hmem⟩
            exact hseparate.apart hop address hsource (hfirst address hbyte)
      case others =>
        intro address hmiss
        have hbefore := machine.bus.fetch?_write_of_notMem
          (machine.stringValue instruction width op 0) (fun hmem => hmiss (hfirst address hmem))
        rw [← hwritten] at hbefore
        refine (hlater.others address fun hlate => hmiss ?_).trans hbefore
        rw [hbytes]
        exact List.mem_append_right _ hlate

end Step

/-! ## So many instructions in order -/

/-- What is left behind by an instruction executed `count` times, unless a fault stops it. -/
def executeTimes [PortDevice δ] (machine : Machine δ) (instruction : Instruction)
    (address : UInt32) (faults : FaultUnit) : Nat → Executed ExecutionUnit δ
  | 0 => machine.finished faults
  | count + 1 =>
    let executed := machine.execute instruction address faults
    match executed.fault with
    | none => executeTimes ⟨executed.core, executed.bus⟩ instruction address executed.faults count
    | some _ => executed

/-- Says whether the single-step trap is pending. -/
def setPending (machine : Machine δ) (pending : Bool) : Machine δ :=
  machine.mapUnit fun unit => { unit with trapPending := pending }

/-- No step looks at that. -/
theorem stringStep_setPending (machine : Machine δ) (instruction : Instruction) (op : StringOp)
    (width : Width) (pending : Bool) :
    (machine.setPending pending).stringStep instruction op width
      = (machine.stringStep instruction op width).setPending pending := by
  cases op <;> rfl

/-- A trap that is pending already stays so. -/
theorem complete_setPending (machine : Machine δ) (armed : Bool) (faults : FaultUnit) :
    (machine.setPending (armed || machine.unit.trapPending)).complete armed faults
      = machine.complete armed faults := by
  have hpending : (armed || (armed || machine.unit.trapPending))
      = (armed || machine.unit.trapPending) := Bool.or_self_left armed _
  exact congrArg (fun pending => finished (machine.setPending pending) faults) hpending

section Times

variable [PortDevice δ] (machine : Machine δ) {instruction : Instruction} {op : StringOp}
  {width : Width}

/-- An unrepeated string instruction is one step. -/
theorem execute_unrepeated (h : instruction.operation = .string op width) (address : UInt32)
    (faults : FaultUnit) :
    machine.execute instruction.unrepeated address faults
      = (machine.begun.stringStep instruction op width).complete (machine.regs.flags.get .trap)
          faults := by
  have hstring : instruction.unrepeated.operation = .string op width := h
  rw [machine.execute_string hstring]
  cases op <;> rfl

/-- Unrepeated storing instructions in order are as many steps. -/
theorem executeTimes_unrepeated (h : instruction.operation = .string op width)
    (hstores : op.stores = true) (address : UInt32) (faults : FaultUnit) (count : Nat) :
    machine.executeTimes instruction.unrepeated address faults (count + 1)
      = (machine.begun.stringSteps instruction op width (count + 1)).complete
          (machine.regs.flags.get .trap) faults := by
  induction count generalizing machine with
  | zero =>
      rw [executeTimes, execute_unrepeated machine h]
      rfl
  | succ count ih =>
      let armed := machine.regs.flags.get .trap
      let stepped := machine.begun.stringStep instruction op width
      let pending := armed || stepped.unit.trapPending
      let steps := machine.begun.stringSteps instruction op width (count + 2)
      have hstep := machine.begun.stringStep_stores instruction width hstores
      -- Executed one by one, the instructions after the first find the shadow lifted and the trap
      -- pending if it will be.
      have hbegun : (stepped.setPending pending).begun = stepped.setPending pending := by
        unfold stepped
        rw [hstep]
        rfl
      have hflags : (stepped.setPending pending).regs.flags.get .trap = armed := by
        unfold stepped
        rw [hstep]
        rfl
      have hsteps : (stepped.setPending pending).stringSteps instruction op width (count + 1)
          = steps.setPending pending :=
        stepped.stringSteps_comm instruction op width
          (fun machine => machine.stringStep_setPending instruction op width pending) (count + 1)
      have hpending : stepped.unit.trapPending = steps.unit.trapPending := by
        unfold stepped steps
        rw [hstep, machine.begun.unit_stringSteps instruction width hstores]
      calc machine.executeTimes instruction.unrepeated address faults (count + 2)
        _ = (stepped.setPending pending).executeTimes instruction.unrepeated address faults
              (count + 1) := by
          rw [executeTimes, execute_unrepeated machine h]
          rfl
        _ = ((stepped.setPending pending).begun.stringSteps instruction op width
              (count + 1)).complete ((stepped.setPending pending).regs.flags.get .trap) faults :=
          ih _
        _ = (steps.setPending (armed || steps.unit.trapPending)).complete armed faults := by
          rw [hbegun, hsteps, hflags, ← hpending]
        _ = steps.complete armed faults := steps.complete_setPending armed faults

/-- A repeated storing instruction is as many steps as CX says. -/
theorem execute_repeated (h : instruction.operation = .string op width) (hstores : op.stores = true)
    {repetition : Repeat} (hrepeated : instruction.prefixes.repetition = some repetition)
    (address : UInt32) (faults : FaultUnit) :
    machine.execute instruction address faults
      = ((machine.begun.stringSteps instruction op width
            (machine.regs.word .cx).toNat).setCount 0).complete
          (machine.regs.flags.get .trap) faults := by
  rw [machine.execute_string h, string, hrepeated]
  refine congrArg (fun after : Machine δ => after.complete _ faults) ?_
  show machine.begun.repeatString instruction op width repetition (machine.regs.word .cx).toNat = _
  cases hcount : (machine.regs.word .cx).toNat with
  | zero =>
      have hcx : machine.regs.word .cx = 0 := UInt16.toNat_inj.mp hcount
      show machine.begun = machine.begun.setCount 0
      rw [← hcx]
      rfl
  | succ count =>
      exact machine.begun.repeatString_of_not_compares instruction op width
        (StringOp.compares_of_stores hstores) repetition count

end Times

end Machine

/-- Repeated MOVS and STOS go through.  They move DI, and MOVS moves SI as well, past as many
    elements as CX says, clear CX, and change no other register.  If the bytes of the destination
    can be written, differ from each other and from those of the source, every element has what
    was taken for it, and no other byte has changed.  In any case the result is that of so many
    unrepeated instructions in order, but for CX.  If CX is zero, nothing changes. -/
theorem blocks_transferred {δ : Type} [PortDevice δ] {instruction : Instruction} {op : StringOp}
    {width : Width} {repetition : Repeat} (hoperation : instruction.operation = .string op width)
    (hstores : op.stores = true) (hrepeated : instruction.prefixes.repetition = some repetition)
    (machine : Machine δ) (address : UInt32) (faults : FaultUnit) :
    let count := (machine.regs.word .cx).toNat
    let executed := machine.execute instruction address faults
    let times := machine.executeTimes instruction.unrepeated address faults count
    executed.fault = none
      ∧ executed.core.regs = machine.regs.afterElements op width count machine.regs.flags 0
      ∧ (machine.Separate instruction op width count →
        machine.Transfers instruction op width count executed.bus)
      ∧ (0 < count → executed
        = { times with core := times.core.mapRegs fun regs => regs.setWord .cx 0 })
      ∧ (count = 0 → executed.core.regs = machine.regs ∧ executed.bus = machine.bus) := by
  intro count executed times
  have hexecuted : executed
      = ((machine.begun.stringSteps instruction op width count).setCount 0).complete
          (machine.regs.flags.get .trap) faults :=
    machine.execute_repeated hoperation hstores hrepeated address faults
  have hunit := machine.begun.unit_stringSteps instruction width hstores count
  have hregs : executed.core.regs
      = machine.regs.afterElements op width count machine.regs.flags 0 := by
    rw [hexecuted]
    exact congrArg (fun unit : ExecutionUnit => unit.regs.setWord .cx 0) hunit
  refine ⟨?_, hregs, ?_, ?_, ?_⟩
  · rw [hexecuted]
    rfl
  · intro hseparate
    have hseparate : machine.begun.Separate instruction op width count :=
      ⟨hseparate.distinct, hseparate.writable, hseparate.apart⟩
    have htransfers := machine.begun.transfers_stringSteps instruction width hstores count hseparate
    rw [hexecuted]
    exact ⟨htransfers.elements, htransfers.others⟩
  · intro hpos
    obtain ⟨left, hleft⟩ := Nat.exists_eq_add_one.mpr hpos
    have htimes : times
        = (machine.begun.stringSteps instruction op width count).complete
            (machine.regs.flags.get .trap) faults := by
      unfold times
      rw [hleft]
      exact machine.executeTimes_unrepeated hoperation hstores address faults left
    rw [hexecuted, htimes]
    rfl
  · intro hzero
    have hcx : machine.regs.word .cx = 0 := UInt16.toNat_inj.mp hzero
    constructor
    · rw [hregs, hzero, ← hcx, RegisterFile.afterElements_zero]
    · rw [hexecuted, hzero]
      rfl

/-- An 8086 about to move two words down, from 0000:0012 to 0001:0012.  What lies from 28h on is
    read-only. -/
def copying : Machine Terminal.Console where
  unit := ExecutionUnit.initial.mapRegs fun regs =>
    { regs with
      cx := ⟨2⟩, si := 0x12, di := 0x12, es := 1, flags := Flags.clear.set .direction true }
  bus := .of ((Memory.ofConfiguration ⟨48, some 0x28⟩).writeBytes 0x10 [1, 2, 3, 4]) .empty 6 2

/-- `REP MOVSW`. -/
def repeatedMovs : Instruction where
  opcode := 0xA5
  prefixes := ⟨none, some .equal, false, 1⟩
  operation := .string .movs .word
  length := 2
  clocks := 27

/-- It moves them. -/
theorem blocks_transferred_downwards :
    decode (.ofList [0xF3, 0xA5]) 0 = .ok repeatedMovs
      ∧ copying.Separate repeatedMovs .movs .word 2
      ∧ (copying.execute repeatedMovs 0 .initial).bus.read .word ⟨1, 0x12⟩ = 0x0403
      ∧ (copying.execute repeatedMovs 0 .initial).bus.read .word ⟨1, 0x10⟩ = 0x0201
      ∧ (copying.execute repeatedMovs 0 .initial).core.regs.si = 0x0E
      ∧ (copying.execute repeatedMovs 0 .initial).bus
        = (copying.executeTimes repeatedMovs.unrepeated 0 .initial 2).bus := by
  have hdestination : copying.regs.destinationBytes .word 2 = [0x22, 0x23, 0x20, 0x21] := rfl
  have hsource : copying.regs.sourceBytes repeatedMovs .word 2 = [0x12, 0x13, 0x10, 0x11] := rfl
  have hseparate : copying.Separate repeatedMovs .movs .word 2 := by
    constructor
    case distinct =>
      rw [hdestination]
      decide
    case writable =>
      rw [hdestination]
      simp only [List.forall_mem_cons]
      exact ⟨⟨by decide, rfl⟩, ⟨by decide, rfl⟩, ⟨by decide, rfl⟩, ⟨by decide, rfl⟩,
        fun _ hmem => absurd hmem List.not_mem_nil⟩
    case apart =>
      rw [hdestination, hsource]
      intro _
      simp
  have hplaces : copying.regs.destinationElement .word 0 = ⟨1, 0x12⟩
      ∧ copying.regs.destinationElement .word 1 = ⟨1, 0x10⟩ := by decide
  have hvalues : copying.stringValue repeatedMovs .word .movs 0 = 0x0403
      ∧ copying.stringValue repeatedMovs .word .movs 1 = 0x0201 := by decide
  obtain ⟨-, hregs, htransfers, htimes, -⟩ :=
    @blocks_transferred Terminal.Console _ repeatedMovs _ _ _ rfl rfl rfl copying 0 .initial
  have hfirst := (htransfers hseparate).elements 0 (by decide)
  have hsecond := (htransfers hseparate).elements 1 (by decide)
  rw [hplaces.1, hvalues.1] at hfirst
  rw [hplaces.2, hvalues.2] at hsecond
  have hbus := congrArg (fun executed => executed.bus) (htimes (by decide))
  exact ⟨rfl, hseparate, hfirst, hsecond, congrArg RegisterFile.si hregs, hbus⟩

end Microprocessor.X86
