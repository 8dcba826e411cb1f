import Mathlib.Logic.Relation
import Microprocessor.Proofs.Arm.Blocks

/-! # Stacks of registers

    A block transfer with write-back stores registers beyond its base and moves the base past
    them; the transfer with the opposite direction and order loads them again and moves the base
    back.  A stack grows upwards or downwards, and its base is the address of the last word or of
    the next free one, which makes four pairs.

      * `StackForm` are the four, and `StackForm.place` counts the bytes beyond a base in the
        direction of growth;
      * `StackForm.Stacked` is what a store does, `Machine.Unstacked` what the load undoes of it;
      * `StackForm.Step` are the steps of a machine that stores and loads in any nesting, and
        does anything else beside that leaves the base and the bytes in use alone;
      * `StackForm.Held` is the invariant of such a run: every frame that has not been loaded
        again lies in memory, one beyond the other (`StackForm.Step.held`);
      * `blocks_stack` says that the top frame of every run is given back. -/

namespace Microprocessor.Arm

/-! ## Forms -/

/-- The stacks that block transfers make: which way they grow, and whether the base is the address
    of the last word or that of the next free one. -/
structure StackForm where
  ascending : Bool
  full : Bool
  deriving DecidableEq

namespace StackForm

variable (form : StackForm)

/-- How registers are stored: by `STMIB`, `STMIA`, `STMDB` or `STMDA`, with write-back. -/
def store : Indexing :=
  ⟨form.full, form.ascending, true⟩

/-- How they are loaded: by `LDMDA`, `LDMDB`, `LDMIA` or `LDMIB`, with write-back. -/
def load : Indexing :=
  ⟨!form.full, !form.ascending, true⟩

/-- An address moved on in the direction of growth. -/
def extended (address : UInt32) (bytes : Nat) : UInt32 :=
  if form.ascending then address + UInt32.ofNat bytes else address - UInt32.ofNat bytes

/-- The address between the bytes in use and those beyond a base. -/
def edge (base : UInt32) : UInt32 :=
  if form.full = form.ascending then base + 4 else base

/-- The address of a byte beyond a base, counted in the direction of growth. -/
def place (base : UInt32) (k : Nat) : UInt32 :=
  if form.ascending then form.edge base + UInt32.ofNat k
  else form.edge base - UInt32.ofNat (k + 1)

/-- The lowest address of a number of bytes beyond a base. -/
def lowest (base : UInt32) (bytes : Nat) : UInt32 :=
  if form.ascending then form.edge base else form.edge base - UInt32.ofNat bytes

theorem extended_zero (address : UInt32) : form.extended address 0 = address := by
  rw [extended]
  split
  · exact UInt32.add_zero address
  · exact UInt32.sub_zero address

theorem extended_extended (address : UInt32) (m n : Nat) :
    form.extended (form.extended address m) n = form.extended address (m + n) := by
  rw [extended, extended, extended, UInt32.ofNat_add]
  cases form.ascending with
  | true => exact UInt32.add_assoc _ _ _
  | false =>
      show address - _ - _ = address - _
      grind

/-- Beyond a moved base the places go on. -/
theorem place_extended (base : UInt32) (m k : Nat) :
    form.place (form.extended base m) k = form.place base (m + k) := by
  obtain ⟨ascending, full⟩ := form
  simp only [place, extended, edge, Nat.add_assoc m k 1, UInt32.ofNat_add m]
  cases ascending <;> cases full <;> simp only [if_true, Bool.false_eq_true, if_false] <;> grind

/-- The bytes from the lowest address on are those beyond the base. -/
theorem lowest_add (base : UInt32) {bytes i : Nat} (hi : i < bytes) :
    ∃ k < bytes, form.lowest base bytes + UInt32.ofNat i = form.place base k := by
  rw [lowest]
  cases hascending : form.ascending with
  | true =>
      refine ⟨i, hi, ?_⟩
      rw [place, hascending]
      rfl
  | false =>
      -- Downwards the lowest byte is the last.
      refine ⟨bytes - 1 - i, by omega, ?_⟩
      have hsum : bytes = i + (bytes - 1 - i + 1) := by omega
      have hbytes : UInt32.ofNat bytes = UInt32.ofNat i + UInt32.ofNat (bytes - 1 - i + 1) := by
        rw [← UInt32.ofNat_add, ← hsum]
      rw [place, hascending, hbytes]
      show form.edge base - _ + _ = form.edge base - _
      grind

/-- What is stored begins at the lowest address. -/
theorem blockStart_store (base : UInt32) (count : Nat) :
    Machine.blockStart form.store base count = form.lowest base (4 * count) := by
  obtain ⟨ascending, full⟩ := form
  cases ascending <;> cases full
  case false.false =>
    show base - _ + 4 = base + 4 - _
    grind
  all_goals rfl

/-- What is loaded, with the base past it, begins there too. -/
theorem blockStart_load (base : UInt32) (count : Nat) :
    Machine.blockStart form.load (form.extended base (4 * count)) count
      = form.lowest base (4 * count) := by
  obtain ⟨ascending, full⟩ := form
  cases ascending <;> cases full
  case false.false =>
    show base - _ + 4 = base + 4 - _
    grind
  case false.true => rfl
  case true.false => exact UInt32.add_sub_cancel base _
  case true.true => exact congrArg (· + 4) (UInt32.add_sub_cancel base _)

/-- A store moves the base past the bytes. -/
theorem moved_store (base : UInt32) (bytes : Nat) :
    form.store.moved base (UInt32.ofNat bytes) = form.extended base bytes :=
  rfl

/-- The load moves it back. -/
theorem moved_load (base : UInt32) (bytes : Nat) :
    form.load.moved (form.extended base bytes) (UInt32.ofNat bytes) = base := by
  rw [Indexing.moved, load, extended]
  cases form.ascending with
  | true => exact UInt32.add_sub_cancel base _
  | false => exact UInt32.sub_add_cancel base _

end StackForm

/-! ## Frames -/

/-- A list that names registers, but neither the base nor the program counter. -/
structure Savable (rn : Register) (registers : UInt16) : Prop where
  nonempty : listedRegisters registers ≠ []
  base : isListed registers rn.number = false
  pc : isListed registers 15 = false

theorem Savable.isEmpty {rn : Register} {registers : UInt16} (h : Savable rn registers) :
    ((listedRegisters registers).map Register.ofNumber).isEmpty = false := by
  rw [List.isEmpty_map, List.isEmpty_eq_false_iff]
  exact h.nonempty

/-- Registers that have been stored: the list, and the processor as it was. -/
structure Frame where
  registers : UInt16
  processor : Processor

/-- The number of bytes of frames. -/
def depth : List Frame → Nat
  | [] => 0
  | frame :: below => depth below + blockSize frame.registers

/-! ## What the transfers do -/

/-- What a store with write-back does: the base moves past the bytes, the listed registers are in
    consecutive words from the lowest address on, no other byte has changed, nor the extent of
    memory, nor anything else than memory and the base. -/
structure StackForm.Stacked {δ : Type} (form : StackForm) (rn : Register) (registers : UInt16)
    (before after : Machine δ) : Prop where
  processor : after.processor
    = before.processor.put rn (form.extended (before.processor.get rn) (blockSize registers))
  words : ∀ register : Register, isListed registers register.number = true →
    after.memory.readDouble
        (Machine.wordOf (form.lowest (before.processor.get rn) (blockSize registers)) registers
          register)
      = before.processor.get register
  elsewhere : ∀ address,
    (∀ k < blockSize registers, form.place (before.processor.get rn) k ≠ address) →
      after.memory.fetch? address = before.memory.fetch? address
  readOnlyKept : before.memory.ReadOnlyKept after.memory
  bus : after.bus = before.bus.mapMemory fun _ => after.memory

/-- What a load gives back of a saved processor: the listed registers and the base.  Nothing else
    has changed. -/
structure Machine.Unstacked {δ : Type} (rn : Register) (registers : UInt16) (saved : Processor)
    (before after : Machine δ) : Prop where
  listed : ∀ register : Register, isListed registers register.number = true →
    after.processor.get register = saved.get register
  base : after.processor.get rn = saved.get rn
  others : ∀ register : Register, isListed registers register.number = false → register ≠ rn →
    after.processor.get register = before.processor.get register
  registersOnly : before.processor.RegistersOnly after.processor
  halted : after.processor.halted = before.processor.halted
  bus : after.bus = before.bus

namespace StackForm

variable {δ : Type} (form : StackForm) {rn : Register} {registers : UInt16}

section

variable (machine : Machine δ) (here : UInt32)

/-- A store puts the bytes of the registers beyond the base, and moves the base past them. -/
theorem perform_store (hrn : rn ≠ .pc) (hsavable : Savable rn registers) :
    machine.perform here (.blockTransfer false form.store false rn registers)
      = (machine.mapMemory fun memory =>
          memory.writeBytes (form.lowest (machine.processor.get rn) (blockSize registers))
            (blockBytes machine.processor.get registers)).mapProcessor
          fun processor => processor.put rn
            (form.extended (machine.processor.get rn) (blockSize registers)) := by
  have hbase := machine.processor.operand_of_ne (here + 8) hrn
  -- None of the registers is the program counter, and all are stored as they are.
  have hvalues : ((listedRegisters registers).map Register.ofNumber).map
      (fun register => if false then machine.processor.userOperand (here + 8) register
        else machine.processor.operand (here + 8) register)
      = ((listedRegisters registers).map Register.ofNumber).map machine.processor.get := by
    refine List.map_congr_left fun register hmem => ?_
    rw [if_neg Bool.false_ne_true]
    refine machine.processor.operand_of_ne _ ?_
    rintro rfl
    exact Machine.pc_not_mem_listed hsavable.pc hmem
  have hwritten := funext (Machine.writeBlock_eq_writeBytes
    (((listedRegisters registers).map Register.ofNumber).map machine.processor.get)
    (form.lowest (machine.processor.get rn) (blockSize registers)))
  rw [Machine.perform, Machine.blockTransfer, hsavable.isEmpty, if_neg Bool.false_ne_true,
    if_neg Bool.false_ne_true, Machine.storeBlock, hvalues, hbase, List.length_map,
    form.blockStart_store, form.moved_store, ← blockSize, hwritten]
  exact congrArg (Machine.mk · _) (machine.processor.writeBack_of_ne hrn _)

/-- A load with the base past the bytes of the registers gives them back. -/
theorem perform_load {base : UInt32} (hrn : rn ≠ .pc) (hsavable : Savable rn registers)
    (hbase : machine.processor.get rn = form.extended base (blockSize registers)) :
    machine.perform here (.blockTransfer true form.load false rn registers)
      = machine.mapProcessor fun processor =>
          (processor.put rn base).writeAll
            (Machine.readBlock machine.memory (form.lowest base (blockSize registers))
              ((listedRegisters registers).map Register.ofNumber)) := by
  have hoperand := (machine.processor.operand_of_ne (here + 8) hrn).trans hbase
  rw [blockSize] at hoperand
  rw [Machine.perform, Machine.blockTransfer, hsavable.isEmpty, if_neg Bool.false_ne_true,
    if_pos rfl, Machine.loadBlock, hoperand, List.length_map, form.blockStart_load,
    form.moved_load, hsavable.base]
  exact congrArg (fun based : Processor => Machine.mk (based.writeAll _) machine.bus)
    (machine.processor.writeBack_of_ne hrn base)

/-- Registers that are stored where there is memory to write lie there afterwards. -/
theorem hasBytes_stored (hrn : rn ≠ .pc) (hsavable : Savable rn registers)
    (hwritable : ∀ k < blockSize registers,
      machine.memory.Writable (form.place (machine.processor.get rn) k)) :
    (machine.perform here (.blockTransfer false form.store false rn registers)).memory.HasBytes
      (form.lowest (machine.processor.get rn) (blockSize registers))
      (blockBytes machine.processor.get registers) := by
  have hlength := length_blockBytes machine.processor.get registers
  rw [form.perform_store machine here hrn hsavable]
  refine machine.memory.hasBytes_writeBytes (hlength ▸ blockSize_le registers) fun i hi => ?_
  obtain ⟨k, hk, hplace⟩ := form.lowest_add (machine.processor.get rn) (hlength ▸ hi)
  exact hplace ▸ hwritable k hk

/-- Nothing else has changed in memory. -/
theorem fetch?_stored (hrn : rn ≠ .pc) (hsavable : Savable rn registers) {address : UInt32}
    (h : ∀ k < blockSize registers, form.place (machine.processor.get rn) k ≠ address) :
    (machine.perform here (.blockTransfer false form.store false rn registers)).memory.fetch?
        address
      = machine.memory.fetch? address := by
  have hlength := length_blockBytes machine.processor.get registers
  rw [form.perform_store machine here hrn hsavable]
  refine machine.memory.fetch?_writeBytes_of_outside (hlength ▸ blockSize_le registers)
    fun i hi => ?_
  obtain ⟨k, hk, hplace⟩ := form.lowest_add (machine.processor.get rn) (hlength ▸ hi)
  exact hplace ▸ h k hk

theorem stacked_store (hrn : rn ≠ .pc) (hsavable : Savable rn registers)
    (hwritable : ∀ k < blockSize registers,
      machine.memory.Writable (form.place (machine.processor.get rn) k)) :
    form.Stacked rn registers machine
      (machine.perform here (.blockTransfer false form.store false rn registers)) where
  processor := congrArg Machine.processor (form.perform_store machine here hrn hsavable)
  words := fun _ hlisted =>
    Machine.readDouble_wordOf (form.hasBytes_stored machine here hrn hsavable hwritable) hlisted
  elsewhere := fun _ => form.fetch?_stored machine here hrn hsavable
  readOnlyKept := (machine.perform_accessed here _).memory.readOnlyKept
  bus := by
    rw [form.perform_store machine here hrn hsavable]
    rfl

/-- A load gives back the registers whose bytes lie there. -/
theorem unstacked_load {saved : Processor} (hrn : rn ≠ .pc) (hsavable : Savable rn registers)
    (hbase : machine.processor.get rn = form.extended (saved.get rn) (blockSize registers))
    (hholds : machine.memory.HasBytes (form.lowest (saved.get rn) (blockSize registers))
      (blockBytes saved.get registers)) :
    Machine.Unstacked rn registers saved machine
      (machine.perform here (.blockTransfer true form.load false rn registers)) := by
  have hregisters := Machine.registers_readBlock machine.memory
    ((listedRegisters registers).map Register.ofNumber)
    (form.lowest (saved.get rn) (blockSize registers))
  have hvalues := Machine.readBlock_eq_of_hasBytes _ hholds
  -- A register that is not listed is not loaded.
  have hother : ∀ {register : Register}, isListed registers register.number = false →
      ∀ processor : Processor, (processor.writeAll (Machine.readBlock machine.memory
        (form.lowest (saved.get rn) (blockSize registers))
        ((listedRegisters registers).map Register.ofNumber))).get register
          = processor.get register := by
    intro register hunlisted processor
    refine processor.get_writeAll_of_not_mem fun hmem => ?_
    rw [hregisters, mem_listed_iff, hunlisted] at hmem
    cases hmem
  rw [form.perform_load machine here hrn hsavable hbase]
  constructor
  case listed =>
    intro register hlisted
    refine Processor.get_writeAll_of_mem (hregisters.symm ▸ nodup_listed registers)
      (hvalues ▸ List.mem_map_of_mem (mem_listed_iff.mpr hlisted)) ?_ _
    rintro rfl
    exact Bool.false_ne_true (hsavable.pc.symm.trans hlisted)
  case base => exact (hother hsavable.base _).trans (Processor.get_put_self _ _ _)
  case others =>
    intro register hunlisted hne
    exact (hother hunlisted _).trans (Processor.get_put_of_ne _ _ hne.symm)
  case registersOnly =>
    exact (Processor.RegistersOnly.put _ _ _).trans (Processor.Writes.writeAll _ _).registersOnly
  case halted => exact Processor.halted_writeAll _ _
  case bus => rfl

end

/-! ## Steps -/

/-- A step of a machine and the frames that it has stored and not loaded again: a store of
    registers at bytes that can be written and are not in use, the load of the last frame, or
    anything else that leaves the base and the bytes in use alone. -/
inductive Step (rn : Register) (origin : UInt32) :
    Machine δ × List Frame → Machine δ × List Frame → Prop
  | push {machine after : Machine δ} {frames : List Frame} (instruction : Instruction)
      (here : UInt32) (registers : UInt16)
      (hoperation : instruction.operation = .blockTransfer false form.store false rn registers)
      (hsavable : Savable rn registers)
      (hwritable : ∀ k < blockSize registers,
        machine.memory.Writable (form.place (machine.processor.get rn) k))
      (hdistinct : ∀ i < depth frames + blockSize registers,
        ∀ j < depth frames + blockSize registers,
          form.place origin i = form.place origin j → i = j)
      (h : machine.CarriesOut instruction here after) :
      Step rn origin (machine, frames) (after, ⟨registers, machine.processor⟩ :: frames)
  | pop {machine after : Machine δ} {frame : Frame} {below : List Frame}
      (instruction : Instruction) (here : UInt32)
      (hoperation : instruction.operation
        = .blockTransfer true form.load false rn frame.registers)
      (h : machine.CarriesOut instruction here after) :
      Step rn origin (machine, frame :: below) (after, below)
  | other {machine after : Machine δ} {frames : List Frame}
      (hbase : after.processor.get rn = machine.processor.get rn)
      (hbytes : ∀ k < depth frames,
        after.memory.read (form.place origin k) = machine.memory.read (form.place origin k)) :
      Step rn origin (machine, frames) (after, frames)

/-- Frames lie in memory one beyond the other, and the base is past the last of them. -/
inductive Held (rn : Register) (origin : UInt32) (memory : Memory) : UInt32 → List Frame → Prop
  | empty : Held rn origin memory origin []
  | frame (frame : Frame) {below : List Frame} (hsavable : Savable rn frame.registers)
      (hbytes : memory.HasBytes
        (form.lowest (frame.processor.get rn) (blockSize frame.registers))
        (blockBytes frame.processor.get frame.registers))
      (hbelow : Held rn origin memory (frame.processor.get rn) below) :
      Held rn origin memory
        (form.extended (frame.processor.get rn) (blockSize frame.registers)) (frame :: below)

namespace Held

variable {form} {origin base : UInt32} {memory other : Memory} {frames : List Frame}

/-- The base has moved by all their bytes. -/
theorem base_eq (h : form.Held rn origin memory base frames) :
    base = form.extended origin (depth frames) := by
  induction h with
  | empty => exact (form.extended_zero origin).symm
  | @frame frame below _ _ _ ih =>
      rw [depth, ← form.extended_extended, ← ih]

/-- They are held wherever the bytes in use are the same. -/
theorem congr (h : form.Held rn origin memory base frames)
    (hsame : ∀ k < depth frames,
      other.read (form.place origin k) = memory.read (form.place origin k)) :
    form.Held rn origin other base frames := by
  induction h with
  | empty => exact .empty
  | @frame frame below hsavable hbytes hbelow ih =>
      refine .frame frame hsavable (hbytes.congr fun i hi => ?_)
        (ih fun k hk => hsame k (Nat.lt_of_lt_of_le hk (Nat.le_add_right _ _)))
      -- The bytes of the frame are in use, beyond those below.
      obtain ⟨k, hk, hplace⟩ := form.lowest_add (frame.processor.get rn)
        (length_blockBytes frame.processor.get frame.registers ▸ hi)
      rw [hplace, hbelow.base_eq, form.place_extended]
      exact hsame _ (Nat.add_lt_add_left hk _)

end Held

/-- The top frame is given back. -/
theorem Held.unstacked {form : StackForm} {rn : Register} {origin : UInt32} {machine : Machine δ}
    {frame : Frame} {below : List Frame} (hrn : rn ≠ .pc)
    (h : form.Held rn origin machine.memory (machine.processor.get rn) (frame :: below))
    (here : UInt32) :
    Machine.Unstacked rn frame.registers frame.processor machine
      (machine.perform here (.blockTransfer true form.load false rn frame.registers)) := by
  generalize hbase : machine.processor.get rn = base at h
  cases h with
  | frame _ hsavable hbytes _ => exact form.unstacked_load machine here hrn hsavable hbase hbytes

/-- A step keeps the frames that it does not load. -/
theorem Step.held {form : StackForm} {rn : Register} {origin : UInt32}
    {before after : Machine δ × List Frame} (hrn : rn ≠ .pc)
    (h : form.Step rn origin before after)
    (hheld : form.Held rn origin before.1.memory (before.1.processor.get rn) before.2) :
    form.Held rn origin after.1.memory (after.1.processor.get rn) after.2 := by
  cases h with
  | @push machine _ frames _ here registers hoperation hsavable hwritable hdistinct h =>
      obtain ⟨-, hafter⟩ := (Machine.carriesOut_iff hoperation rfl).mp h
      dsimp only at hheld ⊢
      have hstacked := form.stacked_store machine here hrn hsavable hwritable
      have hstored := form.hasBytes_stored machine here hrn hsavable hwritable
      rw [← hafter] at hstacked hstored
      -- The new bytes are beyond those in use.
      have hbelow := hheld.congr fun k hk => by
        refine congrArg (·.getD Memory.unpopulated) (hstacked.elsewhere _ fun j hj hsame => ?_)
        rw [hheld.base_eq, form.place_extended] at hsame
        have hplaces := hdistinct _ (Nat.add_lt_add_left hj _) _ (Nat.lt_add_right _ hk) hsame
        omega
      rw [hstacked.processor, Processor.get_put_self]
      exact .frame ⟨registers, machine.processor⟩ hsavable hstored hbelow
  | @pop machine after frame below _ here hoperation h =>
      obtain ⟨-, hafter⟩ := (Machine.carriesOut_iff hoperation rfl).mp h
      dsimp only at hheld ⊢
      have hunstacked := hheld.unstacked hrn here
      rw [← hafter] at hunstacked
      have hmemory : after.memory = machine.memory := congrArg Bus.memory hunstacked.bus
      rw [hunstacked.base, hmemory]
      generalize machine.processor.get rn = base at hheld
      cases hheld with
      | frame _ _ _ hbelow => exact hbelow
  | other hbase hbytes =>
      rw [hbase]
      exact hheld.congr hbytes

/-- So does every run. -/
theorem held_of_run {form : StackForm} {rn : Register} {machine : Machine δ}
    {state : Machine δ × List Frame} (hrn : rn ≠ .pc)
    (h : Relation.ReflTransGen (form.Step rn (machine.processor.get rn)) (machine, []) state) :
    form.Held rn (machine.processor.get rn) state.1.memory (state.1.processor.get rn)
      state.2 := by
  induction h with
  | refl => exact .empty
  | tail _ hstep ih => exact hstep.held hrn ih

end StackForm

/-- A store of registers beyond a base, at bytes that can be written, moves the base past them, and
    the load that goes with it gives back the registers and the base, whatever has happened to the
    rest of the machine in between.  However such transfers are nested, the base is past the
    bytes of all frames that have not been loaded again, and the last of these is given back as it
    was stored. -/
theorem blocks_stack {δ : Type} (form : StackForm) {rn : Register} (hrn : rn ≠ .pc) :
    (∀ (machine : Machine δ) (here : UInt32) (registers : UInt16) (store : Instruction),
      store.operation = .blockTransfer false form.store false rn registers →
      Savable rn registers →
      machine.processor.status.satisfies store.condition = true →
      let place := form.place (machine.processor.get rn)
      (∀ k < blockSize registers, machine.memory.Writable (place k)) →
      ∃ stored,
        machine.CarriesOut store here stored
        ∧ form.Stacked rn registers machine stored
        ∧ ∀ (later : Machine δ) (there : UInt32) (load : Instruction),
          load.operation = .blockTransfer true form.load false rn registers →
          later.processor.status.satisfies load.condition = true →
          later.processor.get rn = stored.processor.get rn →
          (∀ k < blockSize registers, later.memory.read (place k) = stored.memory.read (place k)) →
          ∃ loaded,
            later.CarriesOut load there loaded
            ∧ Machine.Unstacked rn registers machine.processor later loaded)
    ∧ ∀ (start : Machine δ) (machine : Machine δ) (frames : List Frame),
        let origin := start.processor.get rn
        Relation.ReflTransGen (form.Step rn origin) (start, []) (machine, frames) →
        machine.processor.get rn = form.extended origin (depth frames)
        ∧ ∀ frame below, frames = frame :: below →
          ∀ (here : UInt32) (load : Instruction),
            load.operation = .blockTransfer true form.load false rn frame.registers →
            machine.processor.status.satisfies load.condition = true →
            ∃ loaded,
              machine.CarriesOut load here loaded
              ∧ Machine.Unstacked rn frame.registers frame.processor machine loaded := by
  constructor
  · intro machine here registers store hstore hsavable hsatisfied place hwritable
    have hstacked := form.stacked_store machine here hrn hsavable hwritable
    have hholds := form.hasBytes_stored machine here hrn hsavable hwritable
    refine ⟨_, (Machine.carriesOut_iff hstore rfl).mpr ⟨hsatisfied, rfl⟩, hstacked, ?_⟩
    intro later there load hload hsatisfied hbase hsame
    rw [hstacked.processor, Processor.get_put_self] at hbase
    refine ⟨_, (Machine.carriesOut_iff hload rfl).mpr ⟨hsatisfied, rfl⟩,
      form.unstacked_load later there hrn hsavable hbase (hholds.congr fun i hi => ?_)⟩
    obtain ⟨k, hk, hplace⟩ := form.lowest_add (machine.processor.get rn)
      (length_blockBytes machine.processor.get registers ▸ hi)
    exact hplace ▸ hsame k hk
  · intro start machine frames origin hrun
    have hheld := StackForm.held_of_run hrn hrun
    refine ⟨hheld.base_eq, ?_⟩
    rintro frame below rfl here load hload hsatisfied
    exact ⟨_, (Machine.carriesOut_iff hload rfl).mpr ⟨hsatisfied, rfl⟩, hheld.unstacked hrn here⟩

/-- The usual stack: it grows downwards, and the base is the address of the last word. -/
def usual : StackForm :=
  ⟨false, true⟩

/-- An ARM with 1 in R0, 2 in R1 and an empty stack at the end of 24 bytes. -/
def beforeStack : Machine Unit where
  processor := ((Processor.initial.put (.ofNumber 0) 1).put (.ofNumber 1) 2).put .sp 24
  bus := .of ⟨Array.replicate 24 0, none⟩ .empty 4 4

/-- STMDB SP!,{R0,R1} stores 1 and 2; with 7 in R0, STMDB SP!,{R0} stores that beyond them.
    LDMIA SP!,{R0} gives back 7, and LDMIA SP!,{R0,R1} then gives back 1 and 2. -/
theorem blocks_stack_nested :
    ∃ outer inner loaded last : Machine Unit,
      beforeStack.CarriesOut (.ofWord 0xE92D0003) 0 outer
      ∧ outer.processor.get .sp = 16
      ∧ outer.memory.readDouble 20 = 2
      ∧ (outer.mapProcessor (·.put (.ofNumber 0) 7)).CarriesOut (.ofWord 0xE92D0001) 4 inner
      ∧ inner.processor.get .sp = 12
      ∧ inner.CarriesOut (.ofWord 0xE8BD0001) 8 loaded
      ∧ loaded.processor.get (.ofNumber 0) = 7
      ∧ loaded.CarriesOut (.ofWord 0xE8BD0003) 12 last
      ∧ last.processor.get (.ofNumber 0) = 1
      ∧ last.processor.get (.ofNumber 1) = 2
      ∧ last.processor.get .sp = 24 := by
  have hboth : Savable .sp 3 := ⟨by decide +kernel, by decide, by decide⟩
  have hone : Savable .sp 1 := ⟨by decide +kernel, by decide, by decide⟩
  have hsp : Register.sp ≠ .pc := by decide
  obtain ⟨hstores, hgives⟩ := blocks_stack (δ := Unit) usual hsp
  obtain ⟨outer, houter, houterStacked, -⟩ := hstores beforeStack 0 3 (.ofWord 0xE92D0003)
    (by decide +kernel) hboth (by decide +kernel) (by decide +kernel)
  -- Of what is stored, only the processor is known outright, and where there is memory.
  have houterProcessor : outer.processor = beforeStack.processor.put .sp 16 :=
    houterStacked.processor.trans (by decide +kernel)
  have hchanged : (outer.mapProcessor (·.put (.ofNumber 0) 7)).processor
      = (beforeStack.processor.put .sp 16).put (.ofNumber 0) 7 :=
    congrArg (·.put (.ofNumber 0) 7) houterProcessor
  have hwritable : ∀ k < blockSize 1,
      (outer.mapProcessor (·.put (.ofNumber 0) 7)).memory.Writable (usual.place
        ((outer.mapProcessor (·.put (.ofNumber 0) 7)).processor.get .sp) k) := by
    intro k hk
    refine (houterStacked.readOnlyKept.writable_iff _).mpr ?_
    rw [hchanged]
    revert k
    decide +kernel
  obtain ⟨inner, hinner, hinnerStacked, -⟩ :=
    hstores (outer.mapProcessor (·.put (.ofNumber 0) 7)) 4 1 (.ofWord 0xE92D0001)
      (by decide +kernel) hone (by rw [hchanged]; decide +kernel) hwritable
  have hinnerProcessor : inner.processor
      = ((beforeStack.processor.put .sp 16).put (.ofNumber 0) 7).put .sp 12 := by
    rw [hinnerStacked.processor, hchanged]
    decide +kernel
  have hpushed : usual.Step .sp 24 (beforeStack, []) (outer, [⟨3, beforeStack.processor⟩]) :=
    .push (.ofWord 0xE92D0003) 0 3 (by decide +kernel) hboth (by decide +kernel)
      (by decide +kernel) houter
  have hbetween : usual.Step .sp 24 (outer, [⟨3, beforeStack.processor⟩])
      (outer.mapProcessor (·.put (.ofNumber 0) 7), [⟨3, beforeStack.processor⟩]) :=
    .other (outer.processor.get_put_of_ne 7 (by decide)) fun _ _ => rfl
  have hpushedAgain : usual.Step .sp 24
      (outer.mapProcessor (·.put (.ofNumber 0) 7), [⟨3, beforeStack.processor⟩])
      (inner, [⟨1, (outer.mapProcessor (·.put (.ofNumber 0) 7)).processor⟩,
        ⟨3, beforeStack.processor⟩]) :=
    .push (.ofWord 0xE92D0001) 4 1 (by decide +kernel) hone hwritable (by decide +kernel) hinner
  have hrun := ((Relation.ReflTransGen.single hpushed).tail hbetween).tail hpushedAgain
  have hloads : (Instruction.ofWord 0xE8BD0001).operation
      = .blockTransfer true usual.load false .sp 1 := by decide +kernel
  obtain ⟨-, hinnerGives⟩ := hgives beforeStack inner _ hrun
  obtain ⟨loaded, hloaded, hinnerBack⟩ := hinnerGives _ _ rfl 8 (.ofWord 0xE8BD0001) hloads
    (by rw [hinnerProcessor]; decide +kernel)
  have hloadedStatus := hinnerBack.registersOnly.status.trans
    (congrArg Processor.status hinnerProcessor)
  have hpopped := hrun.tail (.pop (.ofWord 0xE8BD0001) 8 hloads hloaded)
  obtain ⟨-, houterGives⟩ := hgives beforeStack loaded _ hpopped
  obtain ⟨last, hlast, houterBack⟩ := houterGives _ _ rfl 12 (.ofWord 0xE8BD0003)
    (by decide +kernel) (by rw [hloadedStatus]; decide +kernel)
  refine ⟨outer, inner, loaded, last, houter, ?_, ?_, hinner, ?_, hloaded, ?_, hlast, ?_, ?_, ?_⟩
  · rw [houterProcessor]
    decide +kernel
  · exact (houterStacked.words (.ofNumber 1) (by decide +kernel)).trans (by decide +kernel)
  · rw [hinnerProcessor]
    decide +kernel
  · have hlisted : isListed 1 (Register.ofNumber 0).number = true := by decide +kernel
    refine (hinnerBack.listed (.ofNumber 0) hlisted).trans ?_
    rw [hchanged]
    decide +kernel
  · exact (houterBack.listed (.ofNumber 0) (by decide +kernel)).trans (by decide +kernel)
  · exact (houterBack.listed (.ofNumber 1) (by decide +kernel)).trans (by decide +kernel)
  · exact houterBack.base.trans (by decide +kernel)

end Microprocessor.Arm
