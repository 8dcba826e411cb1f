import Microprocessor.Proofs.X86.Cells
import Microprocessor.Proofs.X86.Execution
import Microprocessor.Terminal.Console

/-! # What an exchange does

    An exchange reads both operands, writes the first, which is a register, and then
    the second.  The address of a memory operand is computed again for the second
    write, from registers of which the first may be one: its old value then goes to
    another place, and the operand keeps its own.

      * `Machine.Exchanges` says what is exchanged, and that all the rest is as
        before;
      * `ExecutionUnit.effectiveOffset_write` is how far a memory operand is moved by
        writing a register;
      * `xchg_exchanges_unless_moved` is about whole instructions. -/

namespace Microprocessor.X86

/-! ## Registers in an address -/

/-- The register is one of those that are summed. -/
def AddressBase.IsMadeOf (base : AddressBase) (register : WordRegister) : Prop :=
  base.registers.1 = some register ∨ base.registers.2 = some register

instance (base : AddressBase) (register : WordRegister) : Decidable (base.IsMadeOf register) :=
  inferInstanceAs (Decidable (_ ∨ _))

/-- No register is summed twice. -/
theorem AddressBase.second_ne_of_first_eq {base : AddressBase} {register : WordRegister}
    (h : base.registers.1 = some register) : base.registers.2 ≠ some register := by
  intro hsecond
  have hsame := h.trans hsecond.symm
  cases base with
  | direct => cases h
  | _ => cases hsame

/-- All that a general register consists of is in one word register. -/
theorem Register.fst_of_mem_halves {register : Register} {half : WordRegister × Bool}
    (h : half ∈ register.halves) : half.1 = register.container := by
  cases register with
  | byte r =>
      obtain rfl := List.mem_singleton.mp h
      rfl
  | word r =>
      rcases List.mem_cons.mp h with rfl | h
      · rfl
      · obtain rfl := List.mem_singleton.mp h
        rfl

namespace RegisterFile

variable (regs : RegisterFile) (register : Register) (value : UInt16)

/-- The other word registers are as before. -/
theorem word_write_of_ne {other : WordRegister} (h : other ≠ register.container) :
    (regs.write register value).word other = regs.word other := by
  have hhalf : ∀ high, (regs.write register value).half (other, high) = regs.half (other, high) :=
    fun high => regs.half_write_of_not_mem (fun hmem => h (Register.fst_of_mem_halves hmem)) value
  rw [word_eq_wordOfBytes, word_eq_wordOfBytes regs, hhalf, hhalf]

/-- The word register is as before exactly if what is written was there. -/
theorem word_write_eq_iff :
    (regs.write register value).word register.container = regs.word register.container
      ↔ register.width.bytesOf value = register.width.bytesOf (regs.read register) := by
  rw [← map_half_write regs, ← map_half_read, List.map_inj_left]
  constructor
  · intro hword half hmem
    obtain ⟨other, high⟩ := half
    obtain rfl : other = register.container := Register.fst_of_mem_halves hmem
    cases high with
    | false => exact congrArg lowByte hword
    | true => exact congrArg highByte hword
  · intro hhalves
    have hhalf : ∀ half, (regs.write register value).half half = regs.half half := by
      intro half
      by_cases hmem : half ∈ register.halves
      · exact hhalves half hmem
      · exact regs.half_write_of_not_mem hmem value
    rw [word_eq_wordOfBytes, word_eq_wordOfBytes regs, hhalf, hhalf]

end RegisterFile

/-- What a register adds to an address, if there is one. -/
def RegisterFile.summand (regs : RegisterFile) : Option WordRegister → UInt16
  | some register => regs.word register
  | none => 0

/-- A memory operand moves by as much as its register changes. -/
theorem ExecutionUnit.effectiveOffset_write (unit : ExecutionUnit) (register : Register)
    (value : UInt16) (address : EffectiveAddress) :
    (unit.mapRegs fun regs => regs.write register value).effectiveOffset address
      = unit.effectiveOffset address
        + if address.base.IsMadeOf register.container then
            (unit.regs.write register value).word register.container
              - unit.regs.word register.container
          else 0 := by
  have hsum : ∀ unit : ExecutionUnit, unit.effectiveOffset address
      = unit.regs.summand address.base.registers.1 + unit.regs.summand address.base.registers.2
        + address.displacement := fun _ => rfl
  have hsummand : ∀ summand, (unit.regs.write register value).summand summand
      = unit.regs.summand summand
        + if summand = some register.container then
            (unit.regs.write register value).word register.container
              - unit.regs.word register.container
          else 0 := by
    rintro (_ | other)
    · rfl
    · by_cases h : other = register.container
      · rw [if_pos (congrArg some h), h]
        show (unit.regs.write register value).word _ = unit.regs.word _ + _
        grind
      · rw [if_neg (fun heq => h (Option.some.inj heq)), UInt16.add_zero]
        exact unit.regs.word_write_of_ne register value h
  rw [hsum, hsum]
  show (unit.regs.write register value).summand _ + (unit.regs.write register value).summand _ + _
    = _
  rw [hsummand, hsummand]
  by_cases hfirst : address.base.registers.1 = some register.container
  · have hsecond := AddressBase.second_ne_of_first_eq hfirst
    have huses : address.base.IsMadeOf register.container := .inl hfirst
    rw [if_pos hfirst, if_neg hsecond, if_pos huses]
    grind
  · by_cases hsecond : address.base.registers.2 = some register.container
    · have huses : address.base.IsMadeOf register.container := .inr hsecond
      rw [if_neg hfirst, if_pos hsecond, if_pos huses]
      grind
    · have hneither : ¬address.base.IsMadeOf register.container := fun h => h.elim hfirst hsecond
      rw [if_neg hfirst, if_neg hsecond, if_neg hneither]
      grind

/-- So the place of a memory operand moves within its segment. -/
theorem ExecutionUnit.locate_write (unit : ExecutionUnit) (register : Register) (value : UInt16)
    (instruction : Instruction) (address : EffectiveAddress) :
    (unit.mapRegs fun regs => regs.write register value).locate instruction address
      = (unit.locate instruction address).advance
          (if address.base.IsMadeOf register.container then
            (unit.regs.write register value).word register.container
              - unit.regs.word register.container
          else 0) := by
  have hsegment := (unit.regs.write_others register value).1 (instruction.segmentFor address)
  have hoffset := unit.effectiveOffset_write register value address
  unfold locate
  rw [hoffset]
  exact congrArg (fun base => MemoryLocator.mk base _) hsegment

/-- It stays exactly if the register is no part of its address, or has had the value before. -/
theorem ExecutionUnit.locate_write_eq_iff (unit : ExecutionUnit) (register : Register)
    (value : UInt16) (instruction : Instruction) (address : EffectiveAddress) :
    (unit.mapRegs fun regs => regs.write register value).locate instruction address
        = unit.locate instruction address
      ↔ (address.base.IsMadeOf register.container →
          register.width.bytesOf value = register.width.bytesOf (unit.regs.read register)) := by
  rw [locate_write, ← unit.regs.word_write_eq_iff]
  by_cases huses : address.base.IsMadeOf register.container
  · rw [if_pos huses]
    constructor
    · intro hsame _
      have hoffset := congrArg MemoryLocator.offset hsame
      have hunchanged : ∀ offset new old : UInt16, offset + (new - old) = offset → new = old := by
        intro offset new old h
        grind
      exact hunchanged _ _ _ hoffset
    · intro hsame
      rw [hsame huses, UInt16.sub_self, MemoryLocator.advance_zero]
  · rw [if_neg huses, MemoryLocator.advance_zero]
    exact ⟨fun _ h => absurd h huses, fun _ => rfl⟩

/-! ## Exchanges -/

/-- Two general registers of a width are one and the same, or have no half in common. -/
theorem Register.eq_or_disjoint {register other : Register} (h : register.width = other.width) :
    register = other ∨ ∀ half ∈ register.halves, half ∉ other.halves := by
  by_cases heq : register = other
  · exact .inl heq
  · refine .inr ?_
    intro half hmem hother
    refine heq ?_
    cases register with
    | byte r =>
        cases other with
        | byte q =>
            have hcontainer : r.container = q.container :=
              (List.mem_singleton.mp hmem).symm.trans (List.mem_singleton.mp hother)
            revert hcontainer
            cases r <;> cases q <;> decide
        | word q => cases h
    | word r =>
        cases other with
        | byte q => cases h
        | word q =>
            have hword : r = q := (fst_of_mem_halves hmem).symm.trans (fst_of_mem_halves hother)
            rw [hword]

/-- A place is the general register itself, or lies elsewhere. -/
theorem eq_or_disjoint_of_isPlace {register : Register} {operand : Operand} {width : Width}
    (hregister : register.width = width) (hplace : operand.IsPlace width) :
    operand = .register register
      ∨ ∀ (unit : ExecutionUnit) (instruction : Instruction) {location : Location},
        unit.location? instruction operand = some location →
        ∀ cell ∈ (Location.register register).cells width, cell ∉ location.cells width := by
  cases operand with
  | register other =>
      rcases Register.eq_or_disjoint (hregister.trans (Eq.symm hplace)) with rfl | hdisjoint
      · exact .inl rfl
      · refine .inr ?_
        intro unit instruction location hlocation cell hmem hother
        cases hlocation
        obtain ⟨half, hhalf, rfl⟩ := List.mem_map.mp hmem
        exact hdisjoint half hhalf (Location.register_mem_register.mp hother)
  | memory address =>
      refine .inr ?_
      intro unit instruction location hlocation cell hmem hother
      cases hlocation
      obtain ⟨half, -, rfl⟩ := List.mem_map.mp hmem
      exact Location.register_notMem_memory width _ half hother
  | segment segment => exact hplace.elim
  | immediate value => exact hplace.elim

namespace Machine

variable {δ : Type}

/-- One location takes the value of a second.  Its own goes to a third, if that can be written,
    and whatever belongs to neither the one nor the third is as before. -/
structure Exchanges (before after : Machine δ) (width : Width) (first second target : Location) :
    Prop where
  taken : (first.cells width).map after.cell = (second.cells width).map before.cell
  given : before.CanWrite width target →
    (target.cells width).map after.cell = (first.cells width).map before.cell
  others : ∀ cell, cell ∉ first.cells width → cell ∉ target.cells width →
    after.cell cell = before.cell cell
  segments : ∀ register, after.regs.segment register = before.regs.segment register
  ip : after.regs.ip = before.regs.ip
  flags : after.regs.flags = before.regs.flags

variable (machine : Machine δ) (instruction : Instruction) {register : Register} {b : Operand}
  {width : Width}

/-- An exchange takes the old value of the register to where the other operand lies once the
    register has been written. -/
theorem xchg_exchanges (hregister : register.width = width) (hb : b.IsPlace width)
    {second target : Location}
    (hsecond : machine.unit.location? instruction b = some second)
    (htarget : (machine.writeOperand instruction width (.register register)
      (machine.readOperand instruction width b)).unit.location? instruction b = some target) :
    machine.Exchanges (machine.xchg instruction width (.register register) b) width
      (.register register) second target := by
  have ha : (Operand.register register).IsPlace width := hregister
  let va := machine.readOperand instruction width (.register register)
  let vb := machine.readOperand instruction width b
  let written := machine.writeOperand instruction width (.register register) vb
  have hva := machine.map_cell_location instruction ha rfl
  have hvb := machine.map_cell_location instruction hb hsecond
  have hwritten : ((Location.register register).cells width).map written.cell = width.bytesOf vb :=
    machine.map_cell_writeOperand instruction ha rfl (machine.canWrite_register register) vb
  have hothers : ∀ cell, cell ∉ target.cells width →
      (written.writeOperand instruction width b va).cell cell = written.cell cell :=
    fun _ hcell => written.cell_writeOperand_of_not_mem instruction hb htarget va hcell
  constructor
  case taken =>
    rcases eq_or_disjoint_of_isPlace hregister hb with rfl | hdisjoint
    · -- The register is exchanged with itself.
      cases htarget
      cases hsecond
      have hback := written.map_cell_writeOperand instruction hb rfl
        (written.canWrite_register register) va
      exact hback.trans hva.symm
    · refine (List.map_congr_left fun cell hmem => hothers cell ?_).trans ?_
      · exact hdisjoint written.unit instruction htarget cell hmem
      · exact hwritten.trans hvb.symm
  case given =>
    intro hwritable
    refine (written.map_cell_writeOperand instruction hb htarget hwritable va).trans ?_
    exact hva.symm
  case others =>
    intro cell hfirst htarget'
    refine (hothers cell htarget').trans ?_
    exact machine.cell_writeOperand_of_not_mem instruction ha rfl vb hfirst
  case segments =>
    intro segment
    exact ((written.writeOperand_others instruction hb va).1 segment).trans
      ((machine.writeOperand_others instruction ha vb).1 segment)
  case ip =>
    exact (written.writeOperand_others instruction hb va).2.1.trans
      (machine.writeOperand_others instruction ha vb).2.1
  case flags =>
    exact (written.writeOperand_others instruction hb va).2.2.trans
      (machine.writeOperand_others instruction ha vb).2.2

/-- The other operand is moved if the register is part of its address and is changed. -/
theorem moved_iff (hregister : register.width = width) (hb : b.IsPlace width)
    {second target : Location}
    (hsecond : machine.unit.location? instruction b = some second)
    (htarget : (machine.writeOperand instruction width (.register register)
      (machine.readOperand instruction width b)).unit.location? instruction b = some target) :
    target ≠ second
      ↔ ((Location.register register).cells width).map machine.cell
          ≠ (second.cells width).map machine.cell
        ∧ ∃ address, b = .memory address ∧ address.base.IsMadeOf register.container := by
  have ha : (Operand.register register).IsPlace width := hregister
  rw [machine.map_cell_location instruction ha rfl,
    machine.map_cell_location instruction hb hsecond]
  cases b with
  | memory address =>
      cases hsecond
      cases htarget
      have hstays := machine.unit.locate_write_eq_iff register
        (machine.readOperand instruction width (.memory address)) instruction address
      rw [hregister] at hstays
      constructor
      · intro hne
        have hmoves := fun hsame => hne (congrArg Location.memory (hstays.mpr hsame))
        obtain ⟨huses, hbytes⟩ := Classical.not_imp.mp hmoves
        exact ⟨fun hsame => hbytes hsame.symm, address, rfl, huses⟩
      · rintro ⟨hbytes, _, hsame, huses⟩ heq
        cases hsame
        exact hbytes (hstays.mp (Location.memory.inj heq) huses).symm
  | register other =>
      cases hsecond
      cases htarget
      constructor
      · intro hne
        exact absurd rfl hne
      · rintro ⟨-, _, hmemory, -⟩
        cases hmemory
  | segment segment => exact hb.elim
  | immediate value => exact hb.elim

/-- Where no more than another place of the segment is written, a place holds what it held, unless
    the two are words that share a byte. -/
theorem bytes_of_written_beside {before after : Machine δ} {place other : MemoryLocator}
    (hbase : place.base = other.base) (hne : place ≠ other)
    (hkept : ∀ address, .memory address ∉ (Location.memory other).cells width →
      after.cell (.memory address) = before.cell (.memory address))
    {new old : UInt16}
    (hnew : ((Location.memory place).cells width).map after.cell = width.bytesOf new)
    (hold : ((Location.memory place).cells width).map before.cell = width.bytesOf old) :
    (width = .word ∧ place = other.advance 1) ∨ width.bytesOf new = width.bytesOf old
      ∨ (width = .word ∧ other = place.advance 1 ∧ lowByte new = lowByte old) := by
  have hapart : place.address ≠ other.address :=
    fun h => hne (MemoryLocator.eq_of_address_eq hbase h)
  cases width with
  | byte =>
      refine .inr (.inl ?_)
      rw [← hnew, ← hold]
      have hsame := hkept place.address fun hmem =>
        hapart (Cell.memory.inj (List.mem_singleton.mp hmem))
      exact congrArg (fun byte => [byte]) hsame
  | word =>
      by_cases hup : place = other.advance 1
      · exact .inl ⟨rfl, hup⟩
      have hnotMem : ∀ address, address ≠ other.address → address ≠ (other.advance 1).address →
          .memory address ∉ (Location.memory other).cells .word := by
        intro address hlow hhigh hmem
        rcases List.mem_cons.mp hmem with heq | hmem
        · exact hlow (Cell.memory.inj heq)
        · exact hhigh (Cell.memory.inj (List.mem_singleton.mp hmem))
      have hlowApart : place.address ≠ (other.advance 1).address := by
        intro h
        exact hup (MemoryLocator.eq_of_address_eq hbase h)
      have hlow : lowByte new = lowByte old := by
        have hsame := hkept _ (hnotMem _ hapart hlowApart)
        exact (List.cons.inj hnew).1.symm.trans (hsame.trans (List.cons.inj hold).1)
      by_cases hdown : other = place.advance 1
      · exact .inr (.inr ⟨rfl, hdown, hlow⟩)
      have hhighApart : (place.advance 1).address ≠ other.address := by
        intro h
        have hsame : place.advance 1 = other := MemoryLocator.eq_of_address_eq hbase h
        exact hdown hsame.symm
      have hhighsApart : (place.advance 1).address ≠ (other.advance 1).address := by
        intro h
        have hsame : place.advance 1 = other.advance 1 := MemoryLocator.eq_of_address_eq hbase h
        exact hne (MemoryLocator.eq_of_advance_eq hsame)
      have hhigh : highByte new = highByte old := by
        have hsame := hkept _ (hnotMem _ hhighApart hhighsApart)
        exact (List.cons.inj (List.cons.inj hnew).2).1.symm.trans
          (hsame.trans (List.cons.inj (List.cons.inj hold).2).1)
      refine .inr (.inl ?_)
      show [lowByte new, highByte new] = [lowByte old, highByte old]
      rw [hlow, hhigh]

/-- Apart from a word that moves down by one byte, an exchange with an operand that has been
    moved leaves it other than it should be. -/
theorem eq_or_beside_of_exchanges {after : Machine δ} (hregister : register.width = width)
    (hb : b.IsPlace width) {second target : Location}
    (hsecond : machine.unit.location? instruction b = some second)
    (htarget : (machine.writeOperand instruction width (.register register)
      (machine.readOperand instruction width b)).unit.location? instruction b = some target)
    (hwritable : machine.CanWrite width second)
    (hactual : machine.Exchanges after width (.register register) second target)
    (hwanted : machine.Exchanges after width (.register register) second second) :
    target = second
      ∨ width = .word ∧ ∃ place, target = .memory place ∧ second = .memory (place.advance 1) := by
  by_cases hmoved : target = second
  · exact .inl hmoved
  obtain ⟨hdiffer, address, rfl, huses⟩ :=
    (machine.moved_iff instruction hregister hb hsecond htarget).mp hmoved
  have ha : (Operand.register register).IsPlace width := hregister
  let vb := machine.readOperand instruction width (.memory address)
  have hmove := machine.unit.locate_write register vb instruction address
  rw [if_pos huses] at hmove
  have hnew := (hwanted.given hwritable).trans (machine.map_cell_location instruction ha rfl)
  have hold := machine.map_cell_location instruction hb hsecond
  rw [machine.map_cell_location instruction ha rfl, hold] at hdiffer
  have hkept : ∀ place, .memory place ∉ target.cells width →
      after.cell (.memory place) = machine.cell (.memory place) := by
    intro place hother
    exact hactual.others _ (Location.memory_notMem_register width register place) hother
  cases hsecond
  cases htarget
  have hbase : (machine.unit.locate instruction address).base
      = ((machine.unit.mapRegs fun regs => regs.write register vb).locate instruction address).base
      := (congrArg MemoryLocator.base hmove).symm
  rcases bytes_of_written_beside hbase (fun h => hmoved (congrArg Location.memory h.symm)) hkept
      hnew hold with ⟨hword, hup⟩ | hsame | ⟨hword, hdown, hlow⟩
  · exact .inr ⟨hword, _, rfl, congrArg Location.memory hup⟩
  · exact absurd hsame hdiffer
  · -- The operand has moved by one, and so the register has become one more.
    have hoffset := congrArg MemoryLocator.offset (hmove.symm.trans hdown)
    have hone : ∀ offset new old : UInt16, offset + (new - old) = offset + 1 → new = old + 1 := by
      intro offset new old hsame
      grind
    cases register with
    | byte r =>
        rw [hword] at hregister
        cases hregister
    | word r =>
        have hsum : (machine.unit.regs.setWord r vb).word r = machine.unit.regs.word r + 1 :=
          hone _ _ _ hoffset
        have hset : (machine.unit.regs.setWord r vb).word r = vb := by cases r <;> rfl
        have hlow : lowByte (machine.unit.regs.word r) = lowByte vb := hlow
        rw [← hset, hsum] at hlow
        exact absurd hlow.symm (lowByte_add_one_ne _)

variable [PortDevice δ]

/-- An exchange goes through. -/
theorem execute_xchg
    (hxchg : instruction.operation = .xchg width (.register register) b) (hb : b.IsPlace width)
    (address : UInt32) (faults : FaultUnit) :
    machine.execute instruction address faults
      = (machine.begun.xchg instruction width (.register register) b).complete
          (machine.regs.flags.get .trap) faults := by
  obtain ⟨opcode, prefixes, operation, length, clocks⟩ := instruction
  obtain rfl : operation = .xchg width (.register register) b := hxchg
  have himmediate : (Operation.xchg width (.register register) b).hasImmediateDestination = false :=
    hb.isImmediate
  rw [execute]
  simp only [himmediate]
  rfl

end Machine

/-- What is decoded as an exchange goes through.  The register takes the old value of the other
    operand, its own goes to where that operand lies afterwards, and nothing else changes.  The
    operand lies where it did unless it is in memory, the register is part of its address, and
    the two values differ; then, but for a word that moves down by one byte, it does not have
    the register's old value. -/
theorem xchg_exchanges_unless_moved {δ : Type} [PortDevice δ] {source : ByteSource} {start : Nat}
    {instruction : Instruction} {width : Width} {a b : Operand}
    (hdecode : decode source start = .ok instruction)
    (hxchg : instruction.operation = .xchg width a b) (machine : Machine δ) (address : UInt32)
    (faults : FaultUnit) :
    ∃ register second target, a = .register register
      ∧ machine.unit.location? instruction b = some second
      ∧ (machine.execute instruction address faults).core.location? instruction b = some target
      ∧ (machine.execute instruction address faults).fault = none
      ∧ machine.Exchanges
          ⟨(machine.execute instruction address faults).core,
            (machine.execute instruction address faults).bus⟩
          width (.register register) second target
      ∧ (target ≠ second
        ↔ ((Location.register register).cells width).map machine.cell
            ≠ (second.cells width).map machine.cell
          ∧ ∃ address, b = .memory address ∧ address.base.IsMadeOf register.container)
      ∧ (machine.CanWrite width second →
        machine.Exchanges
          ⟨(machine.execute instruction address faults).core,
            (machine.execute instruction address faults).bus⟩
          width (.register register) second second →
        target = second ∨ width = .word
          ∧ ∃ place, target = .memory place ∧ second = .memory (place.advance 1)) := by
  have hplaced := decode_placed hdecode
  rw [hxchg] at hplaced
  obtain ⟨⟨hisRegister, ha⟩, hb⟩ := hplaced
  cases a with
  | register register =>
      have hregister : register.width = width := ha
      obtain ⟨second, hsecond⟩ := machine.unit.exists_location instruction hb
      obtain ⟨target, htarget⟩ := (machine.writeOperand instruction width (.register register)
        (machine.readOperand instruction width b)).unit.exists_location instruction hb
      have hexecute := machine.execute_xchg instruction hxchg hb address faults
      have hexchanges := machine.begun.xchg_exchanges instruction hregister hb hsecond htarget
      have hactual : machine.Exchanges
          ⟨(machine.execute instruction address faults).core,
            (machine.execute instruction address faults).bus⟩
          width (.register register) second target := by
        rw [hexecute]
        exact ⟨hexchanges.taken, hexchanges.given, hexchanges.others, hexchanges.segments,
          hexchanges.ip, hexchanges.flags⟩
      refine ⟨register, second, target, rfl, hsecond, ?_, ?_, hactual,
        machine.moved_iff instruction hregister hb hsecond htarget, ?_⟩
      · rw [hexecute, ← htarget]
        cases b <;> rfl
      · rw [hexecute]
        rfl
      · intro hwritable hwanted
        exact machine.eq_or_beside_of_exchanges instruction hregister hb hsecond htarget hwritable
          hactual hwanted
  | memory address => cases hisRegister
  | segment segment => cases hisRegister
  | immediate value => cases hisRegister

/-- An 8086 whose BX points to a word with the value 20h. -/
def pointing : Machine Terminal.Console where
  unit := ExecutionUnit.initial.mapRegs fun regs => regs.setWord .bx 0x10
  bus := .of ((Memory.ofConfiguration ⟨48, none⟩).write 0x10 0x20) .empty 6 2

/-- `XCHG AX, [BX]` exchanges AX with the word at 10h.  `XCHG BX, [BX]` does not: the old value of
    BX is stored at 20h. -/
theorem xchg_exchanges_unless_moved_pointing :
    (∃ instruction, decode (.ofList [0x87, 0x07]) 0 = .ok instruction
        ∧ pointing.Exchanges
          ⟨(pointing.execute instruction 0 .initial).core,
            (pointing.execute instruction 0 .initial).bus⟩
          .word (.register (.word .ax)) (.memory ⟨0, 0x10⟩) (.memory ⟨0, 0x10⟩))
      ∧ ∃ instruction, decode (.ofList [0x87, 0x1F]) 0 = .ok instruction
        ∧ pointing.CanWrite .word (.memory ⟨0, 0x10⟩)
        ∧ ¬pointing.Exchanges
          ⟨(pointing.execute instruction 0 .initial).core,
            (pointing.execute instruction 0 .initial).bus⟩
          .word (.register (.word .bx)) (.memory ⟨0, 0x10⟩) (.memory ⟨0, 0x10⟩) := by
  constructor
  · obtain ⟨register, second, target, hregister, hsecond, htarget, -, hexchanges, -⟩ :=
      @xchg_exchanges_unless_moved Terminal.Console _ (.ofList [0x87, 0x07]) 0 _ _ _ _ rfl rfl
        pointing 0 .initial
    cases hregister
    cases hsecond
    cases htarget
    exact ⟨_, rfl, hexchanges⟩
  · have hwritable : pointing.CanWrite .word (.memory ⟨0, 0x10⟩) := by
      intro address hmem
      rcases List.mem_cons.mp hmem with heq | hmem
      · cases heq
        exact ⟨by decide, rfl⟩
      · cases List.mem_singleton.mp hmem
        exact ⟨by decide, rfl⟩
    obtain ⟨register, second, target, hregister, hsecond, htarget, -, -, -, hfails⟩ :=
      @xchg_exchanges_unless_moved Terminal.Console _ (.ofList [0x87, 0x1F]) 0 _ _ _ _ rfl rfl
        pointing 0 .initial
    cases hregister
    cases hsecond
    cases htarget
    refine ⟨_, rfl, hwritable, ?_⟩
    intro hwanted
    rcases hfails hwritable hwanted with hsame | ⟨-, place, hplace, hbeside⟩
    · revert hsame
      decide
    · cases hplace
      revert hbeside
      decide

end Microprocessor.X86
