import Microprocessor.Proofs.X86.Cells
import Microprocessor.Proofs.X86.Pending
import Microprocessor.Proofs.X86.Products

/-! # Instructions that divide

    DIV and IDIV divide AX or DX:AX by an operand, AAM divides AL by its base.  They have
    their results in common with where they go, and what happens if there are none.

      * `Division` is what an instruction divides, and `Machine.division?` reads it off the
        machine;
      * `Division.Results` is all that a division changes;
      * `Machine.perform_divided`: an instruction that divides leaves its results, or an
        exception and nothing else;
      * `Machine.exception_execute`: no other instruction raises one. -/

namespace Microprocessor.X86

open Alu (Reading)

/-! ## Divisions -/

/-- What an instruction divides, and the registers for the results. -/
structure Division where
  width : Width
  signed : Bool
  dividend : Int
  divisor : Int
  quotient : Register
  remainder : Register
  /-- The flags tell of the remainder; otherwise they stay as they are. -/
  flagged : Bool

namespace Division

/-- The divisor is zero, or the quotient does not fit. -/
def Undefined (division : Division) : Prop :=
  Alu.Undefined division.width division.signed division.dividend division.divisor

/-- The registers hold the results of the division, and are otherwise as before. -/
structure Results (division : Division) (before after : RegisterFile) : Prop where
  quotient : (Reading.ofSigned division.signed).value division.width (after.read division.quotient)
    = division.dividend.tdiv division.divisor
  remainder :
    (Reading.ofSigned division.signed).value division.width (after.read division.remainder)
      = division.dividend.tmod division.divisor
  halves : ∀ half, half ∉ division.quotient.halves → half ∉ division.remainder.halves →
    after.half half = before.half half
  segments : ∀ segment, after.segment segment = before.segment segment
  ip : after.ip = before.ip
  flags : division.flagged = false → after.flags = before.flags
  flagged : division.flagged = true →
    Alu.Shows after.flags division.width (after.read division.remainder).toNat
      ∧ ∀ flag, flag ≠ .sign → flag ≠ .zero → flag ≠ .parity →
          after.flags.get flag = before.flags.get flag

/-- What a division makes of the unit. -/
inductive Divided (division : Division) (before : ExecutionUnit) : ExecutionUnit → Prop
  | undefined (h : division.Undefined) :
      Divided division before (before.raiseException Vector.divideError)
  | results (hdefined : ¬division.Undefined) {regs : RegisterFile}
      (h : division.Results before.regs regs) : Divided division before { before with regs }

end Division

/-- The register that is above the accumulator. -/
def Register.aboveAccumulator : Width → Register
  | .byte => .byte .ah
  | .word => .word .dx

namespace Machine

variable {δ : Type}

/-- The division of the accumulator and the register above it by an operand. -/
def accumulatorDivision (machine : Machine δ) (instruction : Instruction) (signed : Bool)
    (width : Width) (source : Operand) : Division where
  width := width
  signed := signed
  dividend := Alu.doubleValue width signed (dividend machine.regs width)
  divisor := (Reading.ofSigned signed).value width (machine.readOperand instruction width source)
  quotient := .accumulator width
  remainder := .aboveAccumulator width
  flagged := false

/-- The division of AL by a base. -/
def baseDivision (machine : Machine δ) (base : UInt8) : Division where
  width := .byte
  signed := false
  dividend := (machine.regs.byte .al).toNat
  divisor := base.toNat
  quotient := .byte .ah
  remainder := .byte .al
  flagged := true

/-- What an instruction divides, if it does. -/
def division? (machine : Machine δ) (instruction : Instruction) : Option Division :=
  match instruction.operation with
  | .mulDiv .div width source =>
    some (machine.accumulatorDivision instruction false width source)
  | .mulDiv .idiv width source =>
    some (machine.accumulatorDivision instruction true width source)
  | .asciiAdjustMultiply base => some (machine.baseDivision base)
  | _ => none

/-- The instruction divides, and the division is undefined. -/
def Fails (machine : Machine δ) (instruction : Instruction) : Prop :=
  ∃ division, machine.division? instruction = some division ∧ division.Undefined

/-! ## Results -/

end Machine

/-- The low byte of an operand is what counts of it among bytes. -/
theorem value_lowByte (signed : Bool) (operand : UInt16) :
    (Reading.ofSigned signed).value .byte (lowByte operand).toUInt16
      = (Reading.ofSigned signed).value .byte operand := by
  rw [toUInt16_lowByte, Alu.value_and_mask]

namespace RegisterFile

variable (regs : RegisterFile)

/-- What is written to a register is read from it, as a number. -/
theorem value_read_write (signed : Bool) {width : Width} {register : Register}
    (hwidth : register.width = width) (value : UInt16) :
    (Reading.ofSigned signed).value width ((regs.write register value).read register)
      = (Reading.ofSigned signed).value width value := by
  subst hwidth
  cases register with
  | byte r =>
      have hread : (regs.write (.byte r) value).read (.byte r) = (lowByte value).toUInt16 := by
        show ((regs.setByte r (lowByte value)).byte r).toUInt16 = _
        rw [byte_eq_half, half_setByte, if_pos rfl]
      rw [hread]
      exact value_lowByte signed value
  | word r =>
      have hread : (regs.write (.word r) value).read (.word r) = value := by cases r <;> rfl
      rw [hread]

/-- A register of which no half is written is as before. -/
theorem read_write_of_disjoint {register other : Register}
    (h : ∀ half ∈ other.halves, half ∉ register.halves) (value : UInt16) :
    (regs.write register value).read other = regs.read other := by
  cases other with
  | byte r =>
      have hhalf := regs.half_write_of_not_mem (h r.container List.mem_cons_self) value
      show ((regs.write register value).byte r).toUInt16 = (regs.byte r).toUInt16
      rw [byte_eq_half, byte_eq_half, hhalf]
  | word r =>
      have hlow := regs.half_write_of_not_mem (h (r, false) List.mem_cons_self) value
      have hhigh := regs.half_write_of_not_mem
        (h (r, true) (List.mem_cons_of_mem _ List.mem_cons_self)) value
      show (regs.write register value).word r = regs.word r
      rw [word_eq_wordOfBytes, word_eq_wordOfBytes, hlow, hhigh]

/-- The flags are apart from the general registers. -/
theorem half_setFlags (flags : Flags) (half : WordRegister × Bool) :
    (regs.setFlags flags).half half = regs.half half := by
  obtain ⟨register, high⟩ := half
  cases register <;> cases high <;> rfl

end RegisterFile

namespace Machine

variable {δ : Type} (machine : Machine δ)

/-- Quotient and remainder are written to two registers. -/
theorem setQuotient_eq (regs : RegisterFile) (width : Width) (quotient remainder : UInt16) :
    setQuotient regs width quotient remainder
      = (regs.write (.accumulator width) quotient).write (.aboveAccumulator width) remainder := by
  cases width <;> rfl

/-- They are results, and nothing else is written. -/
theorem results_setQuotient (instruction : Instruction) (signed : Bool) (width : Width)
    (source : Operand) {quotient remainder : UInt16}
    (h : Alu.Divides width (Reading.ofSigned signed)
      (machine.accumulatorDivision instruction signed width source).dividend
      (machine.accumulatorDivision instruction signed width source).divisor quotient remainder) :
    (machine.accumulatorDivision instruction signed width source).Results machine.regs
      (setQuotient machine.regs width quotient remainder) := by
  obtain ⟨hquotient, hremainder⟩ := h.values
  have hdisjoint : ∀ half ∈ (Register.accumulator width).halves,
      half ∉ (Register.aboveAccumulator width).halves := by
    cases width <;> decide
  obtain ⟨hsegments, hip, hflags⟩ := machine.regs.write_others (.accumulator width) quotient
  obtain ⟨hsegments', hip', hflags'⟩ :=
    (machine.regs.write (.accumulator width) quotient).write_others (.aboveAccumulator width)
      remainder
  rw [setQuotient_eq]
  constructor
  case quotient =>
    rw [hquotient, ← machine.regs.value_read_write signed (Register.width_accumulator width),
      ← RegisterFile.read_write_of_disjoint _ hdisjoint remainder]
    rfl
  case remainder =>
    have hwidth : (Register.aboveAccumulator width).width = width := by cases width <;> rfl
    rw [hremainder]
    exact RegisterFile.value_read_write _ signed hwidth remainder
  case halves =>
    intro half hfirst hsecond
    exact (RegisterFile.half_write_of_not_mem _ hsecond remainder).trans
      (RegisterFile.half_write_of_not_mem _ hfirst quotient)
  case segments => exact fun segment => (hsegments' segment).trans (hsegments segment)
  case ip => exact hip'.trans hip
  case flags => exact fun _ => hflags'.trans hflags
  case flagged => exact fun h => absurd h Bool.false_ne_true

/-- AAM leaves the digits of AL in AH and AL, and the flags of the low digit. -/
theorem results_aam (base : UInt8) :
    (machine.baseDivision base).Results machine.regs
      ((machine.regs.setWord .ax (wordOfBytes (machine.regs.byte .al % base)
        (machine.regs.byte .al / base))).setFlags
          (Alu.setResultFlags machine.regs.flags .byte
            (machine.regs.byte .al % base).toUInt16)) := by
  have hbyte : ∀ value : UInt8,
      Reading.unsigned.value .byte value.toUInt16 = (value.toNat : Nat) := by
    intro value
    show ((value.toUInt16.toNat % 256 : Nat) : Int) = _
    rw [UInt8.toNat_toUInt16, Nat.mod_eq_of_lt value.toNat_lt]
  have hhigh : (machine.regs.setWord .ax (wordOfBytes (machine.regs.byte .al % base)
      (machine.regs.byte .al / base))).byte .ah = machine.regs.byte .al / base :=
    highByte_wordOfBytes _ _
  have hlow : (machine.regs.setWord .ax (wordOfBytes (machine.regs.byte .al % base)
      (machine.regs.byte .al / base))).byte .al = machine.regs.byte .al % base :=
    lowByte_wordOfBytes _ _
  constructor
  case quotient =>
    show Reading.unsigned.value .byte
        ((machine.regs.setWord .ax _).byte .ah).toUInt16 = Int.tdiv _ _
    rw [hhigh, hbyte, UInt8.toNat_div]
    exact Int.ofNat_tdiv _ _
  case remainder =>
    show Reading.unsigned.value .byte
        ((machine.regs.setWord .ax _).byte .al).toUInt16 = Int.tmod _ _
    rw [hlow, hbyte, UInt8.toNat_mod]
    exact Int.ofNat_tmod _ _
  case halves =>
    intro half hfirst hsecond
    have hregister : WordRegister.ax ≠ half.1 := by
      obtain ⟨register, high⟩ := half
      rintro rfl
      cases high with
      | false => exact hsecond List.mem_cons_self
      | true => exact hfirst List.mem_cons_self
    rw [RegisterFile.half_setFlags, RegisterFile.half_setWord, if_neg hregister]
  case segments => exact fun segment => by cases segment <;> rfl
  case ip => rfl
  case flags => exact fun h => absurd h.symm Bool.false_ne_true
  case flagged =>
    intro _
    constructor
    · show Alu.Shows (Alu.setResultFlags _ _ _) .byte
        ((machine.regs.setWord .ax _).byte .al).toUInt16.toNat
      rw [hlow]
      refine Alu.shows_setResultFlags machine.regs.flags ?_
      exact (machine.regs.byte .al % base).toNat_lt
    · intro flag hsign hzero hparity
      show (Alu.setResultFlags _ _ _).get flag = _
      rw [Alu.get_setResultFlags]
      cases flag <;> first | rfl | contradiction

/-! ## Instructions -/

/-- A division of the accumulator leaves its results or an exception. -/
theorem divide_divided (instruction : Instruction) (signed : Bool) (width : Width)
    (source : Operand) :
    (machine.accumulatorDivision instruction signed width source).Divided machine.unit
        (machine.divide instruction signed width source).unit
      ∧ (machine.divide instruction signed width source).bus = machine.bus := by
  have hanswers := Alu.divide_answers width (dividend machine.regs width)
    (machine.readOperand instruction width source) signed
  rw [divide]
  generalize Alu.divide width signed (dividend machine.regs width)
    (machine.readOperand instruction width source) = answer at hanswers
  cases hanswers with
  | undefined hundefined => exact ⟨.undefined hundefined, rfl⟩
  | exact hdefined hdivides =>
      have hresults := machine.results_setQuotient instruction signed width source hdivides
      refine ⟨.results ?_ hresults, rfl⟩
      exact hdefined

/-- So does AAM. -/
theorem asciiAdjustMultiply_divided (base : UInt8) :
    (machine.baseDivision base).Divided machine.unit (machine.asciiAdjustMultiply base).unit
      ∧ (machine.asciiAdjustMultiply base).bus = machine.bus := by
  rw [asciiAdjustMultiply, Alu.aam]
  by_cases hbase : base = 0
  · subst hbase
    exact ⟨.undefined (.inl rfl), rfl⟩
  · rw [if_neg hbase]
    refine ⟨.results ?_ (machine.results_aam base), rfl⟩
    have hdivisor : (base.toNat : Int) ≠ 0 :=
      Int.natCast_ne_zero.mpr fun h => hbase (UInt8.toNat_inj.mp h)
    have hquotient := (machine.regs.byte .al / base).toNat_lt
    rw [UInt8.toNat_div] at hquotient
    show ¬((base.toNat : Int) = 0
      ∨ 256 ≤ (Int.tdiv (machine.regs.byte .al).toNat base.toNat).natAbs)
    rw [or_iff_right hdivisor, ← Int.ofNat_tdiv, Int.natAbs_natCast]
    omega

variable {machine} {instruction : Instruction} {division : Division}

/-- An instruction that divides leaves its results or an exception. -/
theorem perform_divided (h : machine.division? instruction = some division) :
    division.Divided machine.unit (machine.perform instruction instruction.operation).unit
      ∧ (machine.perform instruction instruction.operation).bus = machine.bus := by
  rw [division?] at h
  split at h
  · rename_i width source hoperation
    cases h
    rw [hoperation]
    exact machine.divide_divided instruction false width source
  · rename_i width source hoperation
    cases h
    rw [hoperation]
    exact machine.divide_divided instruction true width source
  · rename_i base hoperation
    cases h
    rw [hoperation]
    exact machine.asciiAdjustMultiply_divided base
  · cases h

/-- What is divided can be read off the machine exactly if the instruction divides. -/
theorem divides_iff (machine : Machine δ) (instruction : Instruction) :
    instruction.operation.divides = true
      ↔ ∃ division, machine.division? instruction = some division := by
  obtain ⟨opcode, prefixes, operation, length, clocks⟩ := instruction
  cases operation with
  | mulDiv op width source => cases op <;> simp [division?, Operation.divides]
  | _ => simp [division?, Operation.divides]

/-- An instruction that divides cannot fault. -/
theorem execute_of_divides [PortDevice δ] (machine : Machine δ)
    (h : instruction.operation.divides = true) (address : UInt32) (faults : FaultUnit) :
    machine.execute instruction address faults
      = (machine.begun.perform instruction instruction.operation).complete
        (machine.regs.flags.get .trap) faults := by
  obtain ⟨opcode, prefixes, operation, length, clocks⟩ := instruction
  simp only at h
  unfold Operation.divides at h
  split at h
  · rfl
  · rfl
  · rfl
  · cases h

/-- An instruction that does not divide leaves the exception alone. -/
theorem exception_execute [PortDevice δ] (machine : Machine δ)
    (h : instruction.operation.divides = false) (address : UInt32) (faults : FaultUnit) :
    (machine.execute instruction address faults).core.exception = machine.unit.exception := by
  have hends := machine.execute_ends instruction address faults
  have hperform := congrArg Prod.fst (machine.begun.requests_perform instruction h)
  generalize machine.execute instruction address faults = executed at hends
  cases hends with
  | stops _ _ _ => rfl
  | performs _ => exact hperform
  | reads _ _ _ => rfl
  | readsIdle _ _ _ => rfl
  | writes _ _ _ => rfl

/-- An instruction that divides goes through.  If the division is undefined it raises an
    exception and leaves every register alone; otherwise it leaves the results. -/
theorem execute_divided [PortDevice δ] (h : machine.division? instruction = some division)
    (address : UInt32) (faults : FaultUnit) :
    (machine.execute instruction address faults).fault = none
      ∧ (machine.execute instruction address faults).bus = machine.bus
      ∧ (division.Undefined
          ∧ (machine.execute instruction address faults).core.regs = machine.regs
          ∧ (machine.execute instruction address faults).core.exception
            = some Vector.divideError
        ∨ ¬division.Undefined
          ∧ division.Results machine.regs (machine.execute instruction address faults).core.regs
          ∧ (machine.execute instruction address faults).core.exception
            = machine.unit.exception) := by
  rw [machine.execute_of_divides ((machine.divides_iff instruction).mpr ⟨division, h⟩)]
  have hbegun : machine.begun.division? instruction = some division := h
  obtain ⟨hdivided, hbus⟩ := perform_divided hbegun
  refine ⟨rfl, hbus, ?_⟩
  generalize machine.begun.perform instruction instruction.operation = after at hdivided
  obtain ⟨unit, bus⟩ := after
  cases hdivided with
  | undefined hundefined => exact .inl ⟨hundefined, rfl, rfl⟩
  | results hdefined hresults => exact .inr ⟨hdefined, hresults, rfl⟩

/-- An exception is raised by an undefined division and by nothing else. -/
theorem exception_execute_iff [PortDevice δ] (machine : Machine δ) (instruction : Instruction)
    (hnone : machine.unit.exception = none) (address : UInt32) (faults : FaultUnit)
    (vector : UInt8) :
    (machine.execute instruction address faults).core.exception = some vector
      ↔ vector = Vector.divideError ∧ machine.Fails instruction := by
  cases hdivides : instruction.operation.divides with
  | false =>
      rw [machine.exception_execute hdivides, hnone]
      refine iff_of_false nofun ?_
      rintro ⟨-, division, hdivision, -⟩
      rw [(machine.divides_iff instruction).mpr ⟨division, hdivision⟩] at hdivides
      cases hdivides
  | true =>
      obtain ⟨division, hdivision⟩ := (machine.divides_iff instruction).mp hdivides
      obtain ⟨-, -, hends⟩ := execute_divided hdivision address faults
      obtain ⟨hundefined, -, hexception⟩ | ⟨hdefined, -, hexception⟩ := hends
      · rw [hexception]
        constructor
        · intro h
          exact ⟨(Option.some.inj h).symm, division, hdivision, hundefined⟩
        · rintro ⟨rfl, -⟩
          rfl
      · rw [hexception, hnone]
        refine iff_of_false nofun ?_
        rintro ⟨-, other, hother, hundefined⟩
        cases hdivision.symm.trans hother
        exact hdefined hundefined

end Machine

end Microprocessor.X86
