import Microprocessor.Proofs.Pipeline.History
import Microprocessor.Proofs.X86.Access
import Microprocessor.Proofs.X86.Execution
import Microprocessor.Proofs.X86.FlagChanges
import Microprocessor.Terminal.Console
import Microprocessor.X86.RealMode

/-! # The flags of a running 8086

    Whatever an 8086 does to its flags, it does by the changes that store no bit
    but those of flags.  So at any time what PUSHF and LAHF save is all that
    there is.

      * `Flags.Becomes` says that flags have come about by changes;
      * `Machine.becomes_execute` and `Machine.becomes_serviceInterrupts` are the
        one instruction and the one boundary, `Pipeline.becomes_of_run` is the
        run;
      * `saved_flags_intact` is what that says of flags that are saved. -/

namespace Microprocessor

namespace X86

namespace Flags

/-! ## Flags that have come about by changes -/

/-- What some changes can make of flags. -/
def Becomes (before after : Flags) : Prop :=
  ∃ changes, after = before.afterAll changes

theorem afterAll_append (flags : Flags) (later earlier : List Change) :
    flags.afterAll (later ++ earlier) = (flags.afterAll earlier).afterAll later := by
  induction later with
  | nil => rfl
  | cons change later ih => exact congrArg (after · change) ih

namespace Becomes

variable {before after : Flags}

theorem refl (flags : Flags) : flags.Becomes flags :=
  ⟨[], rfl⟩

theorem trans {a b c : Flags} (hab : a.Becomes b) (hbc : b.Becomes c) : a.Becomes c := by
  obtain ⟨earlier, rfl⟩ := hab
  obtain ⟨later, rfl⟩ := hbc
  exact ⟨later ++ earlier, (a.afterAll_append later earlier).symm⟩

/-- One more change. -/
theorem change (h : before.Becomes after) (change : Change) :
    before.Becomes (after.after change) := by
  obtain ⟨changes, rfl⟩ := h
  exact ⟨change :: changes, rfl⟩

/-- One computation. -/
theorem compute (before : Flags) (computation : Alu.Computation) :
    before.Becomes (computation.flags before) :=
  (refl before).change (.compute computation)

end Becomes

end Flags

namespace Machine

variable {δ : Type}

/-! ## Operations -/

/-- Writing an operand leaves the flags alone. -/
theorem becomes_writeOperand {before : Flags} (machine : Machine δ) (instruction : Instruction)
    (width : Width) (operand : Operand) (value : UInt16) (h : before.Becomes machine.regs.flags) :
    before.Becomes (machine.writeOperand instruction width operand value).regs.flags := by
  cases operand with
  | register register =>
      show before.Becomes (machine.regs.write register value).flags
      rw [(RegisterFile.write_others machine.regs register value).2.2]
      exact h
  | segment register => cases register <;> exact h
  | memory _ | immediate _ => exact h

/-- The arithmetic of a two-operand instruction is a computation. -/
theorem becomes_arithmetic (flags : Flags) (op : ArithOp) (width : Width) (a b : UInt16) :
    flags.Becomes (Machine.compute flags op width a b).2 := by
  cases op with
  | add => exact .compute flags (.add width a b)
  | or => exact .compute flags (.or width a b)
  | adc => exact .compute flags (.adc width a b)
  | sbb => exact .compute flags (.sbb width a b)
  | and => exact .compute flags (.and width a b)
  | sub | cmp => exact .compute flags (.sub width a b)
  | xor => exact .compute flags (.xor width a b)

/-- A division has nothing to do with the flags. -/
theorem becomes_divide (machine : Machine δ) (instruction : Instruction) (signed : Bool)
    (width : Width) (source : Operand) :
    machine.regs.flags.Becomes (machine.divide instruction signed width source).regs.flags := by
  rw [divide]
  split
  · cases width <;> exact .refl machine.regs.flags
  · exact .refl machine.regs.flags

/-- An adjustment that is not defined leaves the flags alone. -/
theorem becomes_asciiAdjustMultiply (machine : Machine δ) (base : UInt8) :
    machine.regs.flags.Becomes (machine.asciiAdjustMultiply base).regs.flags := by
  have hcomputed := Flags.Becomes.compute machine.regs.flags (.aam (machine.regs.byte .al) base)
  rw [Alu.Computation.flags] at hcomputed
  rw [asciiAdjustMultiply]
  generalize Alu.aam machine.regs.flags (machine.regs.byte .al) base = adjusted at hcomputed ⊢
  cases adjusted with
  | ok _ => exact hcomputed
  | error _ => exact hcomputed

/-- Entering a handler clears two flags. -/
theorem becomes_enterInterrupt (machine : Machine δ) (vector : UInt8) :
    machine.regs.flags.Becomes (machine.enterInterrupt vector).regs.flags :=
  ((Flags.Becomes.refl machine.regs.flags).change (.set .interruptEnable false)).change
    (.set .trap false)

/-- A step of a string instruction compares, or leaves the flags alone. -/
theorem becomes_stringStep (machine : Machine δ) (instruction : Instruction) (op : StringOp)
    (width : Width) :
    machine.regs.flags.Becomes (machine.stringStep instruction op width).regs.flags := by
  cases op with
  | cmps | scas => exact .compute machine.regs.flags (.cmp width _ _)
  | movs | stos => exact .refl machine.regs.flags
  | lods => cases width <;> exact .refl machine.regs.flags

@[simp] theorem flags_pop (machine : Machine δ) : machine.pop.2.regs.flags = machine.regs.flags :=
  rfl

@[simp] theorem flags_farJump (machine : Machine δ) (segment offset : UInt16) :
    (machine.mapUnit fun unit => unit.farJump segment offset).regs.flags = machine.regs.flags :=
  rfl

@[simp] theorem flags_releaseStack (machine : Machine δ) (count : UInt16) :
    (machine.releaseStack count).regs.flags = machine.regs.flags :=
  rfl

/-- A far return leaves the flags alone. -/
theorem flags_retFar (machine : Machine δ) (count : UInt16) :
    (machine.retFar count).regs.flags = machine.regs.flags := by
  rw [retFar_eq, flags_releaseStack, flags_farJump, flags_pop, flags_pop]

/-- Every operation that cannot fault changes the flags in this way. -/
theorem becomes_perform (machine : Machine δ) (instruction : Instruction) (operation : Operation) :
    machine.regs.flags.Becomes (machine.perform instruction operation).regs.flags := by
  have hself := Flags.Becomes.refl machine.regs.flags
  cases operation with
  | arith op width dst src =>
      have hcomputed := becomes_arithmetic machine.regs.flags op width
        (machine.readOperand instruction width dst) (machine.readOperand instruction width src)
      show machine.regs.flags.Becomes (arith machine instruction op width dst src).regs.flags
      rw [arith]
      simp only
      split
      · exact becomes_writeOperand (machine.setFlags _) instruction width dst _ hcomputed
      · exact hcomputed
  | test width dst src => exact .compute _ (.test width _ _)
  | incDec op width target =>
      refine becomes_writeOperand (machine.setFlags _) instruction width target _ ?_
      cases op with
      | inc => exact .compute _ (.inc width _)
      | dec => exact .compute _ (.dec width _)
  | unary op width target =>
      refine becomes_writeOperand (machine.setFlags _) instruction width target _ ?_
      cases op with
      | not => exact hself
      | neg => exact .compute _ (.neg width _)
  | mulDiv op width source =>
      cases op with
      | mul => cases width <;> exact .compute _ (.multiply _ false _ _)
      | imul => cases width <;> exact .compute _ (.multiply _ true _ _)
      | div => exact machine.becomes_divide instruction false width source
      | idiv => exact machine.becomes_divide instruction true width source
  | shift op width target count =>
      exact becomes_writeOperand (machine.setFlags _) instruction width target _
        (.compute _ (.shift op width _ _))
  | adjust op =>
      cases op with
      | daa => exact .compute _ (.daa _)
      | das => exact .compute _ (.das _)
      | aaa => exact .compute _ (.aaa _)
      | aas => exact .compute _ (.aas _)
  | asciiAdjustMultiply base => exact machine.becomes_asciiAdjustMultiply base
  | asciiAdjustDivide base => exact .compute _ (.aad _ base)
  | mov width dst src => exact becomes_writeOperand machine instruction width dst _ hself
  | xchg width a b =>
      exact becomes_writeOperand _ instruction width b _
        (becomes_writeOperand machine instruction width a _ hself)
  | lea dst address => cases dst <;> exact hself
  | loadFarPointer segment dst address => cases segment <;> cases dst <;> exact hself
  | pop operand =>
      exact becomes_writeOperand machine.pop.2 instruction .word operand _ hself
  | popFlags => exact hself.change (.restore _)
  | storeAhIntoFlags => exact hself.change (.restoreLowByte _)
  | interrupt vector => exact machine.becomes_enterInterrupt vector
  | interruptOnOverflow =>
      show machine.regs.flags.Becomes (interruptOnOverflow machine).regs.flags
      rw [interruptOnOverflow]
      split
      · exact machine.becomes_enterInterrupt Vector.overflow
      · exact hself
  | interruptReturn => exact hself.change (.restore _)
  | string op width =>
      let kept (after : Machine δ) : Prop := machine.regs.flags.Becomes after.regs.flags
      have hstep : ∀ after, kept after → kept (after.stringStep instruction op width) :=
        fun after h => h.trans (after.becomes_stringStep instruction op width)
      exact string_kept hstep (fun _ _ h => h) hself
  | flag op =>
      cases op with
      | clc => exact hself.change (.set .carry false)
      | stc => exact hself.change (.set .carry true)
      | cmc => exact hself.change (.set .carry _)
      | cli => exact hself.change (.set .interruptEnable false)
      | sti => exact hself.change (.set .interruptEnable true)
      | cld => exact hself.change (.set .direction false)
      | std => exact hself.change (.set .direction true)
  | retFar count =>
      show machine.regs.flags.Becomes (retFar machine count).regs.flags
      rw [flags_retFar]
      exact hself
  | jumpConditional condition displacement =>
      show machine.regs.flags.Becomes (jumpConditional machine condition displacement).regs.flags
      rw [jumpConditional]
      split <;> exact hself
  | loop op displacement =>
      have hcounted : (loop machine op displacement).regs.flags = machine.regs.flags :=
        (apply_ite (fun after : Machine δ => after.regs.flags) _ _ _).trans (ite_self _)
      show machine.regs.flags.Becomes (loop machine op displacement).regs.flags
      rw [hcounted]
      exact hself
  | _ => exact hself

/-! ## Instructions and boundaries -/

/-- Loading the accumulator leaves the flags alone. -/
theorem becomes_setAccumulator {before : Flags} {unit : ExecutionUnit}
    (h : before.Becomes unit.regs.flags) (width : Width) (value : UInt16) :
    before.Becomes (unit.setAccumulator width value).regs.flags := by
  cases width <;> exact h

/-- Every instruction changes the flags in this way, whether or not it faults. -/
theorem becomes_execute [PortDevice δ] (machine : Machine δ) (instruction : Instruction)
    (address : UInt32) (faults : FaultUnit) :
    machine.regs.flags.Becomes (machine.execute instruction address faults).core.regs.flags := by
  have hself : machine.regs.flags.Becomes machine.begun.regs.flags := .refl machine.regs.flags
  have hends := machine.execute_ends instruction address faults
  generalize machine.execute instruction address faults = executed at hends ⊢
  cases hends with
  | stops _ _ _ => exact hself
  | performs _ => exact machine.begun.becomes_perform instruction instruction.operation
  | reads _ _ _ => exact becomes_setAccumulator hself _ _
  | readsIdle _ _ _ => exact becomes_setAccumulator hself _ _
  | writes _ _ _ => exact hself

/-- So does every interrupt boundary. -/
theorem becomes_serviceInterrupts {γ : Type} [InterruptController γ] (machine : Machine δ)
    (inputs : InterruptInputs γ) :
    machine.regs.flags.Becomes (machine.serviceInterrupts inputs).core.regs.flags := by
  have hself := Flags.Becomes.refl machine.regs.flags
  rw [serviceInterrupts]
  split
  · exact becomes_enterInterrupt (machine.mapUnit _) _
  · split
    · exact becomes_enterInterrupt (machine.mapUnit _) Vector.singleStep
    · split
      · exact machine.becomes_enterInterrupt Vector.nmi
      · rw [serviceLine]
        split
        · split
          · exact machine.becomes_enterInterrupt _
          · exact hself
        · exact hself

/-! ## Out and back -/

/-- LAHF and SAHF give the flags back. -/
theorem flags_storeAh_loadAh (machine : Machine δ) :
    machine.loadAhFromFlags.storeAhIntoFlags.regs.flags = machine.regs.flags := by
  have hbyte : machine.loadAhFromFlags.regs.byte .ah = machine.regs.flags.lowByte := by
    show highByte (machine.regs.ax.setHigh _).word = _
    rw [DividableRegister.word_setHigh, highByte_wordOfBytes]
    rfl
  show machine.regs.flags.restoreLowByte (machine.loadAhFromFlags.regs.byte .ah) = _
  rw [hbyte, Flags.restoreLowByte_lowByte]

/-- PUSHF and POPF give them back where there is room on the stack. -/
theorem flags_pop_push (machine : Machine δ) (hroom : machine.Room 2)
    (hcanonical : machine.regs.flags.Canonical) :
    machine.pushFlags.popFlags.regs.flags = machine.regs.flags := by
  have hpushed := (Stacked.refl machine).push hroom (by decide) machine.regs.flags.word
  show Flags.restore (machine.push machine.regs.flags.word).pop.1 = machine.regs.flags
  rw [hpushed.pop.1, hcanonical.restore_word]

end Machine

end X86

namespace Pipeline

open X86

variable {δ γ : Type} [PortDevice δ] [InterruptController γ]

/-! ## Runs -/

/-- The registers are set so that the flags have become of those before; every
    other event may happen. -/
def ChangesFlags (pipeline : Pipeline ExecutionUnit Instruction δ γ) :
    Event ExecutionUnit δ γ → Prop
  | .setCore core => pipeline.core.regs.flags.Becomes core.regs.flags
  | _ => True

/-- Every action changes the flags in this way. -/
theorem becomes_kept (before : Flags) :
    Kept fun (_ : List (Action ExecutionUnit Instruction δ γ)) pipeline =>
      before.Becomes pipeline.core.regs.flags where
  control := fun _ _ h => h
  serves := fun {_ pipeline} _ _ _ h =>
    h.trans (Machine.becomes_serviceInterrupts ⟨pipeline.core, pipeline.bus⟩ pipeline.interrupts)
  decodes := fun _ _ _ _ _ h => h
  executes := by
    intro history ready address instruction _ h
    exact h.trans
      (Machine.becomes_execute ⟨ready.core, ready.bus⟩ instruction address ready.faults)

/-- So does every run. -/
theorem becomes_of_run {start pipeline : Pipeline ExecutionUnit Instruction δ γ}
    (horderly : start.Orderly) (hrun : Run ChangesFlags start pipeline) :
    start.core.regs.flags.Becomes pipeline.core.regs.flags := by
  obtain ⟨history, hrecorded⟩ := hrun.recorded
  refine hrecorded.invariant (becomes_kept _).stages ?_ horderly (.refl _)
  intro history pipeline event hother hchanges h
  obtain ⟨core, rfl⟩ | hsame := pipeline.core_set_or_kept hother
  · exact h.trans hchanges
  · rw [hsame]
    exact h

end Pipeline

namespace X86

open Pipeline

/-- Flags that have come about from clear ones, by any changes, store no bit but
    those of flags.  So their word adds the reserved ones and nothing else, and
    gives them back, as their low byte does; the low byte and the arithmetic unit
    change only the flags that are theirs.  The flags of a running 8086 are like
    this at any time, so that PUSHF and POPF lose nothing, where there is room on the
    stack, nor do LAHF and SAHF. -/
theorem saved_flags_intact :
    (∀ changes : List Flags.Change,
      let flags := Flags.clear.afterAll changes
      flags.stored &&& ~~~0x0FD5 = 0
        ∧ flags.word.toNat = flags.stored.toNat + 0xF002
        ∧ Flags.restore flags.word = flags
        ∧ flags.restoreLowByte flags.lowByte = flags)
    ∧ (∀ (flags : Flags) (value : UInt8),
        flags.ChangesOnly [.sign, .zero, .auxiliaryCarry, .parity, .carry]
          (flags.restoreLowByte value))
    ∧ (∀ (flags : Flags) (computation : Alu.Computation),
        flags.ChangesOnly [.carry, .parity, .auxiliaryCarry, .zero, .sign, .overflow]
          (computation.flags flags))
    ∧ ∀ {δ γ : Type} [PortDevice δ] [InterruptController γ]
        (architecture : Architecture Instruction)
        (core : ExecutionUnit) (memory : Memory) (ports : PortMap δ)
        (pipeline : Pipeline ExecutionUnit Instruction δ γ),
        Flags.clear.Becomes core.regs.flags →
        Run ChangesFlags (.of architecture core memory ports) pipeline →
        Flags.clear.Becomes pipeline.core.regs.flags
          ∧ (let machine : Machine δ := ⟨pipeline.core, pipeline.bus⟩
            machine.loadAhFromFlags.storeAhIntoFlags.regs.flags = machine.regs.flags
              ∧ (machine.Room 2 →
                machine.pushFlags.popFlags.regs.flags = machine.regs.flags)) := by
  refine ⟨?_, Flags.changesOnly_restoreLowByte, Alu.Computation.changesOnly, ?_⟩
  · intro changes flags
    have hcanonical := Flags.canonical_clear.afterAll changes
    exact ⟨hcanonical, hcanonical.toNat_word, hcanonical.restore_word,
      flags.restoreLowByte_lowByte⟩
  · intro δ γ _ _ architecture core memory ports pipeline hcore hrun
    have hbecomes := hcore.trans
      (becomes_of_run (orderly_of architecture core memory ports) hrun)
    refine ⟨hbecomes, Machine.flags_storeAh_loadAh _, fun hroom => ?_⟩
    obtain ⟨changes, hchanges⟩ := hbecomes
    refine Machine.flags_pop_push _ hroom ?_
    show pipeline.core.regs.flags.Canonical
    rw [hchanges]
    exact Flags.canonical_clear.afterAll changes

/-- An 8086 with room on its stack, at the start of a program that counts down and
    adds 1 to 7F. -/
def addingStart : Pipeline ExecutionUnit Instruction Terminal.Console InterruptLine :=
  .of realMode (ExecutionUnit.initial.mapRegs fun regs => regs.setWord .sp 8)
    ⟨#[0xFD, 0xB0, 0x7F, 0x04, 0x01, 0x90, 0x00, 0x00], none⟩ .empty

/-- The 8086 after the addition. -/
def added : Machine Terminal.Console :=
  let pipeline := ((addingStart.after .move).after .move).after .move
  ⟨pipeline.core, pipeline.bus⟩

/-- The addition overflows, and the flags that it leaves come back from the stack and
    from AH. -/
theorem saved_flags_intact_adding :
    added.regs.flags.text = "OD--S-A--"
      ∧ added.pushFlags.popFlags.regs.flags = added.regs.flags
      ∧ added.loadAhFromFlags.storeAhIntoFlags.regs.flags = added.regs.flags := by
  have hrun : Run ChangesFlags addingStart
      (((addingStart.after .move).after .move).after .move) :=
    .event (.event (.event .refl .move trivial) .move trivial) .move trivial
  have hroom : added.Room 2 := by
    refine ⟨by decide, fun i hi => ?_⟩
    revert i
    decide +kernel
  obtain ⟨-, hbyte, hword⟩ :=
    saved_flags_intact.2.2.2 realMode _ _ .empty _ (.refl Flags.clear) hrun
  exact ⟨by decide +kernel, hword hroom, hbyte⟩

end X86

end Microprocessor
