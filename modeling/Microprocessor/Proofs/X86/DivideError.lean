import Microprocessor.Proofs.Pipeline.Flush
import Microprocessor.Proofs.Pipeline.Outcome
import Microprocessor.Proofs.Pipeline.Protection
import Microprocessor.Proofs.Pipeline.Stepping
import Microprocessor.Proofs.X86.Arbitration
import Microprocessor.Proofs.X86.CodeAddress
import Microprocessor.Proofs.X86.Division
import Microprocessor.Proofs.X86.Nesting
import Microprocessor.Terminal.Console
import Microprocessor.X86.RealMode

/-! # Divide errors are delivered once

    An undefined division raises an exception and does nothing else.  The next boundary
    takes it, ahead of whatever else asks, and no boundary takes an exception that has not
    been raised by the instruction before it.

      * `Pipeline.Raised` says of a history what exception is pending, and
        `Pipeline.Delivered` is the invariant that carries it;
      * `Pipeline.Arrives` is where a move comes to execute an instruction;
      * `Pipeline.Pauses` is what may happen until the next move that is not stopped, and
        `Pipeline.EntersDivideError` is what that move begins with;
      * `divide_errors_delivered` puts it together. -/

namespace Microprocessor

namespace Pipeline

/-! ## Moves -/

section Moves

variable {κ ι δ γ : Type} [Core κ ι] [Decoded ι] [PortDevice δ] [InterruptController γ]

/-- A move that reports that it was stopped has changed nothing but single-step control. -/
theorem tick_of_stopped {pipeline : Pipeline κ ι δ γ} (h : pipeline.tick.2 = .ok .stopped) :
    ∃ step, pipeline.tick.1 = { pipeline with step } := by
  have hmove := tick_move pipeline
  generalize pipeline.tick = result at hmove h
  cases hmove with
  | waits _ _ => cases h
  | @leaves step _ _ => exact ⟨step, rfl⟩
  | proceeds _ _ => exact absurd h (executeNext_ne _ (by decide) (by decide))
  | stops _ _ => exact ⟨pipeline.step, rfl⟩
  | idles _ _ hprepare =>
      obtain rfl := h
      obtain h | h | ⟨fault, h⟩ := result_of_prepare_some hprepare
      all_goals cases h
  | holds _ _ _ _ => cases h
  | executes _ _ _ _ => exact absurd h (executeNext_ne _ (by decide) (by decide))

/-- Where no instruction is held, a move is a boundary first unless it is stopped. -/
theorem services_of_not_stopped {pipeline : Pipeline κ ι δ γ} (horderly : pipeline.Orderly)
    (hempty : pipeline.decoded.isEmpty = true) (h : pipeline.tick.2 ≠ .ok .stopped) :
    pipeline.Services := by
  have hwaiting := horderly.waiting_of_isEmpty hempty
  refine ⟨hwaiting, Bool.eq_false_iff.mpr fun hstop => h ?_, hempty⟩
  rw [tick_of_stop hwaiting hstop]

omit [PortDevice δ] in
/-- The boundary is the first thing that such a move does. -/
theorem actions_of_services {pipeline : Pipeline κ ι δ γ} (h : pipeline.Services) :
    ∃ newer, pipeline.actions .move
      = newer ++ [.serves pipeline.core pipeline.bus pipeline.interrupts] := by
  obtain ⟨hwaiting, hstop, hempty⟩ := h
  rw [actions, hwaiting, hstop, preparation, if_pos hempty]
  exact ⟨_, (List.append_assoc _ _ _).symm⟩

/-- What a move executes is the one instruction that is decoded where it comes to execute. -/
theorem readied_of_executes {pipeline : Pipeline κ ι δ γ} (horderly : pipeline.Orderly) {core : κ}
    {bus : Bus δ} {faults : FaultUnit} {address : UInt32} {instruction : ι}
    (h : .executes core bus faults address instruction ∈ pipeline.actions .move) :
    ∃ ready, pipeline.readied? = some ready ∧ ready.decoded.items = [(address, instruction)]
      ∧ ready.core = core ∧ ready.bus = bus ∧ ready.faults = faults := by
  rw [actions, List.mem_append] at h
  obtain h | h := h
  · cases hready : pipeline.readied? with
    | none =>
        rw [hready] at h
        cases h
    | some ready =>
        obtain ⟨hsize, hheld⟩ := horderly.readied hready
        obtain ⟨address', instruction', hitems, -⟩ := Orderly.pop hsize hheld
        rw [hready] at h
        simp only at h
        rw [(execution_of_items hitems).1, List.mem_singleton] at h
        cases h
        exact ⟨ready, rfl, hitems, rfl, rfl, rfl⟩
  · split at h
    · cases h
    · cases executed?_of_mem_preparation h

/-- The instruction that is decoded there is what it executes. -/
theorem executes_of_readied {pipeline ready : Pipeline κ ι δ γ} {address : UInt32} {instruction : ι}
    (hready : pipeline.readied? = some ready)
    (hitems : ready.decoded.items = [(address, instruction)]) :
    .executes ready.core ready.bus ready.faults address instruction ∈ pipeline.actions .move := by
  rw [actions, hready]
  simp only
  rw [(execution_of_items hitems).1]
  exact List.mem_append_left _ List.mem_cons_self

/-- Where a move comes to execute an instruction, with what memory holds: it was held there, or
    the move has taken a boundary, decoded it and moved on past it. -/
inductive Arrives (pipeline : Pipeline κ ι δ γ) (instruction : ι) : κ → Memory → Prop
  | held (hheld : pipeline.decoded.isEmpty = false) :
      Arrives pipeline instruction pipeline.core pipeline.bus.memory
  | decoded (hempty : pipeline.decoded.isEmpty = true) :
      Arrives pipeline instruction
        (Core.advance pipeline.serviceInterrupts.core (Decoded.length instruction))
        pipeline.serviceInterrupts.bus.memory

omit [PortDevice δ] in
/-- A move comes to execute an instruction in one of these ways. -/
theorem Orderly.arrives {pipeline ready : Pipeline κ ι δ γ} {address : UInt32} {instruction : ι}
    (horderly : pipeline.Orderly) (hready : pipeline.readied? = some ready)
    (hitems : ready.decoded.items = [(address, instruction)]) :
    pipeline.Arrives instruction ready.core ready.bus.memory := by
  obtain ⟨hwaiting, step, rfl⟩ | ⟨-, hprepare⟩ := readied?_cases hready
  · exact .held (horderly.waiting hwaiting)
  · have hprepared := prepare_prepared pipeline
    have hmemory := memory_prepare pipeline
    rw [hprepare] at hprepared hmemory
    cases hprepared with
    | keeps hheld => exact .held hheld
    | decodes hempty bus _ =>
        cases hitems
        rw [if_pos hempty] at hmemory
        rw [hmemory]
        exact .decoded hempty

end Moves

open X86

variable {δ γ : Type} [PortDevice δ] [InterruptController γ]

/-! ## Exceptions along a run -/

/-- The action executes an instruction whose division is undefined. -/
def Fails : Action ExecutionUnit Instruction δ γ → Prop
  | .executes core bus _ _ instruction => Machine.Fails ⟨core, bus⟩ instruction
  | .serves _ _ _ | .decodes _ _ => False

/-- An exception is pending exactly if the newest action failed, and then it is the divide
    error.  Of an exception that was pending at the start nothing is said. -/
def Raised (history : List (Action ExecutionUnit Instruction δ γ)) (exception : Option UInt8) :
    Prop :=
  ∀ newest older, history = newest :: older → ∀ vector,
    exception = some vector ↔ vector = Vector.divideError ∧ Fails newest

/-- The unit stands past an instruction at an address. -/
def Past (address : UInt32) (instruction : Instruction) (unit : ExecutionUnit) : Prop :=
  ∃ before : ExecutionUnit, Core.fetchAddress before = address
    ∧ unit.place = (before.advance instruction.length).place

/-- What the actions of a run keep to: only a boundary follows an undefined division, a
    boundary finds an exception only there, and whatever is executed finds none. -/
def Delivers (older : List (Action ExecutionUnit Instruction δ γ)) :
    Action ExecutionUnit Instruction δ γ → Prop
  | .serves core _ _ => Raised older core.exception
  | .decodes _ _ => ∀ before ∈ older.head?, ¬Fails before
  | .executes core _ _ address instruction =>
    (∀ before ∈ older.head?, ¬Fails before) ∧ core.exception = none
      ∧ Past address instruction core

/-- Every action has kept to it, and so will the next one. -/
structure Delivered (history : List (Action ExecutionUnit Instruction δ γ))
    (pipeline : Pipeline ExecutionUnit Instruction δ γ) : Prop where
  delivers : Throughout Delivers history
  raised : Raised history pipeline.core.exception
  held : pipeline.decoded.isEmpty = false → pipeline.core.exception = none
  past : ∀ item ∈ pipeline.decoded.items, Past item.1 item.2 pipeline.core

omit [PortDevice δ] [InterruptController γ] in
/-- With no exception pending the newest action did not fail. -/
theorem Raised.not_fails {history : List (Action ExecutionUnit Instruction δ γ)}
    (h : Raised history none) : ∀ newest ∈ history.head?, ¬Fails newest := by
  intro newest hnewest hfails
  obtain ⟨older, rfl⟩ := List.head?_eq_some_iff.mp hnewest
  cases (h newest older rfl Vector.divideError).mpr ⟨rfl, hfails⟩

omit [PortDevice δ] [InterruptController γ] in
/-- An action that is no execution leaves no exception pending. -/
theorem raised_none {newest : Action ExecutionUnit Instruction δ γ}
    {older : List (Action ExecutionUnit Instruction δ γ)} (h : ¬Fails newest) :
    Raised (newest :: older) none := by
  intro _ _ hhistory vector
  cases hhistory
  exact iff_of_false nofun fun hfails => h hfails.2

/-- Every action keeps it so. -/
theorem delivered_kept : Kept (@Delivered δ γ) where
  control := fun _ _ h => ⟨h.delivers, h.raised, h.held, h.past⟩
  serves := by
    intro history pipeline bus faults hempty h
    have hnone : pipeline.serviceInterrupts.core.exception = none :=
      congrArg (fun pending => pending.1)
        (Machine.pending_serviceInterrupts ⟨pipeline.core, pipeline.bus⟩ pipeline.interrupts)
    have hitems : pipeline.decoded.items = [] := List.isEmpty_iff.mp hempty
    refine ⟨throughout_cons.mpr ⟨h.raised, h.delivers⟩, ?_, fun _ => hnone, ?_⟩
    · show Raised _ pipeline.serviceInterrupts.core.exception
      rw [hnone]
      exact raised_none id
    · intro item hitem
      have hitem : item ∈ pipeline.decoded.items := hitem
      rw [hitems] at hitem
      cases hitem
  decodes := by
    intro history served core before inputs bus source instruction _ _ h
    have hnone : served.core.exception = none := by
      refine Option.eq_none_iff_forall_ne_some.mpr fun vector hvector => ?_
      exact ((h.raised _ _ rfl vector).mp hvector).2
    refine ⟨throughout_cons.mpr ⟨?_, h.delivers⟩, ?_, fun _ => hnone, ?_⟩
    · intro served hserved
      cases hserved
      exact id
    · show Raised _ served.core.exception
      rw [hnone]
      exact raised_none id
    · intro item hitem
      cases List.mem_singleton.mp hitem
      exact ⟨served.core, rfl, rfl⟩
  executes := by
    intro history ready address instruction hitems h
    have hnone : ready.core.exception = none := by
      refine h.held ?_
      rw [DecodedQueue.isEmpty, hitems]
      rfl
    have hraised := h.raised
    rw [hnone] at hraised
    have hpast := h.past (address, instruction) (hitems ▸ List.mem_cons_self)
    refine ⟨throughout_cons.mpr ⟨⟨hraised.not_fails, hnone, hpast⟩, h.delivers⟩, ?_, ?_, ?_⟩
    · intro newest older hhistory vector
      cases hhistory
      exact Machine.exception_execute_iff ⟨ready.core, ready.bus⟩ instruction hnone address
        ready.faults vector
    · intro hheld
      have hheld : true = false := hheld
      cases hheld
    · intro item hitem
      have hitem : item ∈ ([] : List (UInt32 × Instruction)) := hitem
      cases hitem

/-- What is pending is left alone, and CS:IP as long as an instruction is held; every other
    event may happen. -/
def KeepsCourse (pipeline : Pipeline ExecutionUnit Instruction δ γ) :
    Event ExecutionUnit δ γ → Prop
  | .setCore core =>
    core.pending = pipeline.core.pending
      ∧ (pipeline.decoded.isEmpty = false → core.place = pipeline.core.place)
  | _ => True

/-- Between moves nothing happens to what is pending, nor to CS:IP as long as an instruction is
    held. -/
theorem course_after {pipeline : Pipeline ExecutionUnit Instruction δ γ}
    {event : Event ExecutionUnit δ γ} (hother : event ≠ .move)
    (hkeeps : pipeline.KeepsCourse event) :
    (pipeline.after event).core.pending = pipeline.core.pending
      ∧ (pipeline.decoded.isEmpty = false →
          (pipeline.after event).core.place = pipeline.core.place) := by
  obtain ⟨core, rfl⟩ | hsame := pipeline.core_set_or_kept hother
  · exact hkeeps
  · rw [hsame]
    exact ⟨rfl, fun _ => rfl⟩

/-- Every run keeps to it. -/
theorem Recorded.delivered {start pipeline : Pipeline ExecutionUnit Instruction δ γ}
    {history : List (Action ExecutionUnit Instruction δ γ)} (horderly : start.Orderly)
    (hempty : start.decoded.isEmpty = true) (h : Recorded KeepsCourse start history pipeline) :
    Delivered history pipeline := by
  have hitems : start.decoded.items = [] := List.isEmpty_iff.mp hempty
  refine h.invariant delivered_kept.stages ?_ horderly ⟨throughout_nil, ?_, ?_, ?_⟩
  · intro history pipeline event hother hkeeps hdelivered
    obtain ⟨hpending, hplace⟩ := course_after hother hkeeps
    have hexception : (pipeline.after event).core.exception = pipeline.core.exception :=
      congrArg (fun pending => pending.1) hpending
    obtain ⟨hdecoded, -⟩ := keeps_of_ne_move pipeline hother
    refine ⟨hdelivered.delivers, ?_, ?_, ?_⟩
    · rw [hexception]
      exact hdelivered.raised
    · rw [hdecoded, hexception]
      exact hdelivered.held
    · rw [hdecoded]
      intro item hitem
      obtain ⟨before, haddress, hpast⟩ := hdelivered.past item hitem
      have hheld : pipeline.decoded.isEmpty = false :=
        List.isEmpty_eq_false_iff.mpr (List.ne_nil_of_mem hitem)
      exact ⟨before, haddress, (hplace hheld).trans hpast⟩
  · intro newest older hhistory
    cases hhistory
  · intro hheld
    rw [hempty] at hheld
    cases hheld
  · intro item hitem
    rw [hitems] at hitem
    cases hitem

/-! ## Delivery -/

/-- The unit and the bus. -/
def machine (pipeline : Pipeline ExecutionUnit Instruction δ γ) : Machine δ :=
  ⟨pipeline.core, pipeline.bus⟩

/-- The next move begins with a boundary that takes the divide error, with flags, CS and IP as
    they are in some registers. -/
structure EntersDivideError (pipeline : Pipeline ExecutionUnit Instruction δ γ)
    (regs : RegisterFile) : Prop where
  begins : ∃ newer, pipeline.actions .move
    = newer ++ [.serves pipeline.core pipeline.bus pipeline.interrupts]
  takes : pipeline.machine.Takes pipeline.interrupts (.exception Vector.divideError)
    (pipeline.machine.serviceInterrupts pipeline.interrupts)
  regs : pipeline.core.regs = regs

omit [PortDevice δ] in
/-- A move that is a boundary first, with the divide error pending, begins so. -/
theorem entersDivideError {pipeline : Pipeline ExecutionUnit Instruction δ γ}
    (hservices : pipeline.Services)
    (hexception : pipeline.core.exception = some Vector.divideError) :
    pipeline.EntersDivideError pipeline.core.regs where
  begins := actions_of_services hservices
  takes := Machine.serviceInterrupts_takes ⟨⟨hexception, trivial⟩, fun _ _ => Nat.zero_le _⟩
  regs := rfl

/-- Nobody sets registers, and moves are stopped; every other event may happen. -/
def Pauses (pipeline : Pipeline ExecutionUnit Instruction δ γ) : Event ExecutionUnit δ γ → Prop
  | .move => pipeline.tick.2 = .ok .stopped
  | .setCore _ => False
  | _ => True

/-- Such events leave the unit alone, and decode nothing. -/
theorem core_of_pauses {start later : Pipeline ExecutionUnit Instruction δ γ}
    (hrun : Run Pauses start later) :
    later.core = start.core ∧ later.decoded = start.decoded := by
  induction hrun with
  | refl => exact ⟨rfl, rfl⟩
  | @event pipeline _ event hpauses ih =>
      obtain ⟨hcore, hdecoded⟩ := ih
      by_cases hmove : event = .move
      · subst hmove
        obtain ⟨step, hstopped⟩ := tick_of_stopped hpauses
        show pipeline.tick.1.core = _ ∧ pipeline.tick.1.decoded = _
        rw [hstopped]
        exact ⟨hcore, hdecoded⟩
      · have hset : ∀ core, event ≠ .setCore core := by
          rintro core rfl
          exact hpauses
        rw [core_after pipeline hmove hset, (keeps_of_ne_move pipeline hmove).1]
        exact ⟨hcore, hdecoded⟩

/-- All that a division that a move executes comes to.  If it is undefined, the registers and
    memory are as they were, and the next move that is not stopped enters the handler of the
    divide error; otherwise there are results and no exception. -/
structure ExecutesDivision
    (pipeline : Pipeline ExecutionUnit Instruction δ γ) (unit : ExecutionUnit)
    (memory : Memory) (division : Division) : Prop where
  goesThrough : ∃ outcome, pipeline.tick.2 = .ok outcome
  memory : pipeline.tick.1.bus.memory = memory
  undefined : division.Undefined →
    pipeline.tick.1.core.regs = unit.regs
      ∧ ∀ later, Run Pauses pipeline.tick.1 later → later.tick.2 ≠ .ok .stopped →
          later.EntersDivideError unit.regs
  results : ¬division.Undefined →
    division.Results unit.regs pipeline.tick.1.core.regs
      ∧ pipeline.tick.1.core.exception = none

/-- Every division that a move executes with no exception pending comes to that. -/
theorem executes_division {pipeline ready : Pipeline ExecutionUnit Instruction δ γ}
    {address : UInt32} {instruction : Instruction} {division : Division}
    (horderly : pipeline.Orderly) (hready : pipeline.readied? = some ready)
    (hitems : ready.decoded.items = [(address, instruction)])
    (hnone : ready.core.exception = none)
    (hdivision : Machine.division? ⟨ready.core, ready.bus⟩ instruction = some division) :
    pipeline.ExecutesDivision ready.core ready.bus.memory division := by
  have hpop : ready.decoded.pop
      = .ok ((address, instruction), { ready.decoded with items := [] }) := by
    rw [DecodedQueue.pop, hitems]
  obtain ⟨hsize, hheld⟩ := horderly.readied hready
  have hempty : pipeline.tick.1.decoded.isEmpty = true := by
    rw [tick_of_readied? hready]
    exact (executeNext_empties hsize hheld).1
  obtain ⟨hcore, hbus⟩ := tick_of_pop hready hpop rfl
  obtain ⟨hthrough, hmemory, hends⟩ := Machine.execute_divided hdivision address ready.faults
  constructor
  case goesThrough =>
    rw [tick_of_readied? hready]
    have hperformed := executeNext_performed ready
    generalize ready.executeNext = result at hperformed
    cases hperformed with
    | lacks hnothing _ _ =>
        rw [hheld] at hnothing
        cases hnothing
    | faults hpopped hfault =>
        cases hpop.symm.trans hpopped
        cases hthrough.symm.trans hfault
    | halts _ _ _ => exact ⟨.halted, rfl⟩
    | goesOn _ _ _ => exact ⟨.executed, rfl⟩
  case memory =>
    -- Dropping the queue leaves memory alone.
    have hkept := congrArg Bus.memory hmemory
    rw [hbus]
    split
    · exact hkept
    · exact hkept
  case undefined =>
    intro hundefined
    obtain ⟨-, hregs, hexception⟩ | ⟨hdefined, -⟩ := hends
    · rw [hcore]
      refine ⟨hregs, fun later hrun hgoes => ?_⟩
      obtain ⟨hlater, hdecoded⟩ := core_of_pauses hrun
      rw [hcore] at hlater
      have hservices : later.Services := by
        refine services_of_not_stopped (horderly.tick.run hrun) ?_ hgoes
        rw [hdecoded]
        exact hempty
      have hpending : later.core.exception = some Vector.divideError := by
        rw [hlater]
        exact hexception
      have hsame : later.core.regs = ready.core.regs := by
        rw [hlater]
        exact hregs
      rw [← hsame]
      exact entersDivideError hservices hpending
    · exact absurd hundefined hdefined
  case results =>
    intro hdefined
    obtain ⟨hundefined, -⟩ | ⟨-, hresults, hexception⟩ := hends
    · exact absurd hundefined hdefined
    · rw [hcore]
      exact ⟨hresults, hexception.trans hnone⟩

end Pipeline

namespace X86

open Pipeline

/-- In every run of an 8086 a boundary finds an exception exactly if the instruction just
    executed has failed to divide, and whatever fails to divide is followed by a boundary, so
    every divide error is taken once.  A move that executes an instruction that divides does so
    with IP past it.  If the division is undefined, no register and nothing in memory changes, and
    the next move that is not stopped first enters the handler of the divide error, with flags, CS
    and IP saved; otherwise the registers for the results change and no exception is pending. -/
theorem divide_errors_delivered {δ γ : Type} [PortDevice δ] [InterruptController γ]
    (architecture : Architecture Instruction) (core : ExecutionUnit) (memory : Memory)
    (ports : PortMap δ)
    {history : List (Action ExecutionUnit Instruction δ γ)}
    {pipeline : Pipeline ExecutionUnit Instruction δ γ}
    (hrun : Recorded KeepsCourse (.of architecture core memory ports) history pipeline) :
    Throughout Delivers history
      ∧ ∀ (unit : ExecutionUnit) (bus : Bus δ) (faults : FaultUnit) (address : UInt32)
          (instruction : Instruction) (division : Division),
          .executes unit bus faults address instruction ∈ pipeline.actions .move →
          Machine.division? ⟨unit, bus⟩ instruction = some division →
          pipeline.Arrives instruction unit bus.memory
            ∧ Past address instruction unit
            ∧ pipeline.ExecutesDivision unit bus.memory division := by
  have horderly := (orderly_of architecture core memory ports).run hrun.run
  have hmoved :=
    (hrun.event .move trivial).delivered (orderly_of architecture core memory ports) rfl
  refine ⟨(hrun.delivered (orderly_of architecture core memory ports) rfl).delivers, ?_⟩
  intro unit bus faults address instruction division hexecutes hdivision
  obtain ⟨newer, older, hactions⟩ := List.append_of_mem hexecutes
  have hhistory : pipeline.actions .move ++ history
      = newer ++ .executes unit bus faults address instruction :: (older ++ history) := by
    rw [hactions, List.append_assoc]
    rfl
  obtain ⟨-, hnone, hpast⟩ := hmoved.delivers _ _ _ hhistory
  obtain ⟨ready, hready, hitems, rfl, rfl, rfl⟩ := readied_of_executes horderly hexecutes
  exact ⟨horderly.arrives hready hitems, hpast,
    executes_division horderly hready hitems hnone hdivision⟩

/-- An 8086 at the start of a program that splits AL, which is 63, by ten, and then divides by
    BL, which is zero; the handler of the divide error is a row of NOPs. -/
def splittingStart : Pipeline ExecutionUnit Instruction Terminal.Console InterruptLine :=
  .of realMode
    ((ExecutionUnit.initial.setStack 0 10).mapRegs fun regs =>
      (regs.setIp 10).setByte .al 63)
    ⟨#[0x0E, 0, 0, 0, 0, 0, 0, 0, 0, 0, 0xD4, 0x0A, 0xF6, 0xF3, 0x90, 0x90], none⟩ .empty

/-- The first move leaves the digits in AH and AL.  The second raises the divide error, and the
    third begins in its handler, with the flags of AAM and the address after the division on the
    stack. -/
theorem divide_errors_delivered_splitting :
    Alu.Reading.unsigned.value .byte ((splittingStart.moves 1).2.core.regs.read (.byte .ah)) = 6
      ∧ Alu.Reading.unsigned.value .byte ((splittingStart.moves 1).2.core.regs.read (.byte .al)) = 3
      ∧ (splittingStart.moves 2).2.EntersDivideError (splittingStart.moves 2).2.core.regs
      ∧ (splittingStart.moves 3).2.bus.memory.bytes.extract 4 10 = #[0x0E, 0, 0, 0, 0x06, 0xF0]
      ∧ Throughout Delivers (splittingStart.moves 3).1 := by
  have hrun : ∀ count, Recorded KeepsCourse splittingStart (splittingStart.moves count).1
      (splittingStart.moves count).2 := by
    intro count
    refine recorded_replay splittingStart fun event hevent _ => ?_
    rw [List.eq_of_mem_replicate hevent]
    trivial
  have hsplits : splittingStart.readied?.map
      (fun ready => (ready.decoded.items, ready.core.regs.byte .al))
      = some ([(10, ⟨0xD4, .none, .asciiAdjustMultiply 10, 2, 83⟩)], 63) := by decide +kernel
  have hdivides : (splittingStart.moves 1).2.readied?.map
      (fun ready => (ready.decoded.items, ready.core.regs.byte .bl))
      = some ([(12, ⟨0xF6, .none, .mulDiv .div .byte (.register (.byte .bl)), 2, 90⟩)], 0) := by
    decide +kernel
  obtain ⟨splitting, hsplitting, hsplits⟩ := Option.map_eq_some_iff.mp hsplits
  obtain ⟨hsplits, hal⟩ := Prod.mk.inj hsplits
  obtain ⟨dividing, hdividing, hdivides⟩ := Option.map_eq_some_iff.mp hdivides
  obtain ⟨hdivides, hbl⟩ := Prod.mk.inj hdivides
  obtain ⟨-, hfirst⟩ := divide_errors_delivered realMode _ _ .empty (hrun 0)
  obtain ⟨-, -, hdigits⟩ := hfirst _ _ _ _ _ _ (executes_of_readied hsplitting hsplits) rfl
  obtain ⟨-, hsecond⟩ := divide_errors_delivered realMode _ _ .empty (hrun 1)
  obtain ⟨-, -, hfails⟩ := hsecond _ _ _ _ _ _ (executes_of_readied hdividing hdivides) rfl
  have hdefined : ¬(Machine.baseDivision ⟨splitting.core, splitting.bus⟩ 10).Undefined := by
    show ¬Alu.Undefined .byte false (splitting.core.regs.byte .al).toNat 10
    rw [hal]
    show ¬((10 : Int) = 0 ∨ 256 ≤ (Int.tdiv 63 10).natAbs)
    decide
  have hundefined : (Machine.accumulatorDivision ⟨dividing.core, dividing.bus⟩
      ⟨0xF6, .none, .mulDiv .div .byte (.register (.byte .bl)), 2, 90⟩ false .byte
      (.register (.byte .bl))).Undefined := by
    refine .inl ?_
    show Alu.Reading.unsigned.value .byte (dividing.core.regs.byte .bl).toUInt16 = 0
    rw [hbl]
    decide
  have hmove : ∀ count, (splittingStart.moves (count + 1)).2
      = (splittingStart.moves count).2.tick.1 := fun _ => rfl
  have hone := hmove 0
  have htwo := hmove 1
  simp only [Nat.reduceAdd] at hone htwo
  obtain ⟨hresults, -⟩ := hdigits.results hdefined
  obtain ⟨hregs, henters⟩ := hfails.undefined hundefined
  rw [← hone] at hresults
  rw [← hregs, ← htwo] at henters
  have hread : ∀ after : RegisterFile,
      (Machine.baseDivision ⟨splitting.core, splitting.bus⟩ 10).Results splitting.core.regs after →
        Alu.Reading.unsigned.value .byte (after.read (.byte .ah))
            = Int.tdiv (splitting.core.regs.byte .al).toNat 10
          ∧ Alu.Reading.unsigned.value .byte (after.read (.byte .al))
            = Int.tmod (splitting.core.regs.byte .al).toNat 10 :=
    fun _ hresults => ⟨hresults.quotient, hresults.remainder⟩
  obtain ⟨hquotient, hremainder⟩ := hread _ hresults
  rw [hal] at hquotient hremainder
  refine ⟨hquotient, hremainder, ?_, by decide +kernel, ?_⟩
  · exact henters _ .refl (by decide +kernel)
  · exact (divide_errors_delivered realMode _ _ .empty (hrun 3)).1

end X86

end Microprocessor
