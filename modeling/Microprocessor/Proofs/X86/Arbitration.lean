import Microprocessor.Proofs.Control.Acknowledging
import Microprocessor.Proofs.Pipeline.History
import Microprocessor.Proofs.X86.Handler
import Microprocessor.Proofs.X86.Pending
import Microprocessor.Terminal.Console
import Microprocessor.X86.RealMode

/-! # Interrupt arbitration

    At an instruction boundary the 8086 may enter one handler.  Four sources can
    ask for it, two of them the unit's own, and only the maskable line can be
    kept from being heard.

      * `Source.First` is the source that goes first among those that ask and
        are heard; `Machine.serviceInterrupts_arbitrates`: it is taken, and no
        other;
      * `Machine.Takes` is what taking a source comes to: its handler is entered,
        it alone no longer asks, and the controller of the line has acknowledged
        once or not at all, as `Machine.acknowledgements` counts;
      * `Pipeline.Attends` is what the actions of a run keep to, and
        `Pipeline.Attentive` the invariant that carries it. -/

namespace Microprocessor

/-- What a boundary leaves behind, without the account that is kept of it. -/
def Serviced.unwatched {κ δ γ : Type} (served : Serviced κ δ (Watched γ)) : Serviced κ δ γ :=
  ⟨served.core, served.bus, served.inputs.unwatched, served.entered⟩

namespace X86

/-! ## Sources -/

/-- What can ask for a handler, with the vector if that is not fixed. -/
inductive Source
  | exception (vector : UInt8)
  | trap
  | nmi
  | line (vector : UInt8)
  deriving DecidableEq

namespace Source

/-- The vector of the handler. -/
def vector : Source → UInt8
  | .exception vector | .line vector => vector
  | .trap => Vector.singleStep
  | .nmi => Vector.nmi

/-- The place in the order of priority; the least goes first. -/
def rank : Source → Nat
  | .exception _ => 0
  | .trap => 1
  | .nmi => 2
  | .line _ => 3

/-- What the controller of the line is to acknowledge, if the source is taken. -/
def acknowledgements : Source → List UInt8
  | .line vector => [vector]
  | .exception _ | .trap | .nmi => []

/-- The line is heard if IF is set and no shadow lies over the boundary; the
    other sources always are. -/
def Heard (unit : ExecutionUnit) : Source → Prop
  | .line _ => unit.regs.flags.get .interruptEnable = true ∧ unit.shadow = false
  | .exception _ | .trap | .nmi => True

variable {γ : Type} [InterruptController γ] {unit : ExecutionUnit} {inputs : InterruptInputs γ}

/-- The source asks for its handler. -/
def Latched (unit : ExecutionUnit) (inputs : InterruptInputs γ) : Source → Prop
  | .exception vector => unit.exception = some vector
  | .trap => unit.trapPending = true
  | .nmi => inputs.nmi = true
  | .line vector => inputs.request? = some vector

/-- The source asks and is heard. -/
def Eligible (unit : ExecutionUnit) (inputs : InterruptInputs γ) (source : Source) : Prop :=
  source.Latched unit inputs ∧ source.Heard unit

/-- The source goes first among those that ask and are heard. -/
def First (unit : ExecutionUnit) (inputs : InterruptInputs γ) (source : Source) : Prop :=
  source.Eligible unit inputs ∧ ∀ other : Source, other.Eligible unit inputs →
    source.rank ≤ other.rank

/-- The unit that no longer asks on its own behalf. -/
def withdraw (unit : ExecutionUnit) : Source → ExecutionUnit
  | .exception _ => { unit with exception := none }
  | .trap => { unit with trapPending := false }
  | .nmi | .line _ => unit

/-- Its registers are as they were. -/
theorem regs_withdraw (unit : ExecutionUnit) (source : Source) :
    (source.withdraw unit).regs = unit.regs := by
  cases source <;> rfl

/-- The inputs with the source's request taken. -/
def acknowledge (inputs : InterruptInputs γ) : Source → InterruptInputs γ
  | .exception _ | .trap => inputs
  | .nmi => { inputs with nmi := false }
  | .line _ => inputs.acknowledged

/-- Taking a request is the same with an account kept of it. -/
theorem unwatched_acknowledge (inputs : InterruptInputs γ) (source : Source) :
    (source.acknowledge inputs.watched).unwatched = source.acknowledge inputs := by
  cases source with
  | line vector => exact inputs.unwatched_acknowledged_watched
  | nmi => exact congrArg (fun inputs => { inputs with nmi := false }) inputs.unwatched_watched
  | exception _ | trap => exact inputs.unwatched_watched

/-! ## One boundary -/

/-- What asks is what is pending. -/
theorem latched_congr {unit after : ExecutionUnit} (h : after.pending = unit.pending)
    (inputs : InterruptInputs γ) (source : Source) :
    source.Latched after inputs ↔ source.Latched unit inputs := by
  have hexception : after.exception = unit.exception := congrArg (fun pending => pending.1) h
  have htrap : after.trapPending = unit.trapPending := congrArg (fun pending => pending.2.1) h
  cases source with
  | exception vector => rw [Latched, Latched, hexception]
  | trap => rw [Latched, Latched, htrap]
  | nmi => exact Iff.rfl
  | line vector => exact Iff.rfl

/-- Being watched does not change what asks. -/
theorem latched_watched (unit : ExecutionUnit) (inputs : InterruptInputs γ) (source : Source) :
    source.Latched unit inputs.watched ↔ source.Latched unit inputs := by
  cases source with
  | line vector => rw [Latched, Latched, InterruptInputs.request?_watched]
  | exception _ | trap | nmi => exact Iff.rfl

/-- Nor, therefore, what is eligible. -/
theorem eligible_watched {source : Source} :
    source.Eligible unit inputs.watched ↔ source.Eligible unit inputs :=
  and_congr_left' (latched_watched unit inputs source)

/-- Nor what goes first. -/
theorem first_watched {source : Source} :
    source.First unit inputs.watched ↔ source.First unit inputs := by
  simp only [First, eligible_watched]

/-- Apart from the line, whose controller may ask again, a source that has been
    taken no longer asks. -/
theorem not_latched_withdraw {source : Source} (h : ∀ vector, source ≠ .line vector) :
    ¬ source.Latched (source.withdraw unit) (source.acknowledge inputs) := by
  intro hasks
  cases source with
  | line vector => exact h vector rfl
  | exception _ | trap | nmi => cases hasks

/-- Whatever else asks keeps asking. -/
theorem latched_withdraw_of_ne {source other : Source} (hother : other.rank ≠ source.rank) :
    other.Latched (source.withdraw unit) (source.acknowledge inputs)
      ↔ other.Latched unit inputs := by
  cases source <;> cases other <;> first | exact Iff.rfl | exact absurd rfl hother

/-- One source goes first: the vector of a source is the one it asks with. -/
theorem First.eq {source other : Source} (h : source.First unit inputs)
    (hother : other.First unit inputs) : source = other := by
  have hrank := Nat.le_antisymm (h.2 other hother.1) (hother.2 source h.1)
  have hasks := h.1.1
  have hothers := hother.1.1
  cases source with
  | exception vector =>
      cases other with
      | exception another =>
          exact congrArg Source.exception (Option.some.inj (hasks.symm.trans hothers))
      | trap | nmi | line _ => cases hrank
  | trap =>
      cases other with
      | trap => rfl
      | exception _ | nmi | line _ => cases hrank
  | nmi =>
      cases other with
      | nmi => rfl
      | exception _ | trap | line _ => cases hrank
  | line vector =>
      cases other with
      | line another =>
          exact congrArg Source.line (Option.some.inj (hasks.symm.trans hothers))
      | exception _ | trap | nmi => cases hrank

end Source

namespace Machine

variable {δ γ : Type} [InterruptController γ]

/-- What a boundary leaves behind that takes a source. -/
def taking (machine : Machine δ) (inputs : InterruptInputs γ) (source : Source) :
    Serviced ExecutionUnit δ γ :=
  entering ⟨source.withdraw machine.unit, machine.bus⟩ source.vector (source.acknowledge inputs)

/-- The line is served if it asks and is heard, and otherwise nothing happens. -/
theorem serviceLine_arbitrates (machine : Machine δ) (inputs : InterruptInputs γ) :
    (∃ vector, Source.Eligible machine.unit inputs (.line vector)
        ∧ machine.serviceLine inputs = machine.taking inputs (.line vector))
      ∨ ((∀ vector, ¬ Source.Eligible machine.unit inputs (.line vector))
        ∧ machine.serviceLine inputs = ⟨machine.unit, machine.bus, inputs, false⟩) := by
  rw [serviceLine]
  cases hopen : machine.regs.flags.get .interruptEnable && !machine.unit.shadow with
  | false =>
      refine .inr ⟨?_, rfl⟩
      rintro vector ⟨-, henabled, hshadow⟩
      have henabled : machine.regs.flags.get .interruptEnable = true := henabled
      rw [henabled, hshadow] at hopen
      cases hopen
  | true =>
      obtain ⟨henabled, hshadow⟩ := Bool.and_eq_true_iff.mp hopen
      cases hrequest : inputs.request? with
      | none =>
          refine .inr ⟨?_, ?_⟩
          · rintro vector ⟨hasks, -⟩
            rw [Source.Latched, hrequest] at hasks
            cases hasks
          · rw [InterruptInputs.acknowledge_of_none hrequest]
            rfl
      | some vector =>
          refine .inl ⟨vector, ⟨hrequest, henabled, ?_⟩, ?_⟩
          · exact Bool.not_eq_true' _ |>.mp hshadow
          · rw [InterruptInputs.acknowledge_of_request? hrequest]
            rfl

/-- A boundary takes the source that goes first, or nothing if none is heard. -/
theorem serviceInterrupts_arbitrates (machine : Machine δ) (inputs : InterruptInputs γ) :
    (∃ source : Source, source.First machine.unit inputs
        ∧ machine.serviceInterrupts inputs = machine.taking inputs source)
      ∨ ((∀ source : Source, ¬ source.Eligible machine.unit inputs)
        ∧ machine.serviceInterrupts inputs = ⟨machine.unit, machine.bus, inputs, false⟩) := by
  rw [serviceInterrupts]
  cases hexception : machine.unit.exception with
  | some vector =>
      exact .inl ⟨.exception vector, ⟨⟨hexception, trivial⟩, fun _ _ => Nat.zero_le _⟩, rfl⟩
  | none =>
      have hno : ∀ vector, ¬ Source.Eligible machine.unit inputs (.exception vector) := by
        rintro vector ⟨h, -⟩
        rw [Source.Latched, hexception] at h
        cases h
      simp only
      cases htrap : machine.unit.trapPending with
      | true =>
          refine .inl ⟨.trap, ⟨⟨htrap, trivial⟩, fun other hother => ?_⟩, rfl⟩
          cases other with
          | exception vector => exact absurd hother (hno vector)
          | trap | nmi | line _ => exact Nat.le_of_ble_eq_true rfl
      | false =>
          have hnotrap : ¬ Source.Eligible machine.unit inputs .trap := by
            rintro ⟨h, -⟩
            rw [Source.Latched, htrap] at h
            cases h
          rw [if_neg Bool.false_ne_true]
          cases hnmi : inputs.nmi with
          | true =>
              refine .inl ⟨.nmi, ⟨⟨hnmi, trivial⟩, fun other hother => ?_⟩, rfl⟩
              cases other with
              | exception vector => exact absurd hother (hno vector)
              | trap => exact absurd hother hnotrap
              | nmi | line _ => exact Nat.le_of_ble_eq_true rfl
          | false =>
              have hnonmi : ¬ Source.Eligible machine.unit inputs .nmi := by
                rintro ⟨h, -⟩
                rw [Source.Latched, hnmi] at h
                cases h
              rw [if_neg Bool.false_ne_true]
              obtain ⟨vector, heligible, hserved⟩ | ⟨hnone, hserved⟩ :=
                serviceLine_arbitrates machine inputs
              · refine .inl ⟨.line vector, ⟨heligible, fun other hother => ?_⟩, hserved⟩
                cases other with
                | exception vector => exact absurd hother (hno vector)
                | trap => exact absurd hother hnotrap
                | nmi => exact absurd hother hnonmi
                | line _ => exact Nat.le_refl _
              · refine .inr ⟨fun other hother => ?_, hserved⟩
                cases other with
                | exception vector => exact hno vector hother
                | trap => exact hnotrap hother
                | nmi => exact hnonmi hother
                | line vector => exact hnone vector hother

/-! ## Taking a source -/

/-- The vectors that a boundary has the controller of the line give, the newest
    first. -/
def acknowledgements (machine : Machine δ) (inputs : InterruptInputs γ) : List UInt8 :=
  (machine.serviceInterrupts inputs.watched).inputs.given

/-- A boundary has entered the handler of a source, and has taken that source alone
    of all that may ask. -/
structure Takes (machine : Machine δ) (inputs : InterruptInputs γ) (source : Source)
    (served : Serviced ExecutionUnit δ γ) : Prop where
  /-- Whatever else asks. -/
  first : source.First machine.unit inputs
  entered : served.entered = true
  handler : machine.EntersHandler source.vector ⟨served.core, served.bus⟩
  pending : served.core.pending = (source.withdraw machine.unit).pending
  /-- The controller is asked once if the source is the line, and else not at all. -/
  acknowledged : machine.acknowledgements inputs = source.acknowledgements
  withdrawn : (∀ vector, source ≠ .line vector) → ¬ source.Latched served.core served.inputs
  others : ∀ other : Source, other.rank ≠ source.rank →
    (other.Latched served.core served.inputs ↔ other.Latched machine.unit inputs)
  inputs : served.inputs = source.acknowledge inputs

/-- The account of a boundary that takes a source. -/
theorem given_taking_watched {machine : Machine δ} {inputs : InterruptInputs γ} {source : Source}
    (hasks : source.Latched machine.unit inputs) :
    (machine.taking inputs.watched source).inputs.given = source.acknowledgements := by
  cases source with
  | line vector => exact InterruptInputs.given_acknowledged_watched hasks
  | exception _ | trap | nmi => exact inputs.given_watched

/-- What goes first is what is taken. -/
theorem serviceInterrupts_of_first {machine : Machine δ} {inputs : InterruptInputs γ}
    {source : Source} (hfirst : source.First machine.unit inputs) :
    machine.serviceInterrupts inputs = machine.taking inputs source := by
  obtain ⟨first, hthis, hserved⟩ | ⟨hnone, -⟩ := machine.serviceInterrupts_arbitrates inputs
  · rw [hserved, hthis.eq hfirst]
  · exact absurd hfirst.1 (hnone source)

/-- Taking a source comes to that. -/
theorem serviceInterrupts_takes {machine : Machine δ} {inputs : InterruptInputs γ}
    {source : Source} (hfirst : source.First machine.unit inputs) :
    machine.Takes inputs source (machine.serviceInterrupts inputs) := by
  have henters := enterInterrupt_enters ⟨source.withdraw machine.unit, machine.bus⟩ source.vector
  have hpending := pending_enterInterrupt
    ⟨source.withdraw machine.unit, machine.bus⟩ source.vector
  have hgiven : machine.acknowledgements inputs = source.acknowledgements := by
    rw [acknowledgements, serviceInterrupts_of_first (Source.first_watched.mpr hfirst)]
    exact given_taking_watched hfirst.1.1
  rw [serviceInterrupts_of_first hfirst]
  refine ⟨hfirst, rfl, ?_, hpending, hgiven, fun hline hasks => ?_, fun other hother => ?_, rfl⟩
  · exact henters.congr (source.regs_withdraw machine.unit).symm rfl
  · exact Source.not_latched_withdraw hline ((Source.latched_congr hpending _ source).mp hasks)
  · exact (Source.latched_congr hpending _ other).trans (Source.latched_withdraw_of_ne hother)

/-- Where nothing asks and is heard, a boundary does nothing. -/
theorem serviceInterrupts_of_not_eligible {machine : Machine δ} {inputs : InterruptInputs γ}
    (hnone : ∀ source : Source, ¬ source.Eligible machine.unit inputs) :
    machine.serviceInterrupts inputs = ⟨machine.unit, machine.bus, inputs, false⟩ := by
  obtain ⟨source, hfirst, -⟩ | ⟨-, hserved⟩ := machine.serviceInterrupts_arbitrates inputs
  · exact absurd hfirst.1 (hnone source)
  · exact hserved

/-- Nor is the controller asked. -/
theorem acknowledgements_of_not_eligible {machine : Machine δ} {inputs : InterruptInputs γ}
    (hnone : ∀ source : Source, ¬ source.Eligible machine.unit inputs) :
    machine.acknowledgements inputs = [] := by
  rw [acknowledgements, serviceInterrupts_of_not_eligible fun source hwatched =>
    hnone source (Source.eligible_watched.mp hwatched)]
  exact inputs.given_watched

/-- Being watched changes nothing. -/
theorem unwatched_serviceInterrupts (machine : Machine δ) (inputs : InterruptInputs γ) :
    (machine.serviceInterrupts inputs.watched).unwatched = machine.serviceInterrupts inputs := by
  -- The same source goes first, since a watched controller asks for the same.
  obtain ⟨source, hfirst, hserved⟩ | ⟨hnone, hserved⟩ :=
    machine.serviceInterrupts_arbitrates inputs
  · rw [hserved, serviceInterrupts_of_first (Source.first_watched.mpr hfirst), taking, taking,
      ← source.unwatched_acknowledge inputs]
    rfl
  · rw [hserved, serviceInterrupts_of_not_eligible fun source hwatched =>
      hnone source (Source.eligible_watched.mp hwatched), Serviced.unwatched,
      InterruptInputs.unwatched_watched]

end Machine

end X86

namespace Pipeline

open X86

variable {δ γ : Type} [PortDevice δ] [InterruptController γ]

/-! ## Runs -/

/-- What the actions of a run keep to: the controller of the line acknowledges only
    with IF set and not at the boundaries between an instruction that casts a shadow
    and the next one; an instruction is executed only with no exception pending. -/
def Attends (older : List (Action ExecutionUnit Instruction δ γ)) :
    Action ExecutionUnit Instruction δ γ → Prop
  | .serves core bus inputs =>
    ∀ vector ∈ Machine.acknowledgements ⟨core, bus⟩ inputs,
      core.regs.flags.get .interruptEnable = true
        ∧ ∀ executed ∈ (executions older).head?, executed.2.operation.castsShadow = false
  | .decodes _ _ => True
  | .executes core _ _ _ _ => core.exception = none

/-- Every action has kept to it, an exception is pending only between an
    execution and the boundary that follows, and the shadow lies from the
    instruction that cast it to the next. -/
structure Attentive (history : List (Action ExecutionUnit Instruction δ γ))
    (pipeline : Pipeline ExecutionUnit Instruction δ γ) : Prop where
  attends : Throughout Attends history
  exception : pipeline.core.exception = none
    ∨ pipeline.decoded.isEmpty = true ∧ ∀ action ∈ history.head?, action.executed?.isSome
  shadow : ∀ executed ∈ (executions history).head?,
    executed.2.operation.castsShadow = true → pipeline.core.shadow = true

omit [PortDevice δ] in
/-- The controller acknowledges only where the line is heard. -/
theorem heard_of_acknowledged {core : ExecutionUnit} {bus : Bus δ} {inputs : InterruptInputs γ}
    {vector : UInt8} (h : vector ∈ Machine.acknowledgements ⟨core, bus⟩ inputs) :
    core.regs.flags.get .interruptEnable = true ∧ core.shadow = false := by
  obtain ⟨source, hfirst, -⟩ | ⟨hnone, -⟩ :=
    (Machine.mk core bus).serviceInterrupts_arbitrates inputs
  · rw [(Machine.serviceInterrupts_takes hfirst).acknowledged] at h
    cases source with
    | line _ => exact hfirst.1.2
    | exception _ | trap | nmi => cases h
  · rw [Machine.acknowledgements_of_not_eligible hnone] at h
    cases h

/-- Every action keeps to it. -/
theorem attentive_kept : Kept (@Attentive δ γ _) where
  control := fun _ _ h => ⟨h.attends, h.exception, h.shadow⟩
  serves := by
    intro history pipeline bus faults hempty h
    have hpending := Machine.pending_serviceInterrupts ⟨pipeline.core, pipeline.bus⟩
      pipeline.interrupts
    refine ⟨throughout_cons.mpr ⟨?_, h.attends⟩, .inl ?_, ?_⟩
    · intro vector hacknowledged
      obtain ⟨henabled, hshadow⟩ := heard_of_acknowledged hacknowledged
      refine ⟨henabled, fun executed hexecuted => ?_⟩
      have hcasts := h.shadow executed hexecuted
      rw [hshadow] at hcasts
      exact Bool.eq_false_iff.mpr fun hcast => Bool.false_ne_true (hcasts hcast)
    · exact congrArg (fun pending => pending.1) hpending
    · intro executed hexecuted hcasts
      exact (congrArg (fun pending => pending.2.2) hpending).trans
        (h.shadow executed hexecuted hcasts)
  decodes := by
    intro history served core before inputs bus source instruction _ _ h
    refine ⟨throughout_cons.mpr ⟨trivial, h.attends⟩, .inl ?_, h.shadow⟩
    obtain hnone | ⟨-, hexecuted⟩ := h.exception
    · exact hnone
    · -- The boundary before was no execution.
      cases hexecuted _ rfl
  executes := by
    intro history ready address instruction hitems h
    refine ⟨throughout_cons.mpr ⟨?_, h.attends⟩, .inr ⟨rfl, ?_⟩, ?_⟩
    · obtain hnone | ⟨hempty, -⟩ := h.exception
      · exact hnone
      · rw [DecodedQueue.isEmpty, hitems] at hempty
        cases hempty
    · intro action haction
      cases haction
      rfl
    · intro executed hexecuted hcasts
      cases hexecuted
      exact Machine.shadow_execute ⟨ready.core, ready.bus⟩ hcasts address ready.faults

/-- Every run keeps to it. -/
theorem Recorded.attentive {start pipeline : Pipeline ExecutionUnit Instruction δ γ}
    {history : List (Action ExecutionUnit Instruction δ γ)} (horderly : start.Orderly)
    (hempty : start.decoded.isEmpty = true) (h : Recorded KeepsPending start history pipeline) :
    Attentive history pipeline := by
  refine h.invariant attentive_kept.stages ?_ horderly ⟨throughout_nil, .inr ⟨hempty, ?_⟩, ?_⟩
  · intro history pipeline event hother hkeeps hattentive
    have hpending := pending_after hother hkeeps
    obtain ⟨hdecoded, -⟩ := keeps_of_ne_move pipeline hother
    refine ⟨hattentive.attends, ?_, ?_⟩
    · have hexception : (pipeline.after event).core.exception = pipeline.core.exception :=
        congrArg (fun pending => pending.1) hpending
      rw [hdecoded, hexception]
      exact hattentive.exception
    · intro executed hexecuted hcasts
      exact (congrArg (fun pending => pending.2.2) hpending).trans
        (hattentive.shadow executed hexecuted hcasts)
  · intro action haction
    cases haction
  · intro executed hexecuted
    cases hexecuted

end Pipeline

namespace X86

/-! ## Arbitration -/

open Pipeline

/-- A boundary enters a handler exactly if a source asks and is heard.  It is the
    handler of the source that goes first, and that source alone is taken: FLAGS, CS
    and IP are saved, the unit goes on where the vector says with IF and TF clear,
    and every other source asks as before.  The controller of the line acknowledges
    once if the line is taken and otherwise never, and the account kept of that
    changes nothing; so in every run, whatever happens between moves, it acknowledges
    only with IF set and never before the instruction after STI, MOV SS or POP SS,
    and no instruction is executed while an exception is pending. -/
theorem interrupts_arbitrated {δ γ : Type} [InterruptController γ] :
    (∀ (machine : Machine δ) (inputs : InterruptInputs γ),
        ((machine.serviceInterrupts inputs).entered = true
            ↔ ∃ source : Source, source.Eligible machine.unit inputs)
          ∧ ((∃ source : Source, source.Eligible machine.unit inputs) →
              ∃ source : Source, source.First machine.unit inputs)
          ∧ (∀ source : Source, source.First machine.unit inputs →
              machine.Takes inputs source (machine.serviceInterrupts inputs))
          ∧ ((∀ source : Source, ¬ source.Eligible machine.unit inputs) →
              machine.serviceInterrupts inputs = ⟨machine.unit, machine.bus, inputs, false⟩
                ∧ machine.acknowledgements inputs = [])
          ∧ (machine.serviceInterrupts inputs.watched).unwatched
            = machine.serviceInterrupts inputs)
      ∧ ∀ [PortDevice δ] (architecture : Architecture Instruction) (core : ExecutionUnit)
          (memory : Memory) (ports : PortMap δ)
          (history : List (Action ExecutionUnit Instruction δ γ))
          (pipeline : Pipeline ExecutionUnit Instruction δ γ),
          Recorded KeepsPending (.of architecture core memory ports) history pipeline →
          Throughout Attends history := by
  constructor
  · intro machine inputs
    have harbitrates := machine.serviceInterrupts_arbitrates inputs
    refine ⟨⟨fun hentered => ?_, fun heligible => ?_⟩, fun heligible => ?_, fun source hfirst => ?_,
      fun hnone => ?_, machine.unwatched_serviceInterrupts inputs⟩
    · obtain ⟨source, hfirst, -⟩ | ⟨-, hserved⟩ := harbitrates
      · exact ⟨source, hfirst.1⟩
      · rw [hserved] at hentered
        cases hentered
    · obtain ⟨first, -, hserved⟩ | ⟨hnone, -⟩ := harbitrates
      · rw [hserved]
        rfl
      · exact absurd heligible (not_exists.mpr hnone)
    · obtain ⟨first, hfirst, -⟩ | ⟨hnone, -⟩ := harbitrates
      · exact ⟨first, hfirst⟩
      · exact absurd heligible (not_exists.mpr hnone)
    · exact Machine.serviceInterrupts_takes hfirst
    · exact ⟨Machine.serviceInterrupts_of_not_eligible hnone,
        Machine.acknowledgements_of_not_eligible hnone⟩
  · intro _ architecture core memory ports history pipeline hrun
    exact (hrun.attentive (orderly_of architecture core memory ports) rfl).attends

/-- An 8086 that every source asks for a handler, that of the divide error at
    F000:1234. -/
def pressedMachine : Machine Terminal.Console where
  unit := { ExecutionUnit.initial with exception := some Vector.divideError, trapPending := true }
  bus := .of ⟨#[0x34, 0x12, 0x00, 0xF0], none⟩ .empty 6 2

/-- The requests from outside. -/
def pressingInputs : InterruptInputs InterruptLine :=
  ⟨some ⟨some 0x20⟩, true⟩

/-- An 8086 at the start of a program that sets IF. -/
def enablingStart : Pipeline ExecutionUnit Instruction Terminal.Console InterruptLine :=
  .of realMode .initial ⟨#[0xFB, 0x90, 0x90], none⟩ .empty

/-- A request comes, and then moves are made; the newest event comes first. -/
def enablingEvents (moves : Nat) : List (Event ExecutionUnit Terminal.Console InterruptLine) :=
  List.replicate moves .move ++ [.setController (some ⟨some 0x20⟩)]

/-- Of all that ask, the divide error is taken, and the others keep asking.  A
    request passes two boundaries, the one before STI and the one after, and is
    acknowledged at the third. -/
theorem interrupts_arbitrated_pressing :
    (pressedMachine.serviceInterrupts pressingInputs).core.place = ⟨0xF000, 0x1234⟩
      ∧ pressedMachine.acknowledgements pressingInputs = []
      ∧ (∀ source ∈ [Source.trap, .nmi, .line 0x20], source.Latched
          (pressedMachine.serviceInterrupts pressingInputs).core
          (pressedMachine.serviceInterrupts pressingInputs).inputs)
      ∧ Throughout Attends (enablingStart.replay (enablingEvents 3)).1
      ∧ (enablingStart.replay (enablingEvents 2)).2.interrupts.requestPending = true
      ∧ (enablingStart.replay (enablingEvents 3)).2.interrupts.requestPending = false := by
  have hfirst : Source.First pressedMachine.unit pressingInputs
      (.exception Vector.divideError) :=
    ⟨⟨rfl, trivial⟩, fun _ _ => Nat.zero_le _⟩
  obtain ⟨-, -, htakes, -⟩ := interrupts_arbitrated.1 pressedMachine pressingInputs
  have htaken := htakes _ hfirst
  refine ⟨?_, htaken.acknowledged, ?_, ?_, by decide +kernel, by decide +kernel⟩
  · refine congrArg₂ MemoryLocator.mk (htaken.handler.cs.trans ?_) (htaken.handler.ip.trans ?_)
    · decide +kernel
    · decide +kernel
  · intro source hsource
    simp only [List.mem_cons, List.not_mem_nil, or_false] at hsource
    obtain rfl | rfl | rfl := hsource
    · exact (htaken.others .trap (by decide)).mpr rfl
    · exact (htaken.others .nmi (by decide)).mpr rfl
    · exact (htaken.others (.line 0x20) (by decide)).mpr rfl
  · have hrun : Recorded KeepsPending enablingStart
        (enablingStart.replay (enablingEvents 3)).1
        (enablingStart.replay (enablingEvents 3)).2 := by
      refine recorded_replay enablingStart fun event hevent _ => ?_
      simp only [enablingEvents, List.mem_append, List.mem_replicate, List.mem_cons,
        List.not_mem_nil, or_false] at hevent
      obtain ⟨-, rfl⟩ | rfl := hevent <;> trivial
    exact interrupts_arbitrated.2 realMode .initial _ .empty _ _ hrun

end X86

end Microprocessor
