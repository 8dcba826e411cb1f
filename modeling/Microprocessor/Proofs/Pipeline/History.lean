import Microprocessor.Proofs.Pipeline.Order

/-! # Histories of runs

    What a pipeline does to its core it does by three kinds of action: it lets
    the core take an interrupt, it decodes an instruction, it executes one.  A
    run is recorded as the list of its actions, the newest first, each with all
    that it was done with.

      * `Pipeline.actions` lists what an event does;
      * `Pipeline.Recorded` is a run with its history;
      * `Pipeline.Kept` is asked of a property action by action, and
        `Pipeline.Recorded.invariant` makes it hold throughout a run;
      * `Pipeline.Since`: something has lasted since an action;
      * `Pipeline.Accounted`: what is decoded is executed once and in order, and
        the counters of a pipeline are those of its history;
      * `Pipeline.Turn`: what one move can do. -/

namespace Microprocessor

namespace Pipeline

/-! ## Actions -/

/-- What a pipeline does to its core. -/
inductive Action (κ ι δ γ : Type)
  /-- An interrupt boundary: the core may take what is waiting. -/
  | serves (core : κ) (bus : Bus δ) (inputs : InterruptInputs γ)
  | decodes (address : UInt32) (instruction : ι)
  | executes (core : κ) (bus : Bus δ) (faults : FaultUnit) (address : UInt32)
      (instruction : ι)

namespace Action

variable {κ ι δ γ : Type}

/-- The instruction that an action decodes, with its address. -/
def decoded? : Action κ ι δ γ → Option (UInt32 × ι)
  | .decodes address instruction => some (address, instruction)
  | .serves .. | .executes .. => none

/-- The instruction that an action executes, with its address. -/
def executed? : Action κ ι δ γ → Option (UInt32 × ι)
  | .executes _ _ _ address instruction => some (address, instruction)
  | .serves .. | .decodes .. => none

end Action

variable {κ ι δ γ : Type} [Core κ ι] [Decoded ι] [PortDevice δ] [InterruptController γ]

/-- What is done to see to it that an instruction is decoded, the newest
    first. -/
def preparation (pipeline : Pipeline κ ι δ γ) : List (Action κ ι δ γ) :=
  if pipeline.decoded.isEmpty then
    let decoding := match pipeline.prepare with
      | (prepared, none) => prepared.decoded.items.map fun (address, instruction) =>
        .decodes address instruction
      | (_, some _) => []
    decoding ++ [.serves pipeline.core pipeline.bus pipeline.interrupts]
  else []

omit [PortDevice δ] in
/-- Where an instruction is held, there is nothing to see to. -/
theorem preparation_of_held {pipeline : Pipeline κ ι δ γ}
    (hheld : pipeline.decoded.isEmpty = false) : pipeline.preparation = [] := by
  rw [preparation, hheld]
  rfl

/-- What is done to execute the oldest decoded instruction. -/
def execution (ready : Pipeline κ ι δ γ) : List (Action κ ι δ γ) :=
  match ready.decoded.pop with
  | .ok ((address, instruction), _) =>
    [.executes ready.core ready.bus ready.faults address instruction]
  | .error _ => []

/-- What an event does, the newest first. -/
def actions (pipeline : Pipeline κ ι δ γ) : Event κ δ γ → List (Action κ ι δ γ)
  | .move =>
    let executing := match pipeline.readied? with
      | some ready => ready.execution
      | none => []
    let preparing :=
      if pipeline.step.waiting || pipeline.step.stop then [] else pipeline.preparation
    executing ++ preparing
  | _ => []

/-- A run from `start`, of events that are allowed where they happen, with all
    that was done in it, the newest first. -/
inductive Recorded (allowed : Pipeline κ ι δ γ → Event κ δ γ → Prop) (start : Pipeline κ ι δ γ) :
    List (Action κ ι δ γ) → Pipeline κ ι δ γ → Prop
  | refl : Recorded allowed start [] start
  | event {history : List (Action κ ι δ γ)} {pipeline : Pipeline κ ι δ γ}
      (earlier : Recorded allowed start history pipeline) (event : Event κ δ γ)
      (permitted : allowed pipeline event) :
      Recorded allowed start (pipeline.actions event ++ history) (pipeline.after event)

/-- A recorded run is a run. -/
theorem Recorded.run {allowed : Pipeline κ ι δ γ → Event κ δ γ → Prop}
    {start pipeline : Pipeline κ ι δ γ} {history : List (Action κ ι δ γ)}
    (h : Recorded allowed start history pipeline) : Run allowed start pipeline := by
  induction h with
  | refl => exact .refl
  | event _ event permitted ih => exact .event ih event permitted

/-- Every run can be recorded. -/
theorem Run.recorded {allowed : Pipeline κ ι δ γ → Event κ δ γ → Prop}
    {start pipeline : Pipeline κ ι δ γ} (h : Run allowed start pipeline) :
    ∃ history, Recorded allowed start history pipeline := by
  induction h with
  | refl => exact ⟨[], .refl⟩
  | event _ event permitted ih =>
      obtain ⟨history, hrecorded⟩ := ih
      exact ⟨_, hrecorded.event event permitted⟩

/-- All that is done in some events and where they lead, both the newest
    first. -/
def replay (start : Pipeline κ ι δ γ) :
    List (Event κ δ γ) → List (Action κ ι δ γ) × Pipeline κ ι δ γ
  | [] => ([], start)
  | event :: earlier =>
    let (history, pipeline) := start.replay earlier
    (pipeline.actions event ++ history, pipeline.after event)

/-- Events that are allowed anywhere make a recorded run. -/
theorem recorded_replay {allowed : Pipeline κ ι δ γ → Event κ δ γ → Prop} (start : Pipeline κ ι δ γ)
    {events : List (Event κ δ γ)} (h : ∀ event ∈ events, ∀ pipeline, allowed pipeline event) :
    Recorded allowed start (start.replay events).1 (start.replay events).2 := by
  induction events with
  | nil => exact .refl
  | cons event earlier ih =>
      have hearlier := ih fun event hmem => h event (List.mem_cons_of_mem _ hmem)
      exact hearlier.event event (h event List.mem_cons_self _)

/-! ## What the stages of a move do -/

/-- What has been done to see to it that an instruction is decoded, by what it
    has come to. -/
inductive Preparing (pipeline : Pipeline κ ι δ γ) :
    List (Action κ ι δ γ) → Pipeline κ ι δ γ × Option (Except Fault TickOutcome) → Prop
  /-- Nothing: an instruction had been decoded before. -/
  | keeps (hheld : pipeline.decoded.isEmpty = false) : Preparing pipeline [] (pipeline, none)
  /-- A boundary, and nothing is decoded. -/
  | serves (hempty : pipeline.decoded.isEmpty = true) (bus : Bus δ) (faults : FaultUnit)
      (stage : Stage) (result : Except Fault TickOutcome) :
      Preparing pipeline [.serves pipeline.core pipeline.bus pipeline.interrupts]
        ({ pipeline.serviceInterrupts with bus, faults, stage }, some result)
  /-- A boundary, and an instruction is decoded. -/
  | decodes (hempty : pipeline.decoded.isEmpty = true) (bus : Bus δ) (source : ByteSource)
      (instruction : ι) (hdecode : pipeline.architecture.decode source 0 = .ok instruction) :
      Preparing pipeline
        [.decodes pipeline.serviceInterrupts.fetchAddress instruction,
          .serves pipeline.core pipeline.bus pipeline.interrupts]
        ({ pipeline.serviceInterrupts with
            stage := .decoding
            decoded :=
              { pipeline.decoded with
                items := [(pipeline.serviceInterrupts.fetchAddress, instruction)] }
            bus
            core := Core.advance pipeline.serviceInterrupts.core (Decoded.length instruction) },
          none)

omit [PortDevice δ] in
theorem prepare_preparing (pipeline : Pipeline κ ι δ γ) :
    Preparing pipeline pipeline.preparation pipeline.prepare := by
  have hprepared := prepare_prepared pipeline
  have hpreparation : pipeline.decoded.isEmpty = true →
      pipeline.preparation
        = (match pipeline.prepare with
          | (prepared, none) => prepared.decoded.items.map fun (address, instruction) =>
            .decodes address instruction
          | (_, some _) => [])
            ++ [Action.serves pipeline.core pipeline.bus pipeline.interrupts] := by
    intro hempty
    rw [preparation, if_pos hempty]
  generalize pipeline.prepare = prepared at hprepared hpreparation
  cases hprepared with
  | keeps hheld =>
      rw [preparation_of_held hheld]
      exact .keeps hheld
  | halts hempty _ =>
      rw [hpreparation hempty]
      exact .serves hempty _ _ _ _
  | ends hempty bus =>
      rw [hpreparation hempty]
      exact .serves hempty _ _ _ _
  | overflows hempty _ bus faults fault =>
      rw [hpreparation hempty]
      exact .serves hempty _ _ _ _
  | decodes hempty bus hdecode =>
      rw [hpreparation hempty]
      exact .decodes hempty _ _ _ hdecode

omit [InterruptController γ] in
/-- Executing the one instruction decoded ahead is one action. -/
theorem execution_of_items {ready : Pipeline κ ι δ γ} {address : UInt32} {instruction : ι}
    (hitems : ready.decoded.items = [(address, instruction)]) :
    ready.execution = [.executes ready.core ready.bus ready.faults address instruction]
      ∧ ∃ stage, ready.executeNext.1
        = { (execute { ready with decoded := { ready.decoded with items := [] } } address
              instruction).1 with stage } := by
  have hpop : ready.decoded.pop
      = .ok ((address, instruction), { ready.decoded with items := [] }) := by
    rw [DecodedQueue.pop, hitems]
  refine ⟨?_, executeNext_of_pop hpop⟩
  rw [execution, hpop]

/-- What a move does, the newest first, and where that leaves the pipeline. -/
inductive Doing (pipeline : Pipeline κ ι δ γ) : List (Action κ ι δ γ) → Pipeline κ ι δ γ → Prop
  | nothing (step : StepControl) : Doing pipeline [] { pipeline with step }
  /-- The instruction that has been waited with is executed. -/
  | finishes (hwaiting : pipeline.step.waiting = true) (step : StepControl) :
      Doing pipeline (execution { pipeline with step }) (executeNext { pipeline with step }).1
  | prepares (hwaiting : pipeline.step.waiting = false) (step : StepControl) (stage : Stage) :
      Doing pipeline pipeline.preparation { pipeline.prepare.1 with step, stage }
  | executes (hwaiting : pipeline.step.waiting = false) (hprepare : pipeline.prepare.2 = none) :
      Doing pipeline (pipeline.prepare.1.execution ++ pipeline.preparation)
        pipeline.prepare.1.executeNext.1

/-- Every move does one of these. -/
theorem tick_doing (pipeline : Pipeline κ ι δ γ) :
    Doing pipeline (pipeline.actions .move) pipeline.tick.1 := by
  have hmove := tick_move pipeline
  rw [actions, readied?]
  generalize pipeline.tick = result at hmove
  cases hmove with
  | waits hwaiting hsettle =>
      simp only [hwaiting, hsettle]
      exact .nothing pipeline.step
  | @leaves step hwaiting hsettle =>
      simp only [hwaiting, hsettle]
      exact .nothing step
  | @proceeds step hwaiting hsettle =>
      simp only [hwaiting, hsettle, Bool.true_or, if_true, List.append_nil]
      exact .finishes hwaiting step
  | stops hwaiting hstop =>
      simp only [hwaiting, hstop]
      exact .nothing pipeline.step
  | @idles prepared result hwaiting hstop hprepare =>
      have hdoing := Doing.prepares hwaiting pipeline.prepare.1.step pipeline.prepare.1.stage
      simp only [hwaiting, hstop, hprepare] at hdoing ⊢
      exact hdoing
  | @holds prepared hwaiting hstop hprepare harmed =>
      have hdoing := Doing.prepares hwaiting pipeline.prepare.1.step.beginWait .stepWait
      simp only [hwaiting, hstop, hprepare, harmed] at hdoing ⊢
      exact hdoing
  | executes hwaiting hstop hprepare harmed =>
      have hdoing := Doing.executes hwaiting (congrArg Prod.snd hprepare)
      simp only [hwaiting, hstop, hprepare, harmed] at hdoing ⊢
      exact hdoing

/-! ## Induction on histories -/

/-- A property of a history and the pipeline it leads to that survives the
    stages of a move. -/
structure KeptByStages (holds : List (Action κ ι δ γ) → Pipeline κ ι δ γ → Prop) : Prop where
  control : ∀ {history pipeline} (step : StepControl) (stage : Stage),
    holds history pipeline → holds history { pipeline with step, stage }
  prepare : ∀ {history pipeline}, holds history pipeline →
    holds (pipeline.preparation ++ history) pipeline.prepare.1
  executeNext : ∀ {history ready}, ready.decoded.size ≤ 1 → ready.decoded.isEmpty = false →
    holds history ready → holds (ready.execution ++ history) ready.executeNext.1

/-- A property of a history and the pipeline it leads to that survives every
    action, whatever else becomes of the bus and of the recorded faults. -/
structure Kept (holds : List (Action κ ι δ γ) → Pipeline κ ι δ γ → Prop) : Prop where
  control : ∀ {history pipeline} (step : StepControl) (stage : Stage),
    holds history pipeline → holds history { pipeline with step, stage }
  serves : ∀ {history pipeline} (bus : Bus δ) (faults : FaultUnit),
    pipeline.decoded.isEmpty = true → holds history pipeline →
    holds (.serves pipeline.core pipeline.bus pipeline.interrupts :: history)
      { pipeline.serviceInterrupts with bus, faults }
  /-- Nothing is decoded but after a boundary. -/
  decodes : ∀ {history served core before inputs} (bus : Bus δ) (source : ByteSource)
    (instruction : ι), served.decoded.isEmpty = true →
    served.architecture.decode source 0 = .ok instruction →
    holds (.serves core before inputs :: history) served →
    holds (.decodes served.fetchAddress instruction :: .serves core before inputs :: history)
      { served with
        decoded := { served.decoded with items := [(served.fetchAddress, instruction)] }
        bus
        core := Core.advance served.core (Decoded.length instruction) }
  executes : ∀ {history ready} {address : UInt32} {instruction : ι},
    ready.decoded.items = [(address, instruction)] → holds history ready →
    holds (.executes ready.core ready.bus ready.faults address instruction :: history)
      (execute { ready with decoded := { ready.decoded with items := [] } } address
        instruction).1

/-- What survives every action survives the stages of a move. -/
theorem Kept.stages {holds : List (Action κ ι δ γ) → Pipeline κ ι δ γ → Prop}
    (hkept : Kept holds) : KeptByStages holds where
  control := hkept.control
  prepare := by
    intro history pipeline h
    have hpreparing := prepare_preparing pipeline
    generalize pipeline.prepare = prepared at hpreparing ⊢
    generalize pipeline.preparation = actions at hpreparing ⊢
    cases hpreparing with
    | keeps _ => exact h
    | serves hempty bus faults stage result =>
        exact hkept.control _ stage (hkept.serves bus faults hempty h)
    | decodes hempty bus source instruction hdecode =>
        have hserved : holds (_ :: history) pipeline.serviceInterrupts :=
          hkept.serves pipeline.serviceInterrupts.bus pipeline.faults hempty h
        refine hkept.control _ .decoding (hkept.decodes bus source instruction ?_ ?_ hserved)
        · exact hempty
        · exact hdecode
  executeNext := by
    intro history ready hsize hheld h
    obtain ⟨address, instruction, hitems, -⟩ := Orderly.pop hsize hheld
    obtain ⟨hexecution, stage, hexecute⟩ := execution_of_items hitems
    rw [hexecution, hexecute]
    exact hkept.control _ stage (hkept.executes hitems h)

/-- What survives the stages of a move survives the move. -/
theorem KeptByStages.tick {holds : List (Action κ ι δ γ) → Pipeline κ ι δ γ → Prop}
    (hkept : KeptByStages holds) {history : List (Action κ ι δ γ)} {pipeline : Pipeline κ ι δ γ}
    (horderly : pipeline.Orderly) (h : holds history pipeline) :
    holds (pipeline.actions .move ++ history) pipeline.tick.1 := by
  have hdoing := tick_doing pipeline
  generalize pipeline.actions .move = actions at hdoing ⊢
  generalize pipeline.tick.1 = after at hdoing ⊢
  cases hdoing with
  | nothing step => exact hkept.control step pipeline.stage h
  | finishes hwaiting step =>
      have hready : holds history { pipeline with step } :=
        hkept.control step pipeline.stage h
      refine hkept.executeNext ?_ ?_ hready
      · exact horderly.size_le
      · exact horderly.waiting hwaiting
  | prepares _ step stage => exact hkept.control step stage (hkept.prepare h)
  | executes hwaiting hprepare =>
      rw [List.append_assoc]
      exact hkept.executeNext (horderly.prepare hwaiting).size_le
        (isEmpty_of_prepare (Prod.ext rfl hprepare)) (hkept.prepare h)

/-- What survives the stages of a move and every other event that is allowed
    holds throughout a run. -/
theorem Recorded.invariant {holds : List (Action κ ι δ γ) → Pipeline κ ι δ γ → Prop}
    (hkept : KeptByStages holds) {allowed : Pipeline κ ι δ γ → Event κ δ γ → Prop}
    (hother : ∀ {history pipeline} (event : Event κ δ γ), event ≠ .move →
      allowed pipeline event → holds history pipeline → holds history (pipeline.after event))
    {start pipeline : Pipeline κ ι δ γ} {history : List (Action κ ι δ γ)}
    (horderly : start.Orderly) (hstart : holds [] start)
    (h : Recorded allowed start history pipeline) : holds history pipeline := by
  induction h with
  | refl => exact hstart
  | event earlier event permitted ih =>
      cases event with
      | move => exact hkept.tick (horderly.run earlier.run) ih
      | _ => exact hother _ (fun hmove => by cases hmove) permitted ih

/-! ## What holds of every action -/

/-- Every action is done as is asked of it in view of what had been done
    before. -/
def Throughout (asked : List (Action κ ι δ γ) → Action κ ι δ γ → Prop)
    (history : List (Action κ ι δ γ)) : Prop :=
  ∀ newer action older, history = newer ++ action :: older → asked older action

omit [Core κ ι] [Decoded ι] [PortDevice δ] [InterruptController γ] in
/-- Of no actions nothing is asked. -/
theorem throughout_nil {asked : List (Action κ ι δ γ) → Action κ ι δ γ → Prop} :
    Throughout asked [] := by
  intro newer action older h
  exact absurd h.symm (List.append_ne_nil_of_right_ne_nil _ (List.cons_ne_nil _ _))

omit [Core κ ι] [Decoded ι] [PortDevice δ] [InterruptController γ] in
/-- One more action has to be as asked. -/
theorem throughout_cons {asked : List (Action κ ι δ γ) → Action κ ι δ γ → Prop}
    {action : Action κ ι δ γ} {history : List (Action κ ι δ γ)} :
    Throughout asked (action :: history) ↔ asked history action ∧ Throughout asked history := by
  constructor
  · intro h
    refine ⟨h [] action history rfl, fun newer earlier older hhistory => ?_⟩
    exact h (action :: newer) earlier older (congrArg (List.cons action) hhistory)
  · rintro ⟨haction, hhistory⟩ newer earlier older h
    cases newer with
    | nil =>
        cases h
        exact haction
    | cons newest newer =>
        cases h
        exact hhistory newer earlier older rfl

/-! ## What has lasted -/

/-- Some action was as `begins` says, and every newer one as `lasts` says. -/
def Since (begins lasts : Action κ ι δ γ → Prop) (history : List (Action κ ι δ γ)) : Prop :=
  ∃ newer action older, history = newer ++ action :: older ∧ begins action
    ∧ ∀ later ∈ newer, lasts later

omit [Core κ ι] [Decoded ι] [PortDevice δ] [InterruptController γ] in
/-- Of no actions none has begun anything. -/
theorem not_since_nil {begins lasts : Action κ ι δ γ → Prop} : ¬ Since begins lasts [] := by
  rintro ⟨newer, action, older, h, -⟩
  exact absurd h.symm (List.append_ne_nil_of_right_ne_nil _ (List.cons_ne_nil _ _))

omit [Core κ ι] [Decoded ι] [PortDevice δ] [InterruptController γ] in
/-- What lasts has begun with the newest action, or had begun and lasts on. -/
theorem since_cons {begins lasts : Action κ ι δ γ → Prop} {action : Action κ ι δ γ}
    {history : List (Action κ ι δ γ)} :
    Since begins lasts (action :: history)
      ↔ begins action ∨ lasts action ∧ Since begins lasts history := by
  constructor
  · rintro ⟨newer, begun, older, h, hbegins, hlasts⟩
    cases newer with
    | nil =>
        cases h
        exact .inl hbegins
    | cons newest newer =>
        cases h
        obtain ⟨hnewest, hnewer⟩ := List.forall_mem_cons.mp hlasts
        exact .inr ⟨hnewest, newer, begun, older, rfl, hbegins, hnewer⟩
  · rintro (hbegins | ⟨hlasts, newer, begun, older, rfl, hbegins, hnewer⟩)
    · exact ⟨[], action, history, rfl, hbegins, fun _ h => by cases h⟩
    · exact ⟨action :: newer, begun, older, rfl, hbegins,
        List.forall_mem_cons.mpr ⟨hlasts, hnewer⟩⟩

/-! ## Accounts -/

/-- What has been executed, with its addresses, the newest first. -/
def executions (history : List (Action κ ι δ γ)) : List (UInt32 × ι) :=
  history.filterMap Action.executed?

/-- What has been decoded, with its addresses, the newest first. -/
def decodings (history : List (Action κ ι δ γ)) : List (UInt32 × ι) :=
  history.filterMap Action.decoded?

/-- The sum of the clocks of instructions. -/
def totalClocks : List (UInt32 × ι) → Nat
  | [] => 0
  | (_, instruction) :: rest => Decoded.clocks instruction + totalClocks rest

/-- A pipeline has kept account of all that was done since `start`. -/
structure Accounted (start : Pipeline κ ι δ γ) (history : List (Action κ ι δ γ))
    (pipeline : Pipeline κ ι δ γ) : Prop where
  /-- What has been decoded has been executed, in the same order, or waits. -/
  decoded : pipeline.decoded.items ++ executions history
    = decodings history ++ start.decoded.items
  /-- The counters go on from nought when they overflow. -/
  executed : pipeline.executed = start.executed + UInt64.ofNat (executions history).length
  cycles : pipeline.clock.cycles
    = start.clock.cycles + UInt64.ofNat (totalClocks (executions history))

/-- Cycles are counted, whether or not the time they take can be. -/
theorem cycles_consumeCycles (clock : Clock) (cycles : UInt64) :
    (clock.consumeCycles cycles).1.cycles = clock.cycles + cycles := by
  rw [Clock.consumeCycles]
  split
  · rw [Clock.consume]
    split <;> rfl
  · rfl

/-- Every action is accounted for. -/
theorem accounted_kept (start : Pipeline κ ι δ γ) : Kept (Accounted start) where
  control := fun _ _ h => ⟨h.decoded, h.executed, h.cycles⟩
  serves := fun _ _ _ h => ⟨h.decoded, h.executed, h.cycles⟩
  decodes := by
    intro history served core before inputs bus source instruction hempty hdecode h
    have hitems : served.decoded.items = [] := List.isEmpty_iff.mp hempty
    have hdecoded := h.decoded
    rw [hitems] at hdecoded
    exact ⟨congrArg (List.cons _) hdecoded, h.executed, h.cycles⟩
  executes := by
    intro history ready address instruction hitems h
    have hdecoded := h.decoded
    rw [hitems] at hdecoded
    refine ⟨hdecoded, ?_, ?_⟩
    · show ready.executed + 1
        = start.executed + UInt64.ofNat ((executions history).length + 1)
      rw [h.executed, UInt64.ofNat_add, UInt64.add_assoc]
      rfl
    · show (ready.clock.consumeCycles _).1.cycles = start.clock.cycles
        + UInt64.ofNat (Decoded.clocks instruction + totalClocks (executions history))
      rw [cycles_consumeCycles, h.cycles, UInt64.ofNat_add, UInt64.add_assoc,
        UInt64.add_comm (UInt64.ofNat (totalClocks _))]

/-- Every run of a pipeline that begins orderly is accounted for. -/
theorem Recorded.accounted {allowed : Pipeline κ ι δ γ → Event κ δ γ → Prop}
    {start pipeline : Pipeline κ ι δ γ} {history : List (Action κ ι δ γ)} (horderly : start.Orderly)
    (h : Recorded allowed start history pipeline) : Accounted start history pipeline := by
  refine h.invariant (accounted_kept start).stages ?_ horderly ⟨?_, ?_, ?_⟩
  · intro history pipeline event hother _ haccounted
    obtain ⟨hdecoded, -, hexecuted, hclock⟩ := keeps_of_ne_move pipeline hother
    refine ⟨?_, ?_, ?_⟩
    · rw [hdecoded]
      exact haccounted.decoded
    · rw [hexecuted]
      exact haccounted.executed
    · rw [hclock]
      exact haccounted.cycles
  · exact List.append_nil _
  · exact (UInt64.add_zero _).symm
  · exact (UInt64.add_zero _).symm

/-! ## One move -/

/-- What a move does, the newest first: at most one interrupt boundary, and only
    if no instruction waits; a decoding only after it; at most one execution. -/
inductive Turn (pipeline : Pipeline κ ι δ γ) : List (Action κ ι δ γ) → Prop
  | nothing : Turn pipeline []
  /-- The instruction that waits is executed, with no boundary before it. -/
  | finishes (hheld : pipeline.decoded.isEmpty = false) (core : κ) (bus : Bus δ)
      (faults : FaultUnit) (address : UInt32) (instruction : ι) :
      Turn pipeline [.executes core bus faults address instruction]
  | serves (hempty : pipeline.decoded.isEmpty = true) :
      Turn pipeline [.serves pipeline.core pipeline.bus pipeline.interrupts]
  | decodes (hempty : pipeline.decoded.isEmpty = true) (address : UInt32) (instruction : ι) :
      Turn pipeline
        [.decodes address instruction,
          .serves pipeline.core pipeline.bus pipeline.interrupts]
  | executes (hempty : pipeline.decoded.isEmpty = true) (core : κ) (bus : Bus δ)
      (faults : FaultUnit) (address : UInt32) (instruction : ι) :
      Turn pipeline
        [.executes core bus faults address instruction, .decodes address instruction,
          .serves pipeline.core pipeline.bus pipeline.interrupts]

/-- Every move of an orderly pipeline is such a turn. -/
theorem turn {pipeline : Pipeline κ ι δ γ} (horderly : pipeline.Orderly) :
    Turn pipeline (pipeline.actions .move) := by
  have hdoing := tick_doing pipeline
  generalize pipeline.actions .move = actions at hdoing ⊢
  generalize pipeline.tick.1 = after at hdoing
  have hpreparing := prepare_preparing pipeline
  cases hdoing with
  | nothing step => exact .nothing
  | finishes hwaiting step =>
      have hheld := horderly.waiting hwaiting
      obtain ⟨address, instruction, hitems, -⟩ := Orderly.pop horderly.size_le hheld
      have hexecution : execution { pipeline with step } = [_] := (execution_of_items hitems).1
      rw [hexecution]
      exact .finishes hheld _ _ _ _ _
  | prepares _ _ _ =>
      generalize pipeline.preparation = done at hpreparing ⊢
      generalize pipeline.prepare = prepared at hpreparing
      cases hpreparing with
      | keeps _ => exact .nothing
      | serves hempty _ _ _ _ => exact .serves hempty
      | decodes hempty _ _ _ _ => exact .decodes hempty _ _
  | executes hwaiting hprepare =>
      generalize pipeline.preparation = done at hpreparing ⊢
      generalize pipeline.prepare = prepared at hpreparing hprepare ⊢
      cases hpreparing with
      | keeps hheld =>
          obtain ⟨address, instruction, hitems, -⟩ := Orderly.pop horderly.size_le hheld
          rw [(execution_of_items hitems).1]
          exact .finishes hheld _ _ _ _ _
      | serves _ _ _ _ _ => cases hprepare
      | decodes hempty _ _ _ _ => exact .executes hempty _ _ _ _ _

end Pipeline

end Microprocessor
