import Microprocessor.Proofs.Pipeline.Boundary
import Microprocessor.Proofs.Pipeline.Faults
import Microprocessor.Proofs.Pipeline.Outcome

/-! # What the stage says

    The stage of a pipeline tells what it holds: it is halted with its core, and
    in a wait, or stopped in one, exactly with a decoded instruction.  What a
    move reports goes with the stage it leaves behind.

      * `Pipeline.Settled` is what the stage says, and `Pipeline.Reports` what a
        move reports;
      * `Pipeline.executeNext_settles` and `Pipeline.prepare_settles` are the two
        halves of a move, `Pipeline.tick_settles` the move;
      * `Pipeline.Settled.run` is a whole run;
      * `stages_agree` is the result for both processors. -/

namespace Microprocessor

namespace Pipeline

variable {κ ι δ γ : Type} [Core κ ι] [Decoded ι] [PortDevice δ] [InterruptController γ]

/-- The pipeline is halted exactly with its core; in a wait it holds one instruction, and
    otherwise none. -/
structure Settled (pipeline : Pipeline κ ι δ γ) : Prop where
  halted : pipeline.stage = .halted ↔ Core.isHalted pipeline.core = true
  stepWait : pipeline.stage = .stepWait ↔ pipeline.decoded.size = 1
  empty : pipeline.stage ≠ .stepWait → pipeline.decoded.isEmpty = true

/-- What a move reports goes with where it leaves a pipeline that stood at a stage and had
    counted so many instructions. -/
inductive Reports (stage : Stage) (count : UInt64) (after : Pipeline κ ι δ γ) :
    Except Fault TickOutcome → Prop
  | executed (hstage : after.stage = .fetching) (hone : after.executed = count + 1) :
      Reports stage count after (.ok .executed)
  | endOfStream (hstage : after.stage = .fetching) (hnone : after.executed = count) :
      Reports stage count after (.ok .endOfStream)
  | halted (hstage : after.stage = .halted) : Reports stage count after (.ok .halted)
  | fault (hstage : after.stage = .executing) (hempty : after.decoded.isEmpty = true)
      (hone : after.executed = count + 1) (fault : Fault) :
      Reports stage count after (.error fault)
  | stopped (hstage : after.stage = stage) (hnone : after.executed = count) :
      Reports stage count after (.ok .stopped)
  | waiting (hstage : after.stage = .stepWait) (hnone : after.executed = count) :
      Reports stage count after (.ok .waiting)

omit [Decoded ι] [PortDevice δ] [InterruptController γ] in
/-- Without a decoded instruction a pipeline is settled outside a wait. -/
theorem settled_of_isEmpty {pipeline : Pipeline κ ι δ γ} (hempty : pipeline.decoded.isEmpty = true)
    (hwait : pipeline.stage ≠ .stepWait)
    (hhalted : pipeline.stage = .halted ↔ Core.isHalted pipeline.core = true) :
    pipeline.Settled := by
  have hitems : pipeline.decoded.items = [] := List.isEmpty_iff.mp hempty
  refine ⟨hhalted, iff_of_false hwait ?_, fun _ => hempty⟩
  rw [DecodedQueue.size, hitems]
  exact Nat.zero_ne_one

omit [Decoded ι] [PortDevice δ] [InterruptController γ] in
theorem settled_of_halted {pipeline : Pipeline κ ι δ γ} (hempty : pipeline.decoded.isEmpty = true)
    (hstage : pipeline.stage = .halted) (hhalted : Core.isHalted pipeline.core = true) :
    pipeline.Settled := by
  refine settled_of_isEmpty hempty ?_ (iff_of_true hstage hhalted)
  rw [hstage]
  decide

omit [Decoded ι] [PortDevice δ] [InterruptController γ] in
theorem settled_of_running {pipeline : Pipeline κ ι δ γ} (hempty : pipeline.decoded.isEmpty = true)
    (hstage : pipeline.stage = .fetching ∨ pipeline.stage = .executing)
    (hrunning : Core.isHalted pipeline.core = false) : pipeline.Settled := by
  rw [Bool.eq_false_iff] at hrunning
  obtain hstage | hstage := hstage
  all_goals
    refine settled_of_isEmpty hempty ?_ (iff_of_false ?_ hrunning)
    all_goals
      rw [hstage]
      decide

omit [Decoded ι] [PortDevice δ] [InterruptController γ] in
/-- With a decoded instruction a pipeline is in a wait and its core not halted. -/
theorem Settled.of_held {pipeline : Pipeline κ ι δ γ} (h : pipeline.Settled)
    (hheld : pipeline.decoded.isEmpty = false) :
    pipeline.stage = .stepWait ∧ Core.isHalted pipeline.core = false := by
  have hstage : pipeline.stage = .stepWait := by
    by_cases hwait : pipeline.stage = .stepWait
    · exact hwait
    · rw [h.empty hwait] at hheld
      cases hheld
  refine ⟨hstage, Bool.eq_false_iff.mpr fun hhalted => ?_⟩
  rw [h.halted.mpr hhalted] at hstage
  cases hstage

omit [PortDevice δ] in
/-- A halted core is found so after the boundary, and nothing is decoded. -/
theorem prepare_of_isHalted {pipeline : Pipeline κ ι δ γ}
    (hempty : pipeline.decoded.isEmpty = true)
    (hhalted : Core.isHalted pipeline.serviceInterrupts.core = true) :
    pipeline.prepare
      = ({ pipeline.serviceInterrupts with stage := .halted }, some (.ok .halted)) := by
  rw [prepare, if_pos hempty, fetchNext]
  simp only [hhalted, if_true]

section Interruptible

variable [InterruptibleCore κ ι]

/-! ## The halves of a move -/

omit [PortDevice δ] in
/-- Decoding leaves a settled pipeline, or an instruction to be executed by a core that is
    not halted. -/
theorem prepare_settles {pipeline : Pipeline κ ι δ γ} (hsettled : pipeline.Settled)
    (hdepth : 0 < pipeline.decoded.depth) :
    match pipeline.prepare with
    | (after, some result) =>
      after.Settled ∧ Reports pipeline.stage pipeline.executed after result
    | (ready, none) => ready.decoded.size = 1 ∧ Core.isHalted ready.core = false := by
  have hprepared := prepare_prepared pipeline
  have hrunning : pipeline.decoded.isEmpty = true →
      pipeline.prepare.2 ≠ some (.ok .halted) →
      Core.isHalted pipeline.serviceInterrupts.core = false := by
    intro hempty hgoes
    refine Bool.eq_false_iff.mpr fun hhalted => hgoes ?_
    rw [prepare_of_isHalted hempty hhalted]
  generalize pipeline.prepare = prepared at hprepared hrunning
  cases hprepared with
  | keeps hheld =>
      obtain ⟨hstage, hhalted⟩ := hsettled.of_held hheld
      exact ⟨hsettled.stepWait.mp hstage, hhalted⟩
  | halts hempty hhalted =>
      exact ⟨settled_of_halted hempty rfl hhalted, .halted rfl⟩
  | ends hempty _ =>
      have hhalted := hrunning hempty nofun
      exact ⟨settled_of_running hempty (.inl rfl) hhalted, .endOfStream rfl rfl⟩
  | overflows _ hzero _ _ _ => exact absurd hzero (Nat.ne_of_gt hdepth)
  | decodes hempty _ _ =>
      have hhalted := hrunning hempty nofun
      exact ⟨rfl, (InterruptibleCore.isHalted_advance _ _).trans hhalted⟩

omit [InterruptController γ] in
/-- Executing the decoded instruction leaves a settled pipeline. -/
theorem executeNext_settles (ready : Pipeline κ ι δ γ) (hsize : ready.decoded.size = 1)
    (hhalted : Core.isHalted ready.core = false) (stage : Stage) :
    ready.executeNext.1.Settled
      ∧ Reports stage ready.executed ready.executeNext.1 ready.executeNext.2 := by
  have hheld : ready.decoded.isEmpty = false := by
    rw [DecodedQueue.size] at hsize
    rw [DecodedQueue.isEmpty, List.isEmpty_eq_false_iff]
    exact List.ne_nil_of_length_eq_add_one hsize
  have hempties := (executeNext_empties (Nat.le_of_eq hsize) hheld).1
  have hperformed := executeNext_performed ready
  generalize ready.executeNext = result at hperformed hempties
  cases hperformed with
  | lacks hempty _ _ =>
      rw [hheld] at hempty
      cases hempty
  | faults _ hfault =>
      -- A fault stops the instruction before it can halt the core.
      have hsame := (InterruptibleCore.isHalted_of_fault hfault).trans hhalted
      exact ⟨settled_of_running hempties (.inr rfl) hsame, .fault rfl hempties rfl _⟩
  | halts _ _ hhalts =>
      exact ⟨settled_of_halted hempties rfl hhalts, .halted rfl⟩
  | goesOn _ _ hgoes =>
      exact ⟨settled_of_running hempties (.inl rfl) hgoes, .executed rfl rfl⟩

/-! ## Moves -/

/-- A move of a settled pipeline leaves it settled, and reports where. -/
theorem tick_settles {pipeline : Pipeline κ ι δ γ} (hsettled : pipeline.Settled)
    (horderly : pipeline.Orderly) (hdepth : 0 < pipeline.decoded.depth) :
    pipeline.tick.1.Settled
      ∧ Reports pipeline.stage pipeline.executed pipeline.tick.1 pipeline.tick.2 := by
  have hmove := tick_move pipeline
  have hprepares := prepare_settles hsettled hdepth
  have hcount := executed_prepare pipeline
  generalize pipeline.tick = result at hmove
  cases hmove with
  | waits hwaiting _ =>
      obtain ⟨hstage, -⟩ := hsettled.of_held (horderly.waiting hwaiting)
      exact ⟨hsettled, .waiting hstage rfl⟩
  | leaves _ _ =>
      exact ⟨⟨hsettled.halted, hsettled.stepWait, hsettled.empty⟩, .stopped rfl rfl⟩
  | @proceeds step hwaiting _ =>
      obtain ⟨hstage, hhalted⟩ := hsettled.of_held (horderly.waiting hwaiting)
      have hsize := hsettled.stepWait.mp hstage
      exact executeNext_settles { pipeline with step } hsize hhalted pipeline.stage
  | stops _ _ => exact ⟨hsettled, .stopped rfl rfl⟩
  | idles _ _ hprepare =>
      rw [hprepare] at hprepares
      exact hprepares
  | holds _ _ hprepare _ =>
      rw [hprepare] at hprepares hcount
      obtain ⟨hsize, hhalted⟩ := hprepares
      refine ⟨⟨iff_of_false nofun (Bool.eq_false_iff.mp hhalted), iff_of_true rfl hsize, ?_⟩,
        .waiting rfl hcount⟩
      intro hwait
      exact absurd rfl hwait
  | executes _ _ hprepare _ =>
      rw [hprepare] at hprepares hcount
      obtain ⟨hsize, hhalted⟩ := hprepares
      rw [← hcount]
      exact executeNext_settles _ hsize hhalted pipeline.stage

/-- While a settled pipeline is halted and no interrupt is eligible, a move changes
    nothing. -/
theorem tick_of_isHalted {pipeline : Pipeline κ ι δ γ} (hsettled : pipeline.Settled)
    (horderly : pipeline.Orderly) (hhalted : Core.isHalted pipeline.core = true)
    (hquiet : pipeline.Quiet) : pipeline.tick.1 = pipeline := by
  have hstage := hsettled.halted.mpr hhalted
  have hempty : pipeline.decoded.isEmpty = true := by
    refine hsettled.empty ?_
    rw [hstage]
    decide
  have hsame : ({ pipeline with stage := .halted } : Pipeline κ ι δ γ) = pipeline := by
    rw [← hstage]
  have hserved := serviceInterrupts_of_quiet hquiet
  have hprepare : pipeline.prepare = (pipeline, some (.ok .halted)) := by
    have hprepares := prepare_of_isHalted hempty (hserved.symm ▸ hhalted)
    rw [hserved, hsame] at hprepares
    exact hprepares
  have hwaiting := horderly.waiting_of_isEmpty hempty
  cases hstop : pipeline.step.stop with
  | true => rw [tick_of_stop hwaiting hstop]
  | false =>
      rw [tick, hwaiting, hstop, hprepare]
      rfl

/-! ## Runs -/

/-- Nobody sets a halted core in place of a running one, or the other way round. -/
def KeepsHalt (pipeline : Pipeline κ ι δ γ) : Event κ δ γ → Prop
  | .setCore core => Core.isHalted core = Core.isHalted pipeline.core
  | _ => True

omit [InterruptibleCore κ ι] in
/-- Between moves the stage stays as it is. -/
theorem stage_after (pipeline : Pipeline κ ι δ γ) {event : Event κ δ γ} (h : event ≠ .move) :
    (pipeline.after event).stage = pipeline.stage := by
  cases event with
  | move => exact absurd rfl h
  | load base image =>
      simp only [Pipeline.after]
      split <;> rfl
  | attach range device =>
      simp only [Pipeline.after]
      split <;> rfl
  | _ => rfl

omit [InterruptibleCore κ ι] in
/-- Between moves a settled pipeline remains settled. -/
theorem Settled.after {pipeline : Pipeline κ ι δ γ} (hsettled : pipeline.Settled)
    {event : Event κ δ γ} (hmove : event ≠ .move) (hkeeps : KeepsHalt pipeline event) :
    (pipeline.after event).Settled := by
  obtain ⟨hdecoded, -⟩ := keeps_of_ne_move pipeline hmove
  have hstage := stage_after pipeline hmove
  have hhalted : Core.isHalted (pipeline.after event).core = Core.isHalted pipeline.core := by
    obtain ⟨core, rfl⟩ | hsame := pipeline.core_set_or_kept hmove
    · exact hkeeps
    · rw [hsame]
  refine ⟨?_, ?_, ?_⟩
  · rw [hstage, hhalted]
    exact hsettled.halted
  · rw [hstage, hdecoded]
    exact hsettled.stepWait
  · rw [hstage, hdecoded]
    exact hsettled.empty

/-- A run from a pipeline that has not begun, with a core that is not halted, is settled
    throughout. -/
theorem settled_of_run {architecture : Architecture ι} (hdepth : 0 < architecture.decodedDepth)
    {core : κ} (hcore : Core.isHalted core = false) {memory : Memory} {ports : PortMap δ}
    {pipeline : Pipeline κ ι δ γ}
    (hrun : Run KeepsHalt (.of architecture core memory ports) pipeline) :
    pipeline.Settled := by
  have hbegun := orderly_of (γ := γ) architecture core memory ports
  have hbuilt := built_of (γ := γ) architecture core memory ports
  induction hrun with
  | refl =>
      exact settled_of_running rfl (.inl rfl) hcore
  | event earlier event permitted ih =>
      by_cases hmove : event = .move
      · rw [hmove]
        exact (tick_settles ih (hbegun.run earlier) ((hbuilt.run hbegun earlier).depth ▸ hdepth)).1
      · exact ih.after hmove permitted

/-- What the stage says of a pipeline after a move, and what the move reports. -/
structure StagesAgree (pipeline : Pipeline κ ι δ γ) : Prop where
  settled : pipeline.tick.1.Settled
  reports : Reports pipeline.stage pipeline.executed pipeline.tick.1 pipeline.tick.2
  executions : pipeline.tick.1.executed
    = pipeline.executed + UInt64.ofNat (executions (pipeline.actions .move)).length
  halted : Core.isHalted pipeline.core = true → pipeline.Quiet → pipeline.tick.1 = pipeline

/-- Every pipeline in such a run is in agreement. -/
theorem stagesAgree_of_run {architecture : Architecture ι}
    (hdepth : 0 < architecture.decodedDepth) {core : κ} (hcore : Core.isHalted core = false)
    {memory : Memory} {ports : PortMap δ} {pipeline : Pipeline κ ι δ γ}
    (hrun : Run KeepsHalt (.of architecture core memory ports) pipeline) :
    pipeline.StagesAgree := by
  have hbegun := orderly_of (γ := γ) architecture core memory ports
  have horderly := hbegun.run hrun
  have hbuilt := (built_of architecture core memory ports).run hbegun hrun
  have hsettled := settled_of_run hdepth hcore hrun
  obtain ⟨hafter, hreports⟩ := tick_settles hsettled horderly (hbuilt.depth ▸ hdepth)
  have haccounted := (accounted_kept pipeline).stages.tick horderly
    (⟨List.append_nil _, (UInt64.add_zero _).symm, (UInt64.add_zero _).symm⟩ :
      Accounted pipeline [] pipeline)
  rw [List.append_nil] at haccounted
  exact ⟨hafter, hreports, haccounted.executed, tick_of_isHalted hsettled horderly⟩

end Interruptible

end Pipeline

open Pipeline

/-- However a pipeline is run, stopped, held, interrupted and faulted, after every move its
    stage is that of a halt exactly if the core is halted, and that of a wait exactly if an
    instruction is decoded, which is then the only one.  A move reports an execution only on
    going back to fetching, after exactly one; the end of memory only on going back, after
    none; a halt only in the stage of a halt; and a fault in that of an execution, with the
    instruction gone and counted.  While the core is halted and no interrupt is eligible,
    moves change nothing. -/
theorem stages_agree {δ γ : Type} [PortDevice δ] [InterruptController γ] :
    (∀ (architecture : Architecture X86.Instruction) (core : X86.ExecutionUnit)
      (memory : Memory) (ports : PortMap δ)
      (pipeline : Pipeline X86.ExecutionUnit X86.Instruction δ γ),
      0 < architecture.decodedDepth → Core.isHalted core = false →
        Run KeepsHalt (.of architecture core memory ports) pipeline → pipeline.StagesAgree) ∧
    (∀ (architecture : Architecture Arm.Instruction) (core : Arm.Processor)
      (memory : Memory) (ports : PortMap δ)
      (pipeline : Pipeline Arm.Processor Arm.Instruction δ γ),
      0 < architecture.decodedDepth → Core.isHalted core = false →
        Run KeepsHalt (.of architecture core memory ports) pipeline → pipeline.StagesAgree) := by
  constructor
  · intro architecture core memory ports pipeline hdepth hcore hrun
    exact stagesAgree_of_run hdepth hcore hrun
  · intro architecture core memory ports pipeline hdepth hcore hrun
    exact stagesAgree_of_run hdepth hcore hrun

/-- An 8086 at the start of a program that counts to one and halts. -/
def haltingStart : Pipeline X86.ExecutionUnit X86.Instruction Terminal.Console InterruptLine :=
  .of X86.realMode .initial ⟨#[0x40, 0xF4], none⟩ .empty

/-- The first instruction is held, and in the wait a stop is asked for; the newest event
    comes first. -/
def stoppedEvents : List (Event X86.ExecutionUnit Terminal.Console InterruptLine) :=
  [.move, .requestStop, .move, .setArmed true]

/-- Stopped in the wait, the pipeline still stands there with the instruction; two moves
    bring it to the halt, and a third changes nothing. -/
theorem stages_agree_halting :
    (haltingStart.replay stoppedEvents).2.StagesAgree
      ∧ (haltingStart.replay stoppedEvents).2.stage = .stepWait
      ∧ (haltingStart.replay [.move, .move]).2.stage = .halted
      ∧ (haltingStart.replay [.move, .move]).2.tick.1 = (haltingStart.replay [.move, .move]).2 := by
  have hagrees : ∀ events : List (Event X86.ExecutionUnit Terminal.Console InterruptLine),
      (∀ event ∈ events, ∀ pipeline :
          Pipeline X86.ExecutionUnit X86.Instruction Terminal.Console InterruptLine,
        KeepsHalt pipeline event) → (haltingStart.replay events).2.StagesAgree := by
    intro events hevents
    exact stages_agree.1 X86.realMode .initial _ .empty _ Nat.zero_lt_one rfl
      (recorded_replay haltingStart hevents).run
  have hstopped : (haltingStart.replay stoppedEvents).2.StagesAgree := by
    refine hagrees stoppedEvents fun event hevent _ => ?_
    simp only [stoppedEvents, List.mem_cons, List.not_mem_nil, or_false] at hevent
    obtain rfl | rfl | rfl | rfl := hevent <;> trivial
  have hhalting : (haltingStart.replay [.move, .move]).2.StagesAgree := by
    refine hagrees _ fun event hevent _ => ?_
    simp only [List.mem_cons, List.not_mem_nil, or_false, or_self] at hevent
    subst hevent
    trivial
  refine ⟨hstopped, by decide +kernel, by decide +kernel, hhalting.halted (by decide +kernel) ?_⟩
  intro heligible
  have hentered := InterruptibleCore.entered_of_eligible heligible
    (haltingStart.replay [.move, .move]).2.bus
  revert hentered
  decide +kernel

end Microprocessor
