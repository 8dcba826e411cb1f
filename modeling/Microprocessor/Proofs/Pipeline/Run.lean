import Microprocessor.Pipeline.Event
import Microprocessor.Proofs.Storage.Access

/-! # Runs of the pipeline

    A pipeline makes moves, and between them its surroundings act on it.

      * `Pipeline.Run` is a run whose every event is allowed where it happens;
        `Pipeline.Run.invariant` is the induction on runs;
      * `Pipeline.tick_move` says once what a move can be. -/

namespace Microprocessor

/-- Cores that touch the bus by accesses alone. -/
class AccessingCore (κ ι : Type) [Core κ ι] : Prop where
  execute_accessed : ∀ {δ : Type} [PortDevice δ] (core : κ) (instruction : ι) (address : UInt32)
    (bus : Bus δ) (faults : FaultUnit),
    bus.Accessed (Core.execute core instruction address bus faults).bus
  serviceInterrupts_accessed : ∀ {δ γ : Type} [InterruptController γ] (core : κ) (bus : Bus δ)
    (inputs : InterruptInputs γ), bus.Accessed (Core.serviceInterrupts core bus inputs).bus

namespace Pipeline

variable {κ ι δ γ : Type} [Core κ ι] [Decoded ι] [PortDevice δ] [InterruptController γ]

/-! ## Runs -/

/-- A run from `start`, of events that are allowed where they happen. -/
inductive Run (allowed : Pipeline κ ι δ γ → Event κ δ γ → Prop) (start : Pipeline κ ι δ γ) :
    Pipeline κ ι δ γ → Prop
  | refl : Run allowed start start
  | event {pipeline : Pipeline κ ι δ γ} (earlier : Run allowed start pipeline) (event : Event κ δ γ)
      (permitted : allowed pipeline event) : Run allowed start (pipeline.after event)

/-- What holds at the start and survives every allowed event holds throughout
    a run. -/
theorem Run.invariant {allowed : Pipeline κ ι δ γ → Event κ δ γ → Prop} {start : Pipeline κ ι δ γ}
    {holds : Pipeline κ ι δ γ → Prop} (hstart : holds start)
    (hevent : ∀ pipeline event, allowed pipeline event → holds pipeline →
      holds (pipeline.after event))
    {pipeline : Pipeline κ ι δ γ} (hrun : Run allowed start pipeline) : holds pipeline := by
  induction hrun with
  | refl => exact hstart
  | event _ event permitted ih => exact hevent _ event permitted ih

/-- What is allowed of a run may be more. -/
theorem Run.mono {allowed permitted : Pipeline κ ι δ γ → Event κ δ γ → Prop}
    (h : ∀ pipeline event, allowed pipeline event → permitted pipeline event)
    {start pipeline : Pipeline κ ι δ γ} (hrun : Run allowed start pipeline) :
    Run permitted start pipeline :=
  hrun.invariant .refl fun pipeline event hallowed hearlier =>
    hearlier.event event (h pipeline event hallowed)

/-! ## What a move can be -/

/-- The ways a move can go, with what it leaves behind. -/
inductive Move (pipeline : Pipeline κ ι δ γ) :
    Pipeline κ ι δ γ × Except Fault TickOutcome → Prop
  /-- It waits on. -/
  | waits (hwaiting : pipeline.step.waiting = true) (hsettle : pipeline.step.settle = none) :
      Move pipeline (pipeline, .ok .waiting)
  /-- It stops waiting because it has been asked to stop. -/
  | leaves {step : StepControl} (hwaiting : pipeline.step.waiting = true)
      (hsettle : pipeline.step.settle = some (.stopped, step)) :
      Move pipeline ({ pipeline with step }, .ok .stopped)
  /-- It stops waiting and executes the held instruction. -/
  | proceeds {step : StepControl} (hwaiting : pipeline.step.waiting = true)
      (hsettle : pipeline.step.settle = some (.resumed, step)) :
      Move pipeline (executeNext { pipeline with step })
  /-- It has been asked to stop. -/
  | stops (hwaiting : pipeline.step.waiting = false) (hstop : pipeline.step.stop = true) :
      Move pipeline (pipeline, .ok .stopped)
  /-- There is nothing to execute. -/
  | idles {prepared : Pipeline κ ι δ γ} {result : Except Fault TickOutcome}
      (hwaiting : pipeline.step.waiting = false) (hstop : pipeline.step.stop = false)
      (hprepare : pipeline.prepare = (prepared, some result)) :
      Move pipeline (prepared, result)
  /-- It begins to wait before the decoded instruction. -/
  | holds {prepared : Pipeline κ ι δ γ} (hwaiting : pipeline.step.waiting = false)
      (hstop : pipeline.step.stop = false) (hprepare : pipeline.prepare = (prepared, none))
      (harmed : prepared.step.armed = true) :
      Move pipeline prepared.beginWait
  /-- It executes the decoded instruction. -/
  | executes {prepared : Pipeline κ ι δ γ} (hwaiting : pipeline.step.waiting = false)
      (hstop : pipeline.step.stop = false) (hprepare : pipeline.prepare = (prepared, none))
      (harmed : prepared.step.armed = false) :
      Move pipeline prepared.executeNext

/-- Every move goes one of these ways. -/
theorem tick_move (pipeline : Pipeline κ ι δ γ) : Move pipeline pipeline.tick := by
  rw [tick]
  cases hwaiting : pipeline.step.waiting with
  | true =>
      rw [if_pos rfl]
      rw [endWait]
      cases hsettle : pipeline.step.settle with
      | none => exact .waits hwaiting hsettle
      | some ended =>
          obtain ⟨wake, step⟩ := ended
          cases wake with
          | resumed => exact .proceeds hwaiting hsettle
          | stopped => exact .leaves hwaiting hsettle
  | false =>
      rw [if_neg Bool.false_ne_true]
      cases hstop : pipeline.step.stop with
      | true =>
          rw [if_pos rfl]
          exact .stops hwaiting hstop
      | false =>
          rw [if_neg Bool.false_ne_true]
          cases hprepare : pipeline.prepare with
          | mk prepared result =>
              cases result with
              | some result => exact .idles hwaiting hstop hprepare
              | none =>
                  cases harmed : prepared.step.armed with
                  | true =>
                      simp only [harmed, if_true]
                      exact .holds hwaiting hstop hprepare harmed
                  | false =>
                      simp only [harmed, Bool.false_eq_true, if_false]
                      exact .executes hwaiting hstop hprepare harmed

/-- Outside a wait, a move that has been asked to stop changes nothing. -/
theorem tick_of_stop {pipeline : Pipeline κ ι δ γ} (hwaiting : pipeline.step.waiting = false)
    (hstop : pipeline.step.stop = true) : pipeline.tick = (pipeline, .ok .stopped) := by
  rw [tick, hwaiting, if_neg Bool.false_ne_true, if_pos hstop]

/-- The pipeline as it stands when its move comes to execute an instruction, if
    the move gets that far. -/
def readied? (pipeline : Pipeline κ ι δ γ) : Option (Pipeline κ ι δ γ) :=
  if pipeline.step.waiting then
    match pipeline.step.settle with
    | some (.resumed, step) => some { pipeline with step }
    | _ => none
  else if pipeline.step.stop then none
  else
    match pipeline.prepare with
    | (prepared, none) => if prepared.step.armed then none else some prepared
    | (_, some _) => none

omit [PortDevice δ] in
/-- A held instruction that may proceed is executed where the pipeline stands. -/
theorem readied?_of_settle {pipeline : Pipeline κ ι δ γ} {step : StepControl}
    (hwaiting : pipeline.step.waiting = true)
    (hsettle : pipeline.step.settle = some (.resumed, step)) :
    pipeline.readied? = some { pipeline with step } := by
  rw [readied?, if_pos hwaiting, hsettle]

omit [PortDevice δ] in
/-- A decoded instruction that need not wait is executed where decoding it left
    the pipeline. -/
theorem readied?_of_prepare {pipeline prepared : Pipeline κ ι δ γ}
    (hwaiting : pipeline.step.waiting = false) (hstop : pipeline.step.stop = false)
    (hprepare : pipeline.prepare = (prepared, none)) (harmed : prepared.step.armed = false) :
    pipeline.readied? = some prepared := by
  rw [readied?, hwaiting, hstop, hprepare]
  simp only [harmed, Bool.false_eq_true, if_false]

/-- A move that comes to execute an instruction is its execution. -/
theorem tick_of_readied? {pipeline ready : Pipeline κ ι δ γ}
    (h : pipeline.readied? = some ready) : pipeline.tick = ready.executeNext := by
  rw [readied?] at h
  rw [tick]
  split at h
  · rename_i hwaiting
    rw [if_pos hwaiting]
    rw [endWait]
    split at h
    · rename_i step hsettle
      rw [hsettle]
      cases h
      rfl
    · cases h
  · rename_i hwaiting
    rw [if_neg hwaiting]
    split at h
    · cases h
    · rename_i hstop
      rw [if_neg hstop]
      split at h
      · rename_i prepared hprepare
        rw [hprepare]
        split at h
        · cases h
        · rename_i harmed
          cases h
          simp only [harmed]
          rfl
      · cases h

omit [InterruptController γ] in
/-- Executing an instruction leaves the core and the bus as `execute` does; only
    the stage depends on how it ended. -/
theorem executeNext_of_pop {ready : Pipeline κ ι δ γ} {address : UInt32} {instruction : ι}
    {rest : DecodedQueue (UInt32 × ι)}
    (hpop : ready.decoded.pop = .ok ((address, instruction), rest)) :
    ∃ stage, ready.executeNext.1
      = { (execute { ready with decoded := rest } address instruction).1 with stage } := by
  rw [executeNext, hpop]
  simp only
  cases hexecute : execute { ready with decoded := rest } address instruction with
  | mk executed fault =>
      cases fault with
      | some fault => exact ⟨executed.stage, rfl⟩
      | none =>
          simp only
          split
          · exact ⟨.halted, rfl⟩
          · exact ⟨.fetching, rfl⟩

end Pipeline

end Microprocessor
