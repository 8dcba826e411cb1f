import Microprocessor.Proofs.Pipeline.History
import Microprocessor.Terminal.Console
import Microprocessor.X86.RealMode

/-! # Single stepping and stopping are not seen by the program

    A pipeline that is held, granted, released and stopped does exactly what it
    would do if left alone: every stop and every wait falls between decoding an
    instruction and executing it, and what has been decoded is executed next.

      * `Pipeline.released` is a pipeline apart from single-step control;
        `Pipeline.prepare_alike` and `Pipeline.executeNext_alike`: the stages of
        a move do not look at what it leaves out;
      * `Pipeline.Simulated` relates a controlled pipeline to one left alone,
        and is kept by every event of a controlled run;
      * `stepping_transparent` compares the histories and the states of both. -/

namespace Microprocessor

namespace Pipeline

variable {κ ι δ γ : Type} [Core κ ι] [Decoded ι] [PortDevice δ] [InterruptController γ]

/-! ## Apart from single-step control -/

/-- The pipeline with step mode off, nothing asked of it, at the start of a
    move. -/
def released (pipeline : Pipeline κ ι δ γ) : Pipeline κ ι δ γ :=
  { pipeline with step := .initial, stage := .fetching }

omit [Core κ ι] [Decoded ι] [PortDevice δ] [InterruptController γ] in
/-- Releasing an orderly pipeline keeps it orderly. -/
theorem Orderly.released {pipeline : Pipeline κ ι δ γ} (h : pipeline.Orderly) :
    pipeline.released.Orderly where
  size_le := h.size_le
  waiting := fun hwaits => by cases hwaits

omit [PortDevice δ] [InterruptController γ] in
/-- Decoding the next instruction does not look at single-step control, nor at
    where the pipeline stands. -/
theorem decodeNext_control (pipeline : Pipeline κ ι δ γ) (step : StepControl) (stage : Stage) :
    ∃ stage', decodeNext { pipeline with step, stage }
      = ({ pipeline.decodeNext.1 with step, stage := stage' }, pipeline.decodeNext.2) := by
  simp only [decodeNext, fetchAddress]
  cases pipeline.architecture.decode pipeline.bus.byteAt 0 with
  | error _ => exact ⟨_, rfl⟩
  | ok instruction =>
      simp only
      cases pipeline.decoded.push (Core.fetchAddress pipeline.core, instruction) with
      | error _ => exact ⟨_, rfl⟩
      | ok _ => exact ⟨_, rfl⟩

omit [PortDevice δ] in
/-- Nor does fetching it. -/
theorem fetchNext_control (pipeline : Pipeline κ ι δ γ) (step : StepControl) (stage : Stage) :
    ∃ stage', fetchNext { pipeline with step, stage }
      = ({ pipeline.fetchNext.1 with step, stage := stage' }, pipeline.fetchNext.2) := by
  have hserve : serviceInterrupts { pipeline with step, stage }
      = { pipeline.serviceInterrupts with step, stage } := rfl
  simp only [fetchNext, hserve]
  generalize pipeline.serviceInterrupts = serviced
  split
  · exact ⟨_, rfl⟩
  · cases serviced.bus.fetch (Core.codeAddress serviced.core) with
    | error _ => exact ⟨_, rfl⟩
    | ok bus => exact decodeNext_control { serviced with bus } step stage

omit [PortDevice δ] in
/-- Nor does seeing to it that an instruction is decoded. -/
theorem prepare_control (pipeline : Pipeline κ ι δ γ) (step : StepControl) (stage : Stage) :
    ∃ stage', prepare { pipeline with step, stage }
      = ({ pipeline.prepare.1 with step, stage := stage' }, pipeline.prepare.2) := by
  simp only [prepare]
  cases pipeline.decoded.isEmpty with
  | false => exact ⟨stage, rfl⟩
  | true => exact fetchNext_control pipeline step stage

omit [InterruptController γ] in
/-- Nor does executing an instruction. -/
theorem executeNext_control (ready : Pipeline κ ι δ γ) (step : StepControl) (stage : Stage) :
    ∃ stage', executeNext { ready with step, stage }
      = ({ ready.executeNext.1 with step, stage := stage' }, ready.executeNext.2) := by
  simp only [executeNext]
  cases ready.decoded.pop with
  | error _ => exact ⟨_, rfl⟩
  | ok popped =>
      obtain ⟨⟨address, instruction⟩, decoded⟩ := popped
      simp only [execute]
      cases (Core.execute ready.core instruction address ready.bus ready.faults).fault with
      | some _ => exact ⟨_, rfl⟩
      | none =>
          simp only
          split
          · exact ⟨_, rfl⟩
          · exact ⟨_, rfl⟩

omit [Core κ ι] [Decoded ι] [PortDevice δ] [InterruptController γ] in
/-- Pipelines that are alike differ in single-step control and in where they
    stand. -/
theorem eq_of_released {pipeline free : Pipeline κ ι δ γ} (h : pipeline.released = free.released) :
    pipeline = { free with step := pipeline.step, stage := pipeline.stage } := by
  obtain ⟨_, _, _, _, _, _, _, step, stage, _⟩ := pipeline
  cases h
  rfl

omit [PortDevice δ] in
/-- Pipelines that are alike decode alike. -/
theorem prepare_alike {pipeline free : Pipeline κ ι δ γ} (h : pipeline.released = free.released) :
    pipeline.prepare.1.released = free.prepare.1.released
      ∧ pipeline.prepare.2 = free.prepare.2
      ∧ pipeline.preparation = free.preparation := by
  have hsame := eq_of_released h
  generalize pipeline.step = step at hsame
  generalize pipeline.stage = stage at hsame
  subst hsame
  obtain ⟨stage', hprepare⟩ := prepare_control free step stage
  refine ⟨?_, ?_, ?_⟩
  · rw [hprepare]
    rfl
  · rw [hprepare]
  · rw [preparation, preparation, hprepare]
    generalize free.prepare = prepared
    obtain ⟨prepared, result⟩ := prepared
    cases result with
    | none => rfl
    | some _ => rfl

omit [InterruptController γ] in
/-- Pipelines that are alike execute alike. -/
theorem executeNext_alike {ready free : Pipeline κ ι δ γ} (h : ready.released = free.released) :
    ready.executeNext.1.released = free.executeNext.1.released
      ∧ ready.execution = free.execution := by
  have hsame := eq_of_released h
  generalize ready.step = step at hsame
  generalize ready.stage = stage at hsame
  subst hsame
  obtain ⟨stage', hexecute⟩ := executeNext_control free step stage
  refine ⟨?_, rfl⟩
  rw [hexecute]
  rfl

omit [InterruptController γ] in
/-- Executing an instruction leaves single-step control alone. -/
theorem step_executeNext (ready : Pipeline κ ι δ γ) : ready.executeNext.1.step = ready.step := by
  obtain ⟨stage, hexecute⟩ := executeNext_control ready ready.step ready.stage
  exact congrArg (fun result => result.1.step) hexecute

/-! ## Left alone -/

/-- The pipeline after a number of moves, with all that was done in them. -/
def moves (start : Pipeline κ ι δ γ) (count : Nat) : List (Action κ ι δ γ) × Pipeline κ ι δ γ :=
  start.replay (List.replicate count .move)

/-- With nothing asked of it, a pipeline that can decode nothing makes no more of
    its move. -/
theorem tick_of_prepare_some {free : Pipeline κ ι δ γ} (hstep : free.step = .initial)
    {result : Except Fault TickOutcome} (hprepare : free.prepare.2 = some result) :
    free.tick.1 = free.prepare.1 ∧ free.actions .move = free.preparation := by
  rw [tick, actions, readied?, hstep]
  generalize free.prepare = prepared at hprepare
  obtain ⟨prepared, outcome⟩ := prepared
  obtain rfl : outcome = some result := hprepare
  exact ⟨rfl, rfl⟩

/-- With nothing asked of it, a pipeline executes what it has decoded in the same
    move. -/
theorem tick_of_prepare_none {free : Pipeline κ ι δ γ} (hstep : free.step = .initial)
    (hprepare : free.prepare.2 = none) :
    free.tick.1 = free.prepare.1.executeNext.1
      ∧ free.actions .move = free.prepare.1.execution ++ free.preparation := by
  have harmed : free.prepare.1.step.armed = false := by
    rw [step_prepare, hstep]
    rfl
  have hready : free.readied? = some free.prepare.1 :=
    readied?_of_prepare (by rw [hstep]; rfl) (by rw [hstep]; rfl) (Prod.ext rfl hprepare) harmed
  refine ⟨congrArg Prod.fst (tick_of_readied? hready), ?_⟩
  rw [actions, hready, hstep]
  rfl

/-- A pipeline of which nothing is asked asks nothing of itself. -/
theorem step_tick_of_initial {free : Pipeline κ ι δ γ} (hstep : free.step = .initial) :
    free.tick.1.step = .initial := by
  cases hprepare : free.prepare.2 with
  | some _ => rw [(tick_of_prepare_some hstep hprepare).1, step_prepare, hstep]
  | none => rw [(tick_of_prepare_none hstep hprepare).1, step_executeNext, step_prepare, hstep]

/-- It stays so. -/
theorem step_moves {start : Pipeline κ ι δ γ} (hstep : start.step = .initial) (count : Nat) :
    (start.moves count).2.step = .initial := by
  induction count with
  | zero => exact hstep
  | succ count ih => exact step_tick_of_initial ih

/-! ## Simulation -/

/-- A controlled pipeline beside one that is left alone: the latter is never
    between decoding and executing, so where the former holds an instruction it
    has decoded it is ahead by that. -/
inductive Beside (free : List (Action κ ι δ γ) × Pipeline κ ι δ γ) :
    List (Action κ ι δ γ) → Pipeline κ ι δ γ → Prop
  | between {pipeline : Pipeline κ ι δ γ} (hempty : pipeline.decoded.isEmpty = true)
      (halike : pipeline.released = free.2.released) : Beside free free.1 pipeline
  | within {pipeline : Pipeline κ ι δ γ} (hheld : pipeline.decoded.isEmpty = false)
      (hprepare : free.2.prepare.2 = none)
      (halike : pipeline.released = free.2.prepare.1.released) :
      Beside free (free.2.preparation ++ free.1) pipeline

/-- A controlled pipeline is beside the one that starts where it did and is left
    alone, after some number of moves. -/
def Simulated (start : Pipeline κ ι δ γ) (history : List (Action κ ι δ γ))
    (pipeline : Pipeline κ ι δ γ) : Prop :=
  ∃ count, Beside (start.released.moves count) history pipeline

omit [PortDevice δ] in
/-- Single-step control and where the pipeline stands do not matter. -/
theorem Beside.congr {free : List (Action κ ι δ γ) × Pipeline κ ι δ γ}
    {history : List (Action κ ι δ γ)} {pipeline after : Pipeline κ ι δ γ}
    (h : Beside free history pipeline) (hsame : after.released = pipeline.released) :
    Beside free history after := by
  have hdecoded : after.released.decoded = pipeline.released.decoded := by rw [hsame]
  have hdecoded : after.decoded = pipeline.decoded := hdecoded
  cases h with
  | between hempty halike =>
      refine .between ?_ (hsame.trans halike)
      rw [hdecoded]
      exact hempty
  | within hheld hprepare halike =>
      refine .within ?_ hprepare (hsame.trans halike)
      rw [hdecoded]
      exact hheld

/-- The stages of a move of the controlled pipeline are those of the other. -/
theorem simulated_kept (start : Pipeline κ ι δ γ) : KeptByStages (Simulated start) where
  control := by
    rintro history pipeline step stage ⟨count, hbeside⟩
    exact ⟨count, hbeside.congr rfl⟩
  prepare := by
    rintro history pipeline ⟨count, hbeside⟩
    have hstep : (start.released.moves count).2.step = .initial := step_moves rfl count
    cases hbeside with
    | between hempty halike =>
        obtain ⟨hprepared, hresult, hpreparation⟩ := prepare_alike halike
        rw [hpreparation]
        cases hfree : (start.released.moves count).2.prepare.2 with
        | none =>
            refine ⟨count, .within ?_ hfree hprepared⟩
            exact isEmpty_of_prepare (Prod.ext rfl (hresult.trans hfree))
        | some result =>
            -- Neither has anything to execute, and the other has made its move.
            obtain ⟨htick, hactions⟩ := tick_of_prepare_some hstep hfree
            refine ⟨count + 1, ?_⟩
            rw [← hactions]
            refine .between ?_ ?_
            · exact isEmpty_of_prepare_some hempty (hresult.trans hfree)
            · exact hprepared.trans (congrArg released htick.symm)
    | within hheld hprepare halike =>
        rw [prepare_of_held hheld, preparation_of_held hheld]
        exact ⟨count, .within hheld hprepare halike⟩
  executeNext := by
    rintro history ready hsize hheld ⟨count, hbeside⟩
    have hstep : (start.released.moves count).2.step = .initial := step_moves rfl count
    cases hbeside with
    | between hempty _ =>
        rw [hempty] at hheld
        cases hheld
    | within _ hprepare halike =>
        obtain ⟨hexecuted, hexecution⟩ := executeNext_alike halike
        obtain ⟨htick, hactions⟩ := tick_of_prepare_none hstep hprepare
        refine ⟨count + 1, ?_⟩
        rw [← List.append_assoc, hexecution, ← hactions]
        refine .between (executeNext_empties hsize hheld).1 ?_
        exact hexecuted.trans (congrArg released htick.symm)

/-! ## As many instructions executed -/

/-- The pipeline has just executed its `count`-th instruction, or is about to
    begin. -/
def AfterExecutions (count : Nat) (history : List (Action κ ι δ γ)) : Prop :=
  (executions history).length = count ∧ ∀ action ∈ history.head?, action.executed?.isSome

instance (count : Nat) (history : List (Action κ ι δ γ)) :
    Decidable (AfterExecutions count history) :=
  inferInstanceAs (Decidable (_ ∧ _))

omit [Core κ ι] [Decoded ι] [PortDevice δ] [InterruptController γ] in
/-- Nothing happens after the last execution without another one. -/
theorem AfterExecutions.eq_nil {newer older : List (Action κ ι δ γ)} {count : Nat}
    (h : AfterExecutions count (newer ++ older)) (hcount : (executions older).length = count) :
    newer = [] := by
  cases newer with
  | nil => rfl
  | cons action rest =>
      obtain ⟨hlength, hhead⟩ := h
      obtain ⟨executed, hexecuted⟩ := Option.isSome_iff_exists.mp (hhead action rfl)
      have hcons : executions (action :: rest ++ older)
          = executed :: (executions rest ++ executions older) := by
        rw [executions, List.cons_append, List.filterMap_cons_some hexecuted,
          List.filterMap_append]
        rfl
      rw [hcons, List.length_cons, List.length_append] at hlength
      omega

/-- Every move of a pipeline of which nothing is asked does something. -/
theorem actions_move_ne_nil {free : Pipeline κ ι δ γ} (hstep : free.step = .initial)
    (hsize : free.decoded.size ≤ 1) : free.actions .move ≠ [] := by
  cases hheld : free.decoded.isEmpty with
  | true =>
      have hserves : free.preparation ≠ [] := by
        rw [preparation, if_pos hheld]
        exact List.append_ne_nil_of_right_ne_nil _ (List.cons_ne_nil _ _)
      cases hprepare : free.prepare.2 with
      | some result =>
          rw [(tick_of_prepare_some hstep hprepare).2]
          exact hserves
      | none =>
          rw [(tick_of_prepare_none hstep hprepare).2]
          exact List.append_ne_nil_of_right_ne_nil _ hserves
  | false =>
      have hkeeps := prepare_of_held hheld
      obtain ⟨address, instruction, hitems, -⟩ := Orderly.pop hsize hheld
      rw [(tick_of_prepare_none hstep (congrArg Prod.snd hkeeps)).2, hkeeps,
        (execution_of_items hitems).1]
      exact List.cons_ne_nil _ _

/-- A pipeline that makes moves remains orderly. -/
theorem Orderly.moves {start : Pipeline κ ι δ γ} (h : start.Orderly) (count : Nat) :
    (start.moves count).2.Orderly := by
  induction count with
  | zero => exact h
  | succ count ih => exact ih.tick

/-- What has been done remains done. -/
theorem moves_add (start : Pipeline κ ι δ γ) (count more : Nat) :
    ∃ newer, (start.moves (count + more)).1 = newer ++ (start.moves count).1 := by
  induction more with
  | zero => exact ⟨[], rfl⟩
  | succ more ih =>
      obtain ⟨newer, hnewer⟩ := ih
      refine ⟨(start.moves (count + more)).2.actions .move ++ newer, ?_⟩
      rw [List.append_assoc, ← hnewer]
      rfl

/-- Left alone, a pipeline has just executed its `count`-th instruction after one
    number of moves only. -/
theorem AfterExecutions.moves_eq {start : Pipeline κ ι δ γ} (hstep : start.step = .initial)
    (horderly : start.Orderly) {count few many : Nat} (hle : few ≤ many)
    (hfew : AfterExecutions count (start.moves few).1)
    (hmany : AfterExecutions count (start.moves many).1) : few = many := by
  obtain ⟨more, rfl⟩ := Nat.exists_eq_add_of_le hle
  cases more with
  | zero => rfl
  | succ more =>
      obtain ⟨newer, hnewer⟩ := moves_add start few more
      have hhistory : (start.moves (few + (more + 1))).1
          = ((start.moves (few + more)).2.actions .move ++ newer) ++ (start.moves few).1 := by
        rw [List.append_assoc, ← hnewer]
        rfl
      rw [hhistory] at hmany
      have hnothing := hmany.eq_nil hfew.1
      exact absurd (List.append_eq_nil_iff.mp hnothing).1
        (actions_move_ne_nil (step_moves hstep _) (horderly.moves _).size_le)

omit [PortDevice δ] in
/-- Seeing to it that an instruction is decoded executes none. -/
theorem executed?_of_mem_preparation {pipeline : Pipeline κ ι δ γ} {action : Action κ ι δ γ}
    (h : action ∈ pipeline.preparation) : action.executed? = none := by
  have hpreparing := prepare_preparing pipeline
  generalize pipeline.preparation = done at hpreparing h
  generalize pipeline.prepare = prepared at hpreparing
  cases hpreparing with
  | keeps _ => cases h
  | serves _ _ _ _ _ =>
      rw [List.mem_singleton] at h
      subst h
      rfl
  | decodes _ _ _ _ _ =>
      rw [List.mem_cons, List.mem_singleton] at h
      obtain rfl | rfl := h
      · rfl
      · rfl

omit [PortDevice δ] in
/-- The controlled pipeline has executed what the other has. -/
theorem Beside.executions_eq {free : List (Action κ ι δ γ) × Pipeline κ ι δ γ}
    {history : List (Action κ ι δ γ)} {pipeline : Pipeline κ ι δ γ}
    (h : Beside free history pipeline) : executions history = executions free.1 := by
  cases h with
  | between _ _ => rfl
  | within _ _ _ =>
      have hnone : executions free.2.preparation = [] :=
        List.filterMap_eq_nil_iff.mpr fun _ h => executed?_of_mem_preparation h
      rw [executions, List.filterMap_append]
      exact congrArg (· ++ _) hnone

omit [PortDevice δ] in
/-- Where an instruction has just been executed, both pipelines are alike and
    have done the same. -/
theorem Beside.afterExecutions {free : List (Action κ ι δ γ) × Pipeline κ ι δ γ}
    {history : List (Action κ ι δ γ)} {pipeline : Pipeline κ ι δ γ}
    (h : Beside free history pipeline) {count : Nat} (hafter : AfterExecutions count history) :
    history = free.1 ∧ pipeline.released = free.2.released := by
  have hexecutions := h.executions_eq
  cases h with
  | between _ halike => exact ⟨rfl, halike⟩
  | within _ hprepare halike =>
      -- The other had the instruction decoded from the start.
      have hnothing : free.2.preparation = [] :=
        hafter.eq_nil (hexecutions ▸ hafter.1)
      have hpreparing := prepare_preparing free.2
      rw [hnothing] at hpreparing ⊢
      refine ⟨rfl, halike.trans ?_⟩
      generalize free.2.prepare = prepared at hpreparing
      cases hpreparing with
      | keeps _ => rfl

/-! ## Transparency -/

/-- A move, or an act of the controlling party. -/
def Controls (_ : Pipeline κ ι δ γ) : Event κ δ γ → Prop
  | .move | .setArmed _ | .resume | .requestStop | .clearStop => True
  | _ => False

/-- A controlled run stays beside the one that is left alone. -/
theorem Recorded.simulated {start pipeline : Pipeline κ ι δ γ} {history : List (Action κ ι δ γ)}
    (horderly : start.Orderly) (h : Recorded Controls start history pipeline) :
    Simulated start history pipeline := by
  refine h.invariant (simulated_kept start) ?_ horderly ?_
  · rintro history pipeline event hother hcontrols ⟨count, hbeside⟩
    cases event with
    | move => exact absurd rfl hother
    | setArmed _ | resume | requestStop | clearStop => exact ⟨count, hbeside.congr rfl⟩
    | _ => cases hcontrols
  · refine ⟨0, ?_⟩
    cases hheld : start.decoded.isEmpty with
    | true => exact .between hheld rfl
    | false =>
        have hfree : start.released.decoded.isEmpty = false := hheld
        have hkeeps := prepare_of_held hfree
        have hwithin : Beside (start.released.moves 0) (start.released.preparation ++ []) start :=
          .within hheld (congrArg Prod.snd hkeeps)
            (congrArg (fun prepared => prepared.1.released) hkeeps.symm)
        rw [preparation_of_held hfree] at hwithin
        exact hwithin

end Pipeline

open Pipeline

/-- However a pipeline is armed, disarmed, granted moves, stopped and let go, it
    executes what it would execute if left alone, and when it has just executed
    its `count`-th instruction, all but single-step control is as it would be
    then.  What has been decoded is executed once and in order, at most one
    instruction waits, the counters count what has been executed, and a move
    serves interrupts exactly where no instruction waits. -/
theorem stepping_transparent {κ ι δ γ : Type} [Core κ ι] [Decoded ι] [PortDevice δ]
    [InterruptController γ]
    (architecture : Architecture ι) (core : κ) (memory : Memory) (ports : PortMap δ)
    {start pipeline : Pipeline κ ι δ γ} {history : List (Action κ ι δ γ)}
    (hstart : Run (fun _ _ => True) (.of architecture core memory ports) start)
    (hrun : Recorded Controls start history pipeline) :
    (∃ moves, executions history = executions (start.released.moves moves).1)
      ∧ (∀ count, AfterExecutions count history →
          (∃ moves, AfterExecutions count (start.released.moves moves).1)
            ∧ ∀ moves, AfterExecutions count (start.released.moves moves).1 →
              history = (start.released.moves moves).1
                ∧ pipeline.released = (start.released.moves moves).2.released)
      ∧ Accounted start history pipeline
      ∧ pipeline.decoded.size ≤ 1
      ∧ pipeline.Turn (pipeline.actions .move) := by
  have hbegun : start.Orderly := (orderly_of architecture core memory ports).run hstart
  have horderly : pipeline.Orderly := hbegun.run hrun.run
  obtain ⟨moves, hbeside⟩ := hrun.simulated hbegun
  refine ⟨⟨moves, hbeside.executions_eq⟩, ?_, hrun.accounted hbegun, horderly.size_le,
    turn horderly⟩
  intro count hafter
  obtain ⟨hhistory, halike⟩ := hbeside.afterExecutions hafter
  have hmoves : AfterExecutions count (start.released.moves moves).1 := hhistory ▸ hafter
  refine ⟨⟨moves, hmoves⟩, ?_⟩
  intro others hothers
  have hreleased := hbegun.released
  obtain rfl : moves = others := by
    obtain hle | hle := Nat.le_total moves others
    · exact hmoves.moves_eq rfl hreleased hle hothers
    · exact (hothers.moves_eq rfl hreleased hle hmoves).symm
  exact ⟨hhistory, halike⟩

/-- An 8086 at the start of a program that moves 5 to AL and halts. -/
def steppingStart : Pipeline X86.ExecutionUnit X86.Instruction Terminal.Console InterruptLine :=
  .of X86.realMode .initial ⟨#[0xB0, 0x05, 0xF4], none⟩ .empty

/-- The controlling party holds the first instruction, asks to stop, and then lets
    go; the newest event comes first. -/
def steppingEvents : List (Event X86.ExecutionUnit Terminal.Console InterruptLine) :=
  [.move, .clearStop, .setArmed false, .move, .requestStop, .move, .setArmed true]

/-- Held, stopped and let go, the pipeline has executed one instruction, and is
    where one move would have brought it. -/
theorem stepping_transparent_stopping :
    executions (steppingStart.replay steppingEvents).1
        = [(0, ⟨0xB0, .none, .mov .byte (.register (.byte .al)) (.immediate 5), 2, 4⟩)]
      ∧ (steppingStart.replay steppingEvents).1 = (steppingStart.moves 1).1
      ∧ (steppingStart.replay steppingEvents).2.released = (steppingStart.moves 1).2.released := by
  have hrun : Recorded Controls steppingStart (steppingStart.replay steppingEvents).1
      (steppingStart.replay steppingEvents).2 := by
    refine recorded_replay steppingStart fun event hevent _ => ?_
    simp only [steppingEvents, List.mem_cons, List.not_mem_nil, or_false] at hevent
    obtain rfl | rfl | rfl | rfl | rfl | rfl | rfl := hevent <;> trivial
  obtain ⟨-, hcompare, -⟩ :=
    stepping_transparent X86.realMode X86.ExecutionUnit.initial _ _ .refl hrun
  have hafter : AfterExecutions 1 (steppingStart.replay steppingEvents).1 := by
    decide +kernel
  have hfree : AfterExecutions 1 (steppingStart.released.moves 1).1 := by
    decide +kernel
  exact ⟨by decide +kernel, (hcompare 1 hafter).2 1 hfree⟩

end Microprocessor
