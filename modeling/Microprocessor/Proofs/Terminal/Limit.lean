import Mathlib.Control.Monad.Basic
import Microprocessor.Proofs.Pipeline.Bounded
import Microprocessor.Terminal.Session
import Microprocessor.X86.RealMode

/-! # The instruction limit of the command line

    The worker looks at its limit before every move, where a run for a number of
    instructions settles beforehand where it is going to end.  From a machine that has
    executed nothing the two come to the same, whatever happens in the meantime.

      * `execute_eq_runForAmid`: the worker's loop is a run for a number of instructions,
        amid the same events;
      * `Session.play_endsAs`: a session is the worker's loop amid the moves it makes, the
        commands that are typed, and the end of the input;
      * `Session.playLines_eq_play`: lines typed where the machine waits are one such session;
      * `bounded_runs_compose` adds how runs follow one another. -/

namespace Microprocessor

namespace Terminal

open Pipeline

/-! ## The worker -/

section Worker

variable {κ ι δ γ : Type} [Core κ ι] [Decoded ι] [PortDevice δ] [InterruptController γ]
  {limit : Option UInt64} {pipeline : Pipeline κ ι δ γ}

theorem execute_of_reached (h : limitReached limit pipeline = true)
    (events : List (Event κ δ γ)) :
    execute limit events pipeline = some ⟨pipeline, .ok .executed, [], events⟩ := by
  cases events with
  | nil => rw [execute, if_pos h]
  | cons event later => cases event <;> simp only [execute, if_pos h]

theorem execute_nil (h : limitReached limit pipeline = false) :
    execute limit [] pipeline = none := by
  rw [execute, h, if_neg Bool.false_ne_true]

theorem execute_move (h : limitReached limit pipeline = false) (later : List (Event κ δ γ)) :
    execute limit (.move :: later) pipeline
      = if goesOn pipeline.tick.2 then
          (execute limit later pipeline.tick.1).map (.since [pipeline])
        else some ⟨pipeline.tick.1, pipeline.tick.2, [pipeline], later⟩ := by
  rw [execute, h, if_neg Bool.false_ne_true]
  generalize pipeline.tick = ticked
  obtain ⟨next, fault | outcome⟩ := ticked
  · rfl
  · cases outcome <;> rfl

theorem execute_event (h : limitReached limit pipeline = false) {event : Event κ δ γ}
    (hevent : event ≠ .move) (later : List (Event κ δ γ)) :
    execute limit (event :: later) pipeline = execute limit later (pipeline.after event) := by
  cases event with
  | move => exact absurd rfl hevent
  | _ => simp only [execute, h, Bool.false_eq_true, if_false]

/-- The worker's loop is a run until the limit is reached. -/
theorem execute_eq_runUntilAmid (limit : Option UInt64) (events : List (Event κ δ γ)) :
    ∀ pipeline : Pipeline κ ι δ γ,
      execute limit events pipeline = runUntilAmid (limitReached limit) events pipeline := by
  induction events with
  | nil =>
      intro pipeline
      rw [execute, runUntilAmid]
  | cons event later ih =>
      intro pipeline
      cases h : limitReached limit pipeline with
      | true => rw [execute_of_reached h, runUntilAmid_of_done h]
      | false =>
          by_cases hmove : event = .move
          · rw [hmove, execute_move h, runUntilAmid_move h, ih]
          · rw [execute_event h hmove, runUntilAmid_event h hmove, ih]

/-- From a machine that has executed nothing, it is a run for as many instructions as
    the limit says. -/
theorem execute_eq_runForAmid (hnone : pipeline.executed = 0) (n : UInt64)
    (events : List (Event κ δ γ)) :
    execute (some n) events pipeline = pipeline.runForAmid n events := by
  have htarget : pipeline.target n = n := by
    rw [target_eq, hnone, UInt64.zero_add]
    rw [hnone, UInt64.toNat_zero, Nat.zero_add]
    exact n.toNat_lt
  rw [execute_eq_runUntilAmid, runForAmid, htarget]
  rfl

end Worker

/-! ## Sessions -/

/-- What a command is to the machine. -/
def Command.event {κ δ γ : Type} : Command → Event κ δ γ
  | .step => .resume
  | .go => .setArmed false
  | .toggle => .toggle
  | .quit => .requestStop

/-- What happens in a session is a move, a command or the end of step mode, unless it is
    a line that holds no command. -/
def Happening.event? {κ δ γ : Type} : Happening → Option (Event κ δ γ)
  | .turn => some .move
  | .line text => (Command.ofLine? (Session.lineText text)).map Command.event
  | .close => some (.setArmed false)

/-- What happens to the machine. -/
def eventsOf {κ δ γ : Type} (happenings : List Happening) : List (Event κ δ γ) :=
  happenings.filterMap Happening.event?

@[simp] theorem eventsOf_nil {κ δ γ : Type} : eventsOf (κ := κ) (δ := δ) (γ := γ) [] = [] := rfl

@[simp] theorem eventsOf_turn {κ δ γ : Type} (later : List Happening) :
    (eventsOf (.turn :: later) : List (Event κ δ γ)) = .move :: eventsOf later := rfl

@[simp] theorem eventsOf_close {κ δ γ : Type} (later : List Happening) :
    (eventsOf (.close :: later) : List (Event κ δ γ)) = .setArmed false :: eventsOf later := rfl

theorem eventsOf_of_none {κ δ γ : Type} {line : String} (later : List Happening)
    (h : Command.ofLine? (Session.lineText line) = none) :
    (eventsOf (.line line :: later) : List (Event κ δ γ)) = eventsOf later :=
  List.filterMap_cons_none (by rw [Happening.event?, h, Option.map_none])

theorem eventsOf_of_some {κ δ γ : Type} {line : String} {command : Command}
    (later : List Happening) (h : Command.ofLine? (Session.lineText line) = some command) :
    (eventsOf (.line line :: later) : List (Event κ δ γ)) = command.event :: eventsOf later :=
  List.filterMap_cons_some (by rw [Happening.event?, h, Option.map_some])

theorem Command.event_ne_move {κ δ γ : Type} (command : Command) :
    (command.event : Event κ δ γ) ≠ .move := by
  cases command <;> exact nofun

variable {κ ι : Type} [Core κ ι] [Decoded ι]

/-- A command does what its event does. -/
theorem Command.after_event {δ γ : Type} [PortDevice δ] [InterruptController γ]
    (command : Command) (pipeline : Pipeline κ ι δ γ) :
    pipeline.after command.event = { pipeline with step := command.apply pipeline.step } := by
  cases command <;> rfl

namespace Session

omit [Core κ ι] [Decoded ι] in
@[simp] theorem pipeline_catchUp (session : Session κ ι) :
    session.catchUp.pipeline = session.pipeline := by
  rw [catchUp]
  split <;> rfl

omit [Core κ ι] [Decoded ι] in
@[simp] theorem limit_catchUp (session : Session κ ι) :
    session.catchUp.limit = session.limit := by
  rw [catchUp]
  split <;> rfl

@[simp] theorem pipeline_showPrompt (session : Session κ ι) :
    session.showPrompt.pipeline = session.pipeline := by
  rw [showPrompt]
  split <;> rfl

@[simp] theorem limit_showPrompt (session : Session κ ι) :
    session.showPrompt.limit = session.limit := by
  rw [showPrompt]
  split <;> rfl

/-- A session has come to what the worker's loop has, or it goes on like that. -/
structure EndsAs (played : Session κ ι × Option (Except Fault TickOutcome))
    (ended? : Option (Ended κ ι Console InterruptLine)) : Prop where
  result : played.2 = ended?.map Ended.result
  pipeline : ∀ ended, ended? = some ended → played.1.pipeline = ended.pipeline

omit [Core κ ι] [Decoded ι] in
/-- A session that has ended has come to it. -/
theorem endsAs_some {session : Session κ ι} (ended : Ended κ ι Console InterruptLine)
    (h : session.pipeline = ended.pipeline) :
    EndsAs (session, some ended.result) (some ended) := by
  refine ⟨rfl, fun other hother => ?_⟩
  cases hother
  exact h

omit [Core κ ι] [Decoded ι] in
/-- Moves made before make no difference to the end. -/
theorem EndsAs.since {played : Session κ ι × Option (Except Fault TickOutcome)}
    {ended? : Option (Ended κ ι Console InterruptLine)} (h : EndsAs played ended?)
    (earlier : List (Pipeline κ ι Console InterruptLine)) :
    EndsAs played (ended?.map (.since earlier)) := by
  cases ended? with
  | none => exact h
  | some ended =>
      refine ⟨h.result, fun other hother => ?_⟩
      cases hother
      exact h.pipeline ended rfl

/-- A move of a session is a move of its machine, and ends it if the machine does not go
    on. -/
theorem move_moves (session : Session κ ι) :
    session.move.1.pipeline = session.pipeline.tick.1
      ∧ session.move.1.limit = session.limit
      ∧ session.move.2
        = if goesOn session.pipeline.tick.2 then none else some session.pipeline.tick.2 := by
  rw [move]
  generalize session.pipeline.tick = ticked
  obtain ⟨next, fault | outcome⟩ := ticked
  · simp [goesOn]
  · cases outcome with
    | waiting =>
        simp only
        split <;> simp [goesOn]
    | _ => simp [goesOn]

section Taking

variable {session : Session κ ι}

theorem take_of_reached (h : limitReached session.limit session.pipeline = true)
    (happening : Happening) : session.take happening = (session, some (.ok .executed)) := by
  rw [take.eq_def, if_pos h]

theorem take_turn (h : limitReached session.limit session.pipeline = false) :
    session.take .turn = session.move := by
  rw [take.eq_def, h, if_neg Bool.false_ne_true]

theorem take_line (h : limitReached session.limit session.pipeline = false) (line : String) :
    session.take (.line line) = (session.obey line, none) := by
  rw [take.eq_def, h, if_neg Bool.false_ne_true]

theorem take_close (h : limitReached session.limit session.pipeline = false) :
    session.take .close = (session.endOfInput, none) := by
  rw [take.eq_def, h, if_neg Bool.false_ne_true]

omit [Core κ ι] [Decoded ι] in
theorem obey_of_none {line : String} (h : Command.ofLine? (lineText line) = none) :
    session.obey line
      = { session with
          screen := session.screen.complain (Command.complaint (lineText line)) } := by
  rw [obey, h]

omit [Core κ ι] [Decoded ι] in
theorem obey_of_some {line : String} {command : Command}
    (h : Command.ofLine? (lineText line) = some command) :
    session.obey line = session.mapControl command.apply := by
  rw [obey, h]

/-- A session goes on from what it takes that does not end it. -/
theorem play_of_take {after : Session κ ι} {happening : Happening}
    (h : session.take happening = (after, none)) (later : List Happening) :
    session.play (happening :: later) = after.play later := by
  rw [play, h]

theorem play_of_take_some {after : Session κ ι} {happening : Happening}
    {result : Except Fault TickOutcome} (h : session.take happening = (after, some result))
    (later : List Happening) : session.play (happening :: later) = (after, some result) := by
  rw [play, h]

/-- A session that makes a move goes on like the worker's loop, or ends with it. -/
theorem EndsAs.turn {later : List Happening}
    (hrest : EndsAs (session.move.1.play later)
      (execute session.move.1.limit (eventsOf later) session.move.1.pipeline))
    (h : limitReached session.limit session.pipeline = false) :
    EndsAs (session.play (.turn :: later))
      (execute session.limit (eventsOf (.turn :: later)) session.pipeline) := by
  obtain ⟨hpipeline, hlimit, hresult⟩ := session.move_moves
  have htake := take_turn h
  rw [eventsOf_turn, execute_move h]
  -- What the move reports decides for the session and for the worker alike.
  cases hgoes : goesOn session.pipeline.tick.2 with
  | true =>
      rw [hgoes, if_pos rfl] at hresult
      rw [if_pos rfl, play_of_take (htake.trans (Prod.ext rfl hresult)), ← hpipeline, ← hlimit]
      exact hrest.since _
  | false =>
      rw [hgoes, if_neg Bool.false_ne_true] at hresult
      rw [if_neg Bool.false_ne_true, play_of_take_some (htake.trans (Prod.ext rfl hresult))]
      exact endsAs_some ⟨_, _, _, _⟩ hpipeline

/-- A line is an event to the machine, or nothing if it holds no command. -/
theorem EndsAs.line {text : String} {later : List Happening}
    (hrest : EndsAs ((session.obey text).play later)
      (execute (session.obey text).limit (eventsOf later) (session.obey text).pipeline))
    (h : limitReached session.limit session.pipeline = false) :
    EndsAs (session.play (.line text :: later))
      (execute session.limit (eventsOf (.line text :: later)) session.pipeline) := by
  rw [play_of_take (take_line h text)]
  cases hcommand : Command.ofLine? (lineText text) with
  | none =>
      rw [obey_of_none hcommand] at hrest ⊢
      rw [eventsOf_of_none later hcommand]
      exact hrest
  | some command =>
      rw [obey_of_some hcommand] at hrest ⊢
      rw [eventsOf_of_some later hcommand, execute_event h command.event_ne_move,
        command.after_event]
      exact hrest

/-- The end of the input is the end of step mode. -/
theorem EndsAs.close {later : List Happening}
    (hrest : EndsAs (session.endOfInput.play later)
      (execute session.endOfInput.limit (eventsOf later) session.endOfInput.pipeline))
    (h : limitReached session.limit session.pipeline = false) :
    EndsAs (session.play (.close :: later))
      (execute session.limit (eventsOf (.close :: later)) session.pipeline) := by
  have hother : (Event.setArmed false : Event κ Console InterruptLine) ≠ .move := nofun
  rw [play_of_take (take_close h), eventsOf_close, execute_event h hother]
  exact hrest

end Taking

/-- Whatever happens, a session is the worker's loop amid what that is to the machine. -/
theorem play_endsAs (happenings : List Happening) :
    ∀ session : Session κ ι,
      EndsAs (session.play happenings)
        (execute session.limit (eventsOf happenings) session.pipeline) := by
  induction happenings with
  | nil =>
      intro session
      rw [play, eventsOf_nil]
      cases h : limitReached session.limit session.pipeline with
      | true =>
          rw [if_pos rfl, execute_of_reached h]
          exact endsAs_some ⟨_, _, _, _⟩ rfl
      | false =>
          rw [if_neg Bool.false_ne_true, execute_nil h]
          exact ⟨rfl, fun _ hended => nomatch hended⟩
  | cons happening later ih =>
      intro session
      cases h : limitReached session.limit session.pipeline with
      | true =>
          rw [play_of_take_some (take_of_reached h happening), execute_of_reached h]
          exact endsAs_some ⟨_, _, _, _⟩ rfl
      | false =>
          cases happening with
          | turn => exact (ih session.move.1).turn h
          | line text => exact (ih (session.obey text)).line h
          | close => exact (ih session.endOfInput).close h

/-- Lines that are typed wherever the machine waits are a session like any other. -/
theorem playLines_eq_play (count : Nat) :
    ∀ (lines : List String) (session : Session κ ι),
      ∃ happenings, playLines count lines session
        = ((session.play happenings).1, (session.play happenings).2.getD (.ok .executed)) := by
  -- Which line comes when depends on the machine, so the happenings are found on the way.
  induction count with
  | zero =>
      intro lines session
      refine ⟨[], Prod.ext rfl ?_⟩
      rw [play]
      cases limitReached session.limit session.pipeline <;> rfl
  | succ count ih =>
      intro lines session
      cases hnext : session.next lines with
      | mk happening left =>
          cases htake : session.take happening with
          | mk after result? =>
              cases result? with
              | none =>
                  obtain ⟨later, hlater⟩ := ih left after
                  refine ⟨happening :: later, ?_⟩
                  rw [playLines, hnext, play_of_take htake, ← hlater]
                  simp only [htake]
              | some result =>
                  refine ⟨[happening], ?_⟩
                  rw [playLines, hnext, play_of_take_some htake, Option.getD_some]
                  simp only [htake]

end Session

end Terminal

open Pipeline Terminal

/-- As long as the counts can be represented:
      * a run of at most `m` instructions executes no more, and gets as far as it
        might exactly if it executes `m` and every one of them goes on; a run of
        `m + n` is then that run followed by one of `n`, and in any other case it
        ends as that run did, or has not ended either; all this amid the same events,
        and for a pipeline left alone;
      * the worker of the command line, with a limit and a machine that has executed
        nothing, ends where and as a run for that many instructions does: amid the same
        events, and left alone if the run does not come to wait;
      * so does a session, with lines typed at any time. -/
theorem bounded_runs_compose {κ ι : Type} [Core κ ι] [Decoded ι] :
    (∀ {δ γ : Type} [PortDevice δ] [InterruptController γ] (pipeline : Pipeline κ ι δ γ)
      (m n : UInt64), pipeline.executed.toNat + m.toNat + n.toNat < UInt64.size →
        pipeline.ComposesAlone m n ∧ ∀ events, pipeline.ComposesAmid m n events) ∧
    (∀ {δ γ : Type} [PortDevice δ] [InterruptController γ] (pipeline : Pipeline κ ι δ γ)
      (n : UInt64), pipeline.executed = 0 →
        (∀ events, execute (some n) events pipeline = pipeline.runForAmid n events) ∧
        ((pipeline.runFor n).2 ≠ .ok .waiting →
          ∃ moved later, execute (some n) (List.replicate n.toNat .move) pipeline
            = some ⟨(pipeline.runFor n).1, (pipeline.runFor n).2, moved, later⟩)) ∧
    (∀ (pipeline : Pipeline κ ι Console InterruptLine) (n : UInt64)
      (happenings : List Happening), pipeline.executed = 0 →
        Session.EndsAs ((Session.of pipeline (some n)).play happenings)
          (pipeline.runForAmid n (eventsOf happenings))) := by
  refine ⟨?_, ?_, ?_⟩
  · intro δ γ _ _ pipeline m n h
    exact ⟨composesAlone h, composesAmid h⟩
  · intro δ γ _ _ pipeline n hnone
    refine ⟨execute_eq_runForAmid hnone n, fun hwaiting => ?_⟩
    rw [execute_eq_runForAmid hnone]
    have hlimit : pipeline.executed.toNat + n.toNat + (0 : UInt64).toNat < UInt64.size := by
      rw [hnone, UInt64.toNat_zero, Nat.zero_add]
      exact n.toNat_lt
    exact (composesAlone hlimit).alone hwaiting
  · intro pipeline n happenings hnone
    rw [← execute_eq_runForAmid hnone]
    exact Session.play_endsAs happenings (.of pipeline (some n))

/-- An 8086 at the start of a program that counts to two and halts. -/
def countingStart : Pipeline X86.ExecutionUnit X86.Instruction Console InterruptLine :=
  .of X86.realMode .initial ⟨#[0x40, 0x40, 0xF4], none⟩ .empty

/-- Step mode is turned on while the machine runs, and turned off while it waits. -/
def togglingHappenings : List Happening :=
  [.turn, .line "t", .turn, .turn, .line "t", .turn]

/-- A run for one instruction may be continued; one for three ends with the halt, whatever
    more it might execute; and with a limit of two a session ends where a run for two does,
    though step mode is turned on and off meanwhile. -/
theorem bounded_runs_compose_counting :
    (countingStart.runFor 1).1.runFor 1 = countingStart.runFor 2
      ∧ countingStart.runFor (3 + 1) = countingStart.runFor 3
      ∧ execute (some 2) (eventsOf togglingHappenings) countingStart
        = countingStart.runForAmid 2 (eventsOf togglingHappenings)
      ∧ Session.EndsAs ((Session.of countingStart (some 2)).play togglingHappenings)
        (countingStart.runForAmid 2 (eventsOf togglingHappenings))
      ∧ (countingStart.runForAmid 2 (eventsOf togglingHappenings)).map
        (fun ended => (ended.pipeline.executed, ended.pipeline.core.regs.word .ax))
        = some (2, 2) := by
  have hfirst : (countingStart.runFor 1).2 = .ok .executed := by decide +kernel
  have hhalts : (countingStart.runFor 3).2 ≠ .ok .executed := by decide +kernel
  obtain ⟨hruns, hworker, hsessions⟩ :=
    bounded_runs_compose (κ := X86.ExecutionUnit) (ι := X86.Instruction)
  refine ⟨?_, ?_, ?_, ?_, by decide +kernel⟩
  · exact (hruns countingStart 1 1 (by decide)).1.onward hfirst
  · exact (hruns countingStart 3 1 (by decide)).1.ended hhalts
  · exact (hworker countingStart 2 rfl).1 _
  · exact hsessions countingStart 2 togglingHappenings rfl

end Microprocessor
