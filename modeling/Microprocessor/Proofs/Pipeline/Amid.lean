import Microprocessor.Proofs.Pipeline.Outcome

/-! # Runs amid events

    A run that is not left alone makes its moves in the midst of what else happens.
    It ends where it is done, or with the first move that reports something other than
    an execution or a wait.

      * `Pipeline.runUntilAmid_of_done`, `Pipeline.runUntilAmid_move` and
        `Pipeline.runUntilAmid_event` are what one event comes to;
      * `Pipeline.runUntilAmid_induction` is the induction on such runs. -/

namespace Microprocessor.Pipeline

/-! ## Ends -/

theorem Ended.since_since {κ ι δ γ : Type} (first second : List (Pipeline κ ι δ γ))
    (ended : Ended κ ι δ γ) :
    (ended.since second).since first = ended.since (first ++ second) := by
  simp [since]

/-- What goes on is an execution or a wait, and executes an instruction exactly if it
    reports that. -/
theorem Counts.of_goesOn {before after : UInt64} {result : Except Fault TickOutcome}
    (h : Counts before after result) (hgoes : goesOn result = true) :
    after = before + 1 ∧ result = .ok .executed ∨ after = before ∧ result = .ok .waiting := by
  cases h with
  | executed h => exact .inl ⟨h, rfl⟩
  | waiting h => exact .inr ⟨h, rfl⟩
  | halted _ => cases hgoes
  | fault _ _ => cases hgoes
  | endOfStream _ => cases hgoes
  | stopped _ => cases hgoes

variable {κ ι δ γ : Type} [Core κ ι] [Decoded ι] [PortDevice δ] [InterruptController γ]
  {done : Pipeline κ ι δ γ → Bool} {pipeline : Pipeline κ ι δ γ}

/-! ## One event -/

theorem runUntilAmid_of_done (h : done pipeline = true) (events : List (Event κ δ γ)) :
    runUntilAmid done events pipeline = some ⟨pipeline, .ok .executed, [], events⟩ := by
  cases events with
  | nil => rw [runUntilAmid, if_pos h]
  | cons event later => cases event <;> simp only [runUntilAmid, if_pos h]

theorem runUntilAmid_nil (h : done pipeline = false) : runUntilAmid done [] pipeline = none := by
  rw [runUntilAmid, h, if_neg Bool.false_ne_true]

theorem runUntilAmid_move (h : done pipeline = false) (later : List (Event κ δ γ)) :
    runUntilAmid done (.move :: later) pipeline
      = if goesOn pipeline.tick.2 then
          (runUntilAmid done later pipeline.tick.1).map (.since [pipeline])
        else some ⟨pipeline.tick.1, pipeline.tick.2, [pipeline], later⟩ := by
  rw [runUntilAmid, h, if_neg Bool.false_ne_true]

theorem runUntilAmid_event (h : done pipeline = false) {event : Event κ δ γ}
    (hevent : event ≠ .move) (later : List (Event κ δ γ)) :
    runUntilAmid done (event :: later) pipeline
      = runUntilAmid done later (pipeline.after event) := by
  cases event with
  | move => exact absurd rfl hevent
  | _ => simp only [runUntilAmid, h, Bool.false_eq_true, if_false]

/-! ## Induction -/

/-- The induction on runs amid events of some kind: what holds of a run that is done, of
    one that a move ends, and of one because it holds of the rest. -/
theorem runUntilAmid_induction (permits : Event κ δ γ → Prop)
    (holds : Pipeline κ ι δ γ → Ended κ ι δ γ → Prop)
    (reached : ∀ pipeline later, done pipeline = true →
      holds pipeline ⟨pipeline, .ok .executed, [], later⟩)
    (ends : ∀ pipeline later, done pipeline = false → goesOn pipeline.tick.2 = false →
      holds pipeline ⟨pipeline.tick.1, pipeline.tick.2, [pipeline], later⟩)
    (moves : ∀ pipeline ended, done pipeline = false → goesOn pipeline.tick.2 = true →
      holds pipeline.tick.1 ended → holds pipeline (ended.since [pipeline]))
    (event : ∀ pipeline event ended, done pipeline = false → event ≠ .move → permits event →
      holds (pipeline.after event) ended → holds pipeline ended)
    {events : List (Event κ δ γ)} (hpermits : ∀ event ∈ events, permits event) :
    ∀ {pipeline : Pipeline κ ι δ γ} {ended : Ended κ ι δ γ},
      runUntilAmid done events pipeline = some ended → holds pipeline ended := by
  induction events with
  | nil =>
      intro pipeline ended h
      cases hdone : done pipeline with
      | true =>
          rw [runUntilAmid_of_done hdone] at h
          cases h
          exact reached pipeline [] hdone
      | false =>
          rw [runUntilAmid_nil hdone] at h
          cases h
  | cons happens later ih =>
      intro pipeline ended h
      obtain ⟨hhappens, hlater⟩ := List.forall_mem_cons.mp hpermits
      cases hdone : done pipeline with
      | true =>
          rw [runUntilAmid_of_done hdone] at h
          cases h
          exact reached pipeline _ hdone
      | false =>
          by_cases hmove : happens = .move
          · rw [hmove, runUntilAmid_move hdone] at h
            split at h
            · rename_i hgoes
              obtain ⟨rest, hrest, rfl⟩ := Option.map_eq_some_iff.mp h
              exact moves pipeline rest hdone hgoes (ih hlater hrest)
            · rename_i hends
              cases h
              exact ends pipeline later hdone (Bool.eq_false_iff.mpr hends)
          · rw [runUntilAmid_event hdone hmove] at h
            exact event pipeline happens ended hdone hmove hhappens (ih hlater h)

end Microprocessor.Pipeline
