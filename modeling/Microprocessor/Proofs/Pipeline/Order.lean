import Microprocessor.Proofs.Pipeline.Run
import Microprocessor.Proofs.Storage.Prefetch

/-! # One decoded instruction at a time

    An instruction is decoded only when none is waiting to be executed, and a
    wait is always a wait with one.  So at most one instruction is ever held
    back, and one that is to be executed is there.

      * `Pipeline.prepare_prepared` says once what decoding can come to;
      * `Pipeline.Orderly` is the discipline of the decoded instructions, kept
        by every event (`Pipeline.Orderly.after`);
      * `Pipeline.orderly_of_run`: every reachable pipeline is orderly. -/

namespace Microprocessor

namespace Pipeline

variable {κ ι δ γ : Type} [Core κ ι] [Decoded ι] [PortDevice δ] [InterruptController γ]

/-! ## What decoding can come to -/

/-- What seeing to it that an instruction is decoded leaves behind. -/
inductive Prepared (pipeline : Pipeline κ ι δ γ) :
    Pipeline κ ι δ γ × Option (Except Fault TickOutcome) → Prop
  /-- An instruction has been decoded before. -/
  | keeps (hheld : pipeline.decoded.isEmpty = false) : Prepared pipeline (pipeline, none)
  | halts (hempty : pipeline.decoded.isEmpty = true)
      (hhalted : Core.isHalted pipeline.serviceInterrupts.core = true) :
      Prepared pipeline
        ({ pipeline.serviceInterrupts with stage := .halted }, some (.ok .halted))
  | ends (hempty : pipeline.decoded.isEmpty = true) (bus : Bus δ) :
      Prepared pipeline
        ({ pipeline.serviceInterrupts with bus, stage := .fetching }, some (.ok .endOfStream))
  /-- No instruction can be decoded ahead. -/
  | overflows (hempty : pipeline.decoded.isEmpty = true) (hdepth : pipeline.decoded.depth = 0)
      (bus : Bus δ) (faults : FaultUnit) (fault : Fault) :
      Prepared pipeline
        ({ pipeline.serviceInterrupts with bus, faults, stage := .decoding },
          some (.error fault))
  | decodes (hempty : pipeline.decoded.isEmpty = true) (bus : Bus δ) {source : ByteSource}
      {instruction : ι} (hdecode : pipeline.architecture.decode source 0 = .ok instruction) :
      Prepared pipeline
        ({ pipeline.serviceInterrupts with
            stage := .decoding
            decoded :=
              { pipeline.decoded with
                items := [(pipeline.serviceInterrupts.fetchAddress, instruction)] }
            bus
            core := Core.advance pipeline.serviceInterrupts.core (Decoded.length instruction) },
          none)

/-- The first instruction decoded ahead is queued if any can be. -/
theorem push_of_isEmpty {α : Type} {queue : DecodedQueue α} (h : queue.isEmpty = true)
    (item : α) :
    queue.push item
      = if 0 < queue.depth then .ok { queue with items := [item] } else .error .full := by
  have hitems : queue.items = [] := List.isEmpty_iff.mp h
  rw [DecodedQueue.push, DecodedQueue.size, hitems]
  rfl

omit [PortDevice δ] in
/-- Where an instruction is held, nothing is decoded. -/
theorem prepare_of_held {pipeline : Pipeline κ ι δ γ} (hheld : pipeline.decoded.isEmpty = false) :
    pipeline.prepare = (pipeline, none) := by
  rw [prepare, hheld]
  rfl

omit [PortDevice δ] in
/-- Decoding comes to one of these. -/
theorem prepare_prepared (pipeline : Pipeline κ ι δ γ) :
    Prepared pipeline pipeline.prepare := by
  rw [prepare]
  cases hempty : pipeline.decoded.isEmpty with
  | false => exact .keeps hempty
  | true =>
      rw [if_pos rfl, fetchNext]
      simp only
      cases hhalted : Core.isHalted pipeline.serviceInterrupts.core with
      | true => exact .halts hempty hhalted
      | false =>
          -- A fetch always succeeds.
          obtain ⟨queue, hfetch, -, -⟩ := pipeline.serviceInterrupts.bus.fetch_byteAt
            (Core.codeAddress pipeline.serviceInterrupts.core)
          rw [if_neg Bool.false_ne_true, hfetch]
          simp only [decodeNext]
          split
          · exact .ends hempty _
          · rename_i instruction hdecode
            have hpush := push_of_isEmpty hempty
              (pipeline.serviceInterrupts.fetchAddress, instruction)
            split
            · rename_i failure hfailed
              have hpush := hpush.symm.trans hfailed
              split at hpush
              · cases hpush
              · exact .overflows hempty (by omega) _ _ _
            · rename_i decoded hpushed
              have hpush := hpush.symm.trans hpushed
              split at hpush
              · cases hpush
                exact .decodes hempty _ hdecode
              · cases hpush

/-! ## The discipline -/

/-- At most one instruction is decoded ahead, and a wait is a wait with one. -/
structure Orderly (pipeline : Pipeline κ ι δ γ) : Prop where
  size_le : pipeline.decoded.size ≤ 1
  waiting : pipeline.step.waiting = true → pipeline.decoded.isEmpty = false

omit [Core κ ι] [Decoded ι] [PortDevice δ] [InterruptController γ] in
/-- What changes neither the decoded instructions nor the wait keeps a pipeline
    orderly. -/
theorem Orderly.congr {pipeline after : Pipeline κ ι δ γ} (h : pipeline.Orderly)
    (hdecoded : after.decoded = pipeline.decoded)
    (hwaiting : after.step.waiting = pipeline.step.waiting) : after.Orderly := by
  constructor
  · rw [hdecoded]
    exact h.size_le
  · rw [hdecoded, hwaiting]
    exact h.waiting

omit [Core κ ι] [Decoded ι] [PortDevice δ] [InterruptController γ] in
/-- With nothing decoded ahead and no wait, a pipeline is orderly. -/
theorem orderly_of_isEmpty {pipeline : Pipeline κ ι δ γ} (hempty : pipeline.decoded.isEmpty = true)
    (hwaiting : pipeline.step.waiting = false) : pipeline.Orderly := by
  constructor
  · have hitems : pipeline.decoded.items = [] := List.isEmpty_iff.mp hempty
    rw [DecodedQueue.size, hitems]
    exact Nat.zero_le 1
  · rw [hwaiting]
    intro h
    cases h

omit [Core κ ι] [Decoded ι] [PortDevice δ] [InterruptController γ] in
/-- With nothing decoded ahead there is no wait. -/
theorem Orderly.waiting_of_isEmpty {pipeline : Pipeline κ ι δ γ} (h : pipeline.Orderly)
    (hempty : pipeline.decoded.isEmpty = true) : pipeline.step.waiting = false := by
  refine Bool.eq_false_iff.mpr fun hwaiting => ?_
  rw [h.waiting hwaiting] at hempty
  cases hempty

/-- A wait that has ended is over. -/
theorem waiting_of_settle {control step : StepControl} {wake : Wake}
    (h : control.settle = some (wake, step)) : step.waiting = false := by
  rw [StepControl.settle] at h
  split at h
  · cases h
    rfl
  · split at h
    · cases h
      rfl
    · split at h
      · cases h
      · cases h
        rfl

omit [PortDevice δ] in
/-- Decoding leaves single-step control alone. -/
theorem step_prepare (pipeline : Pipeline κ ι δ γ) : pipeline.prepare.1.step = pipeline.step := by
  have h := prepare_prepared pipeline
  generalize pipeline.prepare = prepared at h
  cases h <;> rfl

omit [PortDevice δ] in
/-- Decoding keeps a pipeline orderly. -/
theorem Orderly.prepare {pipeline : Pipeline κ ι δ γ} (h : pipeline.Orderly)
    (hwaiting : pipeline.step.waiting = false) : pipeline.prepare.1.Orderly := by
  have hprepared := prepare_prepared pipeline
  generalize pipeline.prepare = prepared at hprepared
  cases hprepared with
  | keeps _ => exact h
  | halts hempty _ => exact orderly_of_isEmpty hempty hwaiting
  | ends hempty _ => exact orderly_of_isEmpty hempty hwaiting
  | overflows hempty _ _ _ _ => exact orderly_of_isEmpty hempty hwaiting
  | decodes _ _ _ => exact ⟨Nat.le_refl 1, fun _ => rfl⟩

omit [PortDevice δ] in
/-- When decoding leaves something to execute, it is there. -/
theorem isEmpty_of_prepare {pipeline prepared : Pipeline κ ι δ γ}
    (h : pipeline.prepare = (prepared, none)) : prepared.decoded.isEmpty = false := by
  have hprepared := prepare_prepared pipeline
  rw [h] at hprepared
  cases hprepared with
  | keeps hheld => exact hheld
  | decodes _ _ _ => rfl

omit [PortDevice δ] in
/-- When decoding leaves nothing to execute, nothing has been decoded. -/
theorem isEmpty_of_prepare_some {pipeline : Pipeline κ ι δ γ}
    (hempty : pipeline.decoded.isEmpty = true) {result : Except Fault TickOutcome}
    (h : pipeline.prepare.2 = some result) : pipeline.prepare.1.decoded.isEmpty = true := by
  have hprepared := prepare_prepared pipeline
  generalize pipeline.prepare = prepared at hprepared h
  cases hprepared with
  | keeps _ => cases h
  | halts _ _ => exact hempty
  | ends _ _ => exact hempty
  | overflows _ _ _ _ _ => exact hempty
  | decodes _ _ _ => cases h

omit [Core κ ι] [Decoded ι] [PortDevice δ] [InterruptController γ] in
/-- The instruction decoded ahead is the oldest, and nothing is left behind it. -/
theorem Orderly.pop {ready : Pipeline κ ι δ γ} (hsize : ready.decoded.size ≤ 1)
    (hheld : ready.decoded.isEmpty = false) :
    ∃ address instruction, ready.decoded.items = [(address, instruction)]
      ∧ ready.decoded.pop = .ok ((address, instruction), { ready.decoded with items := [] }) := by
  rw [DecodedQueue.isEmpty] at hheld
  rw [DecodedQueue.size] at hsize
  rw [DecodedQueue.pop]
  cases hitems : ready.decoded.items with
  | nil =>
      rw [hitems] at hheld
      cases hheld
  | cons item rest =>
      obtain ⟨address, instruction⟩ := item
      have hrest : rest = [] := by
        rw [hitems, List.length_cons] at hsize
        exact List.eq_nil_of_length_eq_zero (by omega)
      rw [hrest]
      exact ⟨address, instruction, rfl, rfl⟩

omit [PortDevice δ] in
/-- A move comes to execute an instruction that was waited with or has been
    decoded. -/
theorem readied?_cases {pipeline ready : Pipeline κ ι δ γ} (h : pipeline.readied? = some ready) :
    (pipeline.step.waiting = true ∧ ∃ step, ready = { pipeline with step })
      ∨ (pipeline.step.waiting = false ∧ pipeline.prepare = (ready, none)) := by
  rw [readied?] at h
  split at h
  · rename_i hwaiting
    split at h
    · rename_i step _
      cases h
      exact .inl ⟨hwaiting, step, rfl⟩
    · cases h
  · rename_i hwaiting
    split at h
    · cases h
    · split at h
      · rename_i prepared hprepare
        split at h
        · cases h
        · cases h
          exact .inr ⟨Bool.eq_false_iff.mpr hwaiting, hprepare⟩
      · cases h

omit [PortDevice δ] in
/-- Where a move of an orderly pipeline comes to execute an instruction, there is
    one. -/
theorem Orderly.readied {pipeline ready : Pipeline κ ι δ γ} (h : pipeline.Orderly)
    (hready : pipeline.readied? = some ready) :
    ready.decoded.size ≤ 1 ∧ ready.decoded.isEmpty = false := by
  obtain ⟨hwaiting, step, rfl⟩ | ⟨hwaiting, hprepare⟩ := readied?_cases hready
  · exact ⟨h.size_le, h.waiting hwaiting⟩
  · have hprepared := h.prepare hwaiting
    rw [hprepare] at hprepared
    exact ⟨hprepared.size_le, isEmpty_of_prepare hprepare⟩

omit [InterruptController γ] in
/-- Executing what has been decoded ahead leaves nothing decoded, and single-step
    control as it was. -/
theorem executeNext_empties {ready : Pipeline κ ι δ γ} (hsize : ready.decoded.size ≤ 1)
    (hheld : ready.decoded.isEmpty = false) :
    ready.executeNext.1.decoded.isEmpty = true ∧ ready.executeNext.1.step = ready.step := by
  obtain ⟨address, instruction, -, hpop⟩ := Orderly.pop hsize hheld
  obtain ⟨stage, hexecute⟩ := executeNext_of_pop hpop
  rw [hexecute]
  exact ⟨rfl, rfl⟩

/-! ## Every event keeps it -/

/-- Between moves nothing happens to the decoded instructions and the counters. -/
theorem keeps_of_ne_move (pipeline : Pipeline κ ι δ γ) {event : Event κ δ γ} (h : event ≠ .move) :
    (pipeline.after event).decoded = pipeline.decoded
      ∧ (pipeline.after event).architecture = pipeline.architecture
      ∧ (pipeline.after event).executed = pipeline.executed
      ∧ (pipeline.after event).clock = pipeline.clock := by
  cases event with
  | move => exact absurd rfl h
  | load base image =>
      simp only [Pipeline.after]
      split
      · exact ⟨rfl, rfl, rfl, rfl⟩
      · exact ⟨rfl, rfl, rfl, rfl⟩
  | attach range device =>
      simp only [Pipeline.after]
      split
      · exact ⟨rfl, rfl, rfl, rfl⟩
      · exact ⟨rfl, rfl, rfl, rfl⟩
  | _ => exact ⟨rfl, rfl, rfl, rfl⟩

/-- Between moves nothing happens to the core, unless it is set. -/
theorem core_after (pipeline : Pipeline κ ι δ γ) {event : Event κ δ γ} (hmove : event ≠ .move)
    (hset : ∀ core, event ≠ .setCore core) :
    (pipeline.after event).core = pipeline.core := by
  cases event with
  | move => exact absurd rfl hmove
  | setCore core => exact absurd rfl (hset core)
  | load base image =>
      simp only [Pipeline.after]
      split
      · rfl
      · rfl
  | attach range device =>
      simp only [Pipeline.after]
      split
      · rfl
      · rfl
  | _ => rfl

/-- So an event sets the core or leaves it as it was. -/
theorem core_set_or_kept (pipeline : Pipeline κ ι δ γ) {event : Event κ δ γ}
    (hmove : event ≠ .move) :
    (∃ core, event = .setCore core) ∨ (pipeline.after event).core = pipeline.core := by
  by_cases hset : ∃ core, event = .setCore core
  · exact .inl hset
  · exact .inr (core_after pipeline hmove fun core h => hset ⟨core, h⟩)

/-- A move keeps a pipeline orderly. -/
theorem Orderly.tick {pipeline : Pipeline κ ι δ γ} (h : pipeline.Orderly) :
    pipeline.tick.1.Orderly := by
  have hmove := tick_move pipeline
  generalize pipeline.tick = result at hmove
  cases hmove with
  | waits _ _ => exact h
  | leaves _ hsettle => exact ⟨h.size_le, fun hwaits => by
      rw [waiting_of_settle hsettle] at hwaits
      cases hwaits⟩
  | @proceeds step hwaiting hsettle =>
      obtain ⟨hempty, hstep⟩ : (executeNext { pipeline with step }).1.decoded.isEmpty = true
          ∧ (executeNext { pipeline with step }).1.step = step :=
        executeNext_empties h.size_le (h.waiting hwaiting)
      refine orderly_of_isEmpty hempty ?_
      rw [hstep]
      exact waiting_of_settle hsettle
  | stops _ _ => exact h
  | @idles prepared _ hwaiting _ hprepare =>
      have hprepared := h.prepare hwaiting
      rw [hprepare] at hprepared
      exact hprepared
  | @holds prepared hwaiting _ hprepare _ =>
      have hprepared := h.prepare hwaiting
      have hheld := isEmpty_of_prepare hprepare
      rw [hprepare] at hprepared
      exact ⟨hprepared.size_le, fun _ => hheld⟩
  | @executes prepared hwaiting _ hprepare _ =>
      have hprepared := h.prepare hwaiting
      have hstep := step_prepare pipeline
      rw [hprepare] at hprepared hstep
      obtain ⟨hempty, hsame⟩ :=
        executeNext_empties hprepared.size_le (isEmpty_of_prepare hprepare)
      refine orderly_of_isEmpty hempty ?_
      rw [hsame, hstep]
      exact hwaiting

/-- Every event keeps a pipeline orderly. -/
theorem Orderly.after {pipeline : Pipeline κ ι δ γ} (event : Event κ δ γ) (h : pipeline.Orderly) :
    (pipeline.after event).Orderly := by
  cases event with
  | move => exact h.tick
  | load base image =>
      simp only [Pipeline.after]
      split
      · exact h.congr rfl rfl
      · exact h
  | attach range device =>
      simp only [Pipeline.after]
      split
      · exact h.congr rfl rfl
      · exact h
  | _ => exact h.congr rfl rfl

omit [Core κ ι] [Decoded ι] [PortDevice δ] [InterruptController γ] in
/-- A pipeline that has not begun is orderly. -/
theorem orderly_of (architecture : Architecture ι) (core : κ) (memory : Memory)
    (ports : PortMap δ) :
    (of architecture core memory ports : Pipeline κ ι δ γ).Orderly :=
  orderly_of_isEmpty rfl rfl

/-- A run from an orderly pipeline is orderly throughout. -/
theorem Orderly.run {allowed : Pipeline κ ι δ γ → Event κ δ γ → Prop}
    {start pipeline : Pipeline κ ι δ γ} (hstart : start.Orderly)
    (hrun : Run allowed start pipeline) :
    pipeline.Orderly :=
  hrun.invariant hstart fun _ event _ h => h.after event

end Pipeline

end Microprocessor
