import Microprocessor.Proofs.Encoding.Overrun
import Microprocessor.Proofs.Pipeline.Boundary
import Microprocessor.Proofs.Pipeline.Faults
import Microprocessor.Proofs.Pipeline.Outcome
import Microprocessor.Proofs.Pipeline.Transparency

/-! # Running out of bytes

    Where memory ends within the next instruction, a move takes the interrupts
    there are and leaves the rest alone: nothing is consumed, and the next move
    finds what this one found.

      * `Pipeline.Exhausted` is a pipeline at the end of its stream;
        `Pipeline.tick_endOfStream`: a move that reports the end leaves one;
      * `Pipeline.Exhausted.run`: it remains one for as long as no interrupt is
        taken and nobody touches registers or memory;
      * `Pipeline.endsExactly`: the end is reported exactly where the encoding
        reaches past the end of memory;
      * `endOfStream_intact` is the result for both processors. -/

namespace Microprocessor

namespace Pipeline

variable {κ ι δ γ : Type} [Core κ ι] [Decoded ι] [PortDevice δ] [InterruptController γ]

/-! ## Coming to the end -/

/-- The stream ends within the next instruction, and nothing is left to be fetched. -/
structure Exhausted (pipeline : Pipeline κ ι δ γ) : Prop where
  fetching : pipeline.stage = .fetching
  empty : pipeline.decoded.isEmpty = true
  waiting : pipeline.step.waiting = false
  running : Core.isHalted pipeline.core = false
  fetched : pipeline.bus.fetch (Core.codeAddress pipeline.core) = .ok pipeline.bus
  ends : ∃ failure, pipeline.architecture.decode pipeline.bus.byteAt 0 = .error failure

/-- All that a move leaves behind at the end of the stream: what the boundary left, with
    the bytes up to the end fetched from where the core stands. -/
def EndsAt (served after : Pipeline κ ι δ γ) : Prop :=
  ∃ queue, after = { served with
    bus := { served.bus with queue, head := Core.codeAddress served.core }
    stage := .fetching }

omit [PortDevice δ] in
/-- Decoding that comes to the end of the stream. -/
theorem prepare_endOfStream {pipeline after : Pipeline κ ι δ γ}
    (hwaiting : pipeline.step.waiting = false)
    (h : pipeline.prepare = (after, some (.ok .endOfStream))) :
    pipeline.serviceInterrupts.EndsAt after ∧ after.Exhausted := by
  rw [prepare] at h
  split at h
  · rename_i hempty
    rw [fetchNext] at h
    simp only at h
    cases hhalted : Core.isHalted pipeline.serviceInterrupts.core with
    | true =>
        rw [if_pos hhalted] at h
        cases h
    | false =>
        obtain ⟨queue, hfetch, -, -⟩ := pipeline.serviceInterrupts.bus.fetch_byteAt
          (Core.codeAddress pipeline.serviceInterrupts.core)
        rw [hhalted, if_neg Bool.false_ne_true, hfetch] at h
        simp only [decodeNext] at h
        split at h
        · rename_i failure hdecode
          cases h
          exact ⟨⟨queue, rfl⟩, rfl, hempty, hwaiting, hhalted, Bus.fetch_fetch hfetch, failure,
            hdecode⟩
        · split at h
          · cases h
          · cases h
  · cases h

/-- A move that reports the end of the stream leaves a pipeline that is at the end. -/
theorem tick_endOfStream {pipeline : Pipeline κ ι δ γ} (h : pipeline.tick.2 = .ok .endOfStream) :
    pipeline.serviceInterrupts.EndsAt pipeline.tick.1 ∧ pipeline.tick.1.Exhausted := by
  have hmove := tick_move pipeline
  generalize pipeline.tick = result at hmove h
  cases hmove with
  | waits _ _ => cases h
  | leaves _ _ => cases h
  | proceeds _ _ => exact absurd h (executeNext_ne _ (by decide) (by decide))
  | stops _ _ => cases h
  | idles hwaiting _ hprepare =>
      obtain rfl := h
      exact prepare_endOfStream hwaiting hprepare
  | holds _ _ _ _ => cases h
  | executes _ _ _ _ => exact absurd h (executeNext_ne _ (by decide) (by decide))

section Interruptible

variable [InterruptibleCore κ ι]

/-! ## Staying there -/

/-- A move at the end at which no interrupt is eligible changes nothing. -/
theorem Exhausted.tick_of_quiet {pipeline : Pipeline κ ι δ γ} (h : pipeline.Exhausted)
    (hquiet : pipeline.Quiet) (hstop : pipeline.step.stop = false) :
    pipeline.tick = (pipeline, .ok .endOfStream) := by
  obtain ⟨failure, hends⟩ := h.ends
  have hprepare : pipeline.prepare = (pipeline, some (.ok .endOfStream)) := by
    rw [prepare, if_pos h.empty, fetchNext, serviceInterrupts_of_quiet hquiet]
    simp only
    rw [h.running, if_neg Bool.false_ne_true, h.fetched]
    simp only [decodeNext, hends]
    rw [← h.fetching]
  rw [tick_of_services ⟨h.waiting, hstop, h.empty⟩, hprepare]

/-- No interrupt is taken, and of the pipeline nothing is touched but the interrupt inputs
    and single-step control. -/
def Undisturbed (pipeline : Pipeline κ ι δ γ) : Event κ δ γ → Prop
  | .move => pipeline.step.stop = true ∨ pipeline.Quiet
  | .raiseNmi | .setController _ => True
  | .setArmed _ | .toggle | .resume | .requestStop | .clearStop => True
  | _ => False

/-- An event of that kind leaves a pipeline at the end, with the rest as it was. -/
theorem Exhausted.after {pipeline : Pipeline κ ι δ γ} (h : pipeline.Exhausted)
    {event : Event κ δ γ} (hevent : Undisturbed pipeline event) :
    (pipeline.after event).Exhausted
      ∧ ∃ step interrupts, pipeline.after event = { pipeline with step, interrupts } := by
  cases event with
  | move =>
      have hsame : pipeline.after .move = pipeline := by
        cases hstop : pipeline.step.stop with
        | true => exact congrArg Prod.fst (tick_of_stop h.waiting hstop)
        | false =>
            refine congrArg Prod.fst (h.tick_of_quiet (hevent.resolve_left ?_) hstop)
            rw [hstop]
            exact Bool.false_ne_true
      rw [hsame]
      exact ⟨h, pipeline.step, pipeline.interrupts, rfl⟩
  | raiseNmi | setController _ | setArmed _ | toggle | resume | requestStop | clearStop =>
      exact ⟨⟨h.fetching, h.empty, h.waiting, h.running, h.fetched, h.ends⟩, _, _, rfl⟩
  | setCore _ | store _ _ | load _ _ | attach _ _ | resetQueue | mask _ | unmask _ | clearFaults =>
      exact hevent.elim

/-- Along a run of such events a pipeline stays at the end, with the rest as it was. -/
theorem Exhausted.run {start later : Pipeline κ ι δ γ} (h : start.Exhausted)
    (hrun : Run Undisturbed start later) :
    later.Exhausted ∧ ∃ step interrupts, later = { start with step, interrupts } := by
  induction hrun with
  | refl => exact ⟨h, start.step, start.interrupts, rfl⟩
  | event _ event permitted ih =>
      obtain ⟨hexhausted, step, interrupts, hsame⟩ := ih
      obtain ⟨hafter, step', interrupts', hnext⟩ := hexhausted.after permitted
      refine ⟨hafter, step', interrupts', ?_⟩
      rw [hnext, hsame]

/-- The move ends within an instruction and leaves the pipeline intact: it changes nothing
    that the boundary left, and the next ones find the same. -/
structure EndsIntact (pipeline : Pipeline κ ι δ γ) : Prop where
  keeps : pipeline.serviceInterrupts.EndsAt pipeline.tick.1
  incomplete : ∃ failure, pipeline.architecture.decode pipeline.tick.1.bus.byteAt 0
    = .error failure
  rests : ∀ later, Run Undisturbed pipeline.tick.1 later →
    ∃ step interrupts, later = { pipeline.tick.1 with step, interrupts }
  recurs : ∀ later, Run Undisturbed pipeline.tick.1 later →
    later.Quiet → later.step.stop = false → later.tick = (later, .ok .endOfStream)

/-- So does every move that reports the end of the stream. -/
theorem endsIntact {pipeline : Pipeline κ ι δ γ} (h : pipeline.tick.2 = .ok .endOfStream) :
    pipeline.EndsIntact := by
  obtain ⟨hends, hexhausted⟩ := tick_endOfStream h
  refine ⟨hends, ?_, fun later hrun => (hexhausted.run hrun).2, ?_⟩
  · obtain ⟨queue, hafter⟩ := hends
    have harchitecture : pipeline.tick.1.architecture = pipeline.architecture := by
      rw [hafter]
      rfl
    rw [← harchitecture]
    exact hexhausted.ends
  · intro later hrun hquiet hstop
    exact (hexhausted.run hrun).1.tick_of_quiet hquiet hstop

end Interruptible

/-! ## Where the end is -/

omit [PortDevice δ] [InterruptController γ] in
/-- Decoding reports the end exactly if nothing is decoded from the stream. -/
theorem decodeNext_endOfStream_iff (pipeline : Pipeline κ ι δ γ) :
    pipeline.decodeNext.2 = some (.ok .endOfStream) ↔
      ∃ failure, pipeline.architecture.decode pipeline.bus.byteAt 0 = .error failure := by
  rw [decodeNext]
  simp only
  cases hdecode : pipeline.architecture.decode pipeline.bus.byteAt 0 with
  | error failure => exact iff_of_true rfl ⟨failure, rfl⟩
  | ok instruction =>
      constructor
      · intro hends
        simp only at hends
        split at hends
        · cases hends
        · cases hends
      · rintro ⟨failure, hfails⟩
        cases hfails

/-- A move that is to decode reports the end exactly if decoding does. -/
theorem tick_endOfStream_iff_prepare {pipeline : Pipeline κ ι δ γ} (h : pipeline.Services) :
    pipeline.tick.2 = .ok .endOfStream ↔ pipeline.prepare.2 = some (.ok .endOfStream) := by
  rw [tick_of_services h]
  cases hprepare : pipeline.prepare with
  | mk prepared result =>
      cases result with
      | some result => exact (Option.some_inj).symm
      | none =>
          constructor
          · intro hends
            simp only at hends
            split at hends
            · cases hends
            · exact absurd hends (executeNext_ne prepared (by decide) (by decide))
          · intro hends
            cases hends

/-- A move that is to decode, with a core that is not halted, reports the end exactly if
    nothing is decoded from the stream that begins where the core stands. -/
theorem tick_endOfStream_iff {pipeline : Pipeline κ ι δ γ} (hservices : pipeline.Services)
    (hrunning : Core.isHalted pipeline.serviceInterrupts.core = false) :
    pipeline.tick.2 = .ok .endOfStream ↔
      ∃ failure, pipeline.architecture.decode
        (pipeline.serviceInterrupts.bus.seek
          (Core.codeAddress pipeline.serviceInterrupts.core)).byteAt 0 = .error failure := by
  obtain ⟨queue, hfetch, -, hstream⟩ := pipeline.serviceInterrupts.bus.fetch_byteAt
    (Core.codeAddress pipeline.serviceInterrupts.core)
  rw [tick_endOfStream_iff_prepare hservices, prepare, if_pos hservices.2.2, fetchNext]
  simp only
  rw [hrunning, if_neg Bool.false_ne_true, hfetch, ← hstream]
  exact decodeNext_endOfStream_iff _

/-- If no stop is asked for, nothing is decoded ahead, the core goes on, and the bytes that
    are queued where it does are those of memory, a move reports the end exactly if the
    encoding that begins there reaches past the end of memory. -/
def EndsExactly [InterruptibleCore κ ι] (pipeline : Pipeline κ ι δ γ) : Prop :=
  pipeline.step.stop = false → pipeline.decoded.isEmpty = true →
    (Core.isHalted pipeline.core = false ∨ ¬ pipeline.Quiet) →
      (pipeline.serviceInterrupts.bus.seek
        (Core.codeAddress pipeline.serviceInterrupts.core)).Agrees →
        (pipeline.tick.2 = .ok .endOfStream ↔
          Overruns pipeline.architecture.decode
            (pipeline.serviceInterrupts.bus.memory.code
              (Core.codeAddress pipeline.serviceInterrupts.core)))

/-- With a decoder that delimits instructions, it does so. -/
theorem endsExactly [InterruptibleCore κ ι] {pipeline : Pipeline κ ι δ γ}
    (horderly : pipeline.Orderly) (hdelimits : Delimits pipeline.architecture.decode) :
    pipeline.EndsExactly := by
  intro hstop hempty hgoes hagrees
  have hwaiting := horderly.waiting_of_isEmpty hempty
  rw [tick_endOfStream_iff ⟨hwaiting, hstop, hempty⟩ (isHalted_serviceInterrupts hgoes),
    Bus.seek_byteAt hagrees]
  exact hdelimits.error_iff_overruns

end Pipeline

/-! ## Both processors -/

open Pipeline

/-- A move of a reachable pipeline that runs out of bytes leaves registers, memory, ports,
    faults, decoded instructions, clock and count as the interrupt boundary left them, with
    the core still before the instruction that memory ends within; and as long as no
    interrupt is taken, moves report the same and change nothing.  Where the core goes on,
    nothing is decoded ahead, no stop is asked for, and the queued bytes are those of
    memory, a move runs out exactly if the encoding that begins where the core goes on
    reaches past the end of memory. -/
theorem endOfStream_intact {δ γ : Type} [PortDevice δ] [InterruptController γ] :
    (∀ (architecture : Architecture X86.Instruction) (core : X86.ExecutionUnit)
      (memory : Memory) (ports : PortMap δ)
      (pipeline : Pipeline X86.ExecutionUnit X86.Instruction δ γ),
      Run (fun _ _ => True) (.of architecture core memory ports) pipeline →
        (pipeline.tick.2 = .ok .endOfStream → pipeline.EndsIntact)
          ∧ (architecture.decode = X86.decode → pipeline.EndsExactly)) ∧
    (∀ (architecture : Architecture Arm.Instruction) (core : Arm.Processor)
      (memory : Memory) (ports : PortMap δ)
      (pipeline : Pipeline Arm.Processor Arm.Instruction δ γ),
      Run (fun _ _ => True) (.of architecture core memory ports) pipeline →
        (pipeline.tick.2 = .ok .endOfStream → pipeline.EndsIntact)
          ∧ (architecture.decode = Arm.decode → pipeline.EndsExactly)) := by
  constructor
  · intro architecture core memory ports pipeline hrun
    have hbegun := orderly_of (γ := γ) architecture core memory ports
    have hbuilt := (built_of architecture core memory ports).run hbegun hrun
    refine ⟨endsIntact, fun hdecode => endsExactly (hbegun.run hrun) ?_⟩
    rw [hbuilt.architecture_eq, hdecode]
    exact X86.delimits
  · intro architecture core memory ports pipeline hrun
    have hbegun := orderly_of (γ := γ) architecture core memory ports
    have hbuilt := (built_of architecture core memory ports).run hbegun hrun
    refine ⟨endsIntact, fun hdecode => endsExactly (hbegun.run hrun) ?_⟩
    rw [hbuilt.architecture_eq, hdecode]
    exact Arm.delimits

/-- An 8086 before a move of a word of which memory holds the first byte only. -/
def cutOffStart : Pipeline X86.ExecutionUnit X86.Instruction Terminal.Console InterruptLine :=
  .of X86.realMode .initial ⟨#[0xB8, 0x34], none⟩ .empty

/-- The word reaches past the end of memory; the move that finds this leaves the unit before
    the instruction, with both bytes queued. -/
theorem endOfStream_intact_cut_off :
    cutOffStart.EndsIntact
      ∧ Overruns X86.decode (cutOffStart.serviceInterrupts.bus.memory.code
          (Core.codeAddress cutOffStart.serviceInterrupts.core))
      ∧ cutOffStart.tick.1.core = cutOffStart.core
      ∧ cutOffStart.tick.1.bus.queue.bytes = [0xB8, 0x34] := by
  obtain ⟨hintact, hexactly⟩ :=
    endOfStream_intact.1 X86.realMode .initial ⟨#[0xB8, 0x34], none⟩ .empty cutOffStart .refl
  have hends : cutOffStart.tick.2 = .ok .endOfStream := rfl
  refine ⟨hintact hends, ?_, by decide +kernel, by decide +kernel⟩
  refine (hexactly rfl (by decide +kernel) (by decide +kernel) (.inl rfl) ?_).mp hends
  intro i hi
  cases hi

end Microprocessor
