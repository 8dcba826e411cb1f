import Microprocessor.Arm.A32
import Microprocessor.Proofs.Control.FaultLog
import Microprocessor.Proofs.Pipeline.Amid
import Microprocessor.Proofs.Pipeline.History
import Microprocessor.Proofs.Pipeline.Raising
import Microprocessor.X86.RealMode

/-! # Only programs fault

    A move ends in a fault only if the program has asked for something that is
    not there, an instruction or a port, and faults of that kind are not masked.
    The queues are never used wrongly, and no instruction is executed that the
    decoder cannot have made.

      * `Executed.Regular` is asked of what an instruction leaves behind, and holds
        of one that raises faults first; `Architecture.Sound` says that whatever
        the architecture decodes is executed so;
      * `Pipeline.Built` is the invariant: what waits has been decoded;
      * `Pipeline.tick_regular` is the one step; `Pipeline.runMoves_ne_error` and
        `Pipeline.runUntilAmid_ne_error` are the runs with everything masked that can be,
        left alone and amid events;
      * `internal_faults_unreachable` is the result for both processors. -/

namespace Microprocessor

/-! ## Faults that stop a run -/

namespace FaultUnit

/-- What is masked depends on the masks alone. -/
theorem isMasked_congr {faults after : FaultUnit} (h : after.masked = faults.masked)
    (kind : FaultKind) : after.isMasked kind = faults.isMasked kind := by
  rw [isMasked, isMasked, h]

/-- The fault is the program's, and its kind is not masked. -/
structure Stops (faults : FaultUnit) (fault : Fault) : Prop where
  kind : fault.kind = .undefinedInstruction ∨ fault.kind = .unattachedPort
  unmasked : faults.isMasked fault.kind = false

/-- Everything is masked that can be. -/
def MasksAll (faults : FaultUnit) : Prop :=
  ∀ kind : FaultKind, kind.maskable = true → faults.isMasked kind = true

/-- So it is at first. -/
theorem masksAll_initial : initial.MasksAll := by
  intro kind hkind
  cases kind <;> exact hkind

/-- Then no fault of the program stops it. -/
theorem MasksAll.not_stops {faults : FaultUnit} (h : faults.MasksAll) (fault : Fault) :
    ¬ faults.Stops fault := by
  rintro ⟨hkind, hunmasked⟩
  have hmaskable : fault.kind.maskable = true := by
    obtain hkind | hkind := hkind <;> rw [hkind] <;> rfl
  rw [h _ hmaskable] at hunmasked
  cases hunmasked

theorem MasksAll.congr {faults after : FaultUnit} (h : faults.MasksAll)
    (hmasked : after.masked = faults.masked) : after.MasksAll :=
  fun kind hkind => (isMasked_congr hmasked kind).trans (h kind hkind)

/-- Masking a kind masks no less. -/
theorem MasksAll.mask {faults : FaultUnit} (h : faults.MasksAll) (kind : FaultKind) :
    (faults.mask kind).1.MasksAll := by
  cases hkind : kind.maskable with
  | false =>
      rw [mask_of_not_maskable faults hkind]
      exact h.congr rfl
  | true =>
      intro other hother
      rw [FaultUnit.mask, if_pos hkind, isMasked, FaultTable.get_set, hother, Bool.true_and]
      split
      · rfl
      · exact (Bool.and_eq_true_iff.mp (h other hother)).2

/-- Unmasking one that cannot be masked changes nothing. -/
theorem MasksAll.unmask {faults : FaultUnit} (h : faults.MasksAll) {kind : FaultKind}
    (hkind : kind.maskable = false) : (faults.unmask kind).MasksAll := by
  intro other hother
  rw [isMasked, FaultUnit.unmask, FaultTable.get_set, if_neg]
  · exact h other hother
  · rintro rfl
    rw [hkind] at hother
    cases hother

end FaultUnit

/-- An instruction has left the masks alone, and only a fault of the program can
    have stopped it. -/
structure Executed.Regular {κ δ : Type} (faults : FaultUnit) (executed : Executed κ δ) :
    Prop where
  masked : executed.faults.masked = faults.masked
  stops : ∀ fault, executed.fault = some fault → faults.Stops fault

/-- An instruction that raises faults first is executed regularly. -/
theorem Executed.RaisesFirst.regular {κ δ : Type} {core : κ} {bus : Bus δ}
    {run : FaultUnit → Executed κ δ} (h : RaisesFirst core bus run) (faults : FaultUnit) :
    (run faults).Regular faults := by
  cases h with
  | quiet hquiet =>
      obtain ⟨hfaults, hfault⟩ := hquiet faults
      refine ⟨congrArg FaultUnit.masked hfaults, ?_⟩
      intro fault hstopped
      rw [hfault] at hstopped
      cases hstopped
  | raises raised hkind hpasses hstops =>
      cases hmasked : faults.isMasked raised.kind with
      | true =>
          obtain ⟨hfaults, hfault⟩ := hpasses faults hmasked
          have hmasks : (faults.record raised).masked = faults.masked := rfl
          refine ⟨(congrArg FaultUnit.masked hfaults).trans hmasks, ?_⟩
          intro fault hstopped
          rw [hfault] at hstopped
          cases hstopped
      | false =>
          rw [hstops faults hmasked]
          refine ⟨rfl, ?_⟩
          intro fault hstopped
          cases hstopped
          exact ⟨hkind, hmasked⟩

/-! ## The processors -/

/-- Something can be decoded ahead, and whatever is decoded is executed
    regularly. -/
structure Architecture.Sound {ι : Type} (architecture : Architecture ι) (κ : Type) [Core κ ι] :
    Prop where
  decodesAhead : 0 < architecture.decodedDepth
  regular : ∀ {source : ByteSource} {start : Nat} {instruction : ι},
    architecture.decode source start = .ok instruction →
    ∀ {δ : Type} [PortDevice δ] (core : κ) (address : UInt32) (bus : Bus δ)
      (faults : FaultUnit),
      (Core.execute core instruction address bus faults).Regular faults

theorem X86.realMode_sound : X86.realMode.Sound X86.ExecutionUnit where
  decodesAhead := Nat.zero_lt_one
  regular := fun hdecode _ _ core address bus faults =>
    (X86.Machine.execute_raisesFirst ⟨core, bus⟩ (X86.decode_writable hdecode) address).regular
      faults

theorem Arm.a32_sound : Arm.a32.Sound Arm.Processor where
  decodesAhead := Nat.zero_lt_one
  regular := fun {_ _ instruction} _ _ _ core address bus faults =>
    (Arm.Machine.execute_raisesFirst ⟨core, bus⟩ instruction address).regular faults

/-! ## Pipelines -/

namespace Pipeline

variable {κ ι δ γ : Type} [Core κ ι] [Decoded ι] [PortDevice δ] [InterruptController γ]

/-- The pipeline is one of the architecture, and what waits in it has been
    decoded. -/
structure Built (architecture : Architecture ι) (pipeline : Pipeline κ ι δ γ) : Prop where
  architecture_eq : pipeline.architecture = architecture
  depth : pipeline.decoded.depth = architecture.decodedDepth
  decoded : ∀ item ∈ pipeline.decoded.items, ∃ source, architecture.decode source 0 = .ok item.2

/-- Every action keeps it so. -/
theorem built_kept (architecture : Architecture ι) :
    Kept fun _ (pipeline : Pipeline κ ι δ γ) => Built architecture pipeline where
  control := fun _ _ h => ⟨h.architecture_eq, h.depth, h.decoded⟩
  serves := fun _ _ _ h => ⟨h.architecture_eq, h.depth, h.decoded⟩
  decodes := by
    intro history served core before inputs bus source instruction _ hdecode h
    refine ⟨h.architecture_eq, h.depth, ?_⟩
    intro item hitem
    obtain rfl := List.mem_singleton.mp hitem
    rw [h.architecture_eq] at hdecode
    exact ⟨source, hdecode⟩
  executes := by
    intro history ready address instruction _ h
    refine ⟨h.architecture_eq, h.depth, ?_⟩
    intro item hitem
    cases hitem

/-- Decoding keeps it so. -/
theorem Built.prepare {architecture : Architecture ι} {pipeline : Pipeline κ ι δ γ}
    (h : pipeline.Built architecture) : pipeline.prepare.1.Built architecture :=
  @KeptByStages.prepare κ ι δ γ _ _ _ _ _ (built_kept architecture).stages [] pipeline h

/-- A move keeps it so. -/
theorem Built.tick {architecture : Architecture ι} {pipeline : Pipeline κ ι δ γ}
    (h : pipeline.Built architecture) (horderly : pipeline.Orderly) :
    pipeline.tick.1.Built architecture :=
  @KeptByStages.tick κ ι δ γ _ _ _ _ _ (built_kept architecture).stages [] pipeline horderly h

omit [Core κ ι] [Decoded ι] [PortDevice δ] [InterruptController γ] in
/-- A pipeline that has not begun is one of its architecture. -/
theorem built_of (architecture : Architecture ι) (core : κ) (memory : Memory)
    (ports : PortMap δ) :
    (of architecture core memory ports : Pipeline κ ι δ γ).Built architecture := by
  refine ⟨rfl, rfl, ?_⟩
  intro item hitem
  cases hitem

/-- It remains one whatever happens between moves. -/
theorem Built.after {architecture : Architecture ι} {pipeline : Pipeline κ ι δ γ}
    (h : pipeline.Built architecture) {event : Event κ δ γ} (hother : event ≠ .move) :
    (pipeline.after event).Built architecture := by
  obtain ⟨hdecoded, harchitecture, -⟩ := keeps_of_ne_move pipeline hother
  refine ⟨harchitecture.trans h.architecture_eq, ?_, ?_⟩
  · rw [hdecoded]
    exact h.depth
  · rw [hdecoded]
    exact h.decoded

/-- So it does in every run. -/
theorem Built.run {architecture : Architecture ι}
    {allowed : Pipeline κ ι δ γ → Event κ δ γ → Prop} {start pipeline : Pipeline κ ι δ γ}
    (hstart : start.Built architecture) (horderly : start.Orderly)
    (hrun : Run allowed start pipeline) : pipeline.Built architecture := by
  obtain ⟨history, hrecorded⟩ := hrun.recorded
  refine hrecorded.invariant (built_kept architecture).stages ?_ horderly hstart
  intro history pipeline event hother _ hbuilt
  exact hbuilt.after hother

/-! ## One move -/

omit [PortDevice δ] in
/-- If something can be decoded ahead, decoding does not fault, and leaves the
    recorded faults alone. -/
theorem prepare_regular {pipeline : Pipeline κ ι δ γ} (hdepth : 0 < pipeline.decoded.depth) :
    pipeline.prepare.1.faults = pipeline.faults
      ∧ ∀ fault, pipeline.prepare.2 ≠ some (.error fault) := by
  have hprepared := prepare_prepared pipeline
  generalize pipeline.prepare = prepared at hprepared
  cases hprepared with
  | keeps _ => exact ⟨rfl, fun _ h => by cases h⟩
  | halts _ _ => exact ⟨rfl, fun _ h => by cases h⟩
  | ends _ _ => exact ⟨rfl, fun _ h => by cases h⟩
  | overflows _ hzero _ _ _ => exact absurd hzero (Nat.ne_of_gt hdepth)
  | decodes _ _ _ => exact ⟨rfl, fun _ h => by cases h⟩

omit [InterruptController γ] in
/-- Executing a decoded instruction leaves the masks alone, and only a fault of
    the program can stop it. -/
theorem executeNext_regular {architecture : Architecture ι} (hsound : architecture.Sound κ)
    {ready : Pipeline κ ι δ γ} (hbuilt : ready.Built architecture)
    (hsize : ready.decoded.size ≤ 1) (hheld : ready.decoded.isEmpty = false) :
    ready.executeNext.1.faults.masked = ready.faults.masked
      ∧ ∀ fault, ready.executeNext.2 = .error fault → ready.faults.Stops fault := by
  obtain ⟨address, instruction, hitems, hpop⟩ := Orderly.pop hsize hheld
  obtain ⟨source, hdecode⟩ := hbuilt.decoded (address, instruction)
    (hitems ▸ List.mem_singleton_self _)
  have hregular := hsound.regular hdecode ready.core address ready.bus ready.faults
  rw [executeNext, hpop]
  simp only [execute]
  cases hfault : (Core.execute ready.core instruction address ready.bus ready.faults).fault with
  | some stopping =>
      refine ⟨hregular.masked, ?_⟩
      intro fault herror
      cases herror
      exact hregular.stops _ hfault
  | none =>
      simp only
      split
      · exact ⟨hregular.masked, fun _ herror => by cases herror⟩
      · exact ⟨hregular.masked, fun _ herror => by cases herror⟩

/-- A move leaves the masks alone, and only a fault of the program that is not
    masked can stop it. -/
theorem tick_regular {architecture : Architecture ι} (hsound : architecture.Sound κ)
    {pipeline : Pipeline κ ι δ γ} (hbuilt : pipeline.Built architecture)
    (horderly : pipeline.Orderly) :
    pipeline.tick.1.faults.masked = pipeline.faults.masked
      ∧ ∀ fault, pipeline.tick.2 = .error fault → pipeline.faults.Stops fault := by
  have hdepth : 0 < pipeline.decoded.depth := hbuilt.depth ▸ hsound.decodesAhead
  obtain ⟨hfaults, hnofault⟩ := prepare_regular hdepth
  have hprepared : pipeline.prepare.1.Built architecture :=
    hbuilt.prepare
  have hmove := tick_move pipeline
  generalize pipeline.tick = result at hmove
  cases hmove with
  | waits _ _ => exact ⟨rfl, fun _ herror => by cases herror⟩
  | leaves _ _ => exact ⟨rfl, fun _ herror => by cases herror⟩
  | @proceeds step hwaiting _ =>
      have hready : Built architecture { pipeline with step } :=
        ⟨hbuilt.architecture_eq, hbuilt.depth, hbuilt.decoded⟩
      exact executeNext_regular hsound hready horderly.size_le (horderly.waiting hwaiting)
  | stops _ _ => exact ⟨rfl, fun _ herror => by cases herror⟩
  | idles _ _ hprepare =>
      rw [hprepare] at hfaults hnofault
      refine ⟨congrArg FaultUnit.masked hfaults, ?_⟩
      intro fault herror
      exact absurd (congrArg some herror) (hnofault fault)
  | holds _ _ hprepare _ =>
      rw [hprepare] at hfaults
      exact ⟨congrArg FaultUnit.masked hfaults, fun _ herror => by cases herror⟩
  | executes hwaiting _ hprepare _ =>
      have hsize := (horderly.prepare hwaiting).size_le
      have hheld := isEmpty_of_prepare hprepare
      rw [hprepare] at hfaults hprepared hsize
      obtain ⟨hmasked, hstops⟩ := executeNext_regular hsound hprepared hsize hheld
      rw [hfaults] at hmasked hstops
      exact ⟨hmasked, hstops⟩

/-! ## Runs -/

/-- With everything masked that can be, no moves end in a fault. -/
theorem runMoves_ne_error {architecture : Architecture ι} (hsound : architecture.Sound κ)
    (count : Nat) {pipeline : Pipeline κ ι δ γ} (hbuilt : pipeline.Built architecture)
    (horderly : pipeline.Orderly) (hmasked : pipeline.faults.MasksAll)
    (fault : Fault) : (runMoves count pipeline).2 ≠ .error fault := by
  induction count generalizing pipeline with
  | zero =>
      intro herror
      cases herror
  | succ count ih =>
      obtain ⟨hsame, hstops⟩ := tick_regular hsound hbuilt horderly
      have hafter := @ih pipeline.tick.1 (hbuilt.tick horderly) horderly.tick
        (hmasked.congr hsame)
      have herror := hstops fault
      rw [runMoves]
      generalize pipeline.tick = result at hafter herror
      obtain ⟨after, outcome⟩ := result
      split
      · rename_i heq
        cases heq
        exact hafter
      · rename_i heq
        cases heq
        intro hfault
        exact hmasked.not_stops fault (herror hfault)

/-- The event unmasks no kind that can be masked. -/
def KeepsMasked (event : Event κ δ γ) : Prop :=
  ∀ kind : FaultKind, kind.maskable = true → event ≠ .unmask kind

/-- Between moves such events keep everything masked. -/
theorem masksAll_after {pipeline : Pipeline κ ι δ γ} {event : Event κ δ γ}
    (hmove : event ≠ .move) (hkeeps : KeepsMasked event) (h : pipeline.faults.MasksAll) :
    (pipeline.after event).faults.MasksAll := by
  cases event with
  | move => exact absurd rfl hmove
  | load base image =>
      simp only [after]
      split <;> exact h
  | attach range device =>
      simp only [after]
      split <;> exact h
  | mask kind => exact h.mask kind
  | unmask kind =>
      refine h.unmask (Bool.eq_false_iff.mpr fun hkind => ?_)
      exact hkeeps kind hkind rfl
  | clearFaults => exact h.congr rfl
  | _ => exact h

/-- A run amid such events does not end in a fault either. -/
theorem runUntilAmid_ne_error {architecture : Architecture ι} (hsound : architecture.Sound κ)
    {done : Pipeline κ ι δ γ → Bool} {events : List (Event κ δ γ)}
    (hkeeps : ∀ event ∈ events, KeepsMasked event) {pipeline : Pipeline κ ι δ γ}
    {ended : Ended κ ι δ γ} (h : runUntilAmid done events pipeline = some ended)
    (fault : Fault) : pipeline.Built architecture → pipeline.Orderly →
      pipeline.faults.MasksAll → ended.result ≠ .error fault := by
  refine runUntilAmid_induction KeepsMasked (fun pipeline ended => pipeline.Built architecture →
    pipeline.Orderly → pipeline.faults.MasksAll → ended.result ≠ .error fault)
    ?reached ?ends ?moves ?event hkeeps h
  case reached =>
    intro pipeline later _ _ _ _ herror
    cases herror
  case ends =>
    -- Only a fault that is not masked stops a move, and there is none of those.
    intro pipeline later _ _ hbuilt horderly hmasked herror
    exact hmasked.not_stops fault ((tick_regular hsound hbuilt horderly).2 fault herror)
  case moves =>
    intro pipeline ended _ _ ih hbuilt horderly hmasked
    obtain ⟨hsame, -⟩ := tick_regular hsound hbuilt horderly
    exact ih (hbuilt.tick horderly) horderly.tick (hmasked.congr hsame)
  case event =>
    intro pipeline event ended _ hmove hkeeps ih hbuilt horderly hmasked
    exact ih (hbuilt.after hmove) (horderly.after event) (masksAll_after hmove hkeeps hmasked)

/-- Whatever stops the pipeline, the program did it. -/
structure OnlyProgramFaults (pipeline : Pipeline κ ι δ γ) : Prop where
  /-- The prefetch queue has room for all that is fetched. -/
  fetches : ∀ place, ∃ bus, pipeline.serviceInterrupts.bus.fetch place = .ok bus
  /-- There is room for an instruction that is decoded. -/
  pushes : pipeline.decoded.isEmpty = true →
    ∀ item, ∃ queue, pipeline.decoded.push item = .ok queue
  /-- There is an instruction where one is to be executed. -/
  pops : ∀ ready, pipeline.readied? = some ready →
    ∃ item rest, ready.decoded.pop = .ok (item, rest)
  /-- A move is stopped by the program alone, by a fault that is not masked. -/
  stops : ∀ fault, pipeline.tick.2 = .error fault →
    pipeline.faults.Stops fault ∧ pipeline.tick.1.faults.Stops fault
  /-- With everything masked that can be, nothing stops a run that is left alone. -/
  runs : pipeline.faults.MasksAll → ∀ fault,
    (∀ limit, (pipeline.runFor limit).2 ≠ .error fault) ∧ pipeline.run.2 ≠ .error fault
  /-- Nor does anything stop one amid events that unmask nothing. -/
  runsAmid : pipeline.faults.MasksAll → ∀ events, (∀ event ∈ events, KeepsMasked event) →
    ∀ fault ended,
      ((∃ limit, pipeline.runForAmid limit events = some ended)
        ∨ pipeline.runAmid events = some ended) → ended.result ≠ .error fault

/-- Only the program stops a pipeline whose architecture is sound. -/
theorem Built.onlyProgramFaults {architecture : Architecture ι} (hsound : architecture.Sound κ)
    {pipeline : Pipeline κ ι δ γ} (hbuilt : pipeline.Built architecture)
    (horderly : pipeline.Orderly) : pipeline.OnlyProgramFaults := by
  refine ⟨?_, ?_, ?_, ?_, ?_, ?_⟩
  · intro place
    obtain ⟨queue, hfetch, -⟩ := pipeline.serviceInterrupts.bus.fetch_byteAt place
    exact ⟨_, hfetch⟩
  · intro hempty item
    refine ⟨_, (push_of_isEmpty hempty item).trans (if_pos ?_)⟩
    rw [hbuilt.depth]
    exact hsound.decodesAhead
  · intro ready hready
    obtain ⟨hsize, hheld⟩ := horderly.readied hready
    obtain ⟨address, instruction, -, hpop⟩ := Orderly.pop hsize hheld
    exact ⟨_, _, hpop⟩
  · intro fault herror
    obtain ⟨hmasked, hstops⟩ := tick_regular hsound hbuilt horderly
    obtain ⟨hkind, hunmasked⟩ := hstops fault herror
    exact ⟨⟨hkind, hunmasked⟩, hkind, (FaultUnit.isMasked_congr hmasked _).trans hunmasked⟩
  · intro hmasked fault
    refine ⟨fun limit => ?_, ?_⟩
    · exact runMoves_ne_error hsound _ hbuilt horderly hmasked fault
    · exact runMoves_ne_error hsound _ hbuilt horderly hmasked fault
  · rintro hmasked events hkeeps fault ended (⟨limit, hrun⟩ | hrun)
    · exact runUntilAmid_ne_error hsound hkeeps hrun fault hbuilt horderly hmasked
    · exact runUntilAmid_ne_error hsound hkeeps hrun fault hbuilt horderly hmasked

/-- What a move executes has been decoded. -/
theorem Built.executes {architecture : Architecture ι} {pipeline ready : Pipeline κ ι δ γ}
    (hbuilt : pipeline.Built architecture) (hready : pipeline.readied? = some ready)
    {address : UInt32} {instruction : ι} {rest : DecodedQueue (UInt32 × ι)}
    (hpop : ready.decoded.pop = .ok ((address, instruction), rest)) :
    ∃ source, architecture.decode source 0 = .ok instruction := by
  have hmem : (address, instruction) ∈ ready.decoded.items := by
    rw [DecodedQueue.pop] at hpop
    cases hitems : ready.decoded.items with
    | nil =>
        rw [hitems] at hpop
        cases hpop
    | cons item others =>
        rw [hitems] at hpop
        cases hpop
        exact List.mem_cons_self
  obtain ⟨-, step, rfl⟩ | ⟨-, hprepare⟩ := readied?_cases hready
  · exact hbuilt.decoded _ hmem
  · have hprepared := hbuilt.prepare
    rw [hprepare] at hprepared
    exact hprepared.decoded _ hmem

end Pipeline

open Pipeline

/-- Wherever a run of either processor leads, whatever memory holds, whatever is
    attached, requested, masked or stopped on the way: no queue is used wrongly,
    a move is stopped only by an undefined instruction or an unattached port,
    if that is not masked, and with everything masked that can be nothing stops a
    run, left alone or amid whatever unmasks nothing.  No instruction that the
    8086 executes writes to an immediate. -/
theorem internal_faults_unreachable {δ γ : Type} [PortDevice δ] [InterruptController γ] :
    (∀ (core : X86.ExecutionUnit) (memory : Memory) (ports : PortMap δ)
        (pipeline : Pipeline X86.ExecutionUnit X86.Instruction δ γ),
        Run (fun _ _ => True) (.of X86.realMode core memory ports) pipeline →
        pipeline.OnlyProgramFaults
          ∧ ∀ ready address instruction rest, pipeline.readied? = some ready →
              ready.decoded.pop = .ok ((address, instruction), rest) →
              instruction.operation.hasImmediateDestination = false)
      ∧ ∀ (core : Arm.Processor) (memory : Memory) (ports : PortMap δ)
          (pipeline : Pipeline Arm.Processor Arm.Instruction δ γ),
          Run (fun _ _ => True) (.of Arm.a32 core memory ports) pipeline →
          pipeline.OnlyProgramFaults := by
  constructor
  · intro core memory ports pipeline hrun
    have hbegun := orderly_of (γ := γ) X86.realMode core memory ports
    have hbuilt := (built_of X86.realMode core memory ports).run hbegun hrun
    refine ⟨hbuilt.onlyProgramFaults X86.realMode_sound (hbegun.run hrun), ?_⟩
    intro ready address instruction rest hready hpop
    obtain ⟨source, hdecode⟩ := hbuilt.executes hready hpop
    exact X86.decode_writable hdecode
  · intro core memory ports pipeline hrun
    have hbegun := orderly_of (γ := γ) Arm.a32 core memory ports
    have hbuilt := (built_of Arm.a32 core memory ports).run hbegun hrun
    exact hbuilt.onlyProgramFaults Arm.a32_sound (hbegun.run hrun)

/-- An 8086 at the start of a program whose first byte is no instruction. -/
def unknownStart : Pipeline X86.ExecutionUnit X86.Instruction Terminal.Console InterruptLine :=
  .of X86.realMode .initial ⟨#[0x0F, 0x90], none⟩ .empty

/-- Unmasked, the undefined instruction stops the move; masked, no run ends in a
    fault. -/
theorem internal_faults_unreachable_undefined :
    (∃ fault, (unknownStart.after (.unmask .undefinedInstruction)).tick.2 = .error fault
        ∧ (unknownStart.after (.unmask .undefinedInstruction)).faults.Stops fault)
      ∧ ∀ limit fault, (unknownStart.runFor limit).2 ≠ .error fault := by
  have hrun : Run (fun _ _ => True) unknownStart
      (unknownStart.after (.unmask .undefinedInstruction)) :=
    .event .refl _ trivial
  obtain ⟨hprogram, -⟩ := internal_faults_unreachable.1 _ _ _ _ hrun
  obtain ⟨hmasked, -⟩ := internal_faults_unreachable.1 .initial _ _ unknownStart .refl
  constructor
  · have herror : (unknownStart.after (.unmask .undefinedInstruction)).tick.2.toOption = none := by
      decide +kernel
    cases hresult : (unknownStart.after (.unmask .undefinedInstruction)).tick.2 with
    | ok outcome =>
        rw [hresult] at herror
        cases herror
    | error fault => exact ⟨fault, rfl, (hprogram.stops fault hresult).1⟩
  · intro limit fault
    exact (hmasked.runs FaultUnit.masksAll_initial fault).1 limit

end Microprocessor
