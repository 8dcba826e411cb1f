import Microprocessor.Proofs.Arm.Access
import Microprocessor.Proofs.Pipeline.Order
import Microprocessor.Proofs.X86.Access
import Microprocessor.Terminal.Console
import Microprocessor.X86.RealMode

/-! # Prefetching is not seen by the instructions that are decoded

    As long as no store hits a byte while it is queued, a move decodes exactly
    the instruction that memory holds where the core stands, whatever has been
    prefetched.

      * `Pipeline.SparesQueue` says of an event that its stores miss the bytes
        that are queued at that moment;
      * `Pipeline.coherent_after`: such an event keeps the bus coherent;
      * `Pipeline.fetchNext_fetched`: what a coherent pipeline decodes;
      * `prefetch_transparent` puts it together, for a bus and for whole runs
        of both cores. -/

namespace Microprocessor

/-! ## The cores -/

instance : AccessingCore X86.ExecutionUnit X86.Instruction where
  execute_accessed unit instruction address bus faults :=
    X86.Machine.execute_accessed ⟨unit, bus⟩ instruction address faults
  serviceInterrupts_accessed unit bus inputs :=
    X86.Machine.serviceInterrupts_accessed ⟨unit, bus⟩ inputs

instance : AccessingCore Arm.Processor Arm.Instruction where
  execute_accessed processor instruction address bus faults :=
    Arm.Machine.execute_accessed ⟨processor, bus⟩ instruction address faults
  serviceInterrupts_accessed processor bus inputs := by
    show bus.Accessed (processor.serviceInterrupts bus inputs).bus
    rw [Arm.Processor.serviceInterrupts_bus]
    exact .refl bus

namespace Pipeline

variable {κ ι δ γ : Type} [Core κ ι] [Decoded ι] [PortDevice δ] [InterruptController γ]

/-! ## What memory holds, and stores that miss the queue -/

/-- The instruction that memory holds where the core stands. -/
def instructionInMemory (pipeline : Pipeline κ ι δ γ) : Except EndOfStream ι :=
  pipeline.architecture.decode
    (pipeline.bus.memory.code (Core.codeAddress pipeline.core)) 0

/-- The move of the pipeline lets the core take an interrupt and then goes on to
    fetch, unless the core waits. -/
def Services (pipeline : Pipeline κ ι δ γ) : Prop :=
  pipeline.step.waiting = false ∧ pipeline.step.stop = false
    ∧ pipeline.decoded.isEmpty = true

/-- The stores of the oldest decoded instruction miss the bytes that are queued
    as it is executed. -/
def ExecutionSpares (ready : Pipeline κ ι δ γ) : Prop :=
  match ready.decoded.pop with
  | .error _ => True
  | .ok ((address, instruction), _) =>
    ready.bus.Spares
      (Core.execute ready.core instruction address ready.bus ready.faults).bus.memory

/-- The stores of a move miss the bytes that are queued when they are made: as
    an interrupt is taken, and as an instruction is executed. -/
structure MoveSpares (pipeline : Pipeline κ ι δ γ) : Prop where
  service : pipeline.Services → pipeline.bus.Spares pipeline.serviceInterrupts.bus.memory
  execution : ∀ ready, ready ∈ pipeline.readied? → ready.ExecutionSpares

instance (pipeline : Pipeline κ ι δ γ) : Decidable pipeline.Services :=
  inferInstanceAs (Decidable (_ ∧ _ ∧ _))

instance (ready : Pipeline κ ι δ γ) : Decidable ready.ExecutionSpares := by
  rw [ExecutionSpares]
  exact match ready.decoded.pop with
  | .error _ => .isTrue trivial
  | .ok ((address, instruction), _) => inferInstanceAs (Decidable (Bus.Spares _ _))

instance (pipeline : Pipeline κ ι δ γ) : Decidable pipeline.MoveSpares :=
  decidable_of_iff (_ ∧ _) ⟨fun h => ⟨h.1, h.2⟩, fun h => ⟨h.service, h.execution⟩⟩

/-- The stores of an event miss the bytes that are queued when they are made. -/
def SparesQueue (pipeline : Pipeline κ ι δ γ) : Event κ δ γ → Prop
  | .move => pipeline.MoveSpares
  | .store address value => pipeline.bus.Spares (pipeline.bus.memory.write address value)
  | .load base image =>
    ∀ memory, pipeline.bus.memory.load base image = .ok memory → pipeline.bus.Spares memory
  | _ => True

/-! ## What a coherent pipeline decodes -/

/-- What fetching and decoding leaves behind, by what memory holds where the
    core stands once it has been served. -/
inductive Fetched (served : Pipeline κ ι δ γ) :
    Pipeline κ ι δ γ × Option (Except Fault TickOutcome) → Prop
  | halts (hhalted : Core.isHalted served.core = true) :
      Fetched served ({ served with stage := .halted }, some (.ok .halted))
  | ends {queue : PrefetchQueue} {head : CodeAddress} {failure : EndOfStream}
      (hhalted : Core.isHalted served.core = false)
      (hcoherent : Bus.Coherent { served.bus with queue, head })
      (hmemory : served.instructionInMemory = .error failure) :
      Fetched served
        ({ served with bus := { served.bus with queue, head }, stage := .fetching },
          some (.ok .endOfStream))
  | overflows {queue : PrefetchQueue} {head : CodeAddress} {instruction : ι}
      {failure : QueueError} (hhalted : Core.isHalted served.core = false)
      (hcoherent : Bus.Coherent { served.bus with queue, head })
      (hmemory : served.instructionInMemory = .ok instruction)
      (hpush : served.decoded.push (served.fetchAddress, instruction) = .error failure) :
      Fetched served
        ({ served with
            bus := { served.bus with queue, head }
            stage := .decoding
            faults := served.faults.record
              ⟨some served.fetchAddress, .queue failure "decode"⟩ },
          some (.error ⟨some served.fetchAddress, .queue failure "decode"⟩))
  | decodes {queue : PrefetchQueue} {head : CodeAddress} {instruction : ι}
      {decoded : DecodedQueue (UInt32 × ι)} (hhalted : Core.isHalted served.core = false)
      (hcoherent : Bus.Coherent { served.bus with queue, head })
      (hmemory : served.instructionInMemory = .ok instruction)
      (hpush : served.decoded.push (served.fetchAddress, instruction) = .ok decoded) :
      Fetched served
        ({ served with
            bus := { served.bus with queue, head }
            stage := .decoding
            decoded
            core := Core.advance served.core (Decoded.length instruction) },
          none)

omit [PortDevice δ] [InterruptController γ] in
/-- With a coherent bus, what is decoded is what memory holds. -/
theorem decodeNext_fetched {served : Pipeline κ ι δ γ} {queue : PrefetchQueue}
    (hhalted : Core.isHalted served.core = false)
    (hcoherent : Bus.Coherent
      { served.bus with queue, head := Core.codeAddress served.core }) :
    Fetched served (decodeNext { served with
      bus := { served.bus with queue, head := Core.codeAddress served.core } }) := by
  have hstream : served.architecture.decode
      (Bus.byteAt { served.bus with queue, head := Core.codeAddress served.core }) 0
        = served.instructionInMemory := by
    rw [hcoherent.byteAt_eq]
    rfl
  rw [decodeNext]
  simp only
  rw [hstream]
  cases hmemory : served.instructionInMemory with
  | error failure => exact .ends hhalted hcoherent hmemory
  | ok instruction =>
      cases hpush : served.decoded.push (served.fetchAddress, instruction) with
      | error failure =>
          simp only [fetchAddress] at hpush ⊢
          rw [hpush]
          exact .overflows hhalted hcoherent hmemory hpush
      | ok decoded =>
          simp only [fetchAddress] at hpush ⊢
          rw [hpush]
          exact .decodes hhalted (hcoherent.consume _) hmemory hpush

omit [Decoded ι] [PortDevice δ] in
/-- The bus is still coherent once the core has been served. -/
theorem coherent_serviceInterrupts [AccessingCore κ ι] {pipeline : Pipeline κ ι δ γ}
    (hcoherent : pipeline.bus.Coherent)
    (hspare : pipeline.bus.Spares pipeline.serviceInterrupts.bus.memory) :
    pipeline.serviceInterrupts.bus.Coherent :=
  hcoherent.accessed (AccessingCore.serviceInterrupts_accessed _ _ _) hspare

omit [PortDevice δ] in
/-- With a coherent bus, fetching never fails, and what is decoded is what memory
    holds where the core stands. -/
theorem fetchNext_fetched [AccessingCore κ ι] {pipeline : Pipeline κ ι δ γ}
    (hcoherent : pipeline.bus.Coherent)
    (hspare : pipeline.bus.Spares pipeline.serviceInterrupts.bus.memory) :
    Fetched pipeline.serviceInterrupts pipeline.fetchNext := by
  have hserved := coherent_serviceInterrupts hcoherent hspare
  rw [fetchNext]
  simp only
  cases hhalted : Core.isHalted pipeline.serviceInterrupts.core with
  | true => exact .halts hhalted
  | false =>
      obtain ⟨queue, hfetch, hfetched⟩ :=
        Bus.fetch_coherent hserved (Core.codeAddress pipeline.serviceInterrupts.core)
      -- What was queued before makes no difference: the fetch leaves the bus where
      -- the core stands, and coherent.
      rw [if_neg Bool.false_ne_true, hfetch]
      exact decodeNext_fetched hhalted hfetched

/-! ## Coherence along a run -/

omit [PortDevice δ] [InterruptController γ] in
/-- Whatever fetching and decoding leaves behind is coherent. -/
theorem Fetched.coherent {served : Pipeline κ ι δ γ}
    {fetched : Pipeline κ ι δ γ × Option (Except Fault TickOutcome)}
    (h : Fetched served fetched) (hserved : served.bus.Coherent) : fetched.1.bus.Coherent := by
  cases h with
  | halts _ => exact hserved
  | ends _ hcoherent _ => exact hcoherent
  | overflows _ hcoherent _ _ => exact hcoherent
  | decodes _ hcoherent _ _ => exact hcoherent

omit [PortDevice δ] in
/-- Seeing to it that an instruction is decoded keeps the bus coherent. -/
theorem coherent_prepare [AccessingCore κ ι] {pipeline : Pipeline κ ι δ γ}
    (hcoherent : pipeline.bus.Coherent)
    (hspare : pipeline.decoded.isEmpty = true →
      pipeline.bus.Spares pipeline.serviceInterrupts.bus.memory) :
    pipeline.prepare.1.bus.Coherent := by
  rw [prepare]
  split
  · rename_i hempty
    exact (fetchNext_fetched hcoherent (hspare hempty)).coherent
      (coherent_serviceInterrupts hcoherent (hspare hempty))
  · exact hcoherent

omit [InterruptController γ] in
/-- Executing an instruction keeps the bus coherent. -/
theorem coherent_executeNext [AccessingCore κ ι] {ready : Pipeline κ ι δ γ}
    (hcoherent : ready.bus.Coherent) (hspare : ready.ExecutionSpares) :
    ready.executeNext.1.bus.Coherent := by
  cases hpop : ready.decoded.pop with
  | error failure =>
      rw [executeNext, hpop]
      exact hcoherent
  | ok popped =>
      obtain ⟨⟨address, instruction⟩, rest⟩ := popped
      obtain ⟨stage, hexecute⟩ := executeNext_of_pop hpop
      rw [ExecutionSpares, hpop] at hspare
      rw [hexecute]
      -- Only the stage is left out of account, which the bus does not depend on.
      show (execute { ready with decoded := rest } address instruction).1.bus.Coherent
      rw [execute]
      simp only
      split
      · exact hcoherent.accessed (AccessingCore.execute_accessed _ _ _ _ _) hspare
      · exact Bus.Coherent.resetQueue

/-- A move whose stores miss the queued bytes keeps the bus coherent. -/
theorem coherent_tick [AccessingCore κ ι] {pipeline : Pipeline κ ι δ γ}
    (hcoherent : pipeline.bus.Coherent) (hspare : pipeline.MoveSpares) :
    pipeline.tick.1.bus.Coherent := by
  have hprepared : pipeline.step.waiting = false → pipeline.step.stop = false →
      pipeline.prepare.1.bus.Coherent := by
    intro hwaiting hstop
    exact coherent_prepare hcoherent fun hempty =>
      hspare.service ⟨hwaiting, hstop, hempty⟩
  -- Only the moves that fetch or execute touch the bus.
  have hmove := tick_move pipeline
  generalize pipeline.tick = result at hmove
  cases hmove with
  | waits _ _ => exact hcoherent
  | leaves _ _ => exact hcoherent
  | proceeds hwaiting hsettle =>
      exact coherent_executeNext hcoherent
        (hspare.execution _ (readied?_of_settle hwaiting hsettle))
  | stops _ _ => exact hcoherent
  | idles hwaiting hstop hprepare =>
      have h := hprepared hwaiting hstop
      rw [hprepare] at h
      exact h
  | holds hwaiting hstop hprepare _ =>
      have h := hprepared hwaiting hstop
      rw [hprepare] at h
      exact h
  | executes hwaiting hstop hprepare harmed =>
      have h := hprepared hwaiting hstop
      rw [hprepare] at h
      exact coherent_executeNext h
        (hspare.execution _ (readied?_of_prepare hwaiting hstop hprepare harmed))

/-- An event whose stores miss the queued bytes keeps the bus coherent. -/
theorem coherent_after [AccessingCore κ ι] (pipeline : Pipeline κ ι δ γ) (event : Event κ δ γ)
    (hspare : pipeline.SparesQueue event) (hcoherent : pipeline.bus.Coherent) :
    (pipeline.after event).bus.Coherent := by
  cases event with
  | move => exact coherent_tick hcoherent hspare
  | store address value => exact hcoherent.withMemory hspare
  | load base image =>
      simp only [after]
      cases hload : pipeline.bus.memory.load base image with
      | ok memory => exact hcoherent.withMemory (hspare memory hload)
      | error _ => exact hcoherent
  | attach range device =>
      simp only [after]
      cases pipeline.bus.ports.attach range device with
      | ok ports => exact ⟨hcoherent.size_le, hcoherent.peek?_eq⟩
      | error _ => exact hcoherent
  | resetQueue => exact Bus.Coherent.resetQueue
  | _ => exact hcoherent

/-- In a run whose stores miss the queued bytes the bus is always coherent. -/
theorem coherent_of_run [AccessingCore κ ι] {start pipeline : Pipeline κ ι δ γ}
    (hstart : start.bus.Coherent) (hrun : Run SparesQueue start pipeline) :
    pipeline.bus.Coherent :=
  hrun.invariant hstart coherent_after

/-! ## What a move decodes -/

/-- The move of a pipeline that stands as `served` once the core has been served
    decodes the instruction that memory holds there.  It comes to nothing only
    if the core is halted, memory ends within the instruction, or none can be
    decoded ahead. -/
def DecodesMemory (pipeline served : Pipeline κ ι δ γ) : Prop :=
  if Core.isHalted served.core then
    pipeline.tick = ({ served with stage := .halted }, .ok .halted)
  else
    match served.instructionInMemory with
    | .error _ => pipeline.tick.2 = .ok .endOfStream
    | .ok instruction =>
      if served.decoded.depth = 0 then
        pipeline.tick.2 = .error ⟨some served.fetchAddress, .queue .full "decode"⟩
      else
        ∃ prepared, pipeline.prepare = (prepared, none)
          ∧ prepared.bus.Coherent
          ∧ prepared.bus.memory = served.bus.memory
          ∧ prepared.decoded.items = [(served.fetchAddress, instruction)]
          ∧ prepared.core = Core.advance served.core (Decoded.length instruction)
          ∧ pipeline.tick
              = if prepared.step.armed then prepared.beginWait else prepared.executeNext

/-- A move that lets the core take an interrupt fetches next. -/
theorem tick_of_services {pipeline : Pipeline κ ι δ γ} (h : pipeline.Services) :
    pipeline.tick
      = match pipeline.prepare with
        | (prepared, some result) => (prepared, result)
        | (prepared, none) =>
          if prepared.step.armed then prepared.beginWait else prepared.executeNext := by
  obtain ⟨hwaiting, hstop, -⟩ := h
  rw [tick, hwaiting, hstop]
  rfl

/-- What fetching and decoding leaves behind says what the move decodes. -/
theorem Fetched.decodesMemory {pipeline served : Pipeline κ ι δ γ}
    (hfetched : Fetched served pipeline.prepare) (hservices : pipeline.Services)
    (hempty : served.decoded.isEmpty = true) : pipeline.DecodesMemory served := by
  have htick := tick_of_services hservices
  rw [DecodesMemory]
  generalize pipeline.prepare = prepared at hfetched htick
  cases hfetched with
  | halts hhalted =>
      rw [if_pos hhalted]
      exact htick
  | ends hhalted _ hmemory =>
      rw [hhalted, hmemory, htick]
      rfl
  | overflows hhalted _ hmemory hpush =>
      rw [push_of_isEmpty hempty] at hpush
      rw [hhalted, hmemory, htick]
      split at hpush
      · cases hpush
      · rename_i hdepth
        cases hpush
        show ite (served.decoded.depth = 0) _ _
        rw [if_pos (Nat.eq_zero_of_not_pos hdepth)]
  | decodes hhalted hcoherent hmemory hpush =>
      rw [push_of_isEmpty hempty] at hpush
      rw [hhalted, hmemory, htick]
      split at hpush
      · rename_i hdepth
        cases hpush
        show ite (served.decoded.depth = 0) _ _
        rw [if_neg (Nat.ne_of_gt hdepth)]
        exact ⟨_, rfl, hcoherent, rfl, rfl, rfl, rfl⟩
      · cases hpush

/-- With a coherent bus, a move decodes what memory holds. -/
theorem decodesMemory_of_coherent [AccessingCore κ ι] {pipeline : Pipeline κ ι δ γ}
    (hcoherent : pipeline.bus.Coherent) (hservices : pipeline.Services)
    (hspare : pipeline.bus.Spares pipeline.serviceInterrupts.bus.memory) :
    pipeline.DecodesMemory pipeline.serviceInterrupts := by
  have hprepare : pipeline.prepare = pipeline.fetchNext := if_pos hservices.2.2
  refine Fetched.decodesMemory ?_ hservices hservices.2.2
  rw [hprepare]
  exact fetchNext_fetched hcoherent hspare

end Pipeline

/-! ## Transparency -/

open Pipeline

/-- A coherent bus fetches from every address without fail and then streams
    memory from there; consuming, dropping the queue and writes that miss the
    queue keep it coherent.  So in every run of either core whose stores miss
    the queue, a move decodes the instruction that memory holds. -/
theorem prefetch_transparent :
    (∀ {δ : Type} (bus : Bus δ), bus.Coherent →
      (∀ place : CodeAddress, ∃ fetched, bus.fetch place = .ok fetched
        ∧ fetched.Coherent ∧ fetched.head = place ∧ fetched.memory = bus.memory
        ∧ ∀ i, fetched.byteAt i = bus.memory.fetch? (place.advance i).address)
      ∧ (∀ count, (bus.consume count).Coherent)
      ∧ bus.resetQueue.Coherent
      ∧ (∀ address value, (∀ i, i < bus.queue.size → (bus.head.advance i).address ≠ address) →
          (bus.mapMemory fun memory => memory.write address value).Coherent)
      ∧ (∀ base image memory, bus.memory.load base image = .ok memory →
          (∀ i, i < bus.queue.size → (bus.head.advance i).address.toNat < base.toNat
            ∨ base.toNat + image.length ≤ (bus.head.advance i).address.toNat) →
          Bus.Coherent { bus with memory }))
    ∧ (∀ {δ γ : Type} [PortDevice δ] [InterruptController γ]
        (architecture : Architecture X86.Instruction) (core : X86.ExecutionUnit)
        (memory : Memory) (ports : PortMap δ)
        (pipeline : Pipeline X86.ExecutionUnit X86.Instruction δ γ),
        Run SparesQueue (.of architecture core memory ports) pipeline →
        pipeline.bus.Coherent ∧
          (pipeline.Services → pipeline.SparesQueue .move →
            pipeline.DecodesMemory pipeline.serviceInterrupts))
    ∧ (∀ {δ γ : Type} [PortDevice δ] [InterruptController γ]
        (architecture : Architecture Arm.Instruction) (core : Arm.Processor)
        (memory : Memory) (ports : PortMap δ)
        (pipeline : Pipeline Arm.Processor Arm.Instruction δ γ),
        Run SparesQueue (.of architecture core memory ports) pipeline →
        pipeline.bus.Coherent ∧
          (pipeline.Services → pipeline.SparesQueue .move →
            pipeline.DecodesMemory pipeline.serviceInterrupts)) := by
  refine ⟨?_, ?_, ?_⟩
  · intro δ bus hcoherent
    refine ⟨?_, hcoherent.consume, .resetQueue, ?_, ?_⟩
    · intro place
      obtain ⟨queue, hfetch, hfetched⟩ := Bus.fetch_coherent hcoherent place
      exact ⟨_, hfetch, hfetched, rfl, rfl, congrFun hfetched.byteAt_eq⟩
    · intro address value hmiss
      exact hcoherent.withMemory (Bus.spares_write value hmiss)
    · intro base image memory hload hmiss
      exact hcoherent.withMemory (Bus.spares_load hload hmiss)
  · intro δ γ _ _ architecture core memory ports pipeline hrun
    have hcoherent := coherent_of_run (Bus.coherent_of _ _ _ _) hrun
    exact ⟨hcoherent, fun hservices hspare =>
      decodesMemory_of_coherent hcoherent hservices (hspare.service hservices)⟩
  · intro δ γ _ _ architecture core memory ports pipeline hrun
    have hcoherent := coherent_of_run (Bus.coherent_of _ _ _ _) hrun
    exact ⟨hcoherent, fun hservices hspare =>
      decodesMemory_of_coherent hcoherent hservices (hspare.service hservices)⟩

/-- An 8086 at the start of a program that stores a byte over its own first. -/
def storingStart : Pipeline X86.ExecutionUnit X86.Instruction Terminal.Console InterruptLine :=
  .of X86.realMode .initial ⟨#[0xAA, 0x90, 0x90, 0x90], none⟩ .empty

/-- After the store three bytes are queued, and the next move decodes them as
    memory has them. -/
theorem prefetch_transparent_storing :
    (storingStart.after .move).bus.queue.bytes = [0x90, 0x90, 0x90]
      ∧ (storingStart.after .move).bus.memory.bytes = #[0x00, 0x90, 0x90, 0x90]
      ∧ (storingStart.after .move).DecodesMemory (storingStart.after .move).serviceInterrupts := by
  have hrun : Run SparesQueue storingStart (storingStart.after .move) :=
    .event .refl .move (show storingStart.MoveSpares by decide +kernel)
  refine ⟨by decide +kernel, by decide +kernel, ?_⟩
  exact (prefetch_transparent.2.1 X86.realMode .initial _ .empty _ hrun).2 (by decide +kernel)
    (show (storingStart.after .move).MoveSpares by decide +kernel)

end Microprocessor
