import Microprocessor.Arm.A32
import Microprocessor.Proofs.Arm.Exceptions
import Microprocessor.Proofs.Arm.Reachable
import Microprocessor.Proofs.Encoding.Overrun
import Microprocessor.Proofs.Encoding.Taken
import Microprocessor.Proofs.Pipeline.Faults
import Microprocessor.Proofs.Pipeline.Stepping
import Microprocessor.Proofs.Pipeline.Transparency
import Microprocessor.Terminal.Console

/-! # Instructions lie in words

    Whatever has been done with a processor since reset, its program counter is the
    address of a word.  So every instruction is fetched from one word, and every
    address to return to is that of a word as well.

      * `Processor.LinksTo` says where a processor is to return to;
        `Machine.links_execute` and `Processor.linksTo_serviceInterrupts` are the ways
        in which that comes about;
      * `Processor.Step` lists what can be done with a processor, in any order, and
        `Processor.places` are the places that instructions have been fetched from;
      * `Pipeline.FetchesWords` is the invariant of the runs of a pipeline, and
        `Pipeline.decoded_word` says what is fetched there;
      * `instructions_lie_in_words` puts them together. -/

namespace Microprocessor

namespace Arm

/-- Every byte of an instruction at the address of a word is in that word. -/
theorem wordAddress_add {place : UInt32} (h : IsAligned place) {i : Nat}
    (hi : i < instructionLength) :
    Processor.wordAddress (place + UInt32.ofNat i) = place := by
  have hbound := place.toNat_lt
  rw [IsAligned] at h
  rw [instructionLength] at hi
  rw [← UInt32.toNat_inj, toNat_wordAddress, UInt32.toNat_add, UInt32.toNat_ofNat']
  omega

/-! ## Return addresses -/

/-- Whether an operation leaves a return address in the link register. -/
def Operation.links : Operation → Bool
  | .branchExchange link _ | .branch link _ => link
  | .supervisorCall _ => true
  | _ => false

namespace Processor

/-- The link register holds a return address, which is the address of a word. -/
structure LinksTo (processor : Processor) (returnAddress : UInt32) : Prop where
  lr : processor.get .lr = returnAddress
  aligned : IsAligned returnAddress

/-- A branch that links leaves the return address in the link register. -/
theorem get_lr_branch (processor : Processor) (next target : UInt32) :
    ((processor.linkTo true next).write .pc target).get .lr = next := by
  rw [write, get_put_of_ne _ _ (by decide)]
  exact get_put_self processor .lr next

end Processor

namespace Machine

variable {δ γ : Type} [InterruptController γ]

/-- An operation that links leaves the address of what follows it. -/
theorem get_lr_perform (machine : Machine δ) (here : UInt32) {operation : Operation}
    (hlinks : operation.links = true) :
    (machine.perform here operation).processor.get .lr = here + 4 := by
  cases operation with
  | branchExchange link rm =>
      cases hlinks
      exact machine.processor.get_lr_branch _ _
  | branch link offset =>
      cases hlinks
      exact machine.processor.get_lr_branch _ _
  | supervisorCall _ => exact machine.processor.get_lr_enter .supervisorCall _
  | _ => cases hlinks

/-- An instruction has its effect: its condition holds, and no fault stops it. -/
structure Completes (machine : Machine δ) (instruction : Instruction) (here : UInt32)
    (faults : FaultUnit) : Prop where
  satisfied : machine.processor.status.satisfies instruction.condition = true
  fault : (machine.execute instruction here faults).fault = none

/-- An instruction whose condition holds has its operation's effect, or a fault
    stops it. -/
theorem finished_or_stopped (machine : Machine δ) {instruction : Instruction}
    (hsatisfied : machine.processor.status.satisfies instruction.condition = true)
    (here : UInt32) (faults : FaultUnit) :
    (∃ recorded, machine.execute instruction here faults
        = (machine.perform here instruction.operation).finished recorded)
      ∨ ∃ recorded fault, machine.execute instruction here faults
        = machine.stopped recorded fault := by
  cases hunmodelled : machine.isUnmodelled here instruction.operation with
  | false => exact .inl ⟨faults, machine.execute_of_satisfied here rfl hunmodelled hsatisfied faults⟩
  | true =>
      rw [execute, hsatisfied, hunmodelled, if_neg (by decide), if_pos rfl]
      dsimp only
      split
      · exact .inl ⟨_, rfl⟩
      · exact .inr ⟨_, _, rfl⟩

/-- So an instruction has its operation's effect on the processor, or none at all. -/
theorem completes_or_unchanged (machine : Machine δ) (instruction : Instruction) (here : UInt32)
    (faults : FaultUnit) :
    (machine.Completes instruction here faults
        ∧ (machine.execute instruction here faults).core
          = (machine.perform here instruction.operation).processor)
      ∨ (¬ machine.Completes instruction here faults
        ∧ (machine.execute instruction here faults).core = machine.processor) := by
  cases hsatisfied : machine.processor.status.satisfies instruction.condition with
  | false =>
      refine .inr ⟨fun h => ?_, ?_⟩
      · cases hsatisfied.symm.trans h.satisfied
      · rw [execute, hsatisfied]
        rfl
  | true =>
      obtain ⟨recorded, hfinished⟩ | ⟨recorded, fault, hstopped⟩ :=
        machine.finished_or_stopped hsatisfied here faults
      · refine .inl ⟨⟨hsatisfied, ?_⟩, ?_⟩
        · rw [hfinished]
          rfl
        · rw [hfinished]
          rfl
      · refine .inr ⟨fun h => ?_, ?_⟩
        · have hfault := h.fault
          rw [hstopped] at hfault
          cases hfault
        · rw [hstopped]
          rfl

/-- If it has its effect, an instruction leaves a return address, which is the
    address of a word; otherwise it leaves the processor as it was. -/
structure Links (machine : Machine δ) (instruction : Instruction) (here : UInt32)
    (faults : FaultUnit) : Prop where
  completes : machine.Completes instruction here faults →
    (machine.execute instruction here faults).core.LinksTo (here + 4)
  otherwise : ¬ machine.Completes instruction here faults →
    (machine.execute instruction here faults).core = machine.processor

/-- An instruction in a word is like this if its operation links. -/
theorem links_execute (machine : Machine δ) {instruction : Instruction} {here : UInt32}
    (hlinks : instruction.operation.links = true) (hhere : IsAligned here)
    (faults : FaultUnit) : machine.Links instruction here faults := by
  obtain ⟨hcompletes, hcore⟩ | ⟨hcompletes, hcore⟩ :=
    machine.completes_or_unchanged instruction here faults
  · refine ⟨fun _ => ⟨?_, hhere.add_four⟩, fun h => absurd hcompletes h⟩
    rw [hcore]
    exact machine.get_lr_perform here hlinks
  · exact ⟨fun h => absurd h hcompletes, fun _ => hcore⟩

end Machine

/-- So does a boundary that takes an interrupt. -/
theorem Processor.linksTo_serviceInterrupts {δ γ : Type} [InterruptController γ]
    {processor : Processor} {bus : Bus δ} {inputs : InterruptInputs γ}
    (haligned : processor.Aligned)
    (h : (processor.serviceInterrupts bus inputs).entered = true) :
    (processor.serviceInterrupts bus inputs).core.LinksTo (processor.get .pc + 4) := by
  refine ⟨?_, haligned.add_four⟩
  rw [serviceInterrupts_eq] at h ⊢
  cases htaken : processor.interruptTaken? inputs with
  | some exception => exact processor.get_lr_enter exception _
  | none =>
      rw [htaken] at h
      cases h

/-! ## What can be done with a processor -/

namespace Processor

/-- What can be done with a processor, and with what it is done. -/
inductive Step (δ γ : Type)
  | setEntryPoint (address : UInt32)
  | setRegister (register : Register) (value : UInt32)
  /-- An instruction is fetched from the program counter, which moves on past it. -/
  | fetches (instruction : Instruction)
  | serves (bus : Bus δ) (inputs : InterruptInputs γ)
  | executes (bus : Bus δ) (faults : FaultUnit) (here : UInt32) (instruction : Instruction)

variable {δ γ : Type} [InterruptController γ]

/-- The processor after a step. -/
def after (processor : Processor) : Step δ γ → Processor
  | .setEntryPoint address => processor.setEntryPoint address
  | .setRegister register value => processor.setRegister register value
  | .fetches instruction => processor.advance (Decoded.length instruction)
  | .serves bus inputs => (processor.serviceInterrupts bus inputs).core
  | .executes bus faults here instruction =>
    (Machine.execute ⟨processor, bus⟩ instruction here faults).core

/-- The processor after some steps from reset, of which the latest comes first. -/
def sinceReset : List (Step δ γ) → Processor
  | [] => initial
  | step :: earlier => (sinceReset earlier).after step

/-- The places that instructions have been fetched from in some steps. -/
def places : List (Step δ γ) → List UInt32
  | [] => []
  | .fetches _ :: earlier => (sinceReset earlier).get .pc :: places earlier
  | _ :: earlier => places earlier

/-- What a processor has become by steps it can have become. -/
theorem reachable_sinceReset (steps : List (Step δ γ)) : (sinceReset steps).Reachable := by
  induction steps with
  | nil => exact .reset
  | cons step earlier ih =>
      cases step with
      | setEntryPoint address => exact ih.set .pc address
      | setRegister register value => exact ih.set register value
      | fetches instruction => exact ih.advanced
      | serves bus inputs => exact ih.serviced bus inputs
      | executes bus faults here instruction =>
          exact .executed ⟨sinceReset earlier, bus⟩ ih instruction here faults

/-- Every instruction has been fetched from the address of a word. -/
theorem isAligned_places (steps : List (Step δ γ)) : ∀ place ∈ places steps, IsAligned place := by
  induction steps with
  | nil => exact fun _ h => by cases h
  | cons step earlier ih =>
      cases step with
      | fetches instruction =>
          exact List.forall_mem_cons.mpr ⟨(reachable_sinceReset earlier).aligned, ih⟩
      | _ => exact ih

end Processor

/-! ## What is fetched -/

/-- A word of code is read from where it lies. -/
theorem readWidth_of_carries {memory : Memory} {place : UInt32} {index : Nat} {word : UInt16}
    (h : ByteSource.Carries (memory.code (.flat place)) index (bytesOfWord word)) :
    memory.readWidth .word (place + UInt32.ofNat index) = word := by
  obtain ⟨hlow, hrest⟩ := h.of_cons
  have hlow : memory.read (place + UInt32.ofNat index) = lowByte word := by
    rw [Memory.read]
    exact congrArg (Option.getD · Memory.unpopulated) hlow
  have hhigh : memory.read (place + UInt32.ofNat index + 1) = highByte word := by
    have hplace : place + UInt32.ofNat index + 1 = place + UInt32.ofNat (index + 1) := by
      rw [UInt32.add_assoc, UInt32.ofNat_add]
      rfl
    rw [Memory.read, hplace]
    exact congrArg (Option.getD · Memory.unpopulated) hrest.of_cons.1
  rw [Memory.readWidth, hlow, hhigh, wordOfBytes_lowByte_highByte]

/-- The instruction decoded from code is the double word that lies there. -/
theorem decode_code {memory : Memory} {place : UInt32} {instruction : Instruction}
    (h : decode (memory.code (.flat place)) 0 = .ok instruction) :
    instruction = .ofWord (memory.readDouble place) := by
  obtain ⟨word, stop, hread, rfl⟩ := decode_eq_ok h
  obtain ⟨bytes, hcarries, -, low, high, rfl, rfl⟩ := ByteReader.takes_nextDouble _ _ _ _ hread
  obtain ⟨hlow, hhigh⟩ := hcarries.of_append
  have hlow : memory.readWidth .word (place + 0) = low := readWidth_of_carries hlow
  rw [UInt32.add_zero] at hlow
  have hhigh : memory.readWidth .word (place + 2) = high := readWidth_of_carries hhigh
  rw [Memory.readDouble, hlow, hhigh]

end Arm

namespace Pipeline

open Arm

variable {δ γ : Type} [PortDevice δ] [InterruptController γ]

/-! ## Runs of a pipeline -/

/-- What an action does where instructions lie in words. -/
def InWords : Action Processor Instruction δ γ → Prop
  | .serves core bus inputs =>
    core.Aligned
      ∧ ((core.serviceInterrupts bus inputs).entered = true →
        (core.serviceInterrupts bus inputs).core.LinksTo (core.get .pc + 4))
  | .decodes address _ => IsAligned address
  | .executes core bus faults address instruction =>
    core.Aligned ∧ IsAligned address
      ∧ (instruction.operation.links = true →
        Machine.Links ⟨core, bus⟩ instruction address faults)

/-- Instructions have been fetched from words so far, and the next one will be. -/
structure FetchesWords (history : List (Action Processor Instruction δ γ))
    (pipeline : Pipeline Processor Instruction δ γ) : Prop where
  core : pipeline.core.Aligned
  ahead : ∀ item ∈ pipeline.decoded.items, IsAligned item.1
  actions : ∀ action ∈ history, InWords action

/-- Every action keeps it so. -/
theorem fetchesWords_kept :
    Kept fun history (pipeline : Pipeline Processor Instruction δ γ) =>
      pipeline.FetchesWords history where
  control := fun _ _ h => ⟨h.core, h.ahead, h.actions⟩
  serves := by
    intro history pipeline bus faults _ h
    refine ⟨h.core.serviceInterrupts _ _, h.ahead, List.forall_mem_cons.mpr ⟨?_, h.actions⟩⟩
    exact ⟨h.core, fun hentered => Processor.linksTo_serviceInterrupts h.core hentered⟩
  decodes := by
    intro history served core before inputs bus source instruction _ _ h
    refine ⟨h.core.advance, ?_, List.forall_mem_cons.mpr ⟨h.core, h.actions⟩⟩
    intro item hitem
    obtain rfl := List.mem_singleton.mp hitem
    exact h.core
  executes := by
    intro history ready address instruction hitems h
    have haddress : IsAligned address :=
      h.ahead (address, instruction) (hitems ▸ List.mem_singleton_self _)
    refine ⟨Machine.aligned_execute h.core _ _ _, ?_, List.forall_mem_cons.mpr ⟨?_, h.actions⟩⟩
    · intro item hitem
      cases hitem
    · exact ⟨h.core, haddress, fun hlinks => Machine.links_execute _ hlinks haddress _⟩

omit [PortDevice δ] in
/-- It is so before anything has been done. -/
theorem fetchesWords_of (architecture : Architecture Instruction) (memory : Memory)
    (ports : PortMap δ) :
    (of (γ := γ) architecture Processor.initial memory ports).FetchesWords [] where
  core := Processor.Reachable.reset.aligned
  ahead := fun _ hitem => by cases hitem
  actions := fun _ haction => by cases haction

/-- It is so in every run from reset in which the core is only changed by setting
    registers. -/
theorem Recorded.fetchesWords {architecture : Architecture Instruction} {memory : Memory}
    {ports : PortMap δ} {history : List (Action Processor Instruction δ γ)}
    {pipeline : Pipeline Processor Instruction δ γ}
    (h : Recorded SetsRegisters (.of architecture Processor.initial memory ports) history
      pipeline) :
    pipeline.FetchesWords history := by
  refine h.invariant fetchesWords_kept.stages ?_ (orderly_of architecture _ memory ports)
    (fetchesWords_of architecture memory ports)
  intro history pipeline event hother hsets hwords
  obtain ⟨hdecoded, -⟩ := keeps_of_ne_move pipeline hother
  refine ⟨?_, hdecoded ▸ hwords.ahead, hwords.actions⟩
  obtain ⟨core, rfl⟩ | hsame := pipeline.core_set_or_kept hother
  · obtain ⟨register, value, rfl⟩ := hsets
    exact hwords.core.setRegister register value
  · rw [hsame]
    exact hwords.core

omit [PortDevice δ] in
/-- With a coherent bus, what is decoded is the double word where the core stands. -/
theorem decoded_word {pipeline prepared : Pipeline Processor Instruction δ γ}
    (harchitecture : pipeline.architecture = a32) (hcoherent : pipeline.bus.Coherent)
    (hempty : pipeline.decoded.isEmpty = true) (hprepare : pipeline.prepare = (prepared, none)) :
    prepared.decoded.items
      = [(pipeline.serviceInterrupts.fetchAddress,
          .ofWord (pipeline.bus.memory.readDouble pipeline.serviceInterrupts.fetchAddress))] := by
  have hbus : pipeline.serviceInterrupts.bus = pipeline.bus :=
    Processor.serviceInterrupts_bus _ _ _
  have hfetched : Fetched pipeline.serviceInterrupts pipeline.prepare := by
    have hprepare : pipeline.prepare = pipeline.fetchNext := if_pos hempty
    rw [hprepare]
    exact fetchNext_fetched hcoherent fun _ _ => by rw [hbus]
  rw [hprepare] at hfetched
  cases hfetched with
  | decodes _ _ hmemory hpush =>
      rw [instructionInMemory, hbus] at hmemory
      have hdecode : pipeline.serviceInterrupts.architecture.decode = decode := by
        show pipeline.architecture.decode = decode
        rw [harchitecture]
        rfl
      rw [hdecode] at hmemory
      have hserved : pipeline.serviceInterrupts.decoded.isEmpty = true := hempty
      rw [push_of_isEmpty hserved] at hpush
      split at hpush
      · cases hpush
        rw [decode_code hmemory]
        rfl
      · cases hpush

end Pipeline

namespace Arm

open Pipeline

/-- Whatever has been done with a processor since reset, its program counter is a
    multiple of 4.  Every byte of an instruction is in the word it is fetched
    from, and a call or an interrupt leaves the address of a word to return to.
    So it is throughout every run of a pipeline, and what is decoded there is the
    word that memory holds, as long as no store hits a byte that is queued. -/
theorem instructions_lie_in_words :
    (∀ {δ γ : Type} [InterruptController γ] (steps : List (Processor.Step δ γ)),
      ((Processor.sinceReset steps).get .pc).toNat % 4 = 0
      ∧ (∀ place ∈ Processor.places steps, ∀ i < instructionLength,
          Processor.wordAddress (place + UInt32.ofNat i) = place)
      ∧ (∀ (bus : Bus δ) (inputs : InterruptInputs γ),
          ((Processor.sinceReset steps).serviceInterrupts bus inputs).entered = true →
          ((Processor.sinceReset steps).serviceInterrupts bus inputs).core.LinksTo
            ((Processor.sinceReset steps).get .pc + 4))
      ∧ (∀ (bus : Bus δ) (faults : FaultUnit) (instruction : Instruction),
          instruction.operation.links = true → ∀ here ∈ Processor.places steps,
          Machine.Links ⟨Processor.sinceReset steps, bus⟩ instruction here faults))
    ∧ (∀ {δ γ : Type} [PortDevice δ] [InterruptController γ] (memory : Memory)
        (ports : PortMap δ) (history : List (Action Processor Instruction δ γ)) (pipeline),
        Recorded SetsRegisters (.of a32 Processor.initial memory ports) history pipeline →
        pipeline.FetchesWords history)
    ∧ (∀ {δ γ : Type} [PortDevice δ] [InterruptController γ] (memory : Memory)
        (ports : PortMap δ) (pipeline prepared : Pipeline Processor Instruction δ γ),
        Run (fun pipeline event => pipeline.SetsRegisters event ∧ pipeline.SparesQueue event)
          (.of a32 Processor.initial memory ports) pipeline →
        pipeline.decoded.isEmpty = true → pipeline.prepare = (prepared, none) →
        IsAligned pipeline.serviceInterrupts.fetchAddress
          ∧ prepared.decoded.items
            = [(pipeline.serviceInterrupts.fetchAddress,
                .ofWord (pipeline.bus.memory.readDouble
                  pipeline.serviceInterrupts.fetchAddress))]) := by
  refine ⟨?_, ?_, ?_⟩
  · intro δ γ _ steps
    have haligned := (Processor.reachable_sinceReset steps).aligned
    have hplaces := Processor.isAligned_places steps
    refine ⟨haligned, ?_, ?_, ?_⟩
    · intro place hplace i hi
      exact wordAddress_add (hplaces place hplace) hi
    · intro bus inputs hentered
      exact Processor.linksTo_serviceInterrupts haligned hentered
    · intro bus faults instruction hlinks here hhere
      exact Machine.links_execute _ hlinks (hplaces here hhere) faults
  · intro δ γ _ _ memory ports history pipeline hrun
    exact hrun.fetchesWords
  · intro δ γ _ _ memory ports pipeline prepared hrun hempty hprepare
    have hbuilt := (built_of a32 Processor.initial memory ports).run
      (orderly_of a32 Processor.initial memory ports) hrun
    have haligned : pipeline.core.Aligned :=
      (reachable_of_run a32 memory ports (hrun.mono fun _ _ h => h.1)).aligned
    have hcoherent : pipeline.bus.Coherent :=
      coherent_of_run (Bus.coherent_of _ _ _ _) (hrun.mono fun _ _ h => h.2)
    exact ⟨haligned.serviceInterrupts _ _,
      decoded_word hbuilt.architecture_eq hcoherent hempty hprepare⟩

/-- A processor at the start of a program that calls the odd address 9 by a
    register, and then calls what lies 8 bytes on. -/
def callingStart : Pipeline Processor Instruction Terminal.Console InterruptLine :=
  .of a32 .initial
    ⟨#[0x09, 0x00, 0xA0, 0xE3, 0x30, 0xFF, 0x2F, 0xE1, 0x00, 0x00, 0x00, 0xEB], none⟩ .empty

/-- From reset an instruction is fetched that lets interrupts through, and carried
    out; then the call is fetched. -/
def callingSteps : List (Processor.Step Terminal.Console InterruptLine) :=
  [.fetches (.ofWord 0xE12FFF30),
    .setRegister (.ofNumber 0) 9,
    .executes callingStart.bus .initial 0 (.ofWord 0xE321F013),
    .fetches (.ofWord 0xE321F013)]

/-- The call and an interrupt in its place leave the addresses of words to return to.
    In the pipeline the first call goes to the word that 9 is in, where the second one
    is decoded. -/
theorem instructions_lie_in_words_calling :
    Processor.places callingSteps = [4, 0]
      ∧ (Machine.execute ⟨Processor.sinceReset callingSteps, callingStart.bus⟩
          (.ofWord 0xE12FFF30) 4 .initial).core.LinksTo 8
      ∧ ((Processor.sinceReset callingSteps).serviceInterrupts callingStart.bus
          callingStart.interrupts.raiseNmi).core.LinksTo 12
      ∧ (callingStart.moves 2).2.core.Aligned
      ∧ (callingStart.moves 2).2.prepare.1.decoded.items = [(8, .ofWord 0xEB000000)] := by
  obtain ⟨-, -, hserved, hlinks⟩ := instructions_lie_in_words.1 callingSteps
  have hlinked := hlinks callingStart.bus .initial (.ofWord 0xE12FFF30) (by decide +kernel) 4
    (by decide +kernel)
  have hrecorded : Recorded SetsRegisters callingStart (callingStart.moves 2).1
      (callingStart.moves 2).2 := by
    refine recorded_replay callingStart fun event hevent _ => ?_
    rw [List.eq_of_mem_replicate hevent]
    trivial
  have hrun : Run (fun pipeline event => pipeline.SetsRegisters event ∧ pipeline.SparesQueue event)
      callingStart (callingStart.moves 2).2 := by
    have hfirst : callingStart.MoveSpares := by decide +kernel
    have hsecond : (callingStart.after .move).MoveSpares := by decide +kernel
    exact .event (.event .refl .move ⟨trivial, hfirst⟩) .move ⟨trivial, hsecond⟩
  obtain ⟨-, hdecoded⟩ := instructions_lie_in_words.2.2 _ .empty _ _ hrun (by decide +kernel)
    (Prod.ext rfl (by decide +kernel))
  refine ⟨by decide +kernel, hlinked.completes ⟨by decide +kernel, by decide +kernel⟩,
    hserved _ _ (by decide +kernel), ?_, ?_⟩
  · exact (instructions_lie_in_words.2.1 _ .empty _ _ hrecorded).core
  · exact hdecoded.trans (by decide +kernel)

end Arm

end Microprocessor
