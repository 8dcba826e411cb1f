import Microprocessor.Proofs.Pipeline.Transparency

/-! # When the prefetched bytes are dropped

    Whether an instruction has transferred control is judged by where the core
    stands after it: if not at the linear address that follows the instruction,
    the prefetched bytes are dropped.  A transfer to that very address keeps
    them, although memory may have changed under them since.

      * `Pipeline.queue_after_execution`: what is left of the queue;
      * `Bus.fetch_eq_memory` and `Bus.fetch_eq_queue`: where the next bytes are
        read from;
      * `jumpRelative_flushes_iff`: the relative jumps that flush;
      * `transfer_flushes_unless_following` puts it together for both cores. -/

namespace Microprocessor

/-! ## Where the next bytes are read from -/

namespace Bus

variable {δ : Type}

/-- With nothing queued, or elsewhere, the stream after a fetch is memory. -/
theorem fetch_eq_memory {bus : Bus δ} {start : CodeAddress}
    (h : bus.queue.isEmpty = true ∨ bus.head ≠ start) :
    ∃ fetched, bus.fetch start = .ok fetched
      ∧ ∀ i, fetched.byteAt i = bus.memory.fetch? (start.advance i).address := by
  obtain ⟨queue, hfetch, -, hbyteAt⟩ := bus.fetch_byteAt start
  have hseek : bus.seek start = { bus with queue := bus.queue.reset, head := start } := by
    refine if_pos ?_
    rw [Bool.or_eq_true, bne_iff_ne]
    exact h
  refine ⟨_, hfetch, ?_⟩
  intro i
  rw [hbyteAt, hseek]
  exact byteAt_of_le (Nat.zero_le i)

/-- Where the queued bytes come from, the stream after a fetch begins with
    them, whatever memory holds. -/
theorem fetch_eq_queue {bus : Bus δ} {start : CodeAddress} (h : bus.head = start) :
    ∃ fetched, bus.fetch start = .ok fetched
      ∧ ∀ i, i < bus.queue.size → fetched.byteAt i = bus.queue.peek? i := by
  obtain ⟨queue, hfetch, -, hbyteAt⟩ := bus.fetch_byteAt start
  refine ⟨_, hfetch, ?_⟩
  intro i hi
  have hnonempty : bus.queue.isEmpty = false := by
    rw [PrefetchQueue.isEmpty, List.isEmpty_eq_false_iff_exists_mem]
    exact ⟨_, List.getElem_mem hi⟩
  have hseek : bus.seek start = bus := by
    refine if_neg ?_
    rw [hnonempty, h, bne_self_eq_false]
    exact Bool.false_ne_true
  rw [hbyteAt, hseek]
  exact byteAt_of_lt hi

end Bus

namespace Pipeline

variable {κ ι δ γ : Type} [Core κ ι] [Decoded ι] [PortDevice δ] [InterruptController γ]

/-! ## What is left of the queue -/

/-- The linear address that follows an instruction decoded at an address. -/
def following (address : UInt32) (instruction : ι) : UInt32 :=
  address + UInt32.ofNat (min (Decoded.length instruction) 0xFFFFFFFF)

/-- A move that executes an instruction leaves the core and the bus as the
    instruction does, but for the queue. -/
theorem tick_of_pop {pipeline ready : Pipeline κ ι δ γ} {address : UInt32} {instruction : ι}
    {rest : DecodedQueue (UInt32 × ι)} {executed : Executed κ δ}
    (hready : pipeline.readied? = some ready)
    (hpop : ready.decoded.pop = .ok ((address, instruction), rest))
    (hexecuted : Core.execute ready.core instruction address ready.bus ready.faults = executed) :
    pipeline.tick.1.core = executed.core
      ∧ pipeline.tick.1.bus
          = if Core.fetchAddress executed.core = following address instruction
            then executed.bus else executed.bus.resetQueue := by
  obtain ⟨stage, hexecute⟩ := executeNext_of_pop hpop
  rw [tick_of_readied? hready, hexecute, ← hexecuted]
  exact ⟨rfl, rfl⟩

/-- Executing an instruction keeps the queue if the core then stands at the
    address that follows, and drops it otherwise. -/
theorem queue_after_execution [AccessingCore κ ι] {pipeline ready : Pipeline κ ι δ γ}
    {address : UInt32} {instruction : ι} {rest : DecodedQueue (UInt32 × ι)}
    (hready : pipeline.readied? = some ready)
    (hpop : ready.decoded.pop = .ok ((address, instruction), rest)) :
    pipeline.tick.1.bus.head = ready.bus.head
      ∧ pipeline.tick.1.bus.queue
          = if pipeline.tick.1.fetchAddress = following address instruction
            then ready.bus.queue else ready.bus.queue.reset := by
  obtain ⟨hcore, hbus⟩ := tick_of_pop hready hpop rfl
  have haccess : ready.bus.Accessed
      (Core.execute ready.core instruction address ready.bus ready.faults).bus :=
    AccessingCore.execute_accessed _ _ _ _ _
  rw [fetchAddress, hcore, hbus]
  split
  · exact ⟨haccess.head, haccess.queue⟩
  · exact ⟨haccess.head, congrArg PrefetchQueue.reset haccess.queue⟩

/-- After the oldest decoded instruction of `ready` has been executed, nothing
    is queued if nothing was, or if the core stands elsewhere than at the address
    that follows the instruction, and not otherwise.  The next bytes are read
    from memory if nothing is queued or the queued bytes come from elsewhere; if
    not, they are the queued ones. -/
structure FlushesUnlessFollowing (ready after : Pipeline κ ι δ γ) (following : UInt32) :
    Prop where
  isEmpty_iff : after.bus.queue.isEmpty = true ↔
    ready.bus.queue.isEmpty = true ∨ after.fetchAddress ≠ following
  reads_memory : after.bus.queue.isEmpty = true ∨ ready.bus.head ≠ Core.codeAddress after.core →
    ∃ fetched, after.bus.fetch (Core.codeAddress after.core) = .ok fetched
      ∧ ∀ i, fetched.byteAt i
          = after.bus.memory.fetch? ((Core.codeAddress after.core).advance i).address
  reads_queue : after.bus.queue.isEmpty = false → ready.bus.head = Core.codeAddress after.core →
    ∃ fetched, after.bus.fetch (Core.codeAddress after.core) = .ok fetched
      ∧ ∀ i, i < ready.bus.queue.size → fetched.byteAt i = ready.bus.queue.peek? i

/-- A move that executes an instruction flushes unless the core goes on to what
    follows it. -/
theorem flushesUnlessFollowing [AccessingCore κ ι] {pipeline ready : Pipeline κ ι δ γ}
    {address : UInt32} {instruction : ι} {rest : DecodedQueue (UInt32 × ι)}
    (hready : pipeline.readied? = some ready)
    (hpop : ready.decoded.pop = .ok ((address, instruction), rest)) :
    ready.FlushesUnlessFollowing pipeline.tick.1 (following address instruction) := by
  obtain ⟨hhead, hqueue⟩ := queue_after_execution hready hpop
  have hiff : pipeline.tick.1.bus.queue.isEmpty = true ↔
      ready.bus.queue.isEmpty = true
        ∨ pipeline.tick.1.fetchAddress ≠ following address instruction := by
    rw [hqueue]
    split
    · rename_i hfollows
      constructor
      · exact Or.inl
      · rintro (hempty | hne)
        · exact hempty
        · exact absurd hfollows hne
    · rename_i hne
      exact ⟨fun _ => Or.inr hne, fun _ => rfl⟩
  refine ⟨hiff, ?_, ?_⟩
  · intro h
    rw [← hhead] at h
    exact Bus.fetch_eq_memory h
  · intro hkept hplace
    -- A queue that is not empty has been kept, so the core goes on to what follows.
    have hfollows : pipeline.tick.1.fetchAddress = following address instruction := by
      refine Decidable.byContradiction fun hne => ?_
      rw [hiff.mpr (Or.inr hne)] at hkept
      cases hkept
    rw [if_pos hfollows] at hqueue
    rw [← hhead] at hplace
    rw [← hqueue]
    exact Bus.fetch_eq_queue hplace

end Pipeline

/-! ## Transfers of control -/

open Pipeline

/-- A relative jump leaves the 8086 in its segment, moved by the displacement. -/
theorem X86.codeAddress_jumpRelative {δ : Type} [PortDevice δ] (unit : X86.ExecutionUnit)
    {instruction : X86.Instruction} {displacement : Int16}
    (hjump : instruction.operation = .jumpRelative displacement) (address : UInt32) (bus : Bus δ)
    (faults : FaultUnit) :
    Core.codeAddress (Core.execute unit instruction address bus faults).core
      = .segmented ⟨unit.regs.segment .cs, unit.regs.ip + displacement.toUInt16⟩ := by
  obtain ⟨opcode, prefixes, operation, length, clocks⟩ := instruction
  obtain rfl : operation = .jumpRelative displacement := hjump
  rfl

/-- A relative jump that is executed where it was decoded flushes unless it goes
    nowhere. -/
theorem jumpRelative_flushes_iff {δ γ : Type} [PortDevice δ] [InterruptController γ]
    {pipeline ready : Pipeline X86.ExecutionUnit X86.Instruction δ γ} {address : UInt32}
    {instruction : X86.Instruction} {rest : DecodedQueue (UInt32 × X86.Instruction)}
    {displacement : Int16} (hready : pipeline.readied? = some ready)
    (hpop : ready.decoded.pop = .ok ((address, instruction), rest))
    (hjump : instruction.operation = .jumpRelative displacement)
    (hplace : ready.fetchAddress = following address instruction) :
    pipeline.tick.1.bus.queue.isEmpty = true ↔
      ready.bus.queue.isEmpty = true ∨ displacement ≠ 0 := by
  obtain ⟨hcore, -⟩ := tick_of_pop hready hpop rfl
  have htarget : pipeline.tick.1.fetchAddress
      = linearAddress (ready.core.regs.segment .cs)
        (ready.core.regs.ip + displacement.toUInt16) := by
    rw [fetchAddress, hcore, Core.fetchAddress, X86.codeAddress_jumpRelative _ hjump]
    rfl
  have hstays : pipeline.tick.1.fetchAddress = following address instruction ↔
      displacement = 0 := by
    rw [htarget, ← hplace]
    constructor
    · intro h
      -- Offsets of one segment with the same address are the same.
      have hzero : displacement.toUInt16 = 0 :=
        UInt16.add_eq_left.mp (linearAddress_injective h)
      exact congrArg Int16.ofUInt16 hzero
    · rintro rfl
      show linearAddress _ (_ + 0) = _
      rw [UInt16.add_zero]
      rfl
  rw [(flushesUnlessFollowing hready hpop).isEmpty_iff, ne_eq, hstays]

/-- Whatever instruction a move of either core executes, the queue is empty
    afterwards exactly if nothing was queued or the core does not stand at the
    linear address that follows the instruction.  So a transfer of control, which
    leaves the core at its target, flushes unless the target has that address;
    then the next instruction is decoded from the bytes that were prefetched. -/
theorem transfer_flushes_unless_following {δ γ : Type} [PortDevice δ] [InterruptController γ] :
    (∀ (pipeline ready : Pipeline X86.ExecutionUnit X86.Instruction δ γ) (address : UInt32)
        (instruction : X86.Instruction) (rest : DecodedQueue (UInt32 × X86.Instruction)),
        pipeline.readied? = some ready →
        ready.decoded.pop = .ok ((address, instruction), rest) →
        ready.FlushesUnlessFollowing pipeline.tick.1 (following address instruction))
    ∧ (∀ (pipeline ready : Pipeline Arm.Processor Arm.Instruction δ γ) (address : UInt32)
        (instruction : Arm.Instruction) (rest : DecodedQueue (UInt32 × Arm.Instruction)),
        pipeline.readied? = some ready →
        ready.decoded.pop = .ok ((address, instruction), rest) →
        ready.FlushesUnlessFollowing pipeline.tick.1 (following address instruction)) := by
  constructor
  · intro pipeline ready address instruction rest hready hpop
    exact flushesUnlessFollowing hready hpop
  · intro pipeline ready address instruction rest hready hpop
    exact flushesUnlessFollowing hready hpop

/-- An 8086 at the start of a program that stores `INC AX` over the byte after a
    jump to that very byte. -/
def jumpingStart : Pipeline X86.ExecutionUnit X86.Instruction Terminal.Console InterruptLine :=
  .of X86.realMode
    (X86.ExecutionUnit.initial.mapRegs fun regs => (regs.setWord .ax 0x40).setWord .di 3)
    ⟨#[0xAA, 0xEB, 0x00, 0x90, 0x90, 0x90], none⟩ .empty

/-- A jump to the byte after it keeps the queue: the next byte is the one that
    was prefetched, not the one that memory holds. -/
theorem transfer_flushes_unless_following_jumping :
    ∃ ready instruction rest,
      (jumpingStart.after .move).readied? = some ready
        ∧ ready.decoded.pop = .ok ((1, instruction), rest)
        ∧ instruction.operation = .jumpRelative 0
        ∧ (jumpingStart.after .move).tick.1.bus.queue.isEmpty = false
        ∧ (jumpingStart.after .move).tick.1.bus.memory.fetch? 3 = some 0x40
        ∧ ∃ fetched, (jumpingStart.after .move).tick.1.bus.fetch (.segmented ⟨0, 3⟩) = .ok fetched
            ∧ fetched.byteAt 0 = some 0x90 := by
  let ready := (jumpingStart.after .move).readied?.get (by decide +kernel)
  have hready : (jumpingStart.after .move).readied? = some ready := (Option.some_get _).symm
  have hdecoded : ready.decoded = ⟨[(1, ⟨0xEB, .none, .jumpRelative 0, 2, 15⟩)], 1⟩ := by
    decide +kernel
  have hpop : ready.decoded.pop
      = .ok ((1, ⟨0xEB, .none, .jumpRelative 0, 2, 15⟩), ⟨[], 1⟩) := by
    rw [hdecoded]
    rfl
  have hflush := transfer_flushes_unless_following.1 _ _ _ _ _ hready hpop
  refine ⟨ready, _, _, hready, hpop, rfl, by decide +kernel, by decide +kernel, ?_⟩
  have hplace : Core.codeAddress (jumpingStart.after .move).tick.1.core = .segmented ⟨0, 3⟩ := by
    decide +kernel
  obtain ⟨fetched, hfetch, hbyteAt⟩ := hflush.reads_queue (by decide +kernel) (by decide +kernel)
  rw [hplace] at hfetch
  refine ⟨fetched, hfetch, ?_⟩
  rw [hbyteAt 0 (by decide +kernel)]
  decide +kernel

end Microprocessor
