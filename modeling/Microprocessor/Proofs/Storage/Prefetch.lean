import Microprocessor.Proofs.Storage.Access
import Microprocessor.Proofs.Storage.Address
import Microprocessor.Proofs.Storage.Memory

/-! # The prefetch queue as a window on memory

    A bus is coherent if its queue is within its capacity and holds, byte for
    byte, what memory holds from the head of the stream on.  Of a coherent bus
    the stream is memory: it does not matter how much has been prefetched.

      * `Bus.fetch_coherent`: a fetch succeeds from anywhere and leaves the bus
        coherent at the address it was asked for;
      * `Bus.fetch_fetch`: after a fetch there is nothing more to fetch from
        there;
      * `Bus.Coherent.consume`, `Bus.Coherent.resetQueue`,
        `Bus.Coherent.withMemory` and `Bus.Coherent.accessed` keep the bus
        coherent; of a change of memory it is asked that it spares the queued
        bytes;
      * `Bus.Coherent.byteAt_eq`: the stream is memory. -/

namespace Microprocessor

/-- The bytes that memory holds from a code address on. -/
def Memory.code (memory : Memory) (start : CodeAddress) : ByteSource :=
  fun index => memory.fetch? (start.advance index).address

namespace Bus

variable {δ : Type}

/-- The queued bytes are those of memory. -/
def Agrees (bus : Bus δ) : Prop :=
  ∀ i, i < bus.queue.size → bus.queue.peek? i = bus.memory.code bus.head i

/-- The queue is within its capacity, and its bytes are those of memory. -/
structure Coherent (bus : Bus δ) : Prop where
  size_le : bus.queue.size ≤ bus.queue.capacity
  peek?_eq : ∀ i, i < bus.queue.size → bus.queue.peek? i = bus.memory.code bus.head i

/-- Other contents of memory that agree with the present ones at the address of
    every queued byte. -/
def Spares (bus : Bus δ) (memory : Memory) : Prop :=
  ∀ i, i < bus.queue.size → memory.code bus.head i = bus.memory.code bus.head i

theorem Coherent.agrees {bus : Bus δ} (h : bus.Coherent) : bus.Agrees :=
  h.peek?_eq

instance (bus : Bus δ) (memory : Memory) : Decidable (bus.Spares memory) :=
  inferInstanceAs (Decidable (∀ i, i < bus.queue.size → _ = _))

/-! ## Small laws of the queue -/

/-- Past the queued bytes there is nothing to peek at. -/
theorem peek?_eq_none {queue : PrefetchQueue} {i : Nat} (h : queue.size ≤ i) :
    queue.peek? i = none :=
  List.getElem?_eq_none h

/-- The queued bytes after some have been discarded. -/
theorem peek?_discard (queue : PrefetchQueue) (count i : Nat) :
    (queue.discard count).peek? i = queue.peek? (count + i) :=
  List.getElem?_drop

theorem size_discard (queue : PrefetchQueue) (count : Nat) :
    (queue.discard count).size = queue.size - count :=
  List.length_drop

/-- The place of a byte of the stream, counted from further on. -/
theorem code_advance (memory : Memory) (start : CodeAddress) (count i : Nat) :
    memory.code (start.advance count) i = memory.code start (count + i) := by
  unfold Memory.code
  rw [CodeAddress.advance_advance]

/-! ## Coherence -/

/-- An empty queue is coherent with any memory. -/
theorem coherent_of_isEmpty {bus : Bus δ} (h : bus.queue.bytes = []) : bus.Coherent := by
  have hsize : bus.queue.size = 0 := congrArg List.length h
  constructor
  · rw [hsize]
    exact Nat.zero_le _
  · intro i hi
    rw [hsize] at hi
    exact absurd hi (Nat.not_lt_zero i)

/-- A bus starts coherent. -/
theorem coherent_of (memory : Memory) (ports : PortMap δ) (capacity chunk : Nat) :
    (Bus.of memory ports capacity chunk).Coherent :=
  coherent_of_isEmpty rfl

/-- Dropping the queue keeps a bus coherent. -/
theorem Coherent.resetQueue {bus : Bus δ} : bus.resetQueue.Coherent :=
  coherent_of_isEmpty rfl

/-- Moving the stream on keeps a bus coherent, also past all that is queued. -/
theorem Coherent.consume {bus : Bus δ} (h : bus.Coherent) (count : Nat) :
    (bus.consume count).Coherent := by
  have hsize : (bus.consume count).queue.size = bus.queue.size - count :=
    size_discard bus.queue count
  constructor
  · rw [hsize]
    exact Nat.le_trans (Nat.sub_le _ _) h.size_le
  · intro i hi
    rw [hsize] at hi
    show (bus.queue.discard count).peek? i = bus.memory.code (bus.head.advance count) i
    rw [peek?_discard, code_advance]
    exact h.peek?_eq (count + i) (by omega)

/-- A change of memory that spares the queued bytes keeps a bus coherent. -/
theorem Coherent.withMemory {bus : Bus δ} (h : bus.Coherent) {memory : Memory}
    (hspare : bus.Spares memory) : Coherent { bus with memory } := by
  constructor
  · exact h.size_le
  · intro i hi
    show bus.queue.peek? i = memory.code bus.head i
    rw [h.peek?_eq i hi, hspare i hi]

/-- Accesses that spare the queued bytes keep a bus coherent. -/
theorem Coherent.accessed {bus after : Bus δ} (h : bus.Coherent) (haccess : bus.Accessed after)
    (hspare : bus.Spares after.memory) : after.Coherent := by
  constructor
  · rw [haccess.queue]
    exact h.size_le
  · intro i hi
    rw [haccess.queue] at hi ⊢
    rw [haccess.head, h.peek?_eq i hi, hspare i hi]

/-- A store that misses the queued bytes spares them. -/
theorem spares_write {bus : Bus δ} {address : UInt32} (value : UInt8)
    (h : ∀ i, i < bus.queue.size → (bus.head.advance i).address ≠ address) :
    bus.Spares (bus.memory.write address value) := by
  intro i hi
  exact Memory.fetch?_write_of_ne bus.memory value (h i hi).symm

/-- An image that covers none of the queued bytes spares them. -/
theorem spares_load {bus : Bus δ} {base : UInt32} {image : List UInt8} {after : Memory}
    (hload : bus.memory.load base image = .ok after)
    (h : ∀ i, i < bus.queue.size → (bus.head.advance i).address.toNat < base.toNat
      ∨ base.toNat + image.length ≤ (bus.head.advance i).address.toNat) :
    bus.Spares after := by
  intro i hi
  exact Memory.fetch?_load_of_outside hload (h i hi)

/-! ## The stream -/

/-- Where the queued bytes are those of memory, the stream is memory, within the queue and
    past it. -/
theorem Agrees.byteAt_eq {bus : Bus δ} (h : bus.Agrees) :
    bus.byteAt = bus.memory.code bus.head := by
  funext i
  rw [Bus.byteAt]
  rcases Nat.lt_or_ge i bus.queue.size with hlt | hge
  · rw [h i hlt]
    show _ = bus.memory.code bus.head i
    cases hcode : bus.memory.code bus.head i with
    | some byte => rfl
    | none => exact hcode
  · rw [peek?_eq_none hge]
    rfl

/-- Of a coherent bus the stream is memory. -/
theorem Coherent.byteAt_eq {bus : Bus δ} (h : bus.Coherent) :
    bus.byteAt = bus.memory.code bus.head :=
  h.agrees.byteAt_eq

/-- Within the queue the stream is the queue. -/
theorem byteAt_of_lt {bus : Bus δ} {i : Nat} (h : i < bus.queue.size) :
    bus.byteAt i = bus.queue.peek? i := by
  have hpeek : bus.queue.peek? i = some (bus.queue.bytes.get ⟨i, h⟩) := List.getElem?_eq_getElem h
  rw [Bus.byteAt, hpeek]

/-- Past the queue the stream is memory. -/
theorem byteAt_of_le {bus : Bus δ} {i : Nat} (h : bus.queue.size ≤ i) :
    bus.byteAt i = bus.memory.code bus.head i := by
  rw [Bus.byteAt, peek?_eq_none h]
  rfl

/-- A bus whose stream is memory is coherent. -/
theorem coherent_of_byteAt {bus : Bus δ} (hsize : bus.queue.size ≤ bus.queue.capacity)
    (h : bus.byteAt = bus.memory.code bus.head) : bus.Coherent := by
  refine ⟨hsize, ?_⟩
  intro i hi
  rw [← byteAt_of_lt hi, h]

/-! ## Fetching -/

/-- One more byte from memory makes no difference to the stream. -/
theorem byteAt_push {bus : Bus δ} {byte : UInt8}
    (hbyte : bus.memory.fetch? bus.nextFetchAddress = some byte) :
    byteAt { bus with queue := { bus.queue with bytes := bus.queue.bytes ++ [byte] } }
      = bus.byteAt := by
  have hsize : (bus.queue.bytes ++ [byte]).length = bus.queue.size + 1 := by
    rw [List.length_append]
    rfl
  funext i
  -- Before the new byte both read the queue, after it both read memory.
  rcases Nat.lt_trichotomy i bus.queue.size with hlt | rfl | hgt
  · rw [byteAt_of_lt hlt, byteAt_of_lt (show i < (bus.queue.bytes ++ [byte]).length by omega)]
    exact List.getElem?_append_left hlt
  · rw [byteAt_of_le (Nat.le_refl _),
      byteAt_of_lt (show bus.queue.size < (bus.queue.bytes ++ [byte]).length by omega)]
    show (bus.queue.bytes ++ [byte])[bus.queue.bytes.length]? = _
    rw [List.getElem?_concat_length]
    exact hbyte.symm
  · rw [byteAt_of_le (Nat.le_of_lt hgt),
      byteAt_of_le (show (bus.queue.bytes ++ [byte]).length ≤ i by omega)]

/-- As many bytes as there is room for can be queued, and make no difference to
    the stream. -/
theorem fill_byteAt {bus : Bus δ} {count : Nat} (hroom : count ≤ bus.queue.free) :
    ∃ queue, bus.fill count = .ok { bus with queue }
      ∧ (bus.queue.size ≤ bus.queue.capacity → queue.size ≤ queue.capacity)
      ∧ byteAt { bus with queue } = bus.byteAt := by
  -- Each byte queued takes away one place and leaves the stream as it was.
  induction count generalizing bus with
  | zero => exact ⟨bus.queue, rfl, id, rfl⟩
  | succ count ih =>
      rw [Bus.fill]
      cases hbyte : bus.memory.fetch? bus.nextFetchAddress with
      | none => exact ⟨bus.queue, rfl, id, rfl⟩
      | some byte =>
          have hfree : count < bus.queue.capacity - bus.queue.size := hroom
          have hpush : bus.queue.push byte
              = .ok { bus.queue with bytes := bus.queue.bytes ++ [byte] } := if_pos (by omega)
          have hsize : (bus.queue.bytes ++ [byte]).length = bus.queue.size + 1 := by
            rw [List.length_append]
            rfl
          simp only [hpush]
          obtain ⟨queue, hfill, hle, hbyteAt⟩ := @ih
            { bus with queue := { bus.queue with bytes := bus.queue.bytes ++ [byte] } }
            (show count ≤ bus.queue.capacity - (bus.queue.bytes ++ [byte]).length by omega)
          refine ⟨queue, hfill, fun _ => hle ?_, hbyteAt.trans (byteAt_push hbyte)⟩
          show (bus.queue.bytes ++ [byte]).length ≤ bus.queue.capacity
          omega

/-- Seeking leaves the bus standing at the address, and changes nothing but the
    queue, which it may drop. -/
theorem seek_eq (bus : Bus δ) (start : CodeAddress) :
    ∃ queue, bus.seek start = { bus with queue, head := start }
      ∧ queue.size ≤ bus.queue.size ∧ queue.capacity = bus.queue.capacity := by
  rw [Bus.seek]
  by_cases hmove : (bus.queue.isEmpty || bus.head != start) = true
  · rw [if_pos hmove]
    exact ⟨bus.queue.reset, rfl, Nat.zero_le _, rfl⟩
  · rw [if_neg hmove]
    rw [Bool.not_eq_true, Bool.or_eq_false_iff, bne_eq_false_iff_eq] at hmove
    obtain rfl : bus.head = start := hmove.2
    exact ⟨bus.queue, rfl, Nat.le_refl _, rfl⟩

/-- A fetch always succeeds, and the stream is the one that seeking left. -/
theorem fetch_byteAt (bus : Bus δ) (start : CodeAddress) :
    ∃ queue, bus.fetch start = .ok { bus with queue, head := start }
      ∧ (bus.queue.size ≤ bus.queue.capacity → queue.size ≤ queue.capacity)
      ∧ byteAt { bus with queue, head := start } = (bus.seek start).byteAt := by
  obtain ⟨sought, hseek, hle, hcapacity⟩ := bus.seek_eq start
  obtain ⟨queue, hfill, hsize, hbyteAt⟩ :=
    @fill_byteAt δ { bus with queue := sought, head := start } _ (Nat.div_mul_le_self _ _)
  rw [Bus.fetch, hseek]
  refine ⟨queue, hfill, fun hbus => hsize ?_, hbyteAt⟩
  show sought.size ≤ sought.capacity
  omega

/-- Where the bus stands already, there is nothing to seek. -/
theorem seek_of_head {bus : Bus δ} {start : CodeAddress} (h : bus.head = start) :
    bus.seek start = bus := by
  obtain ⟨memory, ports, ⟨bytes, capacity⟩, fetchChunk, head⟩ := bus
  obtain rfl : head = start := h
  rw [Bus.seek]
  cases bytes with
  | nil => rfl
  | cons byte rest => exact if_neg (by simp [PrefetchQueue.isEmpty])

/-- Filling takes up as much room as it was given, unless memory ends. -/
theorem fill_ends {bus after : Bus δ} {count : Nat} (h : bus.fill count = .ok after) :
    after.memory.fetch? after.nextFetchAddress = none
      ∨ after.queue.free = bus.queue.free - count := by
  induction count generalizing bus with
  | zero =>
      cases h
      exact .inr rfl
  | succ count ih =>
      rw [Bus.fill] at h
      split at h
      · rename_i hnone
        cases h
        exact .inl hnone
      · split at h
        · cases h
        · rename_i byte _ _ queue hpush
          refine (ih h).imp_right fun hfree => ?_
          rw [PrefetchQueue.push] at hpush
          split at hpush
          · cases hpush
            rw [hfree]
            show bus.queue.capacity - (bus.queue.bytes ++ [byte]).length - count
              = bus.queue.capacity - bus.queue.bytes.length - (count + 1)
            rw [List.length_append, List.length_singleton]
            omega
          · cases hpush

/-- Once a fetch has been made, there is nothing more to fetch from the same address. -/
theorem fetch_fetch {bus after : Bus δ} {start : CodeAddress} (h : bus.fetch start = .ok after) :
    after.fetch start = .ok after := by
  obtain ⟨queue, hfetch, -, -⟩ := bus.fetch_byteAt start
  obtain ⟨sought, hseek, -, -⟩ := bus.seek_eq start
  obtain rfl := Except.ok.inj (hfetch.symm.trans h)
  rw [Bus.fetch, hseek] at h
  rw [Bus.fetch, seek_of_head rfl]
  obtain hnone | hfree := fill_ends h
  · -- Memory ends where the next byte would come from.
    cases Bus.chunkedRoom _ with
    | zero => rfl
    | succ count => rw [Bus.fill, hnone]
  · -- Less than a chunk of room is left.
    have hroom : Bus.chunkedRoom { bus with queue, head := start } = 0 := by
      rw [Bus.chunkedRoom, hfree, Bus.chunkedRoom, ← Nat.mod_eq_sub_div_mul, Nat.mod_div_self,
        Nat.zero_mul]
    rw [hroom, Bus.fill]

/-- What seeking leaves queued agrees with memory if all that was queued does. -/
theorem Agrees.seek {bus : Bus δ} (h : bus.Agrees) (start : CodeAddress) :
    (bus.seek start).Agrees := by
  rw [Bus.seek]
  split
  · exact fun i hi => absurd hi (Nat.not_lt_zero i)
  · exact h

/-- Where what seeking leaves queued agrees with memory, the stream is memory from the
    address on. -/
theorem seek_byteAt {bus : Bus δ} {start : CodeAddress} (h : (bus.seek start).Agrees) :
    (bus.seek start).byteAt = bus.memory.code start := by
  obtain ⟨sought, hseek, -, -⟩ := bus.seek_eq start
  rw [h.byteAt_eq, hseek]

/-- A fetch from a coherent bus succeeds, whatever the address, and leaves a
    coherent bus that stands there.  It changes nothing but the queue. -/
theorem fetch_coherent {bus : Bus δ} (h : bus.Coherent) (start : CodeAddress) :
    ∃ queue, bus.fetch start = .ok { bus with queue, head := start }
      ∧ Coherent { bus with queue, head := start } := by
  obtain ⟨queue, hfetch, hsize, hbyteAt⟩ := bus.fetch_byteAt start
  exact ⟨queue, hfetch, coherent_of_byteAt (hsize h.size_le)
    (hbyteAt.trans (seek_byteAt (h.agrees.seek start)))⟩

end Bus

end Microprocessor
