import Microprocessor.Storage.Bus

/-! # What an access does to the bus

    Whatever a core does to the bus, it does by storing single bytes and by
    port transfers.  None of these touches what has been prefetched.

      * `Memory.Stores` relates a memory to what single-byte stores can make
        of it;
      * `Bus.Accessed` relates a bus to what accesses can make of it: stores
        and port transfers, with the prefetched bytes as they were. -/

namespace Microprocessor

/-- What single-byte stores can make of a memory. -/
inductive Memory.Stores (memory : Memory) : Memory → Prop
  | refl : Stores memory memory
  | store {after : Memory} (earlier : Stores memory after) (address : UInt32) (value : UInt8) :
      Stores memory (after.write address value)

namespace Memory.Stores

/-- Stores follow stores. -/
theorem trans {a b c : Memory} (hab : a.Stores b) (hbc : b.Stores c) : a.Stores c := by
  induction hbc with
  | refl => exact hab
  | store _ address value ih => exact ih.store address value

/-- A single store. -/
theorem write (memory : Memory) (address : UInt32) (value : UInt8) :
    memory.Stores (memory.write address value) :=
  .store .refl address value

/-- A run of bytes is stored byte by byte. -/
theorem writeBytes (values : List UInt8) :
    ∀ (memory : Memory) (address : UInt32), memory.Stores (memory.writeBytes address values) := by
  induction values with
  | nil => intro memory _; exact .refl
  | cons byte rest ih =>
      intro memory address
      exact (write memory address byte).trans (ih (memory.write address byte) (address + 1))

/-- A double word is stored byte by byte. -/
theorem writeDouble (memory : Memory) (address value : UInt32) :
    memory.Stores (memory.writeDouble address value) :=
  writeBytes (bytesOfDouble value) memory address

/-- A value of either width is stored byte by byte. -/
theorem writeWidth (memory : Memory) (width : Width) (address : UInt32) (value : UInt16) :
    memory.Stores (memory.writeWidth width address value) := by
  cases width with
  | byte => exact write memory address (lowByte value)
  | word => exact (write memory address (lowByte value)).store (address + 1) (highByte value)

end Memory.Stores

namespace Bus

variable {δ : Type}

/-- What accesses can make of a bus. -/
structure Accessed (bus after : Bus δ) : Prop where
  queue : after.queue = bus.queue
  head : after.head = bus.head
  fetchChunk : after.fetchChunk = bus.fetchChunk
  memory : bus.memory.Stores after.memory

namespace Accessed

theorem refl (bus : Bus δ) : bus.Accessed bus :=
  ⟨rfl, rfl, rfl, .refl⟩

theorem trans {a b c : Bus δ} (hab : a.Accessed b) (hbc : b.Accessed c) : a.Accessed c :=
  ⟨hbc.queue.trans hab.queue, hbc.head.trans hab.head, hbc.fetchChunk.trans hab.fetchChunk,
    hab.memory.trans hbc.memory⟩

/-- Stores to memory are an access. -/
theorem mapMemory {bus : Bus δ} {f : Memory → Memory} (h : bus.memory.Stores (f bus.memory)) :
    bus.Accessed (bus.mapMemory f) :=
  ⟨rfl, rfl, rfl, h⟩

/-- Storing a value in a segment is an access. -/
theorem write (bus : Bus δ) (width : Width) (place : MemoryLocator) (value : UInt16) :
    bus.Accessed (bus.write width place value) := by
  cases width with
  | byte => exact ⟨rfl, rfl, rfl, .write bus.memory place.address (lowByte value)⟩
  | word =>
      have hlow := Memory.Stores.write bus.memory place.address (lowByte value)
      exact ⟨rfl, rfl, rfl, hlow.store (place.advance 1).address (highByte value)⟩

/-- Pushing a word is an access. -/
theorem push (bus : Bus δ) (stack : MemoryLocator) (value : UInt16) :
    bus.Accessed (bus.push stack value).2 :=
  write bus .word (stack.retreat 2) value

variable [PortDevice δ]

/-- Reading a port is an access. -/
theorem portInput {bus after : Bus δ} {width : Width} {port value : UInt16}
    (h : bus.portInput width port = .ok (value, after)) : bus.Accessed after := by
  rw [Bus.portInput] at h
  split at h
  · cases h
    exact ⟨rfl, rfl, rfl, .refl⟩
  · cases h

/-- Writing a port is an access. -/
theorem portOutput {bus after : Bus δ} {width : Width} {port value : UInt16}
    (h : bus.portOutput width port value = .ok after) : bus.Accessed after := by
  rw [Bus.portOutput] at h
  split at h
  · cases h
    exact ⟨rfl, rfl, rfl, .refl⟩
  · cases h

end Accessed

end Bus

end Microprocessor
