import Microprocessor.Encoding.ByteSource
import Microprocessor.Storage.Locator
import Microprocessor.Storage.Memory
import Microprocessor.Storage.PortMap
import Microprocessor.Storage.Queue

/-! # The bus

    The bus joins memory, the ports and the queue of prefetched bytes.

      * `Bus.fetch` tops up the queue from the address of the next
        instruction on, in whole chunks, up to the end of memory;
      * `Bus.byteAt` is the stream that instructions are decoded from: the
        queued bytes and, after them, memory;
      * `Bus.consume` moves the stream past a decoded instruction;
      * `Bus.read`, `Bus.write`, `Bus.push` and `Bus.pop` are the accesses of
        a segmented processor, which wrap within the segment. -/

namespace Microprocessor

/-- Memory, ports and prefetched bytes. -/
structure Bus (δ : Type) where
  memory : Memory
  ports : PortMap δ
  queue : PrefetchQueue
  /-- The number of bytes fetched at a time. -/
  fetchChunk : Nat
  /-- Where the oldest queued byte comes from. -/
  head : CodeAddress

namespace Bus

variable {δ : Type}

/-- A bus with nothing prefetched.  A chunk has at least one byte. -/
def of (memory : Memory) (ports : PortMap δ) (capacity chunk : Nat) : Bus δ :=
  ⟨memory, ports, .ofCapacity capacity, max chunk 1, .start⟩

/-! ## Prefetching -/

/-- Drops the queued bytes; the next fetch starts afresh. -/
def resetQueue (bus : Bus δ) : Bus δ :=
  { bus with queue := bus.queue.reset }

/-- Starts the stream at an address, unless it already stands there. -/
def seek (bus : Bus δ) (start : CodeAddress) : Bus δ :=
  if bus.queue.isEmpty || bus.head != start then
    { bus with queue := bus.queue.reset, head := start }
  else bus

/-- Where the next byte to queue comes from. -/
def nextFetchAddress (bus : Bus δ) : UInt32 :=
  (bus.head.advance bus.queue.size).address

/-- Queues up to `count` bytes, as far as memory reaches. -/
def fill (bus : Bus δ) : Nat → Except QueueError (Bus δ)
  | 0 => .ok bus
  | count + 1 =>
    match bus.memory.fetch? bus.nextFetchAddress with
    | none => .ok bus
    | some byte =>
      match bus.queue.push byte with
      | .error failure => .error failure
      | .ok queue => fill { bus with queue } count

/-- The number of bytes in the whole chunks that the queue has room for. -/
def chunkedRoom (bus : Bus δ) : Nat :=
  bus.queue.free / bus.fetchChunk * bus.fetchChunk

/-- Tops up the queue with the bytes from `start` on. -/
def fetch (bus : Bus δ) (start : CodeAddress) : Except QueueError (Bus δ) :=
  let bus := bus.seek start
  bus.fill bus.chunkedRoom

/-- The byte `index` places into the stream. -/
def byteAt (bus : Bus δ) (index : Nat) : Option UInt8 :=
  match bus.queue.peek? index with
  | some byte => some byte
  | none => bus.memory.fetch? (bus.head.advance index).address

/-- Moves the stream past `length` bytes. -/
def consume (bus : Bus δ) (length : Nat) : Bus δ :=
  { bus with queue := bus.queue.discard length, head := bus.head.advance length }

/-! ## Memory -/

/-- The value of a width at a place; the high byte wraps within the segment. -/
def read (bus : Bus δ) (width : Width) (place : MemoryLocator) : UInt16 :=
  match width with
  | .byte => (bus.memory.read place.address).toUInt16
  | .word =>
    wordOfBytes (bus.memory.read place.address) (bus.memory.read (place.advance 1).address)

/-- Applies a function to memory. -/
def mapMemory (f : Memory → Memory) : Bus δ → Bus δ
  | ⟨memory, ports, queue, fetchChunk, head⟩ => ⟨f memory, ports, queue, fetchChunk, head⟩

/-- Replaces the value of a width at a place. -/
def write (bus : Bus δ) (width : Width) (place : MemoryLocator) (value : UInt16) : Bus δ :=
  match width with
  | .byte => bus.mapMemory fun memory => memory.write place.address (lowByte value)
  | .word => bus.mapMemory fun memory =>
    (memory.write place.address (lowByte value)).write (place.advance 1).address (highByte value)

/-- Pushes a word onto a stack, and gives the stack's new top. -/
def push (bus : Bus δ) (stack : MemoryLocator) (value : UInt16) : MemoryLocator × Bus δ :=
  let stack := stack.retreat 2
  (stack, bus.write .word stack value)

/-- The word on top of a stack, and the stack's new top. -/
def pop (bus : Bus δ) (stack : MemoryLocator) : UInt16 × MemoryLocator :=
  (bus.read .word stack, stack.advance 2)

/-! ## Ports -/

/-- Reads a port. -/
def portInput [PortDevice δ] (bus : Bus δ) (width : Width) (port : UInt16) :
    Except UnattachedPort (UInt16 × Bus δ) :=
  match bus.ports.input width port with
  | .ok (value, ports) => .ok (value, { bus with ports })
  | .error failure => .error failure

/-- Writes a value to a port. -/
def portOutput [PortDevice δ] (bus : Bus δ) (width : Width) (port value : UInt16) :
    Except UnattachedPort (Bus δ) :=
  match bus.ports.output width port value with
  | .ok ports => .ok { bus with ports }
  | .error failure => .error failure

end Bus

end Microprocessor
