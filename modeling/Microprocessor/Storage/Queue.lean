/-! # Bounded queues

    Two queues stand between the stages of the pipeline: bytes fetched ahead
    of decoding, and instructions decoded ahead of execution.  Both are
    first-in first-out and bounded. -/

namespace Microprocessor

/-- A queue was used wrongly. -/
inductive QueueError
  | full
  | empty
  deriving DecidableEq

/-- The report for a queue used wrongly. -/
def QueueError.message : QueueError → String
  | .full => "queue is full"
  | .empty => "queue is empty"

/-- The bytes fetched ahead of decoding, oldest first. -/
structure PrefetchQueue where
  bytes : List UInt8
  capacity : Nat
  deriving DecidableEq

namespace PrefetchQueue

/-- No bytes, and room for `capacity`. -/
def ofCapacity (capacity : Nat) : PrefetchQueue :=
  ⟨[], capacity⟩

/-- The number of bytes queued. -/
def size (queue : PrefetchQueue) : Nat :=
  queue.bytes.length

/-- Whether no byte is queued. -/
def isEmpty (queue : PrefetchQueue) : Bool :=
  queue.bytes.isEmpty

/-- How many more bytes there is room for. -/
def free (queue : PrefetchQueue) : Nat :=
  queue.capacity - queue.size

/-- Queues a byte behind the others. -/
def push (queue : PrefetchQueue) (byte : UInt8) : Except QueueError PrefetchQueue :=
  if queue.size < queue.capacity then .ok { queue with bytes := queue.bytes ++ [byte] }
  else .error .full

/-- The byte with `index` older ones. -/
def peek? (queue : PrefetchQueue) (index : Nat) : Option UInt8 :=
  queue.bytes[index]?

/-- The oldest byte, and the queue without it. -/
def pop? (queue : PrefetchQueue) : Option (UInt8 × PrefetchQueue) :=
  match queue.bytes with
  | [] => none
  | byte :: rest => some (byte, { queue with bytes := rest })

/-- Drops the `count` oldest bytes, or all there are. -/
def discard (queue : PrefetchQueue) (count : Nat) : PrefetchQueue :=
  { queue with bytes := queue.bytes.drop count }

/-- Drops every byte. -/
def reset (queue : PrefetchQueue) : PrefetchQueue :=
  { queue with bytes := [] }

end PrefetchQueue

/-- The instructions decoded ahead of execution, oldest first. -/
structure DecodedQueue (α : Type) where
  items : List α
  depth : Nat
  deriving DecidableEq

namespace DecodedQueue

variable {α : Type}

/-- No items, and room for `depth`. -/
def ofDepth (depth : Nat) : DecodedQueue α :=
  ⟨[], depth⟩

/-- The number of items queued. -/
def size (queue : DecodedQueue α) : Nat :=
  queue.items.length

/-- Whether no item is queued. -/
def isEmpty (queue : DecodedQueue α) : Bool :=
  queue.items.isEmpty

/-- Queues an item behind the others. -/
def push (queue : DecodedQueue α) (item : α) : Except QueueError (DecodedQueue α) :=
  if queue.size < queue.depth then .ok { queue with items := queue.items ++ [item] }
  else .error .full

/-- The oldest item, and the queue without it. -/
def pop (queue : DecodedQueue α) : Except QueueError (α × DecodedQueue α) :=
  match queue.items with
  | [] => .error .empty
  | item :: rest => .ok (item, { queue with items := rest })

/-- The oldest item. -/
def front? (queue : DecodedQueue α) : Option α :=
  queue.items.head?

/-- Drops every item. -/
def clear (queue : DecodedQueue α) : DecodedQueue α :=
  { queue with items := [] }

end DecodedQueue

end Microprocessor
