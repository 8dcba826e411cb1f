import Microprocessor.Proofs.Storage.Access
import Microprocessor.Proofs.Storage.Address
import Microprocessor.Proofs.Storage.Memory

/-! # Read-only memory

    A store to a read-only address is dropped, byte by byte.  So whatever is
    stored leaves read-only memory alone, and of a value that lies across its
    start only the bytes below are written.

      * `Memory.ReadOnlyKept` is what stores leave alone, however many
        (`Memory.Stores.readOnlyKept`);
      * `Memory.Overwritten` says of several bytes which of them take effect, and
        that nothing else changes; `Memory.overwritten_storeAll` is that for
        bytes at different addresses;
      * `Bus.overwritten_write`, `Memory.overwritten_writeBytes`: words in a
        segment, and runs of bytes in flat memory. -/

namespace Microprocessor

namespace Memory

/-! ## What stores leave alone -/

/-- There is as much memory as before, read-only from the same address on, and
    with the same bytes from there on. -/
structure ReadOnlyKept (before after : Memory) : Prop where
  size : after.size = before.size
  romStart : after.romStart = before.romStart
  bytes : ∀ address, before.isRom address = true → after.fetch? address = before.fetch? address

/-- A store to a read-only address is dropped. -/
theorem write_of_isRom {memory : Memory} {address : UInt32} (h : memory.isRom address = true)
    (value : UInt8) : memory.write address value = memory := by
  rw [write, if_pos h]

/-- A store leaves every read-only byte alone, wherever it goes. -/
theorem fetch?_write_of_isRom (memory : Memory) (address : UInt32) (value : UInt8)
    {other : UInt32} (h : memory.isRom other = true) :
    (memory.write address value).fetch? other = memory.fetch? other := by
  by_cases hsame : address = other
  · rw [hsame, write_of_isRom h]
  · exact fetch?_write_of_ne memory value hsame

/-- Any number of stores leave read-only memory alone. -/
theorem Stores.readOnlyKept {before after : Memory} (h : before.Stores after) :
    before.ReadOnlyKept after := by
  induction h with
  | refl => exact ⟨rfl, rfl, fun _ _ => rfl⟩
  | @store after earlier address value ih =>
      have hrom : ∀ other, after.isRom other = before.isRom other := by
        intro other
        rw [isRom, isRom, ih.romStart]
      constructor
      · rw [size_write]
        exact ih.size
      · rw [romStart_write]
        exact ih.romStart
      · intro other hother
        rw [fetch?_write_of_isRom after address value ((hrom other).trans hother)]
        exact ih.bytes other hother

/-! ## Several bytes -/

/-- Of the bytes stored, each at its address, those take effect that can be
    written, and nothing else changes. -/
structure Overwritten (before : Memory) (stored : List (UInt32 × UInt8)) (after : Memory) :
    Prop where
  size : after.size = before.size
  written : ∀ byte ∈ stored, before.Writable byte.1 → after.fetch? byte.1 = some byte.2
  elsewhere : ∀ address, (∀ byte ∈ stored, byte.1 ≠ address) →
    after.fetch? address = before.fetch? address
  readOnly : ∀ address, before.isRom address = true →
    after.fetch? address = before.fetch? address

/-- Stores bytes one after another. -/
def storeAll (memory : Memory) : List (UInt32 × UInt8) → Memory
  | [] => memory
  | (address, value) :: rest => (memory.write address value).storeAll rest

/-- Bytes stored at different addresses are all there afterwards that can be. -/
theorem overwritten_storeAll {stored : List (UInt32 × UInt8)} :
    ∀ (memory : Memory), (stored.map Prod.fst).Nodup →
      memory.Overwritten stored (memory.storeAll stored) := by
  induction stored with
  | nil =>
      intro memory _
      exact ⟨rfl, fun _ h => absurd h List.not_mem_nil, fun _ _ => rfl, fun _ _ => rfl⟩
  | cons byte rest ih =>
      intro memory hdistinct
      obtain ⟨address, value⟩ := byte
      obtain ⟨hfirst, hrest⟩ := List.nodup_cons.mp hdistinct
      have hlater := ih (memory.write address value) hrest
      constructor
      case size => exact hlater.size.trans (size_write memory address value)
      case written =>
        intro byte hbyte hwritable
        rcases List.mem_cons.mp hbyte with rfl | hmem
        · -- No later byte goes to the same address.
          rw [storeAll, hlater.elsewhere address, fetch?_write_self memory value hwritable]
          intro other hother hsame
          exact hfirst (List.mem_map.mpr ⟨other, hother, hsame⟩)
        · exact hlater.written byte hmem ((writable_write memory address byte.1 value).mpr hwritable)
      case elsewhere =>
        intro other hmiss
        obtain ⟨hne, hmiss⟩ := List.forall_mem_cons.mp hmiss
        exact (hlater.elsewhere other hmiss).trans (fetch?_write_of_ne memory value hne)
      case readOnly =>
        intro other hrom
        have hrom' : (memory.write address value).isRom other = true := by
          rw [isRom_write]
          exact hrom
        exact (hlater.readOnly other hrom').trans (fetch?_write_of_isRom memory address value hrom)

/-! ## Runs of bytes -/

/-- Bytes with the addresses from one on, modulo 2^32. -/
def consecutive (address : UInt32) : List UInt8 → List (UInt32 × UInt8)
  | [] => []
  | byte :: rest => (address, byte) :: consecutive (address + 1) rest

/-- A run of bytes is stored byte by byte, at consecutive addresses. -/
theorem writeBytes_eq_storeAll (bytes : List UInt8) :
    ∀ (memory : Memory) (address : UInt32),
      memory.writeBytes address bytes = memory.storeAll (consecutive address bytes) := by
  induction bytes with
  | nil => exact fun _ _ => rfl
  | cons byte rest ih => exact fun memory address => ih (memory.write address byte) (address + 1)

/-- The addresses of a run follow its first. -/
theorem fst_of_mem_consecutive {bytes : List UInt8} :
    ∀ {address place : UInt32}, place ∈ (consecutive address bytes).map Prod.fst →
      ∃ i, i < bytes.length ∧ place = address + UInt32.ofNat i := by
  induction bytes with
  | nil =>
      intro _ _ h
      cases h
  | cons byte rest ih =>
      intro address place h
      rcases List.mem_cons.mp h with rfl | hmem
      · exact ⟨0, Nat.zero_lt_succ _, (UInt32.add_zero _).symm⟩
      · obtain ⟨i, hi, rfl⟩ := ih hmem
        refine ⟨i + 1, Nat.succ_lt_succ hi, ?_⟩
        rw [UInt32.ofNat_add, UInt32.add_assoc, UInt32.add_comm 1]
        rfl

/-- A run that is no longer than the address space comes to no address twice. -/
theorem nodup_consecutive {bytes : List UInt8} :
    ∀ (address : UInt32), bytes.length ≤ UInt32.size →
      ((consecutive address bytes).map Prod.fst).Nodup := by
  induction bytes with
  | nil => exact fun _ _ => List.nodup_nil
  | cons byte rest ih =>
      intro address hlength
      rw [List.length_cons] at hlength
      refine List.nodup_cons.mpr ⟨?_, ih (address + 1) (by omega)⟩
      intro hmem
      obtain ⟨i, hi, heq⟩ := fst_of_mem_consecutive hmem
      have hnat : address.toNat = (address + 1 + UInt32.ofNat i).toNat := congrArg UInt32.toNat heq
      rw [UInt32.toNat_add, UInt32.toNat_add, UInt32.toNat_ofNat_of_lt' (by omega)] at hnat
      have haddress := address.toNat_lt
      have hone : (1 : UInt32).toNat = 1 := rfl
      rw [UInt32.size] at hlength
      omega

/-- Of a run of bytes those are written that can be, and nothing else changes. -/
theorem overwritten_writeBytes (memory : Memory) (address : UInt32) {bytes : List UInt8}
    (hlength : bytes.length ≤ UInt32.size) :
    memory.Overwritten (consecutive address bytes) (memory.writeBytes address bytes) := by
  rw [writeBytes_eq_storeAll]
  exact overwritten_storeAll memory (nodup_consecutive address hlength)

/-- A run of bytes may be stored in two parts. -/
theorem writeBytes_append (first second : List UInt8) :
    ∀ (memory : Memory) (address : UInt32),
      memory.writeBytes address (first ++ second)
        = (memory.writeBytes address first).writeBytes (address + UInt32.ofNat first.length)
          second := by
  induction first with
  | nil =>
      intro memory address
      show _ = memory.writeBytes (address + 0) second
      rw [UInt32.add_zero]
      rfl
  | cons byte rest ih =>
      intro memory address
      rw [List.length_cons, UInt32.ofNat_add, UInt32.add_comm (UInt32.ofNat rest.length),
        ← UInt32.add_assoc]
      exact ih (memory.write address byte) (address + 1)

end Memory

namespace Bus

variable {δ : Type}

/-- The bytes of a word at a place, the high byte within the segment. -/
def wordAt (place : MemoryLocator) (value : UInt16) : List (UInt32 × UInt8) :=
  [(place.address, lowByte value), ((place.advance 1).address, highByte value)]

/-- Of a word those bytes are written that can be, and nothing else changes. -/
theorem overwritten_write (bus : Bus δ) (place : MemoryLocator) (value : UInt16) :
    bus.memory.Overwritten (wordAt place value) (bus.write .word place value).memory := by
  refine Memory.overwritten_storeAll bus.memory (List.nodup_cons.mpr
    ⟨?_, List.nodup_cons.mpr ⟨List.not_mem_nil, List.nodup_nil⟩⟩)
  intro hmem
  exact place.address_advance_one_ne (List.mem_singleton.mp hmem).symm

end Bus

end Microprocessor
