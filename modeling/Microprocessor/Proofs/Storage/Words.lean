import Microprocessor.Proofs.Storage.Address
import Microprocessor.Proofs.Storage.Memory
import Microprocessor.Proofs.Word.Bytes
import Microprocessor.Storage.Bus

/-! # Words in memory

    A word lies in two bytes, low byte first.  Words that lie one after another
    in a segment, and fill no more than it, have different bytes, whether the
    offsets wrap within the segment, the addresses wrap at the end of memory, or
    a word straddles either end.

      * `Bus.read_write_word`: what has been written is read back;
      * `MemoryLocator.addresses` are the bytes of a value of either width:
        `Bus.read_congr` and `Bus.fetch?_write_of_notMem` say that it is read
        from them, and that writing it changes no others;
      * `Bus.Holds` says which words lie from a place on, `Bus.Holds.write`
        that a word written below them leaves them alone. -/

namespace Microprocessor

/-- The addresses of the bytes of a value at a place, that of the low byte first. -/
def MemoryLocator.addresses (place : MemoryLocator) : Width → List UInt32
  | .byte => [place.address]
  | .word => [place.address, (place.advance 1).address]

/-! ## One word -/

namespace Bus

variable {δ : Type}

/-- A word that can be written is what is read afterwards. -/
theorem read_write_word (bus : Bus δ) {place : MemoryLocator} (value : UInt16)
    (hlow : bus.memory.Writable place.address)
    (hhigh : bus.memory.Writable (place.advance 1).address) :
    (bus.write .word place value).read .word place = value := by
  show wordOfBytes
    (((bus.memory.write place.address (lowByte value)).write (place.advance 1).address
      (highByte value)).read place.address)
    (((bus.memory.write place.address (lowByte value)).write (place.advance 1).address
      (highByte value)).read (place.advance 1).address) = value
  rw [Memory.read_write_of_ne _ _ place.address_advance_one_ne, Memory.read_write_self _ _ hlow,
    Memory.read_write_self _ _ ((Memory.writable_write _ _ _ _).mpr hhigh)]
  exact wordOfBytes_lowByte_highByte value

/-! ## One value of either width -/

/-- A value is read from its bytes alone. -/
theorem read_congr {bus after : Bus δ} {width : Width} {place : MemoryLocator}
    (h : ∀ address ∈ place.addresses width,
      after.memory.fetch? address = bus.memory.fetch? address) :
    after.read width place = bus.read width place := by
  have hbyte : ∀ address ∈ place.addresses width,
      after.memory.read address = bus.memory.read address := by
    intro address hmem
    rw [Memory.read, Memory.read, h address hmem]
  cases width with
  | byte => exact congrArg UInt8.toUInt16 (hbyte _ List.mem_cons_self)
  | word =>
      rw [read, read, hbyte _ List.mem_cons_self,
        hbyte _ (List.mem_cons_of_mem _ List.mem_cons_self)]

/-- What is read has no bits beyond the width. -/
theorem read_and_mask (bus : Bus δ) (width : Width) (place : MemoryLocator) :
    bus.read width place &&& width.mask = bus.read width place := by
  cases width with
  | byte => exact toUInt16_and_mask _
  | word => exact UInt16.and_neg_one

/-- Writing a value changes nothing about where stores take effect. -/
@[simp] theorem writable_write (bus : Bus δ) (width : Width) (place : MemoryLocator)
    (value : UInt16) (address : UInt32) :
    (bus.write width place value).memory.Writable address ↔ bus.memory.Writable address := by
  cases width with
  | byte => exact Memory.writable_write _ _ _ _
  | word => exact (Memory.writable_write _ _ _ _).trans (Memory.writable_write _ _ _ _)

/-- Writing a value leaves the bytes beside it alone. -/
theorem fetch?_write_of_notMem (bus : Bus δ) {width : Width} {place : MemoryLocator}
    (value : UInt16) {address : UInt32} (h : address ∉ place.addresses width) :
    (bus.write width place value).memory.fetch? address = bus.memory.fetch? address := by
  have hlow : place.address ≠ address := by
    rintro rfl
    exact h (by cases width <;> exact List.mem_cons_self)
  cases width with
  | byte => exact Memory.fetch?_write_of_ne _ _ hlow
  | word =>
      have hhigh : (place.advance 1).address ≠ address := by
        rintro rfl
        exact h (List.mem_cons_of_mem _ List.mem_cons_self)
      exact (Memory.fetch?_write_of_ne _ _ hhigh).trans (Memory.fetch?_write_of_ne _ _ hlow)

/-- A value that can be written is read back, as far as the width goes. -/
theorem read_write (bus : Bus δ) {width : Width} {place : MemoryLocator} (value : UInt16)
    (h : ∀ address ∈ place.addresses width, bus.memory.Writable address) :
    (bus.write width place value).read width place = value &&& width.mask := by
  cases width with
  | byte =>
      have hbyte := Memory.read_write_self bus.memory (lowByte value) (h _ List.mem_cons_self)
      exact (congrArg UInt8.toUInt16 hbyte).trans (toUInt16_lowByte value)
  | word =>
      have hword := bus.read_write_word value (h _ List.mem_cons_self)
        (h _ (List.mem_cons_of_mem _ List.mem_cons_self))
      exact hword.trans UInt16.and_neg_one.symm

/-! ## Words one after another -/

/-- Words lie one after another from a place on. -/
def Holds (bus : Bus δ) (place : MemoryLocator) : List UInt16 → Prop
  | [] => True
  | word :: words => bus.read .word place = word ∧ bus.Holds (place.advance 2) words

/-- A store that misses the words leaves them alone. -/
theorem Holds.store {bus : Bus δ} {place : MemoryLocator} {words : List UInt16}
    (h : bus.Holds place words) {address : UInt32} (value : UInt8)
    (hmiss : ∀ i, i < 2 * words.length → address ≠ (place.advance (UInt16.ofNat i)).address) :
    (bus.mapMemory fun memory => memory.write address value).Holds place words := by
  induction words generalizing place with
  | nil => exact trivial
  | cons word words ih =>
      rw [List.length_cons] at hmiss
      have hlow : address ≠ (place.advance 0).address := hmiss 0 (by omega)
      have hhigh : address ≠ (place.advance 1).address := hmiss 1 (by omega)
      rw [MemoryLocator.advance_zero] at hlow
      refine ⟨?_, ih h.2 ?_⟩
      · show wordOfBytes ((bus.memory.write address value).read place.address)
          ((bus.memory.write address value).read (place.advance 1).address) = word
        rw [Memory.read_write_of_ne _ _ hlow, Memory.read_write_of_ne _ _ hhigh]
        exact h.1
      · intro i hi
        have hbyte := hmiss (2 + i) (by omega)
        rw [UInt16.ofNat_add, ← MemoryLocator.advance_advance] at hbyte
        exact hbyte

/-- A word written below the words, all within a segment, leaves them alone. -/
theorem Holds.write {bus : Bus δ} {place : MemoryLocator} {words : List UInt16}
    (h : bus.Holds (place.advance 2) words) (value : UInt16)
    (hfits : 2 * (words.length + 1) ≤ 0x10000) :
    (bus.write .word place value).Holds (place.advance 2) words := by
  have hbyte : ∀ j, j < 2 → ∀ i, i < 2 * words.length →
      (place.advance (UInt16.ofNat j)).address
        ≠ ((place.advance 2).advance (UInt16.ofNat i)).address := by
    intro j hj i hi
    -- Counted from the new word, the bytes of the others come third and later.
    rw [MemoryLocator.advance_advance]
    have hne := place.address_advance_ne (show j < 0x10000 by omega)
      (show 2 + i < 0x10000 by omega) (by omega)
    rw [UInt16.ofNat_add] at hne
    exact hne
  have hlow := hbyte 0 (by decide)
  have hhigh := hbyte 1 (by decide)
  rw [show UInt16.ofNat 0 = 0 from rfl, MemoryLocator.advance_zero] at hlow
  exact (h.store (lowByte value) hlow).store (highByte value) hhigh

end Bus

end Microprocessor
