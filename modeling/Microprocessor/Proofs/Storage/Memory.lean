import Microprocessor.Storage.Memory

/-! # What a store leaves in memory

    A store changes the byte at its address, if memory is there and is not
    read-only, and no other.  An image changes the bytes it covers, and no
    others.  Neither changes how much memory there is or what of it is
    read-only.

      * `Memory.Writable` says where a store takes effect;
      * `Memory.read_write_self`, `Memory.fetch?_write_of_ne` are the two
        halves of a store;
      * `Memory.fetch?_load_of_outside` is the frame of an image. -/

namespace Microprocessor.Memory

/-- There is memory at the address, and it is not read-only. -/
def Writable (memory : Memory) (address : UInt32) : Prop :=
  address.toNat < memory.size ∧ memory.isRom address = false

instance (memory : Memory) (address : UInt32) : Decidable (memory.Writable address) :=
  inferInstanceAs (Decidable (_ ∧ _))

/-! ## One byte -/

@[simp] theorem romStart_write (memory : Memory) (address : UInt32) (value : UInt8) :
    (memory.write address value).romStart = memory.romStart := by
  rw [write]
  split <;> rfl

@[simp] theorem size_write (memory : Memory) (address : UInt32) (value : UInt8) :
    (memory.write address value).size = memory.size := by
  rw [write]
  split
  · rfl
  · exact Array.size_setIfInBounds

@[simp] theorem isRom_write (memory : Memory) (address other : UInt32) (value : UInt8) :
    (memory.write address value).isRom other = memory.isRom other := by
  unfold isRom
  rw [romStart_write]

/-- A store changes nothing about where stores take effect. -/
@[simp] theorem writable_write (memory : Memory) (address other : UInt32) (value : UInt8) :
    (memory.write address value).Writable other ↔ memory.Writable other := by
  unfold Writable
  rw [size_write, isRom_write]

/-- A store leaves the other addresses alone. -/
theorem fetch?_write_of_ne (memory : Memory) {address other : UInt32} (value : UInt8)
    (h : address ≠ other) :
    (memory.write address value).fetch? other = memory.fetch? other := by
  rw [write]
  split
  · rfl
  · show (memory.bytes.setIfInBounds address.toNat value)[other.toNat]? = memory.bytes[other.toNat]?
    refine Array.getElem?_setIfInBounds_ne ?_
    intro hnat
    exact h (UInt32.toNat_inj.mp hnat)

/-- Where a store takes effect, it is what is there afterwards. -/
theorem fetch?_write_self (memory : Memory) {address : UInt32} (value : UInt8)
    (h : memory.Writable address) :
    (memory.write address value).fetch? address = some value := by
  rw [write, if_neg (by rw [h.2]; exact Bool.false_ne_true)]
  exact Array.getElem?_setIfInBounds_self_of_lt h.1

theorem read_write_of_ne (memory : Memory) {address other : UInt32} (value : UInt8)
    (h : address ≠ other) : (memory.write address value).read other = memory.read other := by
  unfold read
  rw [fetch?_write_of_ne memory value h]

theorem read_write_self (memory : Memory) {address : UInt32} (value : UInt8)
    (h : memory.Writable address) : (memory.write address value).read address = value := by
  rw [read, fetch?_write_self memory value h]
  rfl

/-! ## Images -/

/-- Copied bytes leave the indices below them and above them alone. -/
theorem getElem?_copyFrom_of_outside (image : List UInt8) :
    ∀ (bytes : Array UInt8) (index i : Nat), i < index ∨ index + image.length ≤ i →
      (copyFrom bytes index image)[i]? = bytes[i]? := by
  induction image with
  | nil => intro bytes index i _; rfl
  | cons byte rest ih =>
      intro bytes index i hi
      rw [List.length_cons] at hi
      rw [copyFrom, ih _ (index + 1) i (by omega)]
      exact Array.getElem?_setIfInBounds_ne (by omega)

/-- An image leaves the addresses that it does not cover alone. -/
theorem fetch?_load_of_outside {memory after : Memory} {base other : UInt32} {image : List UInt8}
    (hload : memory.load base image = .ok after)
    (h : other.toNat < base.toNat ∨ base.toNat + image.length ≤ other.toNat) :
    after.fetch? other = memory.fetch? other := by
  rw [load] at hload
  split at hload
  · cases hload
    exact getElem?_copyFrom_of_outside image memory.bytes base.toNat other.toNat h
  · cases hload

end Microprocessor.Memory
