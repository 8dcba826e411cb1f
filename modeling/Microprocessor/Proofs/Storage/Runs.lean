import Microprocessor.Proofs.Storage.ReadOnly
import Microprocessor.Proofs.Word.Bytes

/-! # Runs of bytes

    A run of bytes lies at the addresses from one on, modulo 2^32.  Where it can be written it
    is what lies there afterwards, and nothing else changes.  Bytes, words and double words are
    read from runs of one, two and four.

      * `Memory.HasBytes` says that a run lies in memory;
      * `Memory.hasBytes_writeBytes` and `Memory.fetch?_writeBytes_of_outside` are the two halves
        of storing one;
      * `Memory.HasBytes.readDouble` and its neighbours are what is read of it. -/

namespace Microprocessor.Memory

/-- Bytes lie in memory from an address on. -/
def HasBytes (memory : Memory) (address : UInt32) (bytes : List UInt8) : Prop :=
  ∀ byte ∈ consecutive address bytes, memory.read byte.1 = byte.2

/-! ## Storing a run -/

section

variable (memory : Memory) {address : UInt32} {bytes : List UInt8}
  (hlength : bytes.length ≤ UInt32.size)

include hlength

/-- A run that can be written lies there afterwards. -/
theorem hasBytes_writeBytes
    (h : ∀ i < bytes.length, memory.Writable (address + UInt32.ofNat i)) :
    (memory.writeBytes address bytes).HasBytes address bytes := by
  intro byte hbyte
  obtain ⟨i, hi, hplace⟩ := fst_of_mem_consecutive (List.mem_map_of_mem hbyte)
  have hwritten := (memory.overwritten_writeBytes address hlength).written byte hbyte
    (hplace ▸ h i hi)
  rw [read, hwritten]
  rfl

/-- A run leaves the other addresses alone. -/
theorem fetch?_writeBytes_of_outside {other : UInt32}
    (h : ∀ i < bytes.length, address + UInt32.ofNat i ≠ other) :
    (memory.writeBytes address bytes).fetch? other = memory.fetch? other := by
  refine (memory.overwritten_writeBytes address hlength).elsewhere other ?_
  intro byte hbyte
  obtain ⟨i, hi, hplace⟩ := fst_of_mem_consecutive (List.mem_map_of_mem hbyte)
  exact hplace ▸ h i hi

end

/-- Where memory can be written is as it was. -/
theorem ReadOnlyKept.writable_iff {before after : Memory} (h : before.ReadOnlyKept after)
    (address : UInt32) : after.Writable address ↔ before.Writable address := by
  rw [Writable, Writable, h.size, isRom, isRom, h.romStart]

/-! ## Parts of a run -/

/-- A run goes on after its first part. -/
theorem consecutive_append (first second : List UInt8) :
    ∀ address : UInt32, consecutive address (first ++ second)
      = consecutive address first ++ consecutive (address + UInt32.ofNat first.length) second := by
  induction first with
  | nil =>
      intro address
      exact (congrArg (consecutive · second) (UInt32.add_zero address)).symm
  | cons byte rest ih =>
      intro address
      have hnext : address + UInt32.ofNat (byte :: rest).length
          = address + 1 + UInt32.ofNat rest.length := by
        rw [List.length_cons, UInt32.ofNat_add, UInt32.add_assoc,
          UInt32.add_comm (UInt32.ofNat rest.length)]
        rfl
      rw [List.cons_append, consecutive, consecutive, List.cons_append, ih, hnext]

namespace HasBytes

variable {memory other : Memory} {address : UInt32} {bytes first second : List UInt8}

/-- Memory with the same bytes there has the run too. -/
theorem congr (h : memory.HasBytes address bytes)
    (hsame : ∀ i < bytes.length,
      other.read (address + UInt32.ofNat i) = memory.read (address + UInt32.ofNat i)) :
    other.HasBytes address bytes := by
  intro byte hbyte
  obtain ⟨i, hi, hplace⟩ := fst_of_mem_consecutive (List.mem_map_of_mem hbyte)
  rw [hplace, hsame i hi, ← hplace]
  exact h byte hbyte

theorem left (h : memory.HasBytes address (first ++ second)) : memory.HasBytes address first := by
  rw [HasBytes, consecutive_append] at h
  exact fun byte hbyte => h byte (List.mem_append_left _ hbyte)

theorem right (h : memory.HasBytes address (first ++ second)) :
    memory.HasBytes (address + UInt32.ofNat first.length) second := by
  rw [HasBytes, consecutive_append] at h
  exact fun byte hbyte => h byte (List.mem_append_right _ hbyte)

/-! ## What is read of a run -/

theorem read {value : UInt8} (h : memory.HasBytes address [value]) :
    memory.read address = value :=
  h _ List.mem_cons_self

theorem readWord {value : UInt16} (h : memory.HasBytes address (bytesOfWord value)) :
    memory.readWidth .word address = value := by
  have hbytes : memory.HasBytes address ([lowByte value] ++ [highByte value]) := h
  have hlow : memory.read address = lowByte value := hbytes.left.read
  have hhigh : memory.read (address + 1) = highByte value := hbytes.right.read
  rw [readWidth, hlow, hhigh, wordOfBytes_lowByte_highByte]

/-- A double word is read from two words. -/
theorem readDouble {value : UInt32} (h : memory.HasBytes address (bytesOfDouble value)) :
    memory.readDouble address = value := by
  have hword : ∀ {place : UInt32} {low high : UInt8}, memory.HasBytes place [low, high] →
      memory.readWidth .word place = wordOfBytes low high := by
    intro place low high hplace
    rw [← bytesOfWord_wordOfBytes] at hplace
    exact hplace.readWord
  have hhalves : memory.HasBytes address ([value.toUInt8, (value >>> 8).toUInt8]
      ++ [(value >>> 16).toUInt8, (value >>> 24).toUInt8]) := h
  have hlow := hword hhalves.left
  have hhigh := hword hhalves.right
  rw [Memory.readDouble, hlow]
  exact (congrArg (doubleOfWords _) hhigh).trans (doubleOfWords_bytes value)

end HasBytes

end Microprocessor.Memory
