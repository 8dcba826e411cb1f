import Microprocessor.Proofs.X86.Access
import Microprocessor.Proofs.Storage.Words

/-! # The stack of the 8086

    The words that have been pushed lie one after another in the stack segment,
    from the top on, and those that are popped are the newest.

      * `Machine.Stacked` says which words have been pushed since a start;
      * `Machine.Stacked.push` and `Machine.Stacked.pop` are the two steps that
        change them, `Machine.Stacked.congr` covers every other;
      * `Flags.get_restore_word`: the flags survive the stack. -/

namespace Microprocessor.X86

/-! ## Flags -/

namespace Flags

/-- The word of the flags holds every flag. -/
theorem word_and_writable (flags : Flags) :
    flags.word &&& writable = flags.stored &&& writable := by
  apply UInt16.toBitVec_inj.mp
  rw [word, UInt16.toBitVec_and, UInt16.toBitVec_or, BitVec.and_or_distrib_right,
    UInt16.toBitVec_and, BitVec.and_assoc, BitVec.and_self]
  -- No reserved bit is the bit of a flag.
  exact BitVec.or_zero

/-- Every flag comes back from the word, whatever its reserved bits. -/
theorem get_restore_word (flags : Flags) (flag : Flag) :
    (restore flags.word).get flag = flags.get flag := by
  have hmask : writable &&& flag.mask = flag.mask := by
    cases flag <;> rfl
  show (flags.word &&& writable &&& flag.mask != 0) = (flags.stored &&& flag.mask != 0)
  rw [word_and_writable, UInt16.and_assoc, hmask]

end Flags

namespace Machine

variable {δ : Type}

/-! ## The stack of a machine -/

/-- The `limit` bytes below the top of the stack can be written, and are within
    a segment. -/
structure Room (machine : Machine δ) (limit : Nat) : Prop where
  le_segment : limit ≤ 0x10000
  writable : ∀ i, i < limit →
    machine.bus.memory.Writable (machine.unit.stack.retreat (UInt16.ofNat (i + 1))).address

/-- Since `start` the words `saved` have been pushed, newest first. -/
structure Stacked (start machine : Machine δ) (saved : List UInt16) : Prop where
  stack : machine.unit.stack = start.unit.stack.retreat (UInt16.ofNat (2 * saved.length))
  holds : machine.bus.Holds machine.unit.stack saved
  writable : ∀ address,
    machine.bus.memory.Writable address ↔ start.bus.memory.Writable address

/-- At the start nothing has been pushed. -/
theorem Stacked.refl (start : Machine δ) : start.Stacked start [] :=
  ⟨start.unit.stack.retreat_zero.symm, trivial, fun _ => Iff.rfl⟩

/-- When everything has been popped, the stack is where it was. -/
theorem Stacked.stack_eq {start machine : Machine δ} (h : start.Stacked machine []) :
    machine.unit.stack = start.unit.stack :=
  h.stack.trans start.unit.stack.retreat_zero

/-- What moves neither the stack nor memory leaves the pushed words alone. -/
theorem Stacked.congr {start machine after : Machine δ} {saved : List UInt16}
    (h : start.Stacked machine saved) (hstack : after.unit.stack = machine.unit.stack)
    (hbus : after.bus = machine.bus) : start.Stacked after saved := by
  constructor
  · rw [hstack]
    exact h.stack
  · rw [hstack, hbus]
    exact h.holds
  · rw [hbus]
    exact h.writable

/-- A word that is pushed where there is room is on top. -/
theorem Stacked.push {start machine : Machine δ} {saved : List UInt16} {limit : Nat}
    (h : start.Stacked machine saved) (hroom : start.Room limit)
    (hfits : 2 * (saved.length + 1) ≤ limit) (value : UInt16) :
    start.Stacked (machine.push value) (value :: saved) := by
  have hsegment := hroom.le_segment
  have htop : machine.unit.stack.retreat 2
      = start.unit.stack.retreat (UInt16.ofNat (2 * saved.length + 1 + 1)) := by
    rw [h.stack, MemoryLocator.retreat_retreat, UInt16.ofNat_add, UInt16.ofNat_add,
      UInt16.add_assoc]
    rfl
  have hbyte : (machine.unit.stack.retreat 2).advance 1
      = start.unit.stack.retreat (UInt16.ofNat (2 * saved.length + 1)) := by
    rw [htop, UInt16.ofNat_add]
    exact MemoryLocator.advance_retreat_add _ _ 1
  have hback : (machine.unit.stack.retreat 2).advance 2 = machine.unit.stack := by
    rw [htop, h.stack, UInt16.ofNat_add, UInt16.ofNat_add, UInt16.add_assoc]
    exact MemoryLocator.advance_retreat_add _ _ 2
  refine ⟨htop, ⟨?_, ?_⟩, ?_⟩
  · show (machine.bus.write .word (machine.unit.stack.retreat 2) value).read .word
      (machine.unit.stack.retreat 2) = value
    refine Bus.read_write_word _ value ?_ ?_
    · rw [htop, h.writable]
      exact hroom.writable _ (by omega)
    · rw [hbyte, h.writable]
      exact hroom.writable _ (by omega)
  · show (machine.bus.write .word (machine.unit.stack.retreat 2) value).Holds
      ((machine.unit.stack.retreat 2).advance 2) saved
    refine Bus.Holds.write ?_ value (by omega)
    rw [hback]
    exact h.holds
  · intro address
    rw [← h.writable address]
    show Memory.Writable (Memory.write (Memory.write _ _ _) _ _) address ↔ _
    rw [Memory.writable_write, Memory.writable_write]

/-- The word on top is what is popped. -/
theorem Stacked.pop {start machine : Machine δ} {value : UInt16} {saved : List UInt16}
    (h : start.Stacked machine (value :: saved)) :
    machine.pop.1 = value ∧ start.Stacked machine.pop.2 saved := by
  have hstack : machine.unit.stack.advance 2
      = start.unit.stack.retreat (UInt16.ofNat (2 * saved.length)) := by
    rw [h.stack, List.length_cons, Nat.mul_succ, UInt16.ofNat_add]
    exact MemoryLocator.advance_retreat_add _ _ 2
  exact ⟨h.holds.1, hstack, h.holds.2, h.writable⟩

end Machine

end Microprocessor.X86
