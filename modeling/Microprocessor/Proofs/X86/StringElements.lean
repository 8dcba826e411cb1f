import Microprocessor.Proofs.Storage.Words
import Microprocessor.Proofs.X86.Repetition
import Microprocessor.Proofs.X86.Sums

/-! # The elements of strings

    The elements of a string lie one after another from DS:SI or ES:DI on, upwards or
    downwards, and their offsets wrap within the segment.  Where they lie is settled by
    the registers before the first step, since a step moves SI and DI from one element to
    the next and touches no other register that this depends on.

      * `RegisterFile.sourceElement` and `RegisterFile.destinationElement` are the places,
        and `Machine.stringValue` is what an operation takes from the first of them;
      * `RegisterFile.afterElements` is what working on elements leaves in the registers;
      * `Machine.stringStep_stores` and `Machine.stringStep_compares` say what one step of
        an operation with a destination does. -/

namespace Microprocessor.X86

/-! ## Indices -/

/-- An index moved by `count` elements, modulo 2^16. -/
def indexAfter (index : UInt16) (width : Width) (down : Bool) (count : Nat) : UInt16 :=
  if down then index - UInt16.ofNat count * width.bytes
  else index + UInt16.ofNat count * width.bytes

@[simp] theorem indexAfter_zero (index : UInt16) (width : Width) (down : Bool) :
    indexAfter index width down 0 = index := by
  cases down <;> simp [indexAfter]

/-- Moves add up, whether or not they wrap. -/
theorem indexAfter_indexAfter (index : UInt16) (width : Width) (down : Bool) (m n : Nat) :
    indexAfter (indexAfter index width down m) width down n
      = indexAfter index width down (m + n) := by
  unfold indexAfter
  rw [UInt16.ofNat_add]
  -- Offsets are a ring, in which it does not show where a move has wrapped.
  cases down with
  | false =>
      show index + UInt16.ofNat m * width.bytes + UInt16.ofNat n * width.bytes
        = index + (UInt16.ofNat m + UInt16.ofNat n) * width.bytes
      grind
  | true =>
      show index - UInt16.ofNat m * width.bytes - UInt16.ofNat n * width.bytes
        = index - (UInt16.ofNat m + UInt16.ofNat n) * width.bytes
      grind

/-- A step moves an index by one element. -/
theorem stepIndex_eq (register : WordRegister) (width : Width) (regs : RegisterFile) :
    Machine.stepIndex register width regs
      = regs.setWord register
          (indexAfter (regs.word register) width (regs.flags.get .direction) 1) := by
  have hone : UInt16.ofNat 1 * width.bytes = width.bytes := UInt16.one_mul _
  rw [Machine.stepIndex, indexAfter, hone]

/-! ## Places -/

/-- Whether the operation writes what it takes to the destination. -/
def StringOp.stores : StringOp → Bool
  | .movs | .stos => true
  | .cmps | .lods | .scas => false

/-- A comparison stores nothing. -/
theorem StringOp.compares_of_stores {op : StringOp} (h : op.stores = true) :
    op.compares = false := by
  cases op with
  | movs => rfl
  | stos => rfl
  | cmps => cases h
  | lods => cases h
  | scas => cases h

namespace RegisterFile

/-- Where element `i` of the source lies. -/
def sourceElement (regs : RegisterFile) (instruction : Instruction) (width : Width) (i : Nat) :
    MemoryLocator :=
  ⟨regs.segment (Machine.sourceSegment instruction),
    indexAfter (regs.word .si) width (regs.flags.get .direction) i⟩

/-- Where element `i` of the destination lies. -/
def destinationElement (regs : RegisterFile) (width : Width) (i : Nat) : MemoryLocator :=
  ⟨regs.segment .es, indexAfter (regs.word .di) width (regs.flags.get .direction) i⟩

/-- The bytes of the first `count` elements of the source. -/
def sourceBytes (regs : RegisterFile) (instruction : Instruction) (width : Width) (count : Nat) :
    List UInt32 :=
  (List.range count).flatMap fun i => (regs.sourceElement instruction width i).addresses width

/-- The bytes of the first `count` elements of the destination. -/
def destinationBytes (regs : RegisterFile) (width : Width) (count : Nat) : List UInt32 :=
  (List.range count).flatMap fun i => (regs.destinationElement width i).addresses width

/-- The registers after an operation with a destination has worked on `count` elements: DI has
    moved on, and so has SI if there is a source; the flags are new, and so is CX. -/
def afterElements (regs : RegisterFile) (op : StringOp) (width : Width) (count : Nat)
    (flags : Flags) (cx : UInt16) : RegisterFile :=
  { regs with
    cx := ⟨cx⟩
    si :=
      if op.readsSource then indexAfter (regs.word .si) width (regs.flags.get .direction) count
      else regs.word .si
    di := indexAfter (regs.word .di) width (regs.flags.get .direction) count
    flags }

/-- No elements leave the registers as they are. -/
theorem afterElements_zero (regs : RegisterFile) (op : StringOp) (width : Width) :
    regs.afterElements op width 0 regs.flags (regs.word .cx) = regs := by
  rw [afterElements, indexAfter_zero, indexAfter_zero, ite_self]
  rfl

section

variable {regs : RegisterFile} {op : StringOp} {width : Width} {m : Nat} {flags : Flags}
  {cx : UInt16} (hdirection : flags.get .direction = regs.flags.get .direction)

include hdirection

/-- What comes after some elements is counted on from there. -/
theorem destinationElement_afterElements (i : Nat) :
    (regs.afterElements op width m flags cx).destinationElement width i
      = regs.destinationElement width (m + i) := by
  have hflags : (regs.afterElements op width m flags cx).flags.get .direction
      = regs.flags.get .direction := hdirection
  rw [destinationElement, destinationElement, ← indexAfter_indexAfter, hflags]
  rfl

theorem sourceElement_afterElements (hop : op.readsSource = true) (instruction : Instruction)
    (i : Nat) :
    (regs.afterElements op width m flags cx).sourceElement instruction width i
      = regs.sourceElement instruction width (m + i) := by
  have hflags : (regs.afterElements op width m flags cx).flags.get .direction
      = regs.flags.get .direction := hdirection
  have hsi : (regs.afterElements op width m flags cx).word .si
      = indexAfter (regs.word .si) width (regs.flags.get .direction) m := if_pos hop
  rw [sourceElement, sourceElement, ← indexAfter_indexAfter, hsi, hflags]
  -- Whichever segment it is, its register is as before.
  cases Machine.sourceSegment instruction <;> rfl

/-- Elements add up. -/
theorem afterElements_afterElements (n : Nat) (flags' : Flags) (cx' : UInt16) :
    (regs.afterElements op width m flags cx).afterElements op width n flags' cx'
      = regs.afterElements op width (m + n) flags' cx' := by
  cases hop : op.readsSource with
  | true => simp [afterElements, hop, hdirection, word, indexAfter_indexAfter]
  | false => simp [afterElements, hop, hdirection, word, indexAfter_indexAfter]

/-- A step moves the indices by one element, after it has set the flags. -/
theorem stepIndex_di_si (hop : op.readsSource = true) :
    Machine.stepIndex .di width (Machine.stepIndex .si width (regs.setFlags flags))
      = regs.afterElements op width 1 flags (regs.word .cx) := by
  simp only [stepIndex_eq, afterElements, if_pos hop, ← hdirection]
  rfl

theorem stepIndex_di (hop : op.readsSource = false) :
    Machine.stepIndex .di width (regs.setFlags flags)
      = regs.afterElements op width 1 flags (regs.word .cx) := by
  simp only [stepIndex_eq, afterElements, if_neg (ne_true_of_eq_false hop), ← hdirection]
  rfl

end

end RegisterFile

/-! ## Steps -/

namespace Machine

variable {δ : Type} (machine : Machine δ) (instruction : Instruction) {op : StringOp}
  (width : Width)

/-- What the operation takes for element `i`: the element of the source or, if it has none, AL
    or AX. -/
def stringValue (op : StringOp) (i : Nat) : UInt16 :=
  if op.readsSource then machine.bus.read width (machine.regs.sourceElement instruction width i)
  else machine.regs.read (.accumulator width)

/-- The flags that comparison `i` leaves. -/
def comparison (op : StringOp) (i : Nat) : Flags :=
  Alu.cmp machine.regs.flags width (machine.stringValue instruction width op i)
    (machine.bus.read width (machine.regs.destinationElement width i))

/-- It does not change which way the indices move. -/
theorem comparison_direction (op : StringOp) (i : Nat) :
    (machine.comparison instruction width op i).get .direction
      = machine.regs.flags.get .direction :=
  (Alu.sub_computes _ _ _ _).reports.direction

/-- No value has bits beyond the width. -/
theorem stringValue_and_mask (i : Nat) :
    machine.stringValue instruction width op i &&& width.mask
      = machine.stringValue instruction width op i := by
  unfold stringValue
  split
  · exact machine.bus.read_and_mask width _
  · cases width with
    | byte => exact toUInt16_and_mask _
    | word => exact UInt16.and_neg_one

/-- A value depends on no other bytes than those that it is read from. -/
theorem stringValue_congr {after : Bus δ} {i : Nat}
    (h : op.readsSource = true →
      ∀ address ∈ (machine.regs.sourceElement instruction width i).addresses width,
        after.memory.fetch? address = machine.bus.memory.fetch? address) :
    stringValue ⟨machine.unit, after⟩ instruction width op i
      = machine.stringValue instruction width op i := by
  unfold stringValue
  split
  · rename_i hop
    exact Bus.read_congr (h hop)
  · rfl

/-- The values after some elements are counted on from there. -/
theorem stringValue_afterElements {m : Nat} {flags : Flags} {cx : UInt16}
    (hdirection : flags.get .direction = machine.regs.flags.get .direction) (bus : Bus δ) (i : Nat) :
    stringValue
        ⟨{ machine.unit with regs := machine.regs.afterElements op width m flags cx }, bus⟩
        instruction width op i
      = stringValue ⟨machine.unit, bus⟩ instruction width op (m + i) := by
  unfold stringValue
  split
  · rename_i hop
    exact congrArg (bus.read width)
      (RegisterFile.sourceElement_afterElements hdirection hop instruction i)
  · cases width <;> rfl

/-- The first values come from where the indices are. -/
theorem stringValue_zero_of_readsSource (h : op.readsSource = true) :
    machine.stringValue instruction width op 0
      = machine.bus.read width (machine.stringSource instruction) := by
  rw [stringValue, if_pos h, RegisterFile.sourceElement, indexAfter_zero]
  rfl

theorem destinationElement_zero :
    machine.regs.destinationElement width 0 = machine.stringDestination := by
  rw [RegisterFile.destinationElement, indexAfter_zero]
  rfl

/-- One step of a storing operation. -/
theorem stringStep_stores (h : op.stores = true) :
    machine.stringStep instruction op width
      = ⟨{ machine.unit with
            regs := machine.regs.afterElements op width 1 machine.regs.flags
              (machine.regs.word .cx) },
          machine.bus.write width (machine.regs.destinationElement width 0)
            (machine.stringValue instruction width op 0)⟩ := by
  rw [destinationElement_zero]
  cases op with
  | movs =>
      rw [stringValue_zero_of_readsSource machine instruction width rfl]
      exact congrArg
        (fun regs => Machine.mk { machine.unit with regs } (machine.bus.write width _ _))
        (RegisterFile.stepIndex_di_si rfl rfl)
  | stos =>
      exact congrArg
        (fun regs => Machine.mk { machine.unit with regs } (machine.bus.write width _ _))
        (RegisterFile.stepIndex_di rfl rfl)
  | cmps => cases h
  | lods => cases h
  | scas => cases h

/-- One step of a comparing operation. -/
theorem stringStep_compares (h : op.compares = true) :
    machine.stringStep instruction op width
      = ⟨{ machine.unit with
            regs := machine.regs.afterElements op width 1
              (machine.comparison instruction width op 0) (machine.regs.word .cx) },
          machine.bus⟩ := by
  -- The indices move by the new flags, and those have the old direction.
  have hdirection := machine.comparison_direction instruction width op 0
  rw [comparison, destinationElement_zero] at hdirection ⊢
  cases op with
  | cmps =>
      rw [stringValue_zero_of_readsSource machine instruction width rfl] at hdirection ⊢
      exact congrArg (fun regs => Machine.mk { machine.unit with regs } machine.bus)
        (RegisterFile.stepIndex_di_si hdirection rfl)
  | scas =>
      exact congrArg (fun regs => Machine.mk { machine.unit with regs } machine.bus)
        (RegisterFile.stepIndex_di hdirection rfl)
  | movs => cases h
  | lods => cases h
  | stos => cases h

end Machine

end Microprocessor.X86
