import Microprocessor.Arm.Instruction
import Microprocessor.Proofs.X86.SelfDelimiting

/-! # Encodings that reach past what there is

    A source may end within an instruction.  Which bytes the instruction would
    have taken is not to be told from the source; but decoders that take bytes one
    after another agree about it, whatever the missing bytes may be.

      * `Overruns` says that the encoding at the beginning of a source reaches a
        byte that is missing;
      * `Delimits` is asked of a decoder, and both instruction sets have it;
      * `Delimits.error_iff_overruns`: such a decoder fails exactly there. -/

namespace Microprocessor

/-- The bytes are those of a source, with others where it has none. -/
def ByteSource.FilledBy (source : ByteSource) (bytes : Nat → UInt8) : Prop :=
  ∀ i byte, source i = some byte → bytes i = byte

variable {ι : Type} [Decoded ι]

/-- Whatever the missing bytes may be, the encoding at the beginning of a source reaches
    one of them. -/
def Overruns (decode : ByteSource → Nat → Except EndOfStream ι) (source : ByteSource) : Prop :=
  ∀ bytes : Nat → UInt8, source.FilledBy bytes →
    ∃ instruction, decode (fun i => some (bytes i)) 0 = .ok instruction
      ∧ ∃ i, i < Decoded.length instruction ∧ source i = none

/-- An instruction is settled by the bytes that it is long, and a failure is a byte that
    is missing. -/
structure Delimits (decode : ByteSource → Nat → Except EndOfStream ι) : Prop where
  present : ∀ {source : ByteSource} {instruction : ι}, decode source 0 = .ok instruction →
    ∀ i, i < Decoded.length instruction → (source i).isSome = true
  agrees : ∀ {source other : ByteSource} {instruction : ι},
    decode source 0 = .ok instruction →
      (∀ i, i < Decoded.length instruction → other i = source i) →
        decode other 0 = .ok instruction
  missing : ∀ {source : ByteSource} {failure : EndOfStream},
    decode source 0 = .error failure → source failure.position = none

namespace Delimits

variable {decode : ByteSource → Nat → Except EndOfStream ι}

/-- Where no byte is missing there is an instruction. -/
theorem total (h : Delimits decode) (bytes : Nat → UInt8) :
    ∃ instruction, decode (fun i => some (bytes i)) 0 = .ok instruction := by
  cases hdecode : decode (fun i => some (bytes i)) 0 with
  | ok instruction => exact ⟨instruction, rfl⟩
  | error failure => cases h.missing hdecode

/-- A decoder fails exactly where the encoding reaches past what there is. -/
theorem error_iff_overruns (h : Delimits decode) {source : ByteSource} :
    (∃ failure, decode source 0 = .error failure) ↔ Overruns decode source := by
  constructor
  · rintro ⟨failure, hfails⟩ bytes hfilled
    obtain ⟨instruction, hdecode⟩ := h.total bytes
    refine ⟨instruction, hdecode, ?_⟩
    -- If all its bytes were there, it would be decoded from them.
    refine Classical.not_forall_not.mp fun hnone => ?_
    have hsame : ∀ i, i < Decoded.length instruction → source i = some (bytes i) := by
      intro i hi
      obtain ⟨byte, hbyte⟩ := Option.ne_none_iff_exists'.mp fun hmissing => hnone i ⟨hi, hmissing⟩
      rw [hbyte, hfilled i byte hbyte]
    rw [h.agrees hdecode hsame] at hfails
    cases hfails
  · intro hoverruns
    cases hdecode : decode source 0 with
    | error failure => exact ⟨failure, rfl⟩
    | ok instruction =>
        -- It is the one decoded from the source with the gaps filled in, which then
        -- reaches none of them.
        have hfilled : source.FilledBy fun i => (source i).getD 0 := by
          intro i byte hbyte
          show (source i).getD 0 = byte
          rw [hbyte, Option.getD_some]
        have hsame : ∀ i, i < Decoded.length instruction →
            some ((source i).getD 0) = source i := by
          intro i hi
          obtain ⟨byte, hbyte⟩ := Option.isSome_iff_exists.mp (h.present hdecode i hi)
          rw [hbyte, Option.getD_some]
        obtain ⟨other, hother, i, hi, hmissing⟩ := hoverruns _ hfilled
        obtain rfl := Except.ok.inj ((h.agrees hdecode hsame).symm.trans hother)
        have hpresent := h.present hdecode i hi
        rw [hmissing] at hpresent
        cases hpresent

end Delimits

/-! ## The decoders -/

/-- An 8086 instruction is settled by its bytes. -/
theorem X86.delimits : Delimits X86.decode where
  present := by
    intro source instruction hdecode i hi
    obtain ⟨-, -, hpresent, -⟩ := X86.decode_of_agrees hdecode
    exact hpresent i (Nat.zero_le i) (by rw [Nat.zero_add]; exact hi)
  agrees := by
    intro source other instruction hdecode hsame
    obtain ⟨-, -, -, hother⟩ := X86.decode_of_agrees hdecode
    refine hother other 0 fun i hi => ?_
    rw [Nat.zero_add]
    exact hsame i hi
  missing := by
    intro source failure hdecode
    obtain ⟨-, -, -, hmissing, -⟩ := X86.decode_error_of_agrees hdecode
    exact hmissing

namespace Arm

/-- Decoding succeeds as reading four bytes does. -/
theorem decode_eq_ok {source : ByteSource} {start : Nat} {instruction : Instruction}
    (h : decode source start = .ok instruction) :
    ∃ word stop, ByteReader.nextDouble source start = .ok (word, stop)
      ∧ instruction = .ofWord word := by
  rw [decode] at h
  split at h
  · rename_i word stop hread
    cases h
    exact ⟨word, stop, hread, rfl⟩
  · cases h

/-- Decoding fails as reading four bytes does. -/
theorem decode_eq_error {source : ByteSource} {start : Nat} {failure : EndOfStream}
    (h : decode source start = .error failure) :
    ByteReader.nextDouble source start = .error failure := by
  rw [decode] at h
  split at h
  · cases h
  · rename_i hread
    cases h
    exact hread

/-- An A32 instruction is settled by its four bytes. -/
theorem delimits : Delimits decode where
  present := by
    intro source instruction hdecode i hi
    obtain ⟨word, stop, hread, rfl⟩ := decode_eq_ok hdecode
    obtain ⟨hleast, -, hpresent, -⟩ := ByteReader.sequential_nextDouble.of_ok hread
    have hi : i < 4 := hi
    exact hpresent i (Nat.zero_le i) (by omega)
  agrees := by
    intro source other instruction hdecode hsame
    obtain ⟨word, stop, hread, rfl⟩ := decode_eq_ok hdecode
    obtain ⟨-, hmost, -, hother⟩ := ByteReader.sequential_nextDouble.of_ok hread
    rw [decode, hother other 0 fun i hi => ?_]
    rw [Nat.zero_add] at hi ⊢
    exact hsame i (show i < 4 by omega)
  missing := by
    intro source failure hdecode
    obtain ⟨-, -, -, hmissing, -⟩ :=
      ByteReader.sequential_nextDouble.of_error (decode_eq_error hdecode)
    exact hmissing

end Arm

end Microprocessor
