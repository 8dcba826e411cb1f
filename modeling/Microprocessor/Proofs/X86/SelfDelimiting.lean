import Microprocessor.Encoding.Stream
import Microprocessor.Proofs.X86.Decoding

/-! # Instructions delimit themselves

    What an instruction is, and how long, is settled by its own bytes: those
    after it may be anything or missing.

      * `decode_of_agrees` and `decode_error_of_agrees` are about one
        instruction, at any place of any source;
      * `decodeStream_slices` is about a sweep over a list of bytes;
      * `decode_selfDelimiting` puts both together. -/

namespace Microprocessor.X86

/-! ## One instruction -/

/-- Decoding succeeds as reading does. -/
theorem decode_eq_ok {source : ByteSource} {start : Nat} {instruction : Instruction}
    (h : decode source start = .ok instruction) :
    ∃ prefixes opcode operation stop,
      readEncoding source start = .ok ((prefixes, opcode, operation), stop)
        ∧ instruction = ⟨opcode, prefixes, operation, stop - start,
            Timing.estimate operation prefixes⟩ := by
  rw [decode] at h
  split at h
  · rename_i prefixes opcode operation stop hread
    cases h
    exact ⟨prefixes, opcode, operation, stop, hread, rfl⟩
  · cases h

/-- Decoding fails as reading does. -/
theorem decode_eq_error {source : ByteSource} {start : Nat} {failure : EndOfStream} :
    decode source start = .error failure ↔ readEncoding source start = .error failure := by
  rw [decode]
  split
  · rename_i hread
    rw [hread]
    constructor <;> (intro h; cases h)
  · rename_i hread
    rw [hread]
    constructor <;> (intro h; cases h; rfl)

/-- An instruction that has been decoded consists of from one to ten bytes, all
    of them present, and is decoded wherever those bytes stand. -/
theorem decode_of_agrees {source : ByteSource} {start : Nat} {instruction : Instruction}
    (h : decode source start = .ok instruction) :
    1 ≤ instruction.length ∧ instruction.length ≤ 10
      ∧ (∀ i, start ≤ i → i < start + instruction.length → (source i).isSome)
      ∧ ∀ (other : ByteSource) (place : Nat),
          (∀ i, i < instruction.length → other (place + i) = source (start + i)) →
          decode other place = .ok instruction := by
  obtain ⟨prefixes, opcode, operation, stop, hread, rfl⟩ := decode_eq_ok h
  obtain ⟨hleast, hmost, hpresent, hsame⟩ := readEncoding_sequential.of_ok hread
  refine ⟨by show 1 ≤ stop - start; omega, by show stop - start ≤ 10; omega, ?_, ?_⟩
  · intro i hge hlt
    have hlt : i < start + (stop - start) := hlt
    exact hpresent i hge (by omega)
  · intro other place hagree
    have hread' := hsame other place fun i hi => hagree i (by show i < stop - start; omega)
    rw [decode, hread']
    show Except.ok (Instruction.mk _ _ _ (place + (stop - start) - place) _) = _
    rw [Nat.add_sub_cancel_left]

/-- A failure is the first byte that is missing, at most nine bytes on, and
    comes wherever the same bytes stand before a missing one. -/
theorem decode_error_of_agrees {source : ByteSource} {start : Nat} {failure : EndOfStream}
    (h : decode source start = .error failure) :
    start ≤ failure.position ∧ failure.position ≤ start + 9
      ∧ (∀ i, start ≤ i → i < failure.position → (source i).isSome)
      ∧ source failure.position = none
      ∧ ∀ (other : ByteSource) (place : Nat),
          (∀ i, start + i ≤ failure.position → other (place + i) = source (start + i)) →
          decode other place = .error ⟨place + (failure.position - start)⟩ := by
  obtain ⟨hfrom, hmost, hpresent, hmissing, hsame⟩ :=
    readEncoding_sequential.of_error (decode_eq_error.mp h)
  refine ⟨hfrom, by omega, hpresent, hmissing, ?_⟩
  intro other place hagree
  exact decode_eq_error.mpr (hsame other place hagree)

/-! ## Sweeping over bytes -/

/-- The bytes of a slice of a list are those of the list. -/
theorem ofList_slice {bytes : List UInt8} {start length i : Nat} (h : i < length) :
    ByteSource.ofList ((bytes.drop start).take length) (0 + i)
      = ByteSource.ofList bytes (start + i) := by
  show ((bytes.drop start).take length)[0 + i]? = bytes[start + i]?
  rw [Nat.zero_add, List.getElem?_take_of_lt h, List.getElem?_drop]

/-- A list has a byte exactly below its length. -/
theorem isSome_ofList {bytes : List UInt8} {i : Nat} :
    (ByteSource.ofList bytes i).isSome ↔ i < bytes.length := by
  show (bytes[i]?).isSome ↔ _
  rw [Option.isSome_iff_ne_none, ne_eq, List.getElem?_eq_none_iff, Nat.not_le]

/-- An instruction decoded from a list is decoded from its own slice alone. -/
theorem decode_slice {bytes : List UInt8} {start : Nat} {instruction : Instruction}
    (h : decode (.ofList bytes) start = .ok instruction) :
    1 ≤ instruction.length ∧ start + instruction.length ≤ bytes.length
      ∧ decode (.ofList ((bytes.drop start).take instruction.length)) 0 = .ok instruction := by
  obtain ⟨hleast, -, hpresent, hsame⟩ := decode_of_agrees h
  refine ⟨hleast, ?_, ?_⟩
  · have hlast := hpresent (start + instruction.length - 1) (by omega) (by omega)
    have hlt := isSome_ofList.mp hlast
    omega
  · exact hsame _ 0 fun i hi => ofList_slice hi

/-- Decoding from a list fails at its end only, with fewer than ten bytes
    left. -/
theorem decode_rest {bytes : List UInt8} {start : Nat} {failure : EndOfStream}
    (hstart : start ≤ bytes.length) (h : decode (.ofList bytes) start = .error failure) :
    failure = ⟨bytes.length⟩ ∧ (bytes.drop start).length < 10
      ∧ decode (.ofList (bytes.drop start)) 0 = .error ⟨(bytes.drop start).length⟩ := by
  obtain ⟨hfrom, hmost, hpresent, hmissing, hsame⟩ := decode_error_of_agrees h
  -- Nothing is missing before the end of a list, and everything from it on.
  have hend : failure.position = bytes.length := by
    have hge : bytes.length ≤ failure.position := List.getElem?_eq_none_iff.mp hmissing
    rcases Nat.eq_or_lt_of_le hfrom with heq | hlt
    · omega
    · have hlast := isSome_ofList.mp (hpresent (failure.position - 1) (by omega) (by omega))
      omega
  have hlength : (bytes.drop start).length = failure.position - start := by
    rw [List.length_drop, hend]
  refine ⟨by rw [← hend], by omega, ?_⟩
  have hrest := hsame (.ofList (bytes.drop start)) 0 fun i _ => by
    show (bytes.drop start)[0 + i]? = bytes[start + i]?
    rw [Nat.zero_add, List.getElem?_drop]
  rw [hrest, hlength, Nat.zero_add]

/-- Sweeping over the bytes of a list from a place on cuts them into the
    instructions decoded, each from its own slice, and an instruction that the
    end cuts off. -/
theorem decodeStream_slices (bytes : List UInt8) (count start : Nat)
    (hstart : start ≤ bytes.length) (hcount : bytes.length < start + count) :
    ∃ (slices : List (List UInt8 × Instruction)) (rest : List UInt8),
      bytes.drop start = (slices.map Prod.fst).flatten ++ rest
        ∧ (∀ slice ∈ slices, slice.1.length = slice.2.length
            ∧ decode (.ofList slice.1) 0 = .ok slice.2)
        ∧ rest.length < 10 ∧ decode (.ofList rest) 0 = .error ⟨rest.length⟩
        ∧ decodeStream (decode (.ofList bytes)) count start
            = (slices.map fun slice => .ok slice.2) ++ [.error ⟨bytes.length⟩] := by
  induction count generalizing start with
  | zero => omega
  | succ count ih =>
      rw [decodeStream]
      cases hdecode : decode (.ofList bytes) start with
      | error failure =>
          obtain ⟨rfl, hshort, hrest⟩ := decode_rest hstart hdecode
          exact ⟨[], bytes.drop start, rfl, fun _ h => absurd h List.not_mem_nil, hshort,
            hrest, rfl⟩
      | ok instruction =>
          obtain ⟨hleast, hfits, hslice⟩ := decode_slice hdecode
          obtain ⟨slices, rest, hcut, hslices, hshort, hrest, hstream⟩ :=
            ih (start + instruction.length) hfits (by omega)
          refine ⟨((bytes.drop start).take instruction.length, instruction) :: slices, rest,
            ?_, ?_, hshort, hrest, ?_⟩
          · rw [List.map_cons, List.flatten_cons, List.append_assoc, ← hcut,
              ← List.drop_drop, List.take_append_drop]
          · intro slice hmem
            rcases List.mem_cons.mp hmem with rfl | hmem
            · refine ⟨?_, hslice⟩
              rw [List.length_take, List.length_drop]
              exact Nat.min_eq_left (by omega)
            · exact hslices slice hmem
          · show .ok instruction :: decodeStream _ count (start + instruction.length) = _
            rw [hstream]
            rfl

/-- Decoding is self-delimiting and fails only for want of bytes.  An
    instruction consists of from one to ten bytes and is decoded from any source
    that has them; a failure names the first byte missing, and comes from any
    source that has those before it and lacks it.  So a sweep over a list of
    bytes cuts it, without gap or overlap, into the instructions it gives and
    one that the end cuts off. -/
theorem decode_selfDelimiting :
    (∀ (source : ByteSource) (start : Nat) (instruction : Instruction),
      decode source start = .ok instruction →
      1 ≤ instruction.length ∧ instruction.length ≤ 10
        ∧ (∀ i, start ≤ i → i < start + instruction.length → (source i).isSome)
        ∧ ∀ other : ByteSource,
            (∀ i, start ≤ i → i < start + instruction.length → other i = source i) →
            decode other start = .ok instruction)
    ∧ (∀ (source : ByteSource) (start : Nat) (failure : EndOfStream),
      decode source start = .error failure →
      source failure.position = none ∧ start ≤ failure.position
        ∧ (∀ i, start ≤ i → source i = none → failure.position ≤ i)
        ∧ failure.position ≤ start + 9
        ∧ ∀ other : ByteSource,
            (∀ i, start ≤ i → i < failure.position → other i = source i) →
            other failure.position = none →
            decode other start = .error failure)
    ∧ (∀ (bytes : List UInt8) (count : Nat), bytes.length < count →
      ∃ (slices : List (List UInt8 × Instruction)) (rest : List UInt8),
        bytes = (slices.map Prod.fst).flatten ++ rest
          ∧ (∀ slice ∈ slices, slice.1.length = slice.2.length
              ∧ decode (.ofList slice.1) 0 = .ok slice.2)
          ∧ rest.length < 10 ∧ decode (.ofList rest) 0 = .error ⟨rest.length⟩
          ∧ decodeStream (decode (.ofList bytes)) count 0
              = (slices.map fun slice => .ok slice.2) ++ [.error ⟨bytes.length⟩]) := by
  refine ⟨?_, ?_, ?_⟩
  · intro source start instruction hdecode
    obtain ⟨hleast, hmost, hpresent, hsame⟩ := decode_of_agrees hdecode
    refine ⟨hleast, hmost, hpresent, ?_⟩
    intro other hagree
    exact hsame other start fun i hi =>
      hagree (start + i) (Nat.le_add_right _ _) (Nat.add_lt_add_left hi _)
  · intro source start failure hdecode
    obtain ⟨hfrom, hmost, hpresent, hmissing, hsame⟩ := decode_error_of_agrees hdecode
    refine ⟨hmissing, hfrom, ?_, hmost, ?_⟩
    · intro i hge hnone
      refine Nat.le_of_not_lt fun hlt => ?_
      have hsome := hpresent i hge hlt
      rw [hnone] at hsome
      cases hsome
    · intro other hagree hlacks
      have hfail := hsame other start fun i hi => by
        rcases Nat.eq_or_lt_of_le hi with heq | hlt
        · rw [heq, hlacks, hmissing]
        · exact hagree (start + i) (Nat.le_add_right _ _) hlt
      rw [hfail, Nat.add_sub_cancel' hfrom]
  · intro bytes count hcount
    exact decodeStream_slices bytes count 0 (Nat.zero_le _) (by omega)

/-- The bytes after `MOV AX, 1234h` make no difference to it. -/
theorem decode_selfDelimiting_move :
    decode (.ofList [0xB8, 0x34, 0x12, 0xFF, 0x36]) 0
      = .ok ⟨0xB8, .none, .mov .word (.register (.word .ax)) (.immediate 0x1234), 3, 4⟩ := by
  refine (decode_selfDelimiting.1 (.ofList [0xB8, 0x34, 0x12]) 0 _ rfl).2.2.2 _ ?_
  intro i _ hi
  have hi : i < 0 + 3 := hi
  obtain rfl | rfl | rfl : i = 0 ∨ i = 1 ∨ i = 2 := by omega
  all_goals rfl

end Microprocessor.X86
