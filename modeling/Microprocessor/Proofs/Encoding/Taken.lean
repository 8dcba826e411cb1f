import Microprocessor.Proofs.Encoding.Reader
import Microprocessor.Proofs.Word.Bytes

/-! # The bytes that a reader takes

    A reader that gives a value has taken some bytes for it, one after another.
    To say which bytes it takes for which value is to give the grammar of what it
    reads.

      * `ByteReader.Takes` relates each value that a reader may give to the bytes
        taken for it; one reader after another takes the bytes of both
        (`ByteReader.Takes.bind`);
      * `ByteReader.Reads` says the converse, that a reader takes given bytes for a
        given value;
      * `take_of_carries`: the bytes taken from a list are a slice of it. -/

namespace Microprocessor

/-! ## Bytes in a source -/

/-- The bytes lie in the source from an index on. -/
def ByteSource.Carries (source : ByteSource) (start : Nat) (bytes : List UInt8) : Prop :=
  ∀ i, i < bytes.length → source (start + i) = bytes[i]?

namespace ByteSource

/-- Bytes that lie one after another are the bytes of both. -/
theorem Carries.append {source : ByteSource} {start : Nat} {bytes more : List UInt8}
    (h : source.Carries start bytes) (hmore : source.Carries (start + bytes.length) more) :
    source.Carries start (bytes ++ more) := by
  intro i hi
  rw [List.length_append] at hi
  by_cases hfirst : i < bytes.length
  · rw [List.getElem?_append_left hfirst]
    exact h i hfirst
  · have hge : bytes.length ≤ i := Nat.le_of_not_lt hfirst
    have hlater := hmore (i - bytes.length) (by omega)
    rw [Nat.add_assoc, Nat.add_sub_cancel' hge] at hlater
    rw [List.getElem?_append_right hge]
    exact hlater

/-- The bytes of two lists lie one after another. -/
theorem Carries.of_append {source : ByteSource} {start : Nat} {bytes more : List UInt8}
    (h : source.Carries start (bytes ++ more)) :
    source.Carries start bytes ∧ source.Carries (start + bytes.length) more := by
  simp only [Carries, List.length_append] at h
  constructor
  · intro i hi
    rw [h i (by omega), List.getElem?_append_left hi]
  · intro i hi
    rw [Nat.add_assoc, h _ (by omega), List.getElem?_append_right (Nat.le_add_right _ _),
      Nat.add_sub_cancel_left]

/-- The first byte lies where they begin, and the others lie after it. -/
theorem Carries.of_cons {source : ByteSource} {start : Nat} {byte : UInt8} {bytes : List UInt8}
    (h : source.Carries start (byte :: bytes)) :
    source start = some byte ∧ source.Carries (start + 1) bytes := by
  have h : source.Carries start ([byte] ++ bytes) := h
  obtain ⟨hfirst, hothers⟩ := h.of_append
  exact ⟨hfirst 0 Nat.one_pos, hothers⟩

/-- A list that begins with the bytes carries them. -/
theorem carries_append (bytes more : List UInt8) : (ofList (bytes ++ more)).Carries 0 bytes := by
  intro i hi
  show (bytes ++ more)[0 + i]? = bytes[i]?
  rw [Nat.zero_add, List.getElem?_append_left hi]

/-- The bytes that lie in a list are a slice of it. -/
theorem take_of_carries {list : List UInt8} {start : Nat} {bytes : List UInt8}
    (h : (ofList list).Carries start bytes) : (list.drop start).take bytes.length = bytes := by
  refine List.ext_getElem? ?_
  intro i
  by_cases hi : i < bytes.length
  · rw [List.getElem?_take_of_lt hi, List.getElem?_drop]
    exact h i hi
  · have hge : bytes.length ≤ i := Nat.le_of_not_lt hi
    rw [List.getElem?_eq_none hge]
    refine List.getElem?_eq_none ?_
    exact Nat.le_trans (List.length_take_le _ _) hge

end ByteSource

namespace ByteReader

variable {α β : Type}

/-- Whatever the source holds, a value that the reader gives and the bytes taken
    for it are as `wanted` says. -/
def Takes (wanted : α → List UInt8 → Prop) (reader : ByteReader α) : Prop :=
  ∀ (source : ByteSource) (start stop : Nat) (value : α),
    reader source start = .ok (value, stop) →
    ∃ bytes, source.Carries start bytes ∧ stop = start + bytes.length ∧ wanted value bytes

/-- Nothing is taken for a value that is already there. -/
theorem takes_pure {wanted : α → List UInt8 → Prop} {value : α} (h : wanted value []) :
    Takes wanted (pure value) := by
  intro source start stop given hread
  cases hread
  exact ⟨[], fun i hi => absurd hi (Nat.not_lt_zero i), rfl, h⟩

/-- One reader after another takes the bytes of both. -/
theorem Takes.bind {wanted : α → List UInt8 → Prop} {goal : β → List UInt8 → Prop}
    {reader : ByteReader α} {rest : α → ByteReader β} (h : Takes wanted reader)
    (hrest : ∀ value bytes, wanted value bytes →
      Takes (fun result more => goal result (bytes ++ more)) (rest value)) :
    Takes goal (reader >>= rest) := by
  intro source start stop given hread
  rw [bind_apply] at hread
  cases hfirst : reader source start with
  | error failure =>
      rw [hfirst] at hread
      cases hread
  | ok read =>
      rw [hfirst] at hread
      obtain ⟨bytes, hbytes, hmiddle, hwanted⟩ := h _ _ _ _ hfirst
      obtain ⟨more, hmore, hstop, hgoal⟩ := hrest read.1 bytes hwanted _ _ _ _ hread
      rw [hmiddle] at hmore hstop
      refine ⟨bytes ++ more, hbytes.append hmore, ?_, hgoal⟩
      rw [hstop, List.length_append, Nat.add_assoc]

/-- A value computed from what has been read. -/
theorem Takes.compute {wanted : α → List UInt8 → Prop} {goal : β → List UInt8 → Prop}
    {reader : ByteReader α} {f : α → β} (h : Takes wanted reader)
    (hgoal : ∀ value bytes, wanted value bytes → goal (f value) bytes) :
    Takes goal (reader >>= fun value => pure (f value)) := by
  refine h.bind ?_
  intro value bytes hwanted
  refine takes_pure ?_
  rw [List.append_nil]
  exact hgoal value bytes hwanted

/-- The same, for a function applied to a reader. -/
theorem Takes.map {wanted : α → List UInt8 → Prop} {goal : β → List UInt8 → Prop}
    {reader : ByteReader α} {f : α → β} (h : Takes wanted reader)
    (hgoal : ∀ value bytes, wanted value bytes → goal (f value) bytes) :
    Takes goal (f <$> reader) := by
  rw [map_eq_pure_bind]
  exact h.compute hgoal

/-- To look at a byte is to take none. -/
theorem takes_peek : Takes (fun _ bytes => bytes = []) peek := by
  intro source start stop value hread
  rw [peek] at hread
  split at hread
  · cases hread
    exact ⟨[], fun i hi => absurd hi (Nat.not_lt_zero i), rfl, rfl⟩
  · cases hread

theorem takes_nextByte : Takes (fun byte bytes => bytes = [byte]) nextByte := by
  intro source start stop value hread
  rw [nextByte] at hread
  split at hread
  · rename_i hbyte
    cases hread
    refine ⟨[value], ?_, rfl, rfl⟩
    intro i hi
    obtain rfl : i = 0 := Nat.lt_one_iff.mp hi
    exact hbyte
  · cases hread

theorem takes_nextWord : Takes (fun word bytes => bytes = bytesOfWord word) nextWord := by
  refine takes_nextByte.bind ?_
  rintro low _ rfl
  refine takes_nextByte.compute ?_
  rintro high _ rfl
  exact (bytesOfWord_wordOfBytes low high).symm

/-- A double word is taken as two words, the low one first. -/
theorem takes_nextDouble :
    Takes (fun double bytes => ∃ low high, double = doubleOfWords low high
      ∧ bytes = bytesOfWord low ++ bytesOfWord high) nextDouble := by
  refine takes_nextWord.bind ?_
  rintro low _ rfl
  refine takes_nextWord.compute ?_
  rintro high _ rfl
  exact ⟨low, high, rfl, rfl⟩

/-! ## What is read from given bytes -/

/-- Wherever the bytes lie, the reader takes all of them for the value. -/
def Reads (reader : ByteReader α) (bytes : List UInt8) (value : α) : Prop :=
  ∀ (source : ByteSource) (start : Nat), source.Carries start bytes →
    reader source start = .ok (value, start + bytes.length)

theorem reads_pure (value : α) : Reads (pure value) [] value :=
  fun _ _ _ => rfl

/-- One reader after another reads the bytes of both. -/
theorem Reads.bind {reader : ByteReader α} {rest : α → ByteReader β} {bytes more : List UInt8}
    {value : α} {result : β} (h : Reads reader bytes value)
    (hrest : Reads (rest value) more result) : Reads (reader >>= rest) (bytes ++ more) result := by
  intro source start hcarries
  obtain ⟨hbytes, hmore⟩ := hcarries.of_append
  rw [bind_apply, h source start hbytes, List.length_append, ← Nat.add_assoc]
  exact hrest source _ hmore

/-- A value computed from what has been read. -/
theorem Reads.compute {reader : ByteReader α} {bytes : List UInt8} {value : α}
    (h : Reads reader bytes value) (f : α → β) :
    Reads (reader >>= fun value => pure (f value)) bytes (f value) := by
  rw [← List.append_nil bytes]
  exact h.bind (reads_pure (f value))

/-- The same, for a function applied to a reader. -/
theorem Reads.map {reader : ByteReader α} {bytes : List UInt8} {value : α}
    (h : Reads reader bytes value) (f : α → β) : Reads (f <$> reader) bytes (f value) := by
  rw [map_eq_pure_bind]
  exact h.compute f

theorem reads_nextByte (byte : UInt8) : Reads nextByte [byte] byte := by
  intro source start hcarries
  rw [nextByte, hcarries.of_cons.1]
  rfl

theorem reads_nextWord (word : UInt16) : Reads nextWord (bytesOfWord word) word := by
  have hword : Reads nextWord (bytesOfWord word) (wordOfBytes (lowByte word) (highByte word)) :=
    (reads_nextByte (lowByte word)).bind ((reads_nextByte (highByte word)).compute _)
  rwa [wordOfBytes_lowByte_highByte] at hword

end ByteReader

end Microprocessor
