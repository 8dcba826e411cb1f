import Microprocessor.Encoding.ByteSource

/-! # Readers that take bytes one after another

    A sequential reader asks for bytes in order, each once, and learns nothing
    else of its source.  What it gives is settled by the bytes it has taken, and
    it fails only where the next of them is missing.

      * `ByteReader.Sequential` bounds the number of bytes from both sides;
        `ByteReader.Sequential.bind` adds the bounds up;
      * `ByteReader.peek_bind` does away with a look at the next byte before it
        is taken;
      * `ByteReader.Sequential.of_ok` and `ByteReader.Sequential.of_error` are
        what holds of a result and of a failure, and
        `ByteReader.Sequential.apply_append` says that it does not matter where
        the bytes stand;
      * `ByteReader.Gives` is asked of every value that a reader may give, from
        whatever source. -/

namespace Microprocessor

namespace ByteReader

variable {α β : Type}

/-- A reader that takes at least `least` and at most `most` bytes, in order. -/
inductive Sequential : Nat → Nat → ByteReader α → Prop
  | done {most : Nat} (value : α) : Sequential 0 most (pure value)
  | next {least most : Nat} {rest : UInt8 → ByteReader α}
      (h : ∀ byte, Sequential (least - 1) most (rest byte)) :
      Sequential least (most + 1) (nextByte >>= rest)

/-! ## Readers from readers -/

/-- Wider bounds are bounds too. -/
theorem Sequential.mono {least most least' most' : Nat} {reader : ByteReader α}
    (h : Sequential least most reader) (hleast : least' ≤ least) (hmost : most ≤ most') :
    Sequential least' most' reader := by
  induction h generalizing least' most' with
  | done value =>
      obtain rfl : least' = 0 := Nat.le_zero.mp hleast
      exact .done value
  | next _ ih =>
      cases most' with
      | zero => exact absurd hmost (Nat.not_succ_le_zero _)
      | succ most' =>
          exact .next fun byte =>
            ih byte (Nat.sub_le_sub_right hleast 1) (Nat.le_of_succ_le_succ hmost)

/-- One reader after another takes the bytes of both. -/
theorem Sequential.bind {least most least' most' : Nat} {reader : ByteReader α}
    {rest : α → ByteReader β} (h : Sequential least most reader)
    (hrest : ∀ value, Sequential least' most' (rest value)) :
    Sequential (least + least') (most + most') (reader >>= rest) := by
  induction h with
  | done value =>
      rw [pure_bind]
      exact (hrest value).mono (by omega) (by omega)
  | @next least most first _ ih =>
      rw [bind_assoc, Nat.add_right_comm]
      exact .next fun byte => (ih byte).mono (by omega) (Nat.le_refl _)

/-- A value computed from what has been read takes no more bytes. -/
theorem Sequential.compute {least most : Nat} {reader : ByteReader α}
    (h : Sequential least most reader) (f : α → β) :
    Sequential least most (reader >>= fun value => pure (f value)) :=
  h.bind fun value => show Sequential 0 0 _ from .done (f value)

/-- The same, for a function applied to a reader. -/
theorem Sequential.map {least most : Nat} {reader : ByteReader α}
    (h : Sequential least most reader) (f : α → β) : Sequential least most (f <$> reader) := by
  rw [map_eq_pure_bind]
  exact h.compute f

theorem sequential_nextByte : Sequential 1 1 nextByte := by
  rw [← bind_pure nextByte]
  exact .next .done

theorem sequential_nextWord : Sequential 2 2 nextWord :=
  sequential_nextByte.bind fun _ => sequential_nextByte.compute _

theorem sequential_nextDouble : Sequential 4 4 nextDouble :=
  sequential_nextWord.bind fun _ => sequential_nextWord.compute _

/-! ## Running a reader -/

/-- One reader after another, run from a position. -/
theorem bind_apply (reader : ByteReader α) (rest : α → ByteReader β) (source : ByteSource)
    (position : Nat) :
    (reader >>= rest) source position
      = match reader source position with
        | .ok (value, stop) => rest value source stop
        | .error failure => .error failure := by
  show Except.bind (reader source position) _ = _
  cases reader source position with
  | ok read => rfl
  | error failure => rfl

/-- A reader that begins with a byte, where there is one. -/
theorem nextByte_bind_of_some {rest : UInt8 → ByteReader α} {source : ByteSource}
    {position : Nat} {byte : UInt8} (h : source position = some byte) :
    (nextByte >>= rest) source position = rest byte source (position + 1) := by
  rw [bind_apply, nextByte, h]

/-- A reader that begins with a byte, where there is none. -/
theorem nextByte_bind_of_none {rest : UInt8 → ByteReader α} {source : ByteSource}
    {position : Nat} (h : source position = none) :
    (nextByte >>= rest) source position = .error ⟨position⟩ := by
  rw [bind_apply, nextByte, h]

/-- To look at a byte that is then taken is to take it. -/
theorem peek_bind {rest taken : UInt8 → ByteReader α}
    (h : ∀ byte source position, source position = some byte →
      rest byte source position = taken byte source (position + 1)) :
    peek >>= rest = nextByte >>= taken := by
  funext source position
  rw [bind_apply, peek]
  cases hbyte : source position with
  | none => exact (nextByte_bind_of_none hbyte).symm
  | some byte =>
      rw [nextByte_bind_of_some hbyte]
      exact h byte source position hbyte

/-! ## Results and failures -/

/-- Two sources that agree on a byte agree on it counted from the next place. -/
theorem agree_next {source other : ByteSource} {start place i : Nat}
    (h : other (place + (i + 1)) = source (start + (i + 1))) :
    other (place + 1 + i) = source (start + 1 + i) := by
  rw [Nat.add_assoc, Nat.add_comm 1 i, h, Nat.add_assoc, Nat.add_comm 1 i]

/-- A result is settled by the bytes taken: they are all there, and any source
    that holds them anywhere gives it too. -/
theorem Sequential.of_ok {least most : Nat} {reader : ByteReader α}
    (h : Sequential least most reader) {source : ByteSource} {start stop : Nat} {value : α}
    (hread : reader source start = .ok (value, stop)) :
    start + least ≤ stop ∧ stop ≤ start + most
      ∧ (∀ i, start ≤ i → i < stop → (source i).isSome)
      ∧ ∀ (other : ByteSource) (place : Nat),
          (∀ i, start + i < stop → other (place + i) = source (start + i)) →
          reader other place = .ok (value, place + (stop - start)) := by
  induction h generalizing start with
  | done result =>
      obtain ⟨rfl, rfl⟩ : result = value ∧ start = stop := by
        cases hread
        exact ⟨rfl, rfl⟩
      refine ⟨Nat.le_refl _, Nat.le_add_right _ _, ?_, ?_⟩
      · intro i hge hlt
        exact absurd hlt (Nat.not_lt_of_le hge)
      · intro other place _
        rw [Nat.sub_self]
        rfl
  | next _ ih =>
      cases hbyte : source start with
      | none =>
          rw [nextByte_bind_of_none hbyte] at hread
          cases hread
      | some byte =>
          -- The first byte is there; the others are those of the rest, from the
          -- next place on.
          rw [nextByte_bind_of_some hbyte] at hread
          obtain ⟨hleast, hmost, hpresent, hsame⟩ := ih byte hread
          refine ⟨by omega, by omega, ?_, ?_⟩
          · intro i hge hlt
            rcases Nat.eq_or_lt_of_le hge with rfl | hgt
            · rw [hbyte]
              rfl
            · exact hpresent i hgt hlt
          · intro other place hagree
            have hfirst : other place = some byte := (hagree 0 (by omega)).trans hbyte
            have hrest := hsame other (place + 1) fun i hi =>
              agree_next (hagree (i + 1) (by omega))
            rw [nextByte_bind_of_some hfirst, hrest]
            rw [show place + 1 + (stop - (start + 1)) = place + (stop - start) by omega]

/-- A failure is the first missing byte: any source that holds the same bytes
    before it, and lacks it, fails there too. -/
theorem Sequential.of_error {least most : Nat} {reader : ByteReader α}
    (h : Sequential least most reader) {source : ByteSource} {start : Nat}
    {failure : EndOfStream} (hread : reader source start = .error failure) :
    start ≤ failure.position ∧ failure.position < start + most
      ∧ (∀ i, start ≤ i → i < failure.position → (source i).isSome)
      ∧ source failure.position = none
      ∧ ∀ (other : ByteSource) (place : Nat),
          (∀ i, start + i ≤ failure.position → other (place + i) = source (start + i)) →
          reader other place = .error ⟨place + (failure.position - start)⟩ := by
  induction h generalizing start with
  | done result => cases hread
  | next _ ih =>
      cases hbyte : source start with
      | none =>
          rw [nextByte_bind_of_none hbyte] at hread
          cases hread
          refine ⟨Nat.le_refl _, Nat.lt_add_of_pos_right (Nat.succ_pos _), ?_, hbyte, ?_⟩
          · intro i hge hlt
            exact absurd hlt (Nat.not_lt_of_le hge)
          · intro other place hagree
            have hfirst : other place = none := (hagree 0 (Nat.le_refl _)).trans hbyte
            rw [nextByte_bind_of_none hfirst]
            show _ = Except.error (EndOfStream.mk (place + (start - start)))
            rw [Nat.sub_self]
            rfl
      | some byte =>
          rw [nextByte_bind_of_some hbyte] at hread
          obtain ⟨hfrom, hmost, hpresent, hmissing, hsame⟩ := ih byte hread
          refine ⟨by omega, by omega, ?_, hmissing, ?_⟩
          · intro i hge hlt
            rcases Nat.eq_or_lt_of_le hge with rfl | hgt
            · rw [hbyte]
              rfl
            · exact hpresent i hgt hlt
          · intro other place hagree
            have hfirst : other place = some byte := (hagree 0 (by omega)).trans hbyte
            have hrest := hsame other (place + 1) fun i hi =>
              agree_next (hagree (i + 1) (by omega))
            rw [nextByte_bind_of_some hfirst, hrest]
            rw [show place + 1 + (failure.position - (start + 1))
              = place + (failure.position - start) by omega]

/-- Other bytes in front move all that is read by their number. -/
theorem Sequential.apply_append {least most : Nat} {reader : ByteReader α}
    (h : Sequential least most reader) (front bytes : List UInt8) :
    reader (.ofList (front ++ bytes)) front.length
      = match reader (.ofList bytes) 0 with
        | .ok (value, stop) => .ok (value, front.length + stop)
        | .error failure => .error ⟨front.length + failure.position⟩ := by
  have hagree : ∀ i, ByteSource.ofList (front ++ bytes) (front.length + i)
      = ByteSource.ofList bytes (0 + i) := by
    intro i
    show (front ++ bytes)[front.length + i]? = bytes[0 + i]?
    rw [List.getElem?_append_right (Nat.le_add_right _ _), Nat.add_sub_cancel_left, Nat.zero_add]
  cases hread : reader (.ofList bytes) 0 with
  | ok read =>
      obtain ⟨-, -, -, hsame⟩ := h.of_ok hread
      exact hsame _ front.length fun i _ => hagree i
  | error failure =>
      obtain ⟨-, -, -, -, hsame⟩ := h.of_error hread
      exact hsame _ front.length fun i _ => hagree i

/-! ## What a reader gives -/

/-- Whatever the source holds, what the reader gives satisfies `wanted`. -/
def Gives (wanted : α → Prop) (reader : ByteReader α) : Prop :=
  ∀ (source : ByteSource) (start stop : Nat) (value : α),
    reader source start = .ok (value, stop) → wanted value

theorem gives_pure {wanted : α → Prop} {value : α} (h : wanted value) :
    Gives wanted (pure value) := by
  intro source start stop given hread
  cases hread
  exact h

/-- One reader after another gives what the second gives, whatever it makes of
    what the first may give. -/
theorem Gives.bind {wanted : α → Prop} {goal : β → Prop} {reader : ByteReader α}
    {rest : α → ByteReader β} (h : Gives wanted reader)
    (hrest : ∀ value, wanted value → Gives goal (rest value)) : Gives goal (reader >>= rest) := by
  intro source start stop given hread
  rw [bind_apply] at hread
  cases hfirst : reader source start with
  | error failure =>
      rw [hfirst] at hread
      cases hread
  | ok read =>
      rw [hfirst] at hread
      exact hrest read.1 (h _ _ _ _ hfirst) _ _ _ _ hread

/-- The same, if it does not matter what the first gives. -/
theorem gives_bind {goal : β → Prop} {reader : ByteReader α} {rest : α → ByteReader β}
    (hrest : ∀ value, Gives goal (rest value)) : Gives goal (reader >>= rest) :=
  have hany : Gives (fun _ => True) reader := fun _ _ _ _ _ => trivial
  hany.bind fun value _ => hrest value

/-- A value computed from anything read. -/
theorem gives_compute {goal : β → Prop} {reader : ByteReader α} {f : α → β}
    (h : ∀ value, goal (f value)) : Gives goal (reader >>= fun value => pure (f value)) :=
  gives_bind fun value => gives_pure (h value)

end ByteReader

end Microprocessor
