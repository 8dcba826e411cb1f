import Mathlib.Data.List.Induction
import Mathlib.Tactic.MkIffOfInductiveProp
import Microprocessor.Proofs.Word.Bits
import Microprocessor.Word.Pattern

/-! # What bit patterns spell

    A pattern is spelled from its highest bit down to bit 0, so that every character
    moves those before it up by one place.

      * `BitPattern.spelling` are the characters of a text that describe bits, that of
        bit 0 first, and `BitPattern.WellFormed` says which texts are patterns;
      * `BitPattern.Spells` ties the bits that a pattern constrains to characters.  Each
        character keeps it (`BitPattern.Spells.extend`), and with it the whole text
        (`BitPattern.ofBytes_of_wellFormed`);
      * `BitPattern.eq_iff_accepts`: patterns that ask nothing of free bits are told
        apart by the fields they accept. -/

namespace Microprocessor

namespace BitPattern

/-! ## Spellings -/

/-- The characters of a text that describe bits, from the last: `n` places from the
    right, underscores left out, stands the character of bit `n`. -/
def spelling (bytes : List UInt8) : List UInt8 :=
  (bytes.filter (· ≠ '_'.toUInt8)).reverse

/-- The characters that describe a bit. -/
def Describes (c : UInt8) : Prop :=
  c = '0'.toUInt8 ∨ c = '1'.toUInt8 ∨ c = 'x'.toUInt8

/-- A text of `0`, `1`, `x` and `_` that describes 32 bits at most. -/
@[mk_iff]
structure WellFormed (bytes : List UInt8) : Prop where
  describes : ∀ c ∈ spelling bytes, Describes c
  length_le : (spelling bytes).length ≤ 32

/-- What is reported of a byte that cannot follow a well-formed text: that there is no bit
    left for it, whatever it is, or else that it describes none. -/
def Offends (before : List UInt8) (c : UInt8) (report : String) : Prop :=
  c ≠ '_'.toUInt8
    ∧ ((spelling before).length = 32 ∧ report = "bit patterns may describe at most 32 bits"
      ∨ (spelling before).length < 32 ∧ ¬ Describes c
        ∧ report = "bit patterns may only contain 0, 1, x and _")

theorem spelling_concat_separator (before : List UInt8) :
    spelling (before ++ ['_'.toUInt8]) = spelling before := by
  rw [spelling, List.filter_append, List.reverse_append]
  rfl

theorem spelling_concat (before : List UInt8) {c : UInt8} (h : c ≠ '_'.toUInt8) :
    spelling (before ++ [c]) = c :: spelling before := by
  rw [spelling, List.filter_append, List.reverse_append,
    List.filter_cons_of_pos (by simpa using h)]
  rfl

theorem wellFormed_nil : WellFormed [] :=
  ⟨List.forall_mem_nil _, Nat.zero_le _⟩

/-- A separator is no matter. -/
theorem wellFormed_concat_separator {before : List UInt8} :
    WellFormed (before ++ ['_'.toUInt8]) ↔ WellFormed before := by
  rw [wellFormed_iff, wellFormed_iff, spelling_concat_separator]

/-- Any other byte has to describe a bit, and there has to be one left. -/
theorem wellFormed_concat {before : List UInt8} {c : UInt8} (h : c ≠ '_'.toUInt8) :
    WellFormed (before ++ [c])
      ↔ WellFormed before ∧ (spelling before).length < 32 ∧ Describes c := by
  rw [wellFormed_iff, wellFormed_iff, spelling_concat before h, List.forall_mem_cons,
    List.length_cons]
  constructor
  · rintro ⟨⟨hc, hbefore⟩, hlength⟩
    exact ⟨⟨hbefore, Nat.le_of_succ_le hlength⟩, hlength, hc⟩
  · rintro ⟨⟨hbefore, -⟩, hroom, hc⟩
    exact ⟨⟨hc, hbefore⟩, hroom⟩

/-- Every text is well formed, or has a first byte that offends. -/
theorem wellFormed_or_offends (bytes : List UInt8) :
    WellFormed bytes ∨ ∃ before c after report, bytes = before ++ c :: after
      ∧ WellFormed before ∧ Offends before c report := by
  induction bytes using List.reverseRecOn with
  | nil => exact .inl wellFormed_nil
  | append_singleton before c ih =>
      obtain hbefore | ⟨first, offender, after, report, rfl, hfirst, hoffends⟩ := ih
      · by_cases hseparates : c = '_'.toUInt8
        · subst hseparates
          exact .inl (wellFormed_concat_separator.mpr hbefore)
        · obtain hfull | hroom := Nat.eq_or_lt_of_le hbefore.length_le
          · exact .inr ⟨before, c, [], _, rfl, hbefore, hseparates, .inl ⟨hfull, rfl⟩⟩
          · by_cases hc : Describes c
            · exact .inl ((wellFormed_concat hseparates).mpr ⟨hbefore, hroom, hc⟩)
            · exact .inr ⟨before, c, [], _, rfl, hbefore, hseparates, .inr ⟨hroom, hc, rfl⟩⟩
      · have htext : first ++ offender :: after ++ [c] = first ++ offender :: (after ++ [c]) :=
          List.append_assoc _ _ _
        exact .inr ⟨first, offender, after ++ [c], report, htext, hfirst, hoffends⟩

/-! ## Bits that are spelled -/

/-- The bits of the word stand where the marked characters stand. -/
def Marks (marked : UInt8 → Prop) (characters : List UInt8) (word : UInt32) : Prop :=
  ∀ n, bit word n = true ↔ ∃ c, characters[n]? = some c ∧ marked c

section Marks

variable {marked : UInt8 → Prop} {characters : List UInt8} {word : UInt32}

theorem marks_nil : Marks marked [] 0 := by
  intro n
  rw [bit_zero]
  constructor
  · intro h
    cases h
  · rintro ⟨_, h, -⟩
    cases h

/-- Below the limit no bit is lost on the way up. -/
theorem Marks.bit_succ (h : Marks marked characters word) (hroom : characters.length < 32)
    (n : Nat) : bit (word <<< 1) (n + 1) = bit word n := by
  rw [bit_shiftLeft_one, decide_eq_true (Nat.le_add_left 1 n), Bool.true_and, Nat.add_sub_cancel]
  cases hbit : bit word n with
  | false => exact Bool.and_false _
  | true =>
      obtain ⟨c, hc, -⟩ := (h n).mp hbit
      obtain ⟨hn, -⟩ := List.getElem?_eq_some_iff.mp hc
      rw [decide_eq_true (by omega), Bool.true_and]

/-- A character that is not marked leaves bit 0 empty. -/
theorem Marks.skip (h : Marks marked characters word) (hroom : characters.length < 32) {c : UInt8}
    (hc : ¬ marked c) : Marks marked (c :: characters) (word <<< 1) := by
  intro n
  cases n with
  | zero => simp [bit_shiftLeft_one, hc]
  | succ n => rw [h.bit_succ hroom, h n, List.getElem?_cons_succ]

/-- One that is marked sets it. -/
theorem Marks.mark (h : Marks marked characters word) (hroom : characters.length < 32) {c : UInt8}
    (hc : marked c) : Marks marked (c :: characters) (word <<< 1 ||| 1) := by
  intro n
  cases n with
  | zero => simp [bit_or, bit_one, hc]
  | succ n =>
      rw [bit_or, bit_one, decide_eq_false (Nat.succ_ne_zero n), Bool.or_false, h.bit_succ hroom,
        h n, List.getElem?_cons_succ]

end Marks

/-- The pattern constrains the bits whose character is `0` or `1`, and wants those set whose
    character is `1`. -/
structure Spells (characters : List UInt8) (pattern : BitPattern) : Prop where
  mask : Marks (fun c => c = '0'.toUInt8 ∨ c = '1'.toUInt8) characters pattern.mask
  value : Marks (· = '1'.toUInt8) characters pattern.value

variable {characters : List UInt8} {pattern : BitPattern}

/-- The bytes that extend a pattern are those that describe a bit. -/
theorem extend_eq_none_iff {c : UInt8} : pattern.extend c = none ↔ ¬ Describes c := by
  simp only [extend, Describes]
  split_ifs <;> simp_all

/-- With room for a bit, a character more is spelled. -/
theorem Spells.extend (h : Spells characters pattern) (hroom : characters.length < 32)
    {c : UInt8} {wider : BitPattern} (hextend : pattern.extend c = some wider) :
    Spells (c :: characters) wider := by
  simp only [BitPattern.extend] at hextend
  split_ifs at hextend with hzero hone hfree
  · obtain rfl := Option.some.inj hextend
    subst hzero
    exact ⟨h.mask.mark hroom (by decide), h.value.skip hroom (by decide)⟩
  · obtain rfl := Option.some.inj hextend
    subst hone
    exact ⟨h.mask.mark hroom (by decide), h.value.mark hroom rfl⟩
  · obtain rfl := Option.some.inj hextend
    subst hfree
    exact ⟨h.mask.skip hroom (by decide), h.value.skip hroom (by decide)⟩

/-! ## Reading -/

/-- Reading goes on where it has got to. -/
theorem readFrom_append (before rest : List UInt8) (bits : Nat) (known : BitPattern) :
    readFrom bits known (before ++ rest)
      = (readFrom bits known before).bind
          (readFrom (bits + (before.filter (· ≠ '_'.toUInt8)).length) · rest) := by
  induction before generalizing bits known with
  | nil => rfl
  | cons c before ih =>
      simp only [List.cons_append, readFrom]
      by_cases hseparates : c = '_'.toUInt8
      · rw [if_pos hseparates, if_pos hseparates, ih,
          List.filter_cons_of_neg (by simpa using hseparates)]
      · rw [if_neg hseparates, if_neg hseparates,
          List.filter_cons_of_pos (by simpa using hseparates), List.length_cons]
        split_ifs
        · rfl
        · cases known.extend c with
          | none => rfl
          | some wider =>
              show readFrom (bits + 1) wider (before ++ rest) = _
              rw [ih, Nat.add_right_comm, Nat.add_assoc]

/-- After a text that has been read. -/
theorem ofBytes_append {before : List UInt8} (h : ofBytes before = .ok pattern)
    (rest : List UInt8) :
    ofBytes (before ++ rest) = readFrom (spelling before).length pattern rest := by
  rw [ofBytes, readFrom_append, ← ofBytes, h, spelling, List.length_reverse, Nat.zero_add]
  rfl

/-- Well-formed texts are read, to what they spell. -/
theorem ofBytes_of_wellFormed {bytes : List UInt8} (h : WellFormed bytes) :
    ∃ pattern, ofBytes bytes = .ok pattern ∧ Spells (spelling bytes) pattern := by
  induction bytes using List.reverseRecOn with
  | nil => exact ⟨⟨0, 0⟩, rfl, marks_nil, marks_nil⟩
  | append_singleton before c ih =>
      by_cases hseparates : c = '_'.toUInt8
      · subst hseparates
        obtain ⟨pattern, hread, hspells⟩ := ih (wellFormed_concat_separator.mp h)
        rw [ofBytes_append hread, spelling_concat_separator]
        exact ⟨pattern, rfl, hspells⟩
      · obtain ⟨hbefore, hroom, hc⟩ := (wellFormed_concat hseparates).mp h
        obtain ⟨pattern, hread, hspells⟩ := ih hbefore
        cases hextend : pattern.extend c with
        | none => exact absurd hc (extend_eq_none_iff.mp hextend)
        | some wider =>
            refine ⟨wider, ?_, ?_⟩
            · rw [ofBytes_append hread, readFrom, if_neg hseparates,
                if_neg (Nat.not_le_of_lt hroom), hextend]
              rfl
            · rw [spelling_concat before hseparates]
              exact hspells.extend hroom hextend

/-- The first byte that offends ends the reading with its report. -/
theorem ofBytes_of_offends {before : List UInt8} {c : UInt8} {report : String}
    (hbefore : WellFormed before) (hoffends : Offends before c report) (after : List UInt8) :
    ∃ problem, ofBytes (before ++ c :: after) = .error problem ∧ problem.message = report := by
  obtain ⟨pattern, hread, -⟩ := ofBytes_of_wellFormed hbefore
  obtain ⟨hseparates, ⟨hfull, rfl⟩ | ⟨hroom, hc, rfl⟩⟩ := hoffends
  · refine ⟨.tooLong, ?_, rfl⟩
    rw [ofBytes_append hread, readFrom, if_neg hseparates, if_pos (Nat.le_of_eq hfull.symm)]
  · refine ⟨.strangeCharacter, ?_, rfl⟩
    rw [ofBytes_append hread, readFrom, if_neg hseparates, if_neg (Nat.not_le_of_lt hroom),
      extend_eq_none_iff.mpr hc]

/-- The texts that are read are the well-formed ones. -/
theorem wellFormed_of_ofBytes {bytes : List UInt8} (h : ofBytes bytes = .ok pattern) :
    WellFormed bytes := by
  obtain hwell | ⟨before, c, after, report, rfl, hbefore, hoffends⟩ := wellFormed_or_offends bytes
  · exact hwell
  · obtain ⟨problem, herror, -⟩ := ofBytes_of_offends hbefore hoffends after
    rw [herror] at h
    cases h

/-- What has been read spells its text. -/
theorem spells_of_ofBytes {bytes : List UInt8} (h : ofBytes bytes = .ok pattern) :
    Spells (spelling bytes) pattern := by
  obtain ⟨other, hread, hspells⟩ := ofBytes_of_wellFormed (wellFormed_of_ofBytes h)
  obtain rfl := Except.ok.inj (hread.symm.trans h)
  exact hspells

theorem Malformed.message_injective : Function.Injective Malformed.message := by
  intro problem other
  cases problem <;> cases other <;> decide

/-- A text is refused for its first byte that offends. -/
theorem ofBytes_eq_error_iff {bytes : List UInt8} {problem : Malformed} :
    ofBytes bytes = .error problem ↔ ∃ before c after, bytes = before ++ c :: after
      ∧ WellFormed before ∧ Offends before c problem.message := by
  constructor
  · intro h
    obtain hwell | ⟨before, c, after, report, rfl, hbefore, hoffends⟩ := wellFormed_or_offends bytes
    · obtain ⟨pattern, hread, -⟩ := ofBytes_of_wellFormed hwell
      rw [hread] at h
      cases h
    · obtain ⟨other, herror, rfl⟩ := ofBytes_of_offends hbefore hoffends after
      obtain rfl := Except.error.inj (herror.symm.trans h)
      exact ⟨before, c, after, rfl, hbefore, hoffends⟩
  · rintro ⟨before, c, after, rfl, hbefore, hoffends⟩
    obtain ⟨other, herror, hmessage⟩ := ofBytes_of_offends hbefore hoffends after
    rw [herror, Malformed.message_injective hmessage]

/-! ## Accepting -/

/-- Fields are accepted bit by bit. -/
theorem accepts_iff {word : UInt32} :
    pattern.accepts word = true
      ↔ ∀ n < 32, (bit word n && bit pattern.mask n) = bit pattern.value n := by
  rw [accepts, beq_iff_eq]
  constructor
  · intro h n _
    rw [← bit_and, h]
  · intro h
    refine eq_of_bits ?_
    intro n hn
    rw [bit_and, h n hn]

/-- A field fits when each bit is as its character says. -/
theorem Spells.accepts_iff (h : Spells characters pattern) {word : UInt32} :
    pattern.accepts word = true ↔ ∀ n c, characters[n]? = some c →
      (c = '0'.toUInt8 → bit word n = false) ∧ (c = '1'.toUInt8 → bit word n = true) := by
  rw [BitPattern.accepts_iff]
  constructor
  · intro haccepts n c hc
    constructor
    · rintro rfl
      have hmask : bit pattern.mask n = true := (h.mask n).mpr ⟨_, hc, .inl rfl⟩
      have hvalue : bit pattern.value n = false := by
        rw [← Bool.not_eq_true, h.value n, hc]
        decide
      have hn := haccepts n (lt_of_bit hmask)
      rw [hmask, hvalue, Bool.and_true] at hn
      exact hn
    · rintro rfl
      have hvalue : bit pattern.value n = true := (h.value n).mpr ⟨_, hc, rfl⟩
      have hn := haccepts n (lt_of_bit hvalue)
      rw [hvalue, Bool.and_eq_true] at hn
      exact hn.1
  · intro hcharacters n _
    rw [Bool.eq_iff_iff, Bool.and_eq_true, h.mask n, h.value n]
    constructor
    · rintro ⟨hword, c, hc, rfl | rfl⟩
      · rw [(hcharacters n _ hc).1 rfl] at hword
        cases hword
      · exact ⟨_, hc, rfl⟩
    · rintro ⟨c, hc, rfl⟩
      exact ⟨(hcharacters n _ hc).2 rfl, _, hc, .inr rfl⟩

/-- Nothing is asked of bits that are free. -/
def Canonical (pattern : BitPattern) : Prop :=
  pattern.value &&& ~~~pattern.mask = 0

theorem Canonical.value_of_free (h : Canonical pattern) {n : Nat}
    (hfree : bit pattern.mask n = false) : bit pattern.value n = false := by
  have hbit := congrArg (bit · n) h
  cases hvalue : bit pattern.value n with
  | false => rfl
  | true =>
      rw [bit_and, bit_not _ (lt_of_bit hvalue), hfree, hvalue, bit_zero] at hbit
      cases hbit

theorem Spells.canonical (h : Spells characters pattern) : Canonical pattern := by
  refine eq_of_bits ?_
  intro n hn
  rw [bit_and, bit_not _ hn, bit_zero]
  cases hvalue : bit pattern.value n with
  | false => rfl
  | true =>
      obtain ⟨c, hc, hone⟩ := (h.value n).mp hvalue
      rw [(h.mask n).mpr ⟨c, hc, .inr hone⟩]
      rfl

/-- A pattern accepts what it asks for. -/
theorem Canonical.accepts_value (h : Canonical pattern) :
    pattern.accepts pattern.value = true := by
  rw [accepts_iff]
  intro n _
  cases hn : bit pattern.mask n with
  | true => exact Bool.and_true _
  | false => rw [h.value_of_free hn, Bool.false_and]

/-- It does so with every free bit set, too. -/
theorem Canonical.accepts_filled (h : Canonical pattern) :
    pattern.accepts (pattern.value ||| ~~~pattern.mask) = true := by
  rw [accepts_iff]
  intro n hbelow
  rw [bit_or, bit_not _ hbelow]
  cases hn : bit pattern.mask n with
  | true => rw [Bool.not_true, Bool.or_false, Bool.and_true]
  | false => rw [h.value_of_free hn, Bool.and_false]

/-- A pattern whose fields another accepts leaves no bit free that the other constrains:
    with that bit set and without it, the same field is accepted. -/
theorem bit_mask_of_accepts {other : BitPattern} (hpattern : Canonical pattern)
    (h : ∀ word, pattern.accepts word = true → other.accepts word = true) {n : Nat}
    (hn : bit other.mask n = true) : bit pattern.mask n = true := by
  by_contra hfree
  rw [Bool.not_eq_true] at hfree
  have hbelow := lt_of_bit hn
  have hunset := accepts_iff.mp (h _ hpattern.accepts_value) n hbelow
  have hset := accepts_iff.mp (h _ hpattern.accepts_filled) n hbelow
  rw [hpattern.value_of_free hfree, Bool.false_and] at hunset
  rw [← hunset, hn, Bool.and_true, bit_or, bit_not _ hbelow, hfree, Bool.not_false,
    Bool.or_true] at hset
  cases hset

/-- Patterns are equal that accept the same fields. -/
theorem eq_iff_accepts {other : BitPattern} (hpattern : Canonical pattern)
    (hother : Canonical other) :
    pattern = other ↔ ∀ word, pattern.accepts word = other.accepts word := by
  constructor
  · rintro rfl word
    rfl
  · intro h
    have hmask : pattern.mask = other.mask := by
      refine eq_of_bits ?_
      intro n _
      rw [Bool.eq_iff_iff]
      constructor
      · exact bit_mask_of_accepts hother fun word haccepts => (h word).trans haccepts
      · exact bit_mask_of_accepts hpattern fun word haccepts => (h word).symm.trans haccepts
    have hvalue : pattern.value = other.value := by
      have hown : pattern.value &&& pattern.mask = pattern.value :=
        beq_iff_eq.mp hpattern.accepts_value
      have hothers : pattern.value &&& other.mask = other.value :=
        beq_iff_eq.mp ((h pattern.value).symm.trans hpattern.accepts_value)
      rw [← hown, hmask, hothers]
    cases pattern
    cases other
    cases hmask
    cases hvalue
    rfl

/-- A text is a pattern when it consists of `0`, `1`, `x` and `_` and describes 32 bits at
    most, and is refused otherwise, for its first byte that offends.  The pattern accepts
    the fields of which each bit is as its character says, asks nothing of free bits, and is
    equal to those patterns that accept the same fields. -/
theorem means_what_it_spells (bytes : List UInt8) :
    ((∃ pattern, ofBytes bytes = .ok pattern) ↔ WellFormed bytes)
      ∧ (∀ problem, ofBytes bytes = .error problem ↔
          ∃ before c after, bytes = before ++ c :: after ∧ WellFormed before
            ∧ Offends before c problem.message)
      ∧ ∀ pattern, ofBytes bytes = .ok pattern →
          (∀ word, pattern.accepts word = true ↔ ∀ n c, (spelling bytes)[n]? = some c →
              (c = '0'.toUInt8 → bit word n = false) ∧ (c = '1'.toUInt8 → bit word n = true))
            ∧ pattern.value &&& ~~~pattern.mask = 0
            ∧ ∀ others other, ofBytes others = .ok other →
                (pattern = other ↔ ∀ word, pattern.accepts word = other.accepts word) := by
  refine ⟨⟨?_, ?_⟩, fun _ => ofBytes_eq_error_iff, ?_⟩
  · rintro ⟨pattern, h⟩
    exact wellFormed_of_ofBytes h
  · intro h
    obtain ⟨pattern, hread, -⟩ := ofBytes_of_wellFormed h
    exact ⟨pattern, hread⟩
  · intro pattern h
    have hspells := spells_of_ofBytes h
    refine ⟨fun _ => hspells.accepts_iff, hspells.canonical, ?_⟩
    intro others other hother
    exact eq_iff_accepts hspells.canonical (spells_of_ofBytes hother).canonical

/-- The text `1_0x` accepts a field by its bits 2 and 1, and not the fields that `1xx`
    accepts. -/
theorem means_what_it_spells_separated :
    ((⟨6, 4⟩ : BitPattern).accepts 5 = true ↔ ∀ n c,
        ([120, 48, 49] : List UInt8)[n]? = some c →
          (c = '0'.toUInt8 → bit 5 n = false) ∧ (c = '1'.toUInt8 → bit 5 n = true))
      ∧ ¬ ∀ word, (⟨6, 4⟩ : BitPattern).accepts word = (⟨4, 4⟩ : BitPattern).accepts word := by
  have hread : ofBytes [49, 95, 48, 120] = .ok ⟨6, 4⟩ := by decide
  have hother : ofBytes [49, 120, 120] = .ok ⟨4, 4⟩ := by decide
  obtain ⟨haccepts, -, hequal⟩ := (means_what_it_spells [49, 95, 48, 120]).2.2 ⟨6, 4⟩ hread
  refine ⟨haccepts 5, ?_⟩
  rw [← hequal [49, 120, 120] ⟨4, 4⟩ hother]
  decide

end BitPattern

end Microprocessor
