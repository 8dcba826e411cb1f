import Microprocessor.Proofs.Text.Numeral
import Microprocessor.Terminal.Argument

/-! # Numbers as values of options

    The value of a numeric option is a decimal numeral, or a hexadecimal one after `0x`
    or `0X`.  It is read if the number is below 2^64 and fits what the option asks for,
    so that readers of different widths agree on the numbers that both can give.

      * `Terminal.IsNumber` is the grammar, with the number that a text stands for;
      * `Terminal.readNumber_eq_ok_iff` is the one reader behind all numeric options;
      * `Terminal.isNumber_toString` and `Terminal.isNumber_markedHex` say that shown
        numbers are of the grammar. -/

namespace Microprocessor.Terminal

open Numeral

/-! ## The grammar -/

/-- What is written stands for a number: in decimal, or in hexadecimal after a mark. -/
inductive IsNumber : List Char → Nat → Prop
  | decimal {text : List Char} {n : Nat} (h : IsNumeral 10 text n) : IsNumber text n
  | hexadecimal {mark : Char} {text : List Char} {n : Nat} (hmark : mark = 'x' ∨ mark = 'X')
      (h : IsNumeral 16 text n) : IsNumber ('0' :: mark :: text) n

/-- A mark is no decimal digit. -/
theorem not_isNumeral_marked {mark : Char} (hmark : mark = 'x' ∨ mark = 'X') {text : List Char}
    {n : Nat} : ¬ IsNumeral 10 ('0' :: mark :: text) n := by
  intro h
  cases h with
  | plain _ h =>
      obtain ⟨_, hdigits, -⟩ := h
      cases hdigits with
      | cons _ hrest =>
          cases hrest with
          | cons hdigit _ =>
              have hread := (digit?_eq_some_iff (by decide)).mpr hdigit
              obtain rfl | rfl := hmark
              · cases hread
              · cases hread

theorem isNumber_marked_iff {mark : Char} (hmark : mark = 'x' ∨ mark = 'X') {text : List Char}
    {n : Nat} : IsNumber ('0' :: mark :: text) n ↔ IsNumeral 16 text n := by
  constructor
  · intro h
    cases h with
    | decimal h => exact absurd h (not_isNumeral_marked hmark)
    | hexadecimal _ h => exact h
  · exact .hexadecimal hmark

/-! ## Reading -/

/-- The digits of an option are read if they are of the grammar and below the bound on all
    numbers. -/
theorem readDigits_eq_ok_iff {text : String} {n : Nat} :
    readDigits text = .ok n ↔ IsNumber text.toList n ∧ n < numberBound := by
  unfold readDigits
  split
  case h_1 digits htext =>
    rw [htext, isNumber_marked_iff (.inl rfl)]
    exact read_eq_ok_iff (by decide) (by decide) (by decide)
  case h_2 digits htext =>
    rw [htext, isNumber_marked_iff (.inr rfl)]
    exact read_eq_ok_iff (by decide) (by decide) (by decide)
  case h_3 hsmall hcapital =>
    rw [read_eq_ok_iff (by decide) (by decide) (by decide)]
    refine and_congr_left fun _ => ⟨.decimal, ?_⟩
    intro h
    generalize text.toList = digits at h hsmall hcapital
    cases h with
    | decimal h => exact h
    | hexadecimal hmark _ =>
        obtain rfl | rfl := hmark
        · exact absurd rfl (hsmall _)
        · exact absurd rfl (hcapital _)

/-- A number below a bound is read if it is written, and is below 2^64 too. -/
theorem readNumber_eq_ok_iff {bound n : Nat} {text : String} :
    readNumber bound text = .ok n
      ↔ IsNumber text.toList n ∧ n < numberBound ∧ n < bound := by
  rw [readNumber, ← and_assoc, ← readDigits_eq_ok_iff]
  cases readDigits text with
  | error cause => simp
  | ok read =>
      simp only [Except.ok.injEq]
      split
      case isTrue hbound =>
        rw [Except.ok.injEq, and_iff_left_of_imp]
        rintro rfl
        exact hbound
      case isFalse hbound =>
        refine ⟨nofun, ?_⟩
        rintro ⟨rfl, hbelow⟩
        exact absurd hbelow hbound

/-- A reader that makes words of the numbers below a bound. -/
theorem map_readNumber_eq_ok_iff {α : Type} {bound : Nat} (hbound : bound ≤ numberBound)
    {word : Nat → α} {value : α → Nat} (hword : ∀ n < bound, value (word n) = n)
    (hvalue : ∀ w, value w < bound) (hinjective : ∀ {v w}, value v = value w ↔ v = w)
    {text : String} {w : α} :
    (readNumber bound text).map word = .ok w ↔ IsNumber text.toList (value w) := by
  have hread : readNumber bound text = .ok (value w) ↔ IsNumber text.toList (value w) := by
    rw [readNumber_eq_ok_iff]
    exact and_iff_left ⟨Nat.lt_of_lt_of_le (hvalue w) hbound, hvalue w⟩
  rw [← hread]
  cases hnumber : readNumber bound text with
  | error failure => simp [Except.map]
  | ok read =>
      obtain ⟨-, -, hbelow⟩ := readNumber_eq_ok_iff.mp hnumber
      show Except.ok (word read) = Except.ok w ↔ _
      rw [Except.ok.injEq, Except.ok.injEq, ← hinjective, hword read hbelow]

theorem readWord_eq_ok_iff {text : String} {n : UInt16} :
    readWord text = .ok n ↔ IsNumber text.toList n.toNat :=
  map_readNumber_eq_ok_iff (by decide) (fun _ => UInt16.toNat_ofNat_of_lt') UInt16.toNat_lt
    UInt16.toNat_inj

theorem readDouble_eq_ok_iff {text : String} {n : UInt32} :
    readDouble text = .ok n ↔ IsNumber text.toList n.toNat :=
  map_readNumber_eq_ok_iff (by decide) (fun _ => UInt32.toNat_ofNat_of_lt') UInt32.toNat_lt
    UInt32.toNat_inj

theorem readCount_eq_ok_iff {text : String} {n : Nat} :
    readCount text = .ok n ↔ IsNumber text.toList n ∧ n < numberBound := by
  rw [readCount, readNumber_eq_ok_iff, and_self]

/-- A size of memory is a number of 32 bits that is no larger than the address space. -/
theorem readMemorySize_eq_ok_iff {text : String} {n : Nat} :
    readMemorySize text = .ok n
      ↔ (∃ size, readDouble text = .ok size ∧ size.toNat = n) ∧ n ≤ addressSpace := by
  have hdouble : (∃ size, readDouble text = .ok size ∧ size.toNat = n)
      ↔ readNumber UInt32.size text = .ok n := by
    rw [readNumber_eq_ok_iff]
    constructor
    · rintro ⟨size, hread, rfl⟩
      have hlt := size.toNat_lt
      exact ⟨readDouble_eq_ok_iff.mp hread, Nat.lt_trans hlt (by decide), hlt⟩
    · rintro ⟨hnumber, -, hbelow⟩
      have hvalue := UInt32.toNat_ofNat_of_lt' hbelow
      refine ⟨UInt32.ofNat n, readDouble_eq_ok_iff.mpr ?_, hvalue⟩
      rw [hvalue]
      exact hnumber
  rw [hdouble, readMemorySize]
  cases readNumber UInt32.size text with
  | error failure => simp
  | ok read =>
      simp only [Except.ok.injEq]
      split
      case isTrue hlarge =>
        refine ⟨nofun, ?_⟩
        rintro ⟨rfl, hfits⟩
        exact absurd hlarge (Nat.not_lt_of_le hfits)
      case isFalse hfits =>
        rw [Except.ok.injEq, and_iff_left_of_imp]
        rintro rfl
        exact Nat.le_of_not_lt hfits

/-! ## Writing -/

/-- A number is written by its decimal digits. -/
theorem isNumber_toString (n : Nat) : IsNumber (toString n).toList n := by
  have hdigits : Denotes 10 ((Nat.toDigits 10 n).map id) n :=
    denotes_toDigits (by decide) (fun digit hdigit => ⟨hdigit, .inl rfl⟩) n
  rw [List.map_id] at hdigits
  show IsNumber n.repr.toList n
  rw [Nat.toList_repr]
  exact .decimal (.plain Nat.toDigits_ne_nil hdigits)

theorem toList_marked (digits : String) :
    ("0x" ++ digits).toList = '0' :: 'x' :: digits.toList :=
  String.toList_append

/-- So it is by small hexadecimal digits after the mark. -/
theorem isNumber_toDigits (n : Nat) :
    IsNumber ("0x" ++ String.ofList (Nat.toDigits 16 n)).toList n := by
  have hdigits : Denotes 16 ((Nat.toDigits 16 n).map id) n :=
    denotes_toDigits (by decide) (fun digit hdigit => ⟨hdigit, .inl rfl⟩) n
  rw [List.map_id] at hdigits
  rw [toList_marked, String.toList_ofList]
  exact .hexadecimal (.inl rfl) (.plain Nat.toDigits_ne_nil hdigits)

theorem toList_padded (least : Nat) (digits : String) :
    (padded least digits).toList
      = List.replicate (least - digits.length) '0' ++ digits.toList := by
  have hzeros : ∀ count, ("".pushn '0' count).toList = List.replicate count '0' := by
    intro count
    rw [String.pushn_eq_repeat_push]
    induction count with
    | zero => rfl
    | succ count ih =>
        rw [Nat.repeat, String.toList_push, ih, ← List.replicate_succ']
  rw [padded, String.toList_append, hzeros]

/-- So it is by capital ones, with any zeros before them. -/
theorem isNumber_markedHex (least n : Nat) : IsNumber (markedHex least n).toList n := by
  have hdigits : Denotes 16 ((Nat.toDigits 16 n).map Char.toUpper) n :=
    denotes_toDigits (by decide) (fun digit hdigit => ⟨hdigit, .inr rfl⟩) n
  have hzeros : ∀ count, Denotes 16
      (List.replicate count '0' ++ (Nat.toDigits 16 n).map Char.toUpper) n := by
    intro count
    induction count with
    | zero => exact hdigits
    | succ count ih => exact ih.zero_cons (by decide)
  rw [markedHex, hex, toList_marked, toList_padded, String.toList_ofList]
  refine .hexadecimal (.inl rfl) (.plain ?_ (hzeros _))
  simp [Nat.toDigits_ne_nil]

/-- Whatever the text: it is read as a number below a bound exactly if it is of the grammar
    and stands for a number that is below 2^64 and below the bound.  So it is with 16, 32 and
    64 bits; what a narrower reader can give, the wider ones give for the same texts; and a
    size of memory is what is read with 32 bits, up to 2^20.  Numbers that are shown in
    decimal, or in hexadecimal after the mark, are read back. -/
theorem numbers_read_as_written :
    (∀ text bound n, readNumber bound text = .ok n
      ↔ IsNumber text.toList n ∧ n < UInt64.size ∧ n < bound)
    ∧ (∀ text (n : UInt16), readWord text = .ok n ↔ IsNumber text.toList n.toNat)
    ∧ (∀ text (n : UInt32), readDouble text = .ok n ↔ IsNumber text.toList n.toNat)
    ∧ (∀ text n, readCount text = .ok n ↔ IsNumber text.toList n ∧ n < UInt64.size)
    ∧ (∀ text (n : UInt16), (readWord text = .ok n ↔ readDouble text = .ok n.toUInt32)
      ∧ (readWord text = .ok n ↔ readCount text = .ok n.toNat))
    ∧ (∀ text (n : UInt32), readDouble text = .ok n ↔ readCount text = .ok n.toNat)
    ∧ (∀ text n, readMemorySize text = .ok n
      ↔ (∃ size, readDouble text = .ok size ∧ size.toNat = n) ∧ n ≤ Nat.pow 2 20)
    ∧ ∀ n bound, n < UInt64.size → n < bound →
      readNumber bound (toString n) = .ok n
        ∧ readNumber bound ("0x" ++ String.ofList (Nat.toDigits 16 n)) = .ok n
        ∧ ∀ least, readNumber bound (markedHex least n) = .ok n := by
  refine ⟨fun _ _ _ => readNumber_eq_ok_iff, fun _ _ => readWord_eq_ok_iff,
    fun _ _ => readDouble_eq_ok_iff, fun _ _ => readCount_eq_ok_iff, ?_, ?_,
    fun _ _ => readMemorySize_eq_ok_iff, ?_⟩
  · intro text n
    have hbelow : n.toNat < numberBound := Nat.lt_trans n.toNat_lt (by decide)
    rw [readWord_eq_ok_iff, readDouble_eq_ok_iff, readCount_eq_ok_iff, and_iff_left hbelow]
    exact ⟨Iff.rfl, Iff.rfl⟩
  · intro text n
    have hbelow : n.toNat < numberBound := Nat.lt_trans n.toNat_lt (by decide)
    rw [readDouble_eq_ok_iff, readCount_eq_ok_iff, and_iff_left hbelow]
  · intro n bound hbelow hbound
    exact ⟨readNumber_eq_ok_iff.mpr ⟨isNumber_toString n, hbelow, hbound⟩,
      readNumber_eq_ok_iff.mpr ⟨isNumber_toDigits n, hbelow, hbound⟩,
      fun least => readNumber_eq_ok_iff.mpr ⟨isNumber_markedHex least n, hbelow, hbound⟩⟩

/-- A sign may stand after the mark, zeros after the sign, and letters of both kinds after
    them.  The greatest number of 64 bits is read back, and 2^64 is not read. -/
theorem numbers_read_as_written_signed :
    readWord "0X+00fF" = .ok 255
      ∧ readCount "0X+00fF" = .ok 255
      ∧ readCount (toString 18446744073709551615) = .ok 18446744073709551615
      ∧ readCount "18446744073709551616" ≠ .ok 18446744073709551616 := by
  obtain ⟨-, hword, -, hcount, hwiden, -, -, hshown⟩ := numbers_read_as_written
  have hnumber : IsNumber ['0', 'X', '+', '0', '0', 'f', 'F'] 255 := by
    refine .hexadecimal (.inr rfl) (.signed (by decide) ⟨[0, 0, 15, 15], ?_, by decide⟩)
    exact .cons ⟨by decide, .inl rfl⟩ (.cons ⟨by decide, .inl rfl⟩
      (.cons ⟨by decide, .inl rfl⟩ (.cons ⟨by decide, .inr rfl⟩ .nil)))
  have hread := (hword "0X+00fF" 255).mpr hnumber
  refine ⟨hread, (hwiden _ _).2.mp hread, ?_, ?_⟩
  · exact (hshown 18446744073709551615 UInt64.size (by decide) (by decide)).1
  · intro hlarge
    exact absurd ((hcount _ _).mp hlarge).2 (by decide)

end Microprocessor.Terminal
