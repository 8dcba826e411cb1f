import Mathlib.Data.List.Forall2
import Mathlib.Data.Nat.Digits.Defs
import Microprocessor.Text.Numeral
import Microprocessor.Word.Hexadecimal

/-! # What numerals stand for

    The digits of a numeral stand for a number by their places, the last of them for
    itself.  Zeros in front change nothing, and letters may be small or capital.

      * `Numeral.Denotes` says what digits stand for, and `Numeral.IsNumeral` puts at
        most one plus sign before them;
      * `Numeral.read_eq_ok_iff`: reading below a limit accepts the numerals of the
        numbers below it, and nothing else.  What has been read never gets smaller, so
        that to stop at the limit is to stop at the numbers from there on;
      * `Numeral.denotes_toDigits` is the way back. -/

namespace Microprocessor.Numeral

/-! ## Digits -/

/-- The character is the digit of a number in a radix, small or capital. -/
def IsDigit (radix : Nat) (c : Char) (digit : Nat) : Prop :=
  digit < radix ∧ (c = Nat.digitChar digit ∨ c = (Nat.digitChar digit).toUpper)

/-- The characters are the digits of a number, of which the last is the lowest. -/
def Denotes (radix : Nat) (text : List Char) (n : Nat) : Prop :=
  ∃ digits, List.Forall₂ (IsDigit radix) text digits ∧ n = Nat.ofDigits radix digits.reverse

/-- A number is written as one or more digits, after at most one plus sign. -/
inductive IsNumeral (radix : Nat) : List Char → Nat → Prop
  | plain {text : List Char} {n : Nat} (hdigits : text ≠ []) (h : Denotes radix text n) :
      IsNumeral radix text n
  | signed {text : List Char} {n : Nat} (hdigits : text ≠ []) (h : Denotes radix text n) :
      IsNumeral radix ('+' :: text) n

/-- The digits up to nine by their codes, and those beyond, small and capital. -/
theorem digitValue?_eq_some_iff {c : Char} {digit : Nat} (hdigit : digit < 16) :
    digitValue? c = some digit ↔ c = Nat.digitChar digit ∨ c = (Nat.digitChar digit).toUpper := by
  constructor
  · intro h
    have hcodes : ∀ digit < 16,
        (Nat.digitChar digit).toNat = (if digit < 10 then 48 + digit else 87 + digit)
          ∧ (Nat.digitChar digit).toUpper.toNat
            = (if digit < 10 then 48 + digit else 55 + digit) := by
      decide
    obtain ⟨hsmall, hcapital⟩ := hcodes digit hdigit
    rw [← Char.toNat_inj, ← Char.toNat_inj, hsmall, hcapital]
    rw [digitValue?] at h
    split at h
    case isTrue hrange =>
      obtain ⟨hlow, hhigh⟩ : 48 ≤ c.toNat ∧ c.toNat ≤ 57 := hrange
      have hvalue : c.toNat - 48 = digit := Option.some.inj h
      left
      rw [if_pos (by omega)]
      omega
    case isFalse =>
      split at h
      case isTrue hrange =>
        obtain ⟨hlow, -⟩ : 97 ≤ c.toNat ∧ c.toNat ≤ 122 := hrange
        have hvalue : c.toNat - 97 + 10 = digit := Option.some.inj h
        left
        rw [if_neg (by omega)]
        omega
      case isFalse =>
        split at h
        case isTrue hrange =>
          obtain ⟨hlow, -⟩ : 65 ≤ c.toNat ∧ c.toNat ≤ 90 := hrange
          have hvalue : c.toNat - 65 + 10 = digit := Option.some.inj h
          right
          rw [if_neg (by omega)]
          omega
        case isFalse => cases h
  · have hvalues : ∀ digit < 16, digitValue? (Nat.digitChar digit) = some digit
        ∧ digitValue? (Nat.digitChar digit).toUpper = some digit := by
      decide
    rintro (rfl | rfl)
    · exact (hvalues digit hdigit).1
    · exact (hvalues digit hdigit).2

/-- The digits of a radix are told by their values. -/
theorem digit?_eq_some_iff {radix : Nat} (hradix : radix ≤ 16) {c : Char} {digit : Nat} :
    digit? radix c = some digit ↔ IsDigit radix c digit := by
  rw [digit?, Option.filter_eq_some_iff, decide_eq_true_iff, IsDigit, and_comm]
  refine and_congr_right ?_
  intro hdigit
  exact digitValue?_eq_some_iff (Nat.lt_of_lt_of_le hdigit hradix)

/-- A character is the digit of one number at most. -/
theorem IsDigit.unique {radix digit other : Nat} {c : Char} (hradix : radix ≤ 16)
    (h : IsDigit radix c digit) (hother : IsDigit radix c other) : digit = other := by
  rw [← digit?_eq_some_iff hradix] at h hother
  exact Option.some.inj (h.symm.trans hother)

/-- A plus sign is no digit. -/
theorem not_isDigit_plus {radix : Nat} (hradix : radix ≤ 16) (digit : Nat) :
    ¬ IsDigit radix '+' digit := by
  intro h
  have hread := (digit?_eq_some_iff hradix).mpr h
  cases hread

/-! ## Reading -/

/-- Digits that follow a number are read if all are digits, and what they stand for
    together with that number stays below the limit. -/
theorem readDigits_eq_ok_iff {radix : Nat} (hpos : 0 < radix) (hradix : radix ≤ 16)
    {limit n : Nat} {text : List Char} :
    ∀ {value : Nat}, value < limit →
      (readDigits radix limit value text = .ok n
        ↔ ∃ digits, List.Forall₂ (IsDigit radix) text digits
          ∧ n = value * radix ^ digits.length + Nat.ofDigits radix digits.reverse ∧ n < limit) := by
  induction text with
  | nil =>
      intro value hvalue
      simp only [readDigits, Except.ok.injEq]
      constructor
      · rintro rfl
        exact ⟨[], .nil, by simp, hvalue⟩
      · rintro ⟨_, hnil, rfl, -⟩
        cases hnil
        simp
  | cons c rest ih =>
      intro value hvalue
      simp only [readDigits, List.forall₂_cons_left_iff]
      cases hdigit : digit? radix c with
      | none =>
          constructor
          · intro h
            cases h
          · rintro ⟨_, ⟨digit, _, hisDigit, -, -⟩, -, -⟩
            rw [(digit?_eq_some_iff hradix).mpr hisDigit] at hdigit
            cases hdigit
      | some digit =>
          have hisDigit := (digit?_eq_some_iff hradix).mp hdigit
          -- Counted from the number with one digit more, there is one place less.
          have hplace : ∀ digits : List Nat,
              value * radix ^ (digit :: digits).length
                  + Nat.ofDigits radix (digit :: digits).reverse
                = (value * radix + digit) * radix ^ digits.length
                  + Nat.ofDigits radix digits.reverse := by
            intro digits
            rw [Nat.ofDigits_reverse_cons, List.length_cons, Nat.pow_succ]
            ring
          show (if limit ≤ value * radix + digit then _ else _) = _ ↔ _
          by_cases hlimit : limit ≤ value * radix + digit
          · rw [if_pos hlimit]
            constructor
            · intro h
              cases h
            · rintro ⟨_, ⟨other, digits, hother, -, rfl⟩, rfl, hbelow⟩
              obtain rfl := hother.unique hradix hisDigit
              rw [hplace] at hbelow
              have hgrows : value * radix + other
                  ≤ (value * radix + other) * radix ^ digits.length :=
                Nat.le_mul_of_pos_right _ (Nat.pow_pos hpos)
              omega
          · rw [if_neg hlimit, ih (Nat.lt_of_not_le hlimit)]
            constructor
            · rintro ⟨digits, hdigits, rfl, hbelow⟩
              exact ⟨digit :: digits, ⟨digit, digits, hisDigit, hdigits, rfl⟩, (hplace digits).symm,
                hbelow⟩
            · rintro ⟨_, ⟨other, digits, hother, hdigits, rfl⟩, rfl, hbelow⟩
              obtain rfl := hother.unique hradix hisDigit
              exact ⟨digits, hdigits, hplace digits, hbelow⟩

/-- From nothing, the digits of a number below the limit are read. -/
theorem readDigits_zero_eq_ok_iff {radix : Nat} (hpos : 0 < radix) (hradix : radix ≤ 16)
    {limit n : Nat} (hlimit : 0 < limit) {text : List Char} :
    readDigits radix limit 0 text = .ok n ↔ Denotes radix text n ∧ n < limit := by
  rw [readDigits_eq_ok_iff hpos hradix hlimit]
  simp only [Nat.zero_mul, Nat.zero_add, Denotes]
  constructor
  · rintro ⟨digits, hdigits, hvalue, hbelow⟩
    exact ⟨⟨digits, hdigits, hvalue⟩, hbelow⟩
  · rintro ⟨⟨digits, hdigits, hvalue⟩, hbelow⟩
    exact ⟨digits, hdigits, hvalue, hbelow⟩

/-- The numerals of numbers below the limit are read, and nothing else. -/
theorem read_eq_ok_iff {radix : Nat} (hpos : 0 < radix) (hradix : radix ≤ 16)
    {limit n : Nat} (hlimit : 0 < limit) {text : List Char} :
    read radix limit text = .ok n ↔ IsNumeral radix text n ∧ n < limit := by
  have hplus : ∀ {rest : List Char}, IsNumeral radix ('+' :: rest) n
      ↔ rest ≠ [] ∧ Denotes radix rest n := by
    intro rest
    constructor
    · intro h
      cases h with
      | plain _ h =>
          obtain ⟨_, hdigits, -⟩ := h
          cases hdigits with
          | cons hdigit _ => exact absurd hdigit (not_isDigit_plus hradix _)
      | signed hdigits h => exact ⟨hdigits, h⟩
    · rintro ⟨hdigits, h⟩
      exact .signed hdigits h
  unfold read
  split
  case h_1 =>
    constructor
    · intro h
      cases h
    · rintro ⟨h, -⟩
      cases h with
      | plain hdigits _ => exact absurd rfl hdigits
  case h_2 =>
    rw [hplus]
    constructor
    · intro h
      cases h
    · rintro ⟨⟨hdigits, -⟩, -⟩
      exact absurd rfl hdigits
  case h_3 rest hrest =>
    rw [hplus, readDigits_zero_eq_ok_iff hpos hradix hlimit]
    have hdigits : rest ≠ [] := hrest
    rw [and_iff_right hdigits]
  case h_4 hempty _ hsign =>
    rw [readDigits_zero_eq_ok_iff hpos hradix hlimit]
    refine and_congr_left fun _ => ⟨.plain hempty, ?_⟩
    intro h
    cases h with
    | plain _ h => exact h
    | signed _ _ => exact absurd rfl (hsign _)

/-! ## Writing -/

/-- A digit more. -/
theorem Denotes.concat {radix n digit : Nat} {text : List Char} {c : Char}
    (h : Denotes radix text n) (hc : IsDigit radix c digit) :
    Denotes radix (text ++ [c]) (n * radix + digit) := by
  obtain ⟨digits, hdigits, rfl⟩ := h
  refine ⟨digits ++ [digit], List.rel_append hdigits (.cons hc .nil), ?_⟩
  rw [List.reverse_append, List.reverse_singleton, List.singleton_append, Nat.ofDigits_cons]
  ring

/-- A zero in front. -/
theorem Denotes.zero_cons {radix n : Nat} (hpos : 0 < radix) {text : List Char}
    (h : Denotes radix text n) : Denotes radix ('0' :: text) n := by
  obtain ⟨digits, hdigits, rfl⟩ := h
  refine ⟨0 :: digits, .cons ⟨hpos, .inl rfl⟩ hdigits, ?_⟩
  rw [Nat.ofDigits_reverse_cons, Nat.mul_zero, Nat.add_zero]

/-- The digits of a number stand for it, small and capital. -/
theorem denotes_toDigits {radix : Nat} (hradix : 1 < radix) {shape : Char → Char}
    (hshape : ∀ digit < radix, IsDigit radix (shape (Nat.digitChar digit)) digit) (n : Nat) :
    Denotes radix ((Nat.toDigits radix n).map shape) n := by
  induction n using Nat.strongRecOn with
  | _ n ih =>
      rw [Nat.toDigits_eq_if hradix]
      split
      case isTrue hsmall =>
        exact ⟨[n], .cons (hshape n hsmall) .nil, Nat.ofDigits_singleton.symm⟩
      case isFalse hlarge =>
        have hhead := ih (n / radix) (Nat.div_lt_self (by omega) hradix)
        have hlast := hshape (n % radix) (Nat.mod_lt n (by omega))
        have hboth := hhead.concat hlast
        rw [Nat.div_add_mod'] at hboth
        rw [List.map_append]
        exact hboth

end Microprocessor.Numeral
