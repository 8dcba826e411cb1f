import Microprocessor.Text.Numeral
import Microprocessor.Word.Hexadecimal

/-! # Distances in assembly text

    A transfer to a fixed distance is shown with a signed hexadecimal number after
    `$`.  This is how a reader of the text takes the number out of it.

      * `shownDistance?` is the number after the mark;
      * `hexValue?_toDigits` reads back the digits of any number;
      * `shownDistance?_of_toList` is what there is to know of a text to know the
        number that it shows. -/

namespace Microprocessor

/-- The number that hexadecimal digits stand for, if `value` comes before them. -/
def hexValue? (value : Nat) : List Char → Option Nat
  | [] => some value
  | c :: rest =>
    match Numeral.digit? 16 c with
    | some digit => hexValue? (value * 16 + digit) rest
    | none => none

/-- The signed number after the mark in a text, of one digit at least. -/
def shownDistance? (text : String) : Option Int :=
  match text.toList.dropWhile (· ≠ '$') with
  | _ :: '+' :: '0' :: 'x' :: c :: digits => (hexValue? 0 (c :: digits)).map fun n : Nat => (n : Int)
  | _ :: '-' :: '0' :: 'x' :: c :: digits => (hexValue? 0 (c :: digits)).map fun n : Nat => -(n : Int)
  | _ => none

/-! ## Digits -/

/-- The digit of a number below 16 stands for the number in capitals too. -/
theorem digit?_toUpper_digitChar {n : Nat} (h : n < 16) :
    Numeral.digit? 16 (Nat.digitChar n).toUpper = some n := by
  revert n
  decide

theorem hexValue?_append {value : Nat} {first second : List Char} {read : Nat}
    (h : hexValue? value first = some read) :
    hexValue? value (first ++ second) = hexValue? read second := by
  induction first generalizing value with
  | nil =>
      obtain rfl : value = read := Option.some.inj h
      rfl
  | cons c rest ih =>
      rw [List.cons_append, hexValue?]
      rw [hexValue?] at h
      cases hdigit : Numeral.digit? 16 c with
      | none =>
          rw [hdigit] at h
          cases h
      | some digit =>
          rw [hdigit] at h
          exact ih h

/-- The digits of a number stand for it. -/
theorem hexValue?_toDigits (n : Nat) :
    hexValue? 0 ((Nat.toDigits 16 n).map Char.toUpper) = some n := by
  induction n using Nat.strongRecOn with
  | _ n ih =>
      rw [Nat.toDigits_eq_if (by decide)]
      split
      case isTrue hsmall =>
        simp [hexValue?, digit?_toUpper_digitChar hsmall]
      case isFalse hlarge =>
        have hlast : n % 16 < 16 := Nat.mod_lt n (by decide)
        rw [List.map_append, hexValue?_append (ih (n / 16) (by omega))]
        simp [hexValue?, digit?_toUpper_digitChar hlast]
        omega

/-- Without padding, a number is shown by its digits alone. -/
theorem toList_hex_one (n : Nat) : (hex 1 n).toList = (Nat.toDigits 16 n).map Char.toUpper := by
  have hdigits : 0 < (Nat.toDigits 16 n).length := Nat.length_toDigits_pos
  have hzeros : 1 - (String.ofList ((Nat.toDigits 16 n).map Char.toUpper)).length = 0 := by
    rw [String.length_ofList, List.length_map]
    omega
  rw [hex, padded, hzeros, String.toList_append, String.toList_ofList]
  rfl

/-! ## Texts -/

/-- A text in which the mark is followed by a sign and the digits of a number shows that
    number. -/
theorem shownDistance?_of_toList {text : String} {head : List Char} {distance : Int}
    (hhead : '$' ∉ head)
    (h : text.toList = head ++ '$' :: (if distance < 0 then '-' else '+') :: '0' :: 'x'
      :: (hex 1 distance.natAbs).toList) :
    shownDistance? text = some distance := by
  have hdrop : text.toList.dropWhile (· ≠ '$') = '$' :: (if distance < 0 then '-' else '+')
      :: '0' :: 'x' :: (hex 1 distance.natAbs).toList := by
    rw [h, List.dropWhile_append_of_pos]
    · rfl
    · intro c hc
      exact decide_eq_true (ne_of_mem_of_not_mem hc hhead)
  rw [toList_hex_one] at hdrop
  have hvalue := hexValue?_toDigits distance.natAbs
  obtain ⟨c, digits, hcons⟩ : ∃ c digits,
      (Nat.toDigits 16 distance.natAbs).map Char.toUpper = c :: digits := by
    refine List.exists_cons_of_ne_nil ?_
    rw [Ne, List.map_eq_nil_iff]
    exact Nat.toDigits_ne_nil
  rw [hcons] at hdrop hvalue
  by_cases hsign : distance < 0
  · rw [if_pos hsign] at hdrop
    rw [shownDistance?, hdrop]
    show (hexValue? 0 (c :: digits)).map _ = _
    rw [hvalue]
    have hvalue : -(distance.natAbs : Int) = distance := by omega
    exact congrArg some hvalue
  · rw [if_neg hsign] at hdrop
    rw [shownDistance?, hdrop]
    show (hexValue? 0 (c :: digits)).map _ = _
    rw [hvalue]
    have hvalue : (distance.natAbs : Int) = distance := by omega
    exact congrArg some hvalue

end Microprocessor
