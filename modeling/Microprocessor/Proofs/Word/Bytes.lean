import Microprocessor.Word.LittleEndian
import Microprocessor.Word.Width

/-! # The bytes of a word

    A word is its low byte and its high byte, and any two bytes make a word.  A
    double word is its four bytes. -/

namespace Microprocessor

/-- The two bytes of a word, low byte first. -/
def bytesOfWord (word : UInt16) : List UInt8 :=
  [lowByte word, highByte word]

/-- The value of a word made of two bytes. -/
theorem toNat_wordOfBytes (low high : UInt8) :
    (wordOfBytes low high).toNat = 256 * high.toNat + low.toNat := by
  have hlow := low.toNat_lt
  have hhigh := high.toNat_lt
  have hshift : (high.toUInt16 <<< 8).toNat = high.toNat <<< 8 := by
    rw [UInt16.toNat_shiftLeft]
    show (high.toNat <<< 8) % 65536 = _
    rw [Nat.shiftLeft_eq]
    omega
  rw [wordOfBytes, UInt16.toNat_or, hshift, Nat.or_comm]
  show high.toNat <<< 8 ||| low.toNat = _
  rw [← Nat.shiftLeft_add_eq_or_of_lt (show low.toNat < 2 ^ 8 by omega), Nat.shiftLeft_eq]
  omega

/-- The low byte of a word made of two bytes. -/
theorem lowByte_wordOfBytes (low high : UInt8) : lowByte (wordOfBytes low high) = low := by
  have hlow := low.toNat_lt
  apply UInt8.toNat_inj.mp
  rw [lowByte, UInt16.toNat_toUInt8, toNat_wordOfBytes]
  omega

/-- The high byte of a word made of two bytes. -/
theorem highByte_wordOfBytes (low high : UInt8) : highByte (wordOfBytes low high) = high := by
  have hlow := low.toNat_lt
  have hhigh := high.toNat_lt
  apply UInt8.toNat_inj.mp
  rw [highByte, UInt16.toNat_toUInt8, UInt16.toNat_shiftRight, toNat_wordOfBytes]
  show (_ >>> 8) % 2 ^ 8 = _
  rw [Nat.shiftRight_eq_div_pow]
  omega

/-- A word made of two bytes has those bytes. -/
theorem bytesOfWord_wordOfBytes (low high : UInt8) :
    bytesOfWord (wordOfBytes low high) = [low, high] := by
  rw [bytesOfWord, lowByte_wordOfBytes, highByte_wordOfBytes]

/-- A word is made of its two bytes. -/
theorem wordOfBytes_lowByte_highByte (word : UInt16) :
    wordOfBytes (lowByte word) (highByte word) = word := by
  have hword := word.toNat_lt
  apply UInt16.toNat_inj.mp
  rw [toNat_wordOfBytes, lowByte, highByte, UInt16.toNat_toUInt8, UInt16.toNat_toUInt8,
    UInt16.toNat_shiftRight]
  show 256 * ((word.toNat >>> 8) % 2 ^ 8) + word.toNat % 2 ^ 8 = word.toNat
  rw [Nat.shiftRight_eq_div_pow]
  omega

/-- The value of a double word made of two words. -/
theorem toNat_doubleOfWords (low high : UInt16) :
    (doubleOfWords low high).toNat = 65536 * high.toNat + low.toNat := by
  have hlow := low.toNat_lt
  have hhigh := high.toNat_lt
  have hshift : (high.toUInt32 <<< 16).toNat = high.toNat <<< 16 := by
    rw [UInt32.toNat_shiftLeft]
    show (high.toNat <<< 16) % 2 ^ 32 = _
    rw [Nat.shiftLeft_eq]
    omega
  rw [doubleOfWords, UInt32.toNat_or, hshift, Nat.or_comm]
  show high.toNat <<< 16 ||| low.toNat = _
  rw [← Nat.shiftLeft_add_eq_or_of_lt (show low.toNat < 2 ^ 16 by omega), Nat.shiftLeft_eq]
  omega

/-- A double word is made of its four bytes. -/
theorem doubleOfWords_bytes (double : UInt32) :
    doubleOfWords (wordOfBytes double.toUInt8 (double >>> 8).toUInt8)
      (wordOfBytes (double >>> 16).toUInt8 (double >>> 24).toUInt8) = double := by
  have hdouble := double.toNat_lt
  apply UInt32.toNat_inj.mp
  rw [toNat_doubleOfWords, toNat_wordOfBytes, toNat_wordOfBytes, UInt32.toNat_toUInt8,
    UInt32.toNat_toUInt8, UInt32.toNat_toUInt8, UInt32.toNat_toUInt8, UInt32.toNat_shiftRight,
    UInt32.toNat_shiftRight, UInt32.toNat_shiftRight]
  show 65536 * (256 * ((double.toNat >>> 24) % 2 ^ 8) + (double.toNat >>> 16) % 2 ^ 8)
    + (256 * ((double.toNat >>> 8) % 2 ^ 8) + double.toNat % 2 ^ 8) = double.toNat
  rw [Nat.shiftRight_eq_div_pow, Nat.shiftRight_eq_div_pow, Nat.shiftRight_eq_div_pow]
  omega

/-- The low byte, as a word, is what counts among bytes. -/
theorem toUInt16_lowByte (word : UInt16) : (lowByte word).toUInt16 = word &&& Width.byte.mask := by
  apply UInt16.toNat_inj.mp
  rw [lowByte, UInt8.toNat_toUInt16, UInt16.toNat_toUInt8, UInt16.toNat_and]
  exact (Nat.and_two_pow_sub_one_eq_mod word.toNat 8).symm

/-- A byte, as a word, has no bits beyond it. -/
theorem toUInt16_and_mask (byte : UInt8) : byte.toUInt16 &&& Width.byte.mask = byte.toUInt16 := by
  rw [← toUInt16_lowByte, lowByte, UInt8.toUInt8_toUInt16]

/-- To count on by one changes the low byte. -/
theorem lowByte_add_one_ne (word : UInt16) : lowByte (word + 1) ≠ lowByte word := by
  intro hlow
  have hnat := congrArg UInt8.toNat hlow
  rw [lowByte, lowByte, UInt16.toNat_toUInt8, UInt16.toNat_toUInt8, UInt16.toNat_add] at hnat
  have hnat : (word.toNat + 1) % 65536 % 256 = word.toNat % 256 := hnat
  omega

end Microprocessor
