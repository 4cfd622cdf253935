import BearLex.Text.Basic

/-! Integers written in decimal. -/

namespace BearLex.Numeral

/-- A natural number in decimal, without leading zeros. -/
def ofNat (n : Nat) : Text :=
  Nat.toDigits 10 n

/-- An integer in decimal, with a `-` in front of a negative one. -/
def ofInt (n : Int) : Text :=
  if n < 0 then '-' :: ofNat n.natAbs else ofNat n.natAbs

/-- The number that ASCII digits denote in decimal. -/
def value (digits : Text) : Nat :=
  Nat.ofDigitChars 10 digits 0

theorem value_ofNat (n : Nat) : value (ofNat n) = n :=
  Nat.ofDigitChars_ten_toDigits

end BearLex.Numeral
