import BearLex.Number.Shortest

/-! Binary64 numbers and the way they are written: the shortest digits, positional from `0.0001` up
to below `10 ^ 16` and with an exponent outside, always with a point or an exponent. -/

namespace BearLex

/-- A binary64 number. All not-a-numbers are one. -/
inductive Binary64
  | notANumber
  | signed (negative : Bool) (magnitude : Magnitude)
  deriving DecidableEq

namespace Binary64

/-- Equality of numbers: the two zeros are equal, and not-a-number is equal to nothing. -/
def numberEq : Binary64 → Binary64 → Bool
  | signed n m, signed n' m' => m == m' && (n == n' || m == Magnitude.zero)
  | _, _ => false

/-- The exponents of the leading digit that are written positionally: from `-4` up to `15`. -/
def isPositional (place : Int) : Bool :=
  decide (-3 ≤ place) && decide (place ≤ 16)

/-- Digits with the point at `place`, and at least one digit on both sides of it. -/
def positional (d : Digits) : Text :=
  if d.place ≤ 0 then '0' :: '.' :: List.replicate (-d.place).toNat '0' ++ d.digits
  else if d.place.toNat < d.digits.length then
    d.digits.take d.place.toNat ++ '.' :: d.digits.drop d.place.toNat
  else d.digits ++ List.replicate (d.place.toNat - d.digits.length) '0' ++ ['.', '0']

/-- Digits with the point after the first one, if more follow, and a signed exponent of at least two
digits. -/
def scientific (d : Digits) : Text :=
  let exponent := d.place - 1
  let mantissa :=
    match d.digits with
    | first :: next :: rest => first :: '.' :: next :: rest
    | digits => digits
  mantissa ++ 'e' :: (if exponent < 0 then '-' else '+')
    :: (Numeral.ofNat exponent.natAbs).leftpad 2 '0'

/-- A magnitude as written. -/
def renderMagnitude (m : Magnitude) : Text :=
  if m = Magnitude.zero then "0.0".toList
  else if m = Magnitude.infinity then "inf".toList
  else if isPositional m.shortest.place then positional m.shortest
  else scientific m.shortest

/-- A number as written, with a `-` in front of a negative one, zero included. -/
def render : Binary64 → Text
  | notANumber => "nan".toList
  | signed negative m => if negative then '-' :: renderMagnitude m else renderMagnitude m

end Binary64

end BearLex
