import BearLex.Number.Magnitude
import BearLex.Text.Numeral

/-! The shortest decimal of a magnitude: the fewest significant digits that read back as it, and of
those the nearest. For 1, 2, … 17 digits the two neighbours of the exact value on the grid of that
many digits are tried. -/

namespace BearLex

/-- The number `0.d₁d₂… * 10 ^ place`, where `d₁d₂…` are the digits. -/
structure Digits where
  digits : Text
  place : Int
  deriving DecidableEq

namespace Digits

/-- The number `n * 10 ^ exponent`, without zeros at the end. -/
def ofScaled (n : Nat) (exponent : Int) : Digits :=
  let digits := Numeral.ofNat n
  ⟨(digits.reverse.dropWhile (· = '0')).reverse, digits.length + exponent⟩

end Digits

namespace Magnitude

/-- The place of a positive finite value: the least `p` with the value below `10 ^ p`. -/
def place (m : Magnitude) : Int :=
  if one ≤ m.units then (Numeral.ofNat (m.units / one)).length
  else 1 - (Numeral.ofNat ((one - 1) / m.units)).length

/-- The value over `10 ^ exponent` as a quotient of natural numbers. -/
def ratio (m : Magnitude) (exponent : Int) : Nat × Nat :=
  if 0 ≤ exponent then (m.units, one * Nat.pow 10 exponent.toNat)
  else (m.units * Nat.pow 10 (-exponent).toNat, one)

/-- The multiple of `10 ^ exponent` next to the value that reads back as it, if there is one: of two
the nearer, and of two that are equally near the even one. -/
def onGrid? (m : Magnitude) (exponent : Int) : Option Nat :=
  let (num, den) := m.ratio exponent
  let below := num / den
  match decide (ofDecimal below exponent = m), decide (ofDecimal (below + 1) exponent = m) with
  | true, true =>
    let middle := (2 * below + 1) * den
    if 2 * num < middle ∨ (2 * num = middle ∧ below % 2 = 0) then some below else some (below + 1)
  | true, false => some below
  | false, true => some (below + 1)
  | false, false => none

/-- The shortest decimal of a positive finite value; the exact value if seventeen digits were not
enough. -/
def shortest (m : Magnitude) : Digits :=
  let found := (List.range' 1 17).findSome? fun (count : Nat) =>
    (m.onGrid? (m.place - count)).map (Digits.ofScaled · (m.place - count))
  found.getD (Digits.ofScaled (m.units * Nat.pow 5 1074) (-1074))

end Magnitude

end BearLex
