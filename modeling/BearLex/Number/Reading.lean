import BearLex.Number.Binary64
import BearLex.Text.Blank
import BearLex.Text.DecimalDigit

/-! Numbers read from text: integers of the settings, and binary64 numbers with sign, point and
exponent. White space may surround a number, the digits may be those of any script, and a single
underscore may stand between two digits. -/

namespace BearLex.Reading

/-- The text with its underscores taken out, if each stands between two digits. The flag tells
whether a digit comes before the text. -/
def joinDigits? : Bool → Text → Option Text
  | _, [] => some []
  | afterDigit, c :: rest =>
    if c = '_' then
      if afterDigit && (rest.head?.map Char.isDigit).getD false then joinDigits? false rest
      else none
    else (joinDigits? c.isDigit rest).map (c :: ·)

/-- The text without the white space around it, with ASCII digits and without underscores. -/
def plain? (s : Text) : Option Text :=
  joinDigits? false ((s.trim isNumeralBlank).map plainDigit)

/-- The sign in front of a text, with `true` for a `-`, and what follows it. -/
def splitSign : Text → Bool × Text
  | '+' :: rest => (false, rest)
  | '-' :: rest => (true, rest)
  | s => (false, s)

/-- The text consists of digits and is not empty. -/
def isDigits (s : Text) : Bool :=
  !s.isEmpty && s.all Char.isDigit

/-- The integer that a sign and digits denote. -/
def signedValue (negative : Bool) (digits : Text) : Int :=
  if negative then -(Numeral.value digits : Int) else (Numeral.value digits : Int)

/-- An integer: an optional sign and digits, at most `limit` of them. -/
def integer? (limit : Nat) (s : Text) : Option Int :=
  match plain? s with
  | none => none
  | some plain =>
    let (negative, digits) := splitSign plain
    if isDigits digits && decide (digits.length ≤ limit) then some (signedValue negative digits)
    else none

/-- The magnitude that ASCII digits times `10 ^ exponent` denote. Exponents so large that every
positive number is infinite, or so small that every one is zero, are settled without a power of
ten. -/
def magnitude (digits : Text) (exponent : Int) : Magnitude :=
  let number := Numeral.value digits
  if number = 0 then Magnitude.zero
  else if 400 < exponent then Magnitude.infinity
  else if digits.length + exponent < -400 then Magnitude.zero
  else Magnitude.ofDecimal number exponent

/-- The magnitude of a decimal made of digits, or of digits, a point and digits. -/
def pointed (s : Text) : Magnitude :=
  magnitude (s.filter Char.isDigit) (-(s.dropWhile Char.isDigit).tail.length)

/-- An exponent: nothing, or `e` or `E`, an optional sign and digits. -/
def exponent? : Text → Option Int
  | [] => some 0
  | mark :: rest =>
    if mark = 'e' ∨ mark = 'E' then
      let (negative, digits) := splitSign rest
      if isDigits digits then some (signedValue negative digits) else none
    else none

/-- A decimal without sign: digits with at most one point among or around them, and an exponent. -/
def decimal? (s : Text) : Option Magnitude :=
  let whole := s.takeWhile Char.isDigit
  let afterWhole := s.dropWhile Char.isDigit
  let (fraction, afterDigits) :=
    match afterWhole with
    | '.' :: rest => (rest.takeWhile Char.isDigit, rest.dropWhile Char.isDigit)
    | rest => ([], rest)
  if (whole ++ fraction).isEmpty then none
  else
    (exponent? afterDigits).map fun exponent =>
      magnitude (whole ++ fraction) (exponent - fraction.length)

/-- A binary64 number: an optional sign, then `inf`, `infinity` or `nan` in any case, or a
decimal. -/
def binary64? (s : Text) : Option Binary64 :=
  match plain? s with
  | none => none
  | some plain =>
    let (negative, unsigned) := splitSign plain
    let word := Text.lower unsigned
    if word = "inf".toList ∨ word = "infinity".toList then
      some (.signed negative Magnitude.infinity)
    else if word = "nan".toList then some .notANumber
    else (decimal? unsigned).map (.signed negative)

end BearLex.Reading
