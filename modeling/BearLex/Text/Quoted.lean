import BearLex.Text.Basic
import BearLex.Text.Printable

/-! Quoted text. The quotation mark is `'`, unless the text has a `'` and no `"`. Inside, the mark
and the backslash follow a backslash, three controls have a letter, and every other character that
is not printable is written by its code point in two, four or eight digits. A text that is read back
may stand in front of further text. -/

namespace BearLex.Quoted

/-- The digits of `n` in base 16, with zeros in front up to `width` digits. -/
def hex (width n : Nat) : Text :=
  (Nat.toDigits 16 n).leftpad width '0'

/-- A character by its code point. -/
def byCodePoint (c : Char) : Text :=
  if c.toNat < 0x100 then '\\' :: 'x' :: hex 2 c.toNat
  else if c.toNat < 0x10000 then '\\' :: 'u' :: hex 4 c.toNat
  else '\\' :: 'U' :: hex 8 c.toNat

/-- One character inside the quotation mark `mark`. -/
def escape (mark c : Char) : Text :=
  if c = mark ∨ c = '\\' then ['\\', c]
  else if c = '\n' then ['\\', 'n']
  else if c = '\r' then ['\\', 'r']
  else if c = '\t' then ['\\', 't']
  else if isPrintable c then [c]
  else byCodePoint c

/-- The quotation mark of a text. -/
def markOf (s : Text) : Char :=
  if '\'' ∈ s ∧ '"' ∉ s then '"' else '\''

/-- The text in quotation marks. -/
def encode (s : Text) : Text :=
  markOf s :: s.flatMap (escape (markOf s)) ++ [markOf s]

def hexDigitValue (c : Char) : Nat :=
  if c.isDigit then c.toNat - '0'.toNat else c.toNat - 'a'.toNat + 10

def hexValue (digits : Text) : Nat :=
  digits.foldl (fun n c => 16 * n + hexDigitValue c) 0

/-- The character that `width` digits stand for, and how many characters come before what follows
them, the letter in front of the digits included. -/
def ofCodePoint (width : Nat) (digits : Text) : Char × Nat :=
  (Char.ofNat (hexValue (digits.take width)), width + 1)

/-- The character that is written behind a backslash, and the number of characters that write
it. -/
def unescape? : Text → Option (Char × Nat)
  | [] => none
  | letter :: rest =>
    some <|
      if letter = 'n' then ('\n', 1)
      else if letter = 'r' then ('\r', 1)
      else if letter = 't' then ('\t', 1)
      else if letter = 'x' then ofCodePoint 2 rest
      else if letter = 'u' then ofCodePoint 4 rest
      else if letter = 'U' then ofCodePoint 8 rest
      else (letter, 1)

/-- The text up to the quotation mark `mark`, and what follows the mark. -/
def decodeUpTo (mark : Char) (s : Text) : Option (Text × Text) :=
  match s with
  | [] => none
  | c :: rest =>
    if c = mark then some ([], rest)
    else if c = '\\' then
      match unescape? rest with
      | none => none
      | some (d, count) => (decodeUpTo mark (rest.drop count)).map fun r => (d :: r.1, r.2)
    else (decodeUpTo mark rest).map fun r => (c :: r.1, r.2)
termination_by s.length
decreasing_by
  all_goals
    simp only [List.length_drop, List.length_cons]
    omega

/-- The text in quotation marks at the front of `s`, and what follows it. -/
def decode : Text → Option (Text × Text)
  | [] => none
  | mark :: rest => if mark = '\'' ∨ mark = '"' then decodeUpTo mark rest else none

end BearLex.Quoted
