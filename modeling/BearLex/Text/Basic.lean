/-! Text as a list of code points, so that a position is a number of code points and a definition on
text goes by recursion on the list. -/

namespace BearLex

/-- A sequence of Unicode scalar values. -/
abbrev Text := List Char

namespace Text

/-- The texts one after the other, with `mark` between two neighbours. -/
def join (mark : Text) (parts : List Text) : Text :=
  mark.intercalate parts

/-- `s` without the characters at its two ends that `drops` holds of. -/
def trim (drops : Char → Bool) (s : Text) : Text :=
  ((s.dropWhile drops).reverse.dropWhile drops).reverse

/-- An ASCII capital becomes the small letter, and every other character stays. -/
def lower (s : Text) : Text :=
  s.map Char.toLower

/-- The number of UTF-8 bytes that `s` takes. -/
def byteCount (s : Text) : Nat :=
  s.foldr (fun c count => c.utf8Size + count) 0

end Text

end BearLex
