import BearLex.Text.Ranges

/-! White space of Unicode, with and without the four information separators. -/

namespace BearLex

/-- The ranges of white space around a number. -/
def numeralBlankRanges : List (Nat × Nat) :=
  [(0x9, 0xD), (0x20, 0x20), (0x85, 0x85), (0xA0, 0xA0), (0x1680, 0x1680), (0x2000, 0x200A),
   (0x2028, 0x2029), (0x202F, 0x202F), (0x205F, 0x205F), (0x3000, 0x3000)]

/-- White space that may surround a number: the information separators do not count. -/
def isNumeralBlank (c : Char) : Bool :=
  inRanges c.toNat numeralBlankRanges

/-- White space around a word: the information separators count as well. -/
def isBlank (c : Char) : Bool :=
  isNumeralBlank c || inRanges c.toNat [(0x1C, 0x1F)]

end BearLex
