import BearLex.Token.Kind

/-! The characters of the language by what they can do in a lexeme, and how far a comment, a string,
a number or an identifier reaches into the text after its first characters. -/

namespace BearLex

/-- A letter or underscore of ASCII. -/
def isIdentifierStart (c : Char) : Bool :=
  c.isAlpha || c == '_'

/-- A letter, digit or underscore of ASCII. -/
def isIdentifierRest (c : Char) : Bool :=
  c.isAlpha || c == '_' || c.isDigit

/-- A character between lexemes, the newline apart. -/
def isSpacing (c : Char) : Bool :=
  c == ' ' || c == '\r' || c == '\t'

/-- The rest of a comment after its two slashes. It ends before the newline. -/
def commentRest (ahead : Text) : Text :=
  ahead.takeWhile (· != '\n')

/-- The text of a string after its opening quotation mark. -/
def stringBody (ahead : Text) : Text :=
  ahead.takeWhile (· != '"')

/-- A point and the digits after it, if there is a digit. -/
def fraction : Text → Text
  | point :: digit :: rest =>
    if point = '.' ∧ digit.isDigit then point :: digit :: rest.takeWhile Char.isDigit else []
  | _ => []

/-- The rest of a number after its first digit. -/
def numberRest (ahead : Text) : Text :=
  ahead.takeWhile Char.isDigit ++ fraction (ahead.dropWhile Char.isDigit)

/-- The rest of an identifier after its first character. -/
def identifierRest (ahead : Text) : Text :=
  ahead.takeWhile isIdentifierRest

/-- A word is a keyword if it spells one, and an identifier otherwise. -/
def wordKind (word : Text) : Kind :=
  match Keyword.ofWord? word with
  | some k => .keyword k
  | none => .identifier

end BearLex
