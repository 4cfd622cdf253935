import BearLex.Token.Kind
import BearLex.Number.Binary64
import BearLex.Text.Quoted

/-! Tokens and their two written forms. The short form is the kind, the lexeme and the literal as
they are; the full form quotes the texts and tells the line. -/

namespace BearLex

/-- The value that a token carries. -/
inductive Literal
  | absent
  | number (x : Binary64)
  | text (t : Text)
  deriving DecidableEq

/-- A lexical element: its kind, the text it was cut from, its value and the line it starts on. -/
structure Token where
  kind : Kind
  lexeme : Text
  literal : Literal
  line : Int
  deriving DecidableEq

namespace Literal

/-- The literal as it stands in the short form of a token. -/
def plain : Literal → Text
  | absent => "None".toList
  | number x => x.render
  | text t => t

/-- The literal as it stands in the full form of a token, with the comma after it. -/
def quoted : Literal → Text
  | absent => []
  | number x => x.render ++ ", ".toList
  | text t => Quoted.encode t ++ ", ".toList

/-- Equality of values: numbers are equal as numbers. -/
def valueEq : Literal → Literal → Bool
  | number x, number y => x.numberEq y
  | absent, absent => true
  | text s, text t => s == t
  | _, _ => false

end Literal

namespace Token

/-- The token at the end of input. -/
def ending (line : Nat) : Token :=
  ⟨.endOfInput, [], .absent, line⟩

/-- The short form. -/
def render (t : Token) : Text :=
  t.kind.name ++ ' ' :: t.lexeme ++ ' ' :: t.literal.plain

/-- The full form. -/
def describe (t : Token) : Text :=
  "Token(".toList ++ t.kind.name ++ ", ".toList ++ Quoted.encode t.lexeme ++ ", ".toList
    ++ t.literal.quoted ++ "line ".toList ++ Numeral.ofInt t.line ++ ")".toList

def isKeyword (t : Token) : Bool :=
  match t.kind with
  | .keyword _ => true
  | _ => false

/-- The token is of a kind that carries a value. -/
def isLiteral (t : Token) : Bool :=
  t.kind == .number || t.kind == .string

/-- Equality of tokens, with equality of values for the literals. -/
def valueEq (s t : Token) : Bool :=
  s.kind == t.kind && s.lexeme == t.lexeme && s.literal.valueEq t.literal && s.line == t.line

end Token

end BearLex
