import BearLex.Text.Basic

/-! The kinds of token: operators and punctuation, three kinds whose lexemes vary, keywords, and the
end of input. Every kind has a name and a code; the codes follow the order of `Kind.all`, from 1
on. -/

namespace BearLex

/-- Operators and punctuation. -/
inductive Symbol
  | leftParen | rightParen | leftBrace | rightBrace
  | comma | dot | minus | plus | semicolon | slash | star
  | bang | bangEqual | equal | equalEqual
  | greater | greaterEqual | less | lessEqual
  deriving DecidableEq, Repr

/-- Reserved words. -/
inductive Keyword
  | kwAnd | kwClass | kwElse | kwFalse | kwFun | kwFor | kwIf | kwNil
  | kwOr | kwPrint | kwReturn | kwSuper | kwThis | kwTrue | kwVar | kwWhile
  deriving DecidableEq, Repr

/-- What a token is. -/
inductive Kind
  | symbol (s : Symbol)
  | identifier
  | string
  | number
  | keyword (k : Keyword)
  | endOfInput
  deriving DecidableEq, Repr

namespace Symbol

/-- The symbols in the order of their codes. -/
def all : List Symbol :=
  [leftParen, rightParen, leftBrace, rightBrace, comma, dot, minus, plus, semicolon, slash, star,
   bang, bangEqual, equal, equalEqual, greater, greaterEqual, less, lessEqual]

theorem mem_all (s : Symbol) : s ∈ all := by cases s <;> decide

def name : Symbol → Text
  | leftParen => "LEFT_PAREN".toList
  | rightParen => "RIGHT_PAREN".toList
  | leftBrace => "LEFT_BRACE".toList
  | rightBrace => "RIGHT_BRACE".toList
  | comma => "COMMA".toList
  | dot => "DOT".toList
  | minus => "MINUS".toList
  | plus => "PLUS".toList
  | semicolon => "SEMICOLON".toList
  | slash => "SLASH".toList
  | star => "STAR".toList
  | bang => "BANG".toList
  | bangEqual => "BANG_EQUAL".toList
  | equal => "EQUAL".toList
  | equalEqual => "EQUAL_EQUAL".toList
  | greater => "GREATER".toList
  | greaterEqual => "GREATER_EQUAL".toList
  | less => "LESS".toList
  | lessEqual => "LESS_EQUAL".toList

/-- The symbols of one character that no longer symbol starts with, each with its character. -/
def singles : List (Char × Symbol) :=
  [('(', leftParen), (')', rightParen), ('{', leftBrace), ('}', rightBrace), (',', comma),
   ('.', dot), ('-', minus), ('+', plus), (';', semicolon), ('*', star)]

/-- The characters that are a symbol alone, and another one with `=` after them. -/
def pairs : List (Char × Symbol × Symbol) :=
  [('!', bang, bangEqual), ('=', equal, equalEqual), ('<', less, lessEqual),
   ('>', greater, greaterEqual)]

end Symbol

namespace Keyword

/-- The keywords in the order of their codes. -/
def all : List Keyword :=
  [kwAnd, kwClass, kwElse, kwFalse, kwFun, kwFor, kwIf, kwNil, kwOr, kwPrint, kwReturn, kwSuper,
   kwThis, kwTrue, kwVar, kwWhile]

theorem mem_all (k : Keyword) : k ∈ all := by cases k <;> decide

def word : Keyword → Text
  | kwAnd => "and".toList
  | kwClass => "class".toList
  | kwElse => "else".toList
  | kwFalse => "false".toList
  | kwFun => "fun".toList
  | kwFor => "for".toList
  | kwIf => "if".toList
  | kwNil => "nil".toList
  | kwOr => "or".toList
  | kwPrint => "print".toList
  | kwReturn => "return".toList
  | kwSuper => "super".toList
  | kwThis => "this".toList
  | kwTrue => "true".toList
  | kwVar => "var".toList
  | kwWhile => "while".toList

/-- The keyword that a text spells, letter case included. -/
def ofWord? (s : Text) : Option Keyword :=
  all.find? fun k => k.word == s

/-- A keyword is found by its spelling, and by no other text. -/
theorem ofWord?_eq_some_iff {s : Text} {k : Keyword} : ofWord? s = some k ↔ s = k.word := by
  constructor
  · intro h
    have := List.find?_some h
    simpa using (beq_iff_eq.1 this).symm
  · rintro rfl
    cases k <;> decide

/-- The name of a keyword: its spelling in capitals. -/
def name (k : Keyword) : Text :=
  k.word.map Char.toUpper

end Keyword

namespace Kind

/-- The kinds in the order of their codes. -/
def all : List Kind :=
  Symbol.all.map symbol ++ [identifier, string, number] ++ Keyword.all.map keyword ++ [endOfInput]

theorem mem_all (k : Kind) : k ∈ all := by
  cases k with
  | symbol s => cases s <;> decide
  | keyword k => cases k <;> decide
  | _ => decide

def name : Kind → Text
  | symbol s => s.name
  | identifier => "IDENTIFIER".toList
  | string => "STRING".toList
  | number => "NUMBER".toList
  | keyword k => k.name
  | endOfInput => "END".toList

/-- The position of a kind in `all`, counted from 1. -/
def code (k : Kind) : Nat :=
  all.idxOf k + 1

def ofCode? (n : Int) : Option Kind :=
  if 1 ≤ n then all[n.toNat - 1]? else none

def ofName? (s : Text) : Option Kind :=
  all.find? fun k => k.name == s

theorem ofName?_name (k : Kind) : ofName? k.name = some k := by
  cases k with
  | symbol s => cases s <;> decide
  | keyword k => cases k <;> decide
  | _ => decide

end Kind

end BearLex
