import BearLex.Text.Numeral
import BearLex.Text.Quoted

/-! Diagnostics: a message with the line it is about, and the two forms in which one is written. -/

namespace BearLex

/-- A message about a line, with an optional text that tells the place in it. -/
structure Diagnostic where
  line : Int
  message : Text
  place : Text
  deriving DecidableEq

namespace Diagnostic

/-- The form for users. -/
def render (d : Diagnostic) : Text :=
  "[line ".toList ++ Numeral.ofInt d.line ++ "] Error".toList ++ d.place ++ ": ".toList ++ d.message

/-- The form that shows every part apart. -/
def describe (d : Diagnostic) : Text :=
  "Diagnostic(line=".toList ++ Numeral.ofInt d.line ++ ", message=".toList
    ++ Quoted.encode d.message ++ ", where=".toList ++ Quoted.encode d.place ++ ")".toList

end Diagnostic

end BearLex
