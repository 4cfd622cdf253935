import BearLex.Number.Reading

/-! Settings of a session and how the environment sets them. -/

namespace BearLex

/-- What a session can be told. -/
@[ext] structure Settings where
  prompt : Text
  encoding : Text
  verbose : Bool
  maxErrors : Nat
  deriving DecidableEq

/-- The variables of the environment that matter, each absent or with its text. -/
structure Environment where
  prompt : Option Text
  encoding : Option Text
  verbose : Option Text
  maxErrors : Option Text
  deriving DecidableEq

namespace Settings

def default : Settings :=
  { prompt := "> ".toList, encoding := "utf-8".toList, verbose := false, maxErrors := 100 }

def yesWords : List Text :=
  ["1".toList, "true".toList, "yes".toList, "on".toList]

/-- A text that says yes, in any case and with white space around it. -/
def isYes (s : Text) : Bool :=
  yesWords.contains (Text.lower (s.trim isBlank))

/-- How many digits a number in the environment may have. -/
def digitLimit : Nat := 4300

/-- A count of at least one, and nothing for any other text. -/
def count? (s : Text) : Option Nat :=
  match Reading.integer? digitLimit s with
  | some n => if 1 ≤ n then some n.toNat else none
  | none => none

/-- The settings that the environment makes. An empty name of an encoding counts as absent; an empty
prompt does not. -/
def ofEnvironment (env : Environment) : Settings where
  prompt := env.prompt.getD default.prompt
  encoding := (env.encoding.filter (· ≠ [])).getD default.encoding
  verbose := (env.verbose.map isYes).getD default.verbose
  maxErrors := (env.maxErrors.bind count?).getD default.maxErrors

theorem filter_encoding {name : Text} (nonempty : name ≠ []) :
    (some name).filter (fun name : Text => decide (name ≠ [])) = some name := by
  rw [Option.filter_some, if_pos (decide_eq_true nonempty)]

end Settings

end BearLex
