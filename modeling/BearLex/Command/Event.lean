import BearLex.Command.Failure
import BearLex.Text.ControlSequence

/-! What a run does to its surroundings, in order: texts written to the two output streams, records
for the log, and traces of internal errors. Texts lose their control sequences on the way out;
records and traces are shown only where details are asked for. -/

namespace BearLex

/-- The part of the program that a record comes from. -/
inductive Origin
  | command
  | diagnostics
  | scan
  deriving DecidableEq

def Origin.name : Origin → Text
  | command => "bear.cli.bear".toList
  | diagnostics => "bear.errors".toList
  | scan => "bear.scanner".toList

/-- One thing that a run does. A written text includes its line end. -/
inductive Event
  | output (text : Text)
  | error (text : Text)
  | record (origin : Origin) (text : Text)
  | trace
  deriving DecidableEq

namespace Event

def outputLine (text : Text) : Event :=
  output (text ++ ['\n'])

def errorLine (text : Text) : Event :=
  error (text ++ ['\n'])

def onOutput : Event → Text
  | output text => ControlSequence.strip text
  | _ => []

def onError (verbose : Bool) : Event → Text
  | error text => ControlSequence.strip text
  | record origin text =>
    if verbose then "DEBUG: ".toList ++ origin.name ++ ": ".toList ++ text ++ ['\n'] else []
  | trace => if verbose then "<traceback>\n".toList else []
  | output _ => []

end Event

/-- The exit code of a run, whether it shows details, and what it does. -/
structure Outcome where
  exit : Nat
  verbose : Bool
  events : List Event
  deriving DecidableEq

namespace Outcome

def stdout (o : Outcome) : Text :=
  o.events.flatMap Event.onOutput

def stderr (o : Outcome) : Text :=
  o.events.flatMap (Event.onError o.verbose)

/-- The outcome of a run that ends early. -/
def ofFailure (verbose : Bool) (f : Failure) : Outcome where
  exit := f.exitCode.code
  verbose := verbose
  events := Event.errorLine f.announcement :: if f.isInternal then [.trace] else []

end Outcome

end BearLex
