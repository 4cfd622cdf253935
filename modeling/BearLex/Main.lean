import BearLex.Command.Session

/-! The `bear` command: reads the surroundings, runs a session on them and carries out its events. It
has no codecs but those of the encodings. -/

namespace BearLex.CommandLine

/-- The fault of the operating system behind an error. -/
def systemFault : IO.Error → SystemFault
  | .noFileOrDirectory .. => .missing
  | .permissionDenied .. => .denied
  | .inappropriateType _ number _ => SystemFault.ofNumber number.toNat
  | .invalidArgument _ number _ => SystemFault.ofNumber number.toNat
  | .otherError number _ => SystemFault.ofNumber number.toNat
  | _ => .other

def openFile (path : Path) : IO (Except SystemFault Bytes) := do
  try
    let content ← IO.FS.readBinFile (String.ofList path.render)
    return .ok content.toList
  catch e => return .error (systemFault e)

def environment : IO Environment := do
  let textOf (name : String) : IO (Option Text) := return (← IO.getEnv name).map String.toList
  return {
    prompt := ← textOf "BEAR_PROMPT"
    encoding := ← textOf "BEAR_ENCODING"
    verbose := ← textOf "BEAR_VERBOSE"
    maxErrors := ← textOf "BEAR_MAX_ERRORS" }

/-- Writes what events add to the two output streams, in order. -/
def carryOut (verbose : Bool) (events : List Event) : IO Unit := do
  let stdout ← IO.getStdout
  let stderr ← IO.getStderr
  for event in events do
    stdout.putStr (String.ofList event.onOutput)
    stdout.flush
    stderr.putStr (String.ofList (event.onError verbose))
    stderr.flush

/-- Scans standard input as it comes, a prompt in front of every line and of the end. -/
partial def prompting (s : Settings) (r : Reporter) : IO Unit := do
  let typed ← (← IO.getStdin).getLine
  if typed.isEmpty then carryOut s.verbose [.outputLine []]
  else
    let (rested, events) := Session.resume s.prompt r typed.toList
    carryOut s.verbose events
    prompting s rested

def conclude (o : Outcome) : IO UInt32 := do
  carryOut o.verbose o.events
  return o.exit.toUInt32

def run (arguments : List Text) : IO UInt32 := do
  match Session.task (← environment) arguments with
  | .answer o => conclude o
  | .script s path =>
    let content ← openFile path
    conclude (Session.runScript (fun _ => content) (fun _ => none) s path)
  | .prompt s =>
    carryOut s.verbose [.output s.prompt]
    prompting s (Session.reporter s)
    return 0

end BearLex.CommandLine

def main (arguments : List String) : IO UInt32 :=
  BearLex.CommandLine.run (arguments.map String.toList)
