import BearLex.Command.Event
import BearLex.Command.Options
import BearLex.Command.Path
import BearLex.Diagnostic.Reporter
import BearLex.Settings
import BearLex.Source.Scan
import BearLex.Text.Lines

/-! A run of the command, from its arguments and surroundings to its outcome. With one script the
run scans that file; without a script it scans standard input line by line. -/

namespace BearLex

/-- What a run of the command is given. -/
structure Invocation where
  arguments : List Text
  environment : Environment
  input : Text
  openFile : Path → Except SystemFault Bytes
  codecs : Codecs := fun _ => none

def helpText : Text :=
  (String.intercalate "\n"
    ["Usage: bear [OPTIONS] [SCRIPTS]...",
     "",
     "  Run a Bear script, or start an interactive prompt.",
     "",
     "  SCRIPT is the Bear source file to run. Without it, lines are read from",
     "  standard input until end of input.",
     "",
     "  Examples:",
     "      bear hello.bear          # Run a script",
     "      bear                     # Interactive prompt",
     "      bear -v hello.bear       # Debug logging",
     "",
     "Options:",
     "  -e, --encoding TEXT  Script file encoding (default: utf-8, or BEAR_ENCODING)",
     "  --prompt TEXT        Prompt shown in interactive mode (default: '> ', or",
     "                       BEAR_PROMPT)",
     "  -v, --verbose        Verbose output",
     "  --version            Show the version and exit.",
     "  -h, --help           Show this message and exit."]).toList

def version : Text := "0.1.0".toList

/-- The settings changed by options. -/
def Settings.changed (s : Settings) (o : Options) : Settings :=
  { s with
    encoding := o.encoding.getD s.encoding
    prompt := o.prompt.getD s.prompt
    verbose := s.verbose || o.verbose }

namespace Session

/-- The settings of the environment, changed by the options. -/
def settings (environment : Environment) (o : Options) : Settings :=
  (Settings.ofEnvironment environment).changed o

/-- A diagnostic goes to the log and then to standard error. -/
def diagnosticEvents (d : Diagnostic) : List Event :=
  [.record .diagnostics ("diagnostic: ".toList ++ d.render), .errorLine d.render]

/-- The record that closes a scan. -/
def scanRecord (s : Scan) : Event :=
  .record .scan
    ("scanned ".toList ++ Numeral.ofNat s.tokens.length ++ " tokens over ".toList
      ++ Numeral.ofNat s.lastLine ++ " lines (".toList ++ Numeral.ofNat s.findings.length
      ++ " diagnostics)".toList)

/-- What scanning a source does: all diagnostics, then all tokens. -/
def scanEvents (s : Scan) : List Event :=
  s.diagnostics.flatMap diagnosticEvents ++ scanRecord s
    :: s.tokens.map fun t => .outputLine t.render

/-- Scans a source, reporting to `r`. -/
def runSource (r : Reporter) (source : Text) : Reporter × List Event :=
  let s := Scan.ofSource source
  (r.reportAll s.diagnostics, scanEvents s)

def reporter (s : Settings) : Reporter :=
  Reporter.fresh s.maxErrors true

/-- The text of the script at a path. The file is opened before the encoding is looked up. -/
def readScript (openFile : Path → Except SystemFault Bytes) (codecs : Codecs) (encoding : Text)
    (path : Path) : Except Failure Text :=
  match openFile path with
  | .error fault => .error (.ofOpening fault path.render)
  | .ok bytes =>
    match Codec.ofName? codecs encoding with
    | .error fault => .error (.encodingName fault)
    | .ok codec =>
      match codec bytes with
      | .error fault => .error (.ofBytes fault)
      | .ok text => .ok (Lines.unify text)

/-- The run of a script whose text is `source`. -/
def scriptOutcome (s : Settings) (path : Path) (source : Text) : Outcome :=
  let ran := runSource (reporter s) source
  let read := Event.record .command
    ("read ".toList ++ Numeral.ofNat source.length ++ " characters from ".toList ++ path.render)
  if ran.1.hadError then
    { exit := ExitCode.dataError.code
      verbose := s.verbose
      events := read :: ran.2 ++
        [.record .command
          (path.render ++ ": ".toList ++ Numeral.ofNat ran.1.stored.size
            ++ " diagnostics".toList)] }
  else { exit := ExitCode.success.code, verbose := s.verbose, events := read :: ran.2 }

def runScript (openFile : Path → Except SystemFault Bytes) (codecs : Codecs) (s : Settings)
    (path : Path) : Outcome :=
  match readScript openFile codecs s.encoding path with
  | .error f => .ofFailure s.verbose f
  | .ok source => scriptOutcome s path source

/-- Shows the prompt, scans a line and clears the reporter, for one line after the other. -/
def runLines (prompt : Text) (r : Reporter) : List Text → Reporter × List Event
  | [] => (r, [])
  | line :: rest =>
    let ran := runSource r line
    let later := runLines prompt ran.1.clear rest
    (later.1, .output prompt :: ran.2 ++ later.2)

/-- What is done for a piece of the input that is typed behind a prompt: its lines are answered, and
the prompt is shown again. -/
def resume (prompt : Text) (r : Reporter) (piece : Text) : Reporter × List Event :=
  let ran := runLines prompt r (Lines.split (Lines.unify piece))
  (ran.1, ran.2.tail ++ [.output prompt])

def runPrompt (s : Settings) (input : Text) : Outcome where
  exit := ExitCode.success.code
  verbose := s.verbose
  events := (runLines s.prompt (reporter s) (Lines.split (Lines.unify input))).2
    ++ [.output s.prompt, .outputLine []]

def faultOutcome (f : OptionFault) : Outcome where
  exit := 2
  verbose := false
  events :=
    match f with
    | .unknown _ =>
      [.errorLine "Usage: bear [OPTIONS] [SCRIPTS]...\nTry 'bear --help' for help.\n".toList,
       .errorLine ("Error: ".toList ++ f.message)]
    | _ => [.errorLine ("Error: ".toList ++ f.message)]

def requestOutcome : Request → Outcome
  | .help => ⟨0, false, [.outputLine helpText]⟩
  | .version => ⟨0, false, [.outputLine ("bear, version ".toList ++ version)]⟩

/-- The outcome of naming more than one script. -/
def usageOutcome (s : Settings) : Outcome where
  exit := ExitCode.usage.code
  verbose := s.verbose
  events := [.errorLine "Usage: bear [script]".toList]

/-- What a command line asks for: an outcome that needs no input, a script, or the prompt. -/
inductive Task
  | answer (o : Outcome)
  | script (s : Settings) (path : Path)
  | prompt (s : Settings)

/-- The task with these settings: the prompt without a script, and the script if there is one. -/
def taskWith (s : Settings) : List Text → Task
  | [] => .prompt s
  | [script] => .script s (Path.ofText script)
  | _ :: _ :: _ => .answer (usageOutcome s)

/-- The task of options: a request is answered, whatever the scripts are. -/
def taskOfOptions (environment : Environment) (o : Options) : Task :=
  match o.request with
  | some r => .answer (requestOutcome r)
  | none => taskWith (settings environment o) o.scripts

def task (environment : Environment) (arguments : List Text) : Task :=
  match Arguments.options arguments with
  | .error f => .answer (faultOutcome f)
  | .ok o => taskOfOptions environment o

/-- What a task comes to. -/
def Task.outcome (i : Invocation) : Task → Outcome
  | answer o => o
  | script s path => runScript i.openFile i.codecs s path
  | prompt s => runPrompt s i.input

/-- A task has to do with the files, the further codecs and the input alone. -/
theorem Task.outcome_congr {i j : Invocation} (t : Task) (openFile : i.openFile = j.openFile)
    (codecs : i.codecs = j.codecs) (input : i.input = j.input) : t.outcome i = t.outcome j := by
  cases t <;> simp only [outcome, openFile, codecs, input]

def run (i : Invocation) : Outcome :=
  (task i.environment i.arguments).outcome i

/-- Arguments that are at fault end a run; else the options choose it. -/
theorem run_eq (i : Invocation) :
    run i =
      match Arguments.options i.arguments with
      | .error f => faultOutcome f
      | .ok o => (taskOfOptions i.environment o).outcome i := by
  rw [run, task]
  cases Arguments.options i.arguments <;> rfl

theorem run_of_options {i : Invocation} {o : Options}
    (parsed : Arguments.options i.arguments = .ok o) (noRequest : o.request = none) :
    run i = (taskWith (settings i.environment o) o.scripts).outcome i := by
  rw [run_eq, parsed]
  simp only [taskOfOptions, noRequest]

end Session

end BearLex
