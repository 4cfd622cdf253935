import BearLex.Command.Session
import BearLex.Proofs.Collection
import BearLex.Proofs.Legible
import BearLex.Text.Lines.Lemmas

/-! What a run writes to each of the two streams, text by text, and what the run of a script comes
to: a line for every token of the scan, a line for every diagnostic, and the exit code. -/

namespace BearLex

def Event.output? : Event → Option Text
  | output text => some text
  | _ => none

def Event.error? : Event → Option Text
  | error text => some text
  | _ => none

/-- The line that a token is printed as. -/
def Token.printed (t : Token) : Text :=
  t.render ++ ['\n']

/-- The line that a diagnostic is printed as. -/
def Diagnostic.printed (d : Diagnostic) : Text :=
  d.render ++ ['\n']

namespace Outcome

/-- The texts written to standard output, in order, before control sequences are taken out. -/
def outputs (o : Outcome) : List Text :=
  o.events.filterMap Event.output?

/-- The texts written to standard error, in order, before control sequences are taken out. Records
and traces are not among them. -/
def errors (o : Outcome) : List Text :=
  o.events.filterMap Event.error?

theorem stdout_eq (o : Outcome) : o.stdout = o.outputs.flatMap ControlSequence.strip := by
  rw [stdout, outputs]
  induction o.events with
  | nil => rfl
  | cons e events ih => cases e <;> simp [List.filterMap_cons, Event.onOutput, Event.output?, ih]

theorem stderr_eq {o : Outcome} (quiet : o.verbose = false) :
    o.stderr = o.errors.flatMap ControlSequence.strip := by
  rw [stderr, errors, quiet]
  induction o.events with
  | nil => rfl
  | cons e events ih => cases e <;> simp [List.filterMap_cons, Event.onError, Event.error?, ih]

end Outcome

/-- The tokens that a cursor adds to none when it scans a source are those of the source. -/
theorem Cursor.tokens_atStart (source : Text) :
    (Cursor.atStart source).scan.2.tokens = (Scan.ofSource source).tokens :=
  (Cursor.scan_atStart source).2.tokens

/-- The diagnostics of a scan go out as they are, a line for each. -/
theorem Scan.strip_diagnostics (s : Scan) :
    (s.diagnostics.map Diagnostic.printed).flatMap ControlSequence.strip =
      s.diagnostics.flatMap Diagnostic.printed := by
  rw [Scan.diagnostics, List.map_map, List.flatMap_map, List.flatMap_map]
  exact congrArg (List.flatMap · s.findings) (funext Finding.strip_line)

theorem Scan.split_diagnostics (s : Scan) :
    Lines.split (s.diagnostics.flatMap Diagnostic.printed) =
      s.diagnostics.map Diagnostic.render := by
  have lines : s.diagnostics.flatMap Diagnostic.printed =
      (s.diagnostics.map Diagnostic.render).flatMap (· ++ ['\n']) := by
    rw [List.flatMap_map]
    rfl
  rw [lines, Lines.split_flatMap]
  simp only [Scan.diagnostics, List.map_map, List.forall_mem_map]
  exact fun f _ => f.newline_not_mem

namespace Session

theorem outputs_diagnosticEvents (ds : List Diagnostic) :
    (ds.flatMap diagnosticEvents).filterMap Event.output? = [] := by
  induction ds with
  | nil => rfl
  | cons d ds ih =>
    rw [List.flatMap_cons, List.filterMap_append, ih]
    rfl

theorem errors_diagnosticEvents (ds : List Diagnostic) :
    (ds.flatMap diagnosticEvents).filterMap Event.error? = ds.map Diagnostic.printed := by
  induction ds with
  | nil => rfl
  | cons d ds ih =>
    rw [List.flatMap_cons, List.filterMap_append, ih]
    rfl

/-- A scan writes a line for every token to standard output. -/
theorem outputs_scanEvents (source : Text) :
    (scanEvents (Scan.ofSource source)).filterMap Event.output? =
      (Cursor.atStart source).scan.2.tokens.map Token.printed := by
  rw [scanEvents, List.filterMap_append, outputs_diagnosticEvents, Cursor.tokens_atStart]
  simp only [scanRecord, List.filterMap_cons, Event.output?, List.filterMap_map, List.nil_append]
  exact congrFun List.filterMap_eq_map (Scan.ofSource source).tokens

/-- A scan writes a line for every diagnostic to standard error. -/
theorem errors_scanEvents (source : Text) :
    (scanEvents (Scan.ofSource source)).filterMap Event.error? =
      (Cursor.atStart source).scan.2.diagnostics.map Diagnostic.printed := by
  rw [scanEvents, List.filterMap_append, errors_diagnosticEvents, Cursor.diagnostics_scan]
  simp only [scanRecord, List.filterMap_cons, Event.error?, List.filterMap_map]
  simp [Function.comp_def, Event.outputLine, Event.error?]

theorem readScript_of_text {openFile : Path → Except SystemFault Bytes} {codecs : Codecs}
    {encoding : Text} {path : Path} {bytes : Bytes} {codec : Codec} {text : Text}
    (opened : openFile path = .ok bytes) (known : Codec.ofName? codecs encoding = .ok codec)
    (decoded : codec bytes = .ok text) :
    readScript openFile codecs encoding path = .ok (Lines.unify text) := by
  rw [readScript, opened]
  simp only [known, decoded]

/-- The exit code after a scan: the one of a data error if a diagnostic was reported. -/
def scanExit (source : Text) : ExitCode :=
  if (Cursor.atStart source).scan.2.diagnostics = [] then .success else .dataError

variable (s : Settings) (path : Path) (source : Text)

theorem hadError_runSource :
    (runSource (reporter s) source).1.hadError = true ↔
      (Cursor.atStart source).scan.2.diagnostics ≠ [] := by
  rw [runSource, Reporter.hadError_reportAll, Cursor.diagnostics_scan]
  simp [reporter, Reporter.fresh]

/-- The last record of a script that has diagnostics: the number of those that are stored. -/
def countRecord (path : Path) (count : Nat) : Event :=
  .record .command
    (path.render ++ ": ".toList ++ Numeral.ofNat count ++ " diagnostics".toList)

/-- What the run of a script does, with `count` diagnostics stored in the end. -/
def scriptEvents (path : Path) (source : Text) (count : Nat) : List Event :=
  .record .command ("read ".toList ++ Numeral.ofNat source.length ++ " characters from ".toList
      ++ path.render) :: scanEvents (Scan.ofSource source)
    ++ if (Cursor.atStart source).scan.2.diagnostics = [] then [] else [countRecord path count]

/-- What the reporter stores shows in nothing but the last record. -/
theorem scriptOutcome_eq :
    scriptOutcome s path source =
      { exit := (scanExit source).code
        verbose := s.verbose
        events := scriptEvents path source (runSource (reporter s) source).1.stored.size } := by
  have failed := hadError_runSource s source
  by_cases clean : (Cursor.atStart source).scan.2.diagnostics = []
  · rw [scriptOutcome, if_neg fun e => failed.1 e clean, scanExit, if_pos clean, scriptEvents,
      if_pos clean, List.append_nil]
    rfl
  · rw [scriptOutcome, if_pos (failed.2 clean), scanExit, if_neg clean, scriptEvents, if_neg clean]
    rfl

/-- The outcome is that of a scan of `source`: a line for every token, a line for every diagnostic,
and the exit code that goes with them. -/
structure Tells (source : Text) (verbose : Bool) (o : Outcome) : Prop where
  exit : o.exit = (scanExit source).code
  verbose_eq : o.verbose = verbose
  outputs : o.outputs = (Cursor.atStart source).scan.2.tokens.map Token.printed
  errors : o.errors = (Cursor.atStart source).scan.2.diagnostics.map Diagnostic.printed

/-- A script run tells the scan of its text, however many diagnostics are stored. -/
theorem tells_scriptOutcome : Tells source s.verbose (scriptOutcome s path source) := by
  rw [scriptOutcome_eq]
  refine ⟨rfl, rfl, ?_, ?_⟩
  · rw [Outcome.outputs, scriptEvents, List.filterMap_append, ← outputs_scanEvents]
    split <;> exact List.append_nil _
  · rw [Outcome.errors, scriptEvents, List.filterMap_append, ← errors_scanEvents]
    split <;> exact List.append_nil _

end Session

end BearLex
