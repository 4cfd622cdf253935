import BearLex.Proofs.Completion
import BearLex.Proofs.PromptSession

/-! Who takes the messages of a scan changes nothing in it: with every sink a scan comes to the same
end and sends the same messages. So the limit of a reporter, which decides what is stored, shows
nowhere but in the number of stored diagnostics that the log of a script tells at last. -/

namespace BearLex

/-- A sink that also notes down what it is sent. -/
def Call.noting {σ : Type} (sink : σ → Nat → Text → σ) (s : σ × List (Nat × Text)) (line : Nat)
    (text : Text) : σ × List (Nat × Text) :=
  (sink s.1 line text, s.2 ++ [(line, text)])

theorem Call.foldl_noting {σ : Type} (sink : σ → Nat → Text → σ) (messages : List (Nat × Text))
    (s : σ) (noted : List (Nat × Text)) :
    messages.foldl (fun s m => noting sink s m.1 m.2) (s, noted) =
      (messages.foldl (fun s m => sink s m.1 m.2) s, noted ++ messages) := by
  induction messages generalizing s noted with
  | nil => rw [List.foldl_nil, List.foldl_nil, List.append_nil]
  | cons m messages ih =>
    rw [List.foldl_cons, noting, ih, List.append_assoc]
    rfl

theorem Cursor.counted_scan {c : Cursor} (counted : c.diagnosticCount = c.reported.length) :
    c.scan.2.diagnosticCount = c.scan.2.reported.length := by
  induction c using induction_ahead with
  | ends c e =>
    rw [scan_of_atEnd ((atEnd_iff c).2 e)]
    exact counted
  | goes c char ahead e ih =>
    rw [scan_of_ahead e]
    apply ih
    simp only [past, List.length_append, counted, Option.length_toList, Option.isSome_map]

namespace Session

/-- A reporter at work hears a message: it takes note of the diagnostic, and the diagnostic goes to
the log and to standard error. -/
def hear (work : Reporter × List Event) (line : Nat) (text : Text) : Reporter × List Event :=
  let d : Diagnostic := ⟨line, text, []⟩
  (work.1.report d, work.2 ++ diagnosticEvents d)

/-- What is done after a scan that ended with `c`: the scan tells what it has counted, and the
tokens are printed. -/
def closing (c : Cursor) : List Event :=
  .record .scan
    ("scanned ".toList ++ Numeral.ofNat c.tokens.length ++ " tokens over ".toList
      ++ Numeral.ofNat c.line ++ " lines (".toList ++ Numeral.ofNat c.diagnosticCount
      ++ " diagnostics)".toList)
    :: c.tokens.map fun t => .outputLine t.render

theorem foldl_hear (messages : List (Nat × Text)) (r : Reporter) (done : List Event) :
    messages.foldl (fun work m => hear work m.1 m.2) (r, done) =
      (r.reportAll (messages.map fun m => ⟨m.1, m.2, []⟩),
        done ++
          (messages.map fun m => (⟨m.1, m.2, []⟩ : Diagnostic)).flatMap diagnosticEvents) := by
  induction messages generalizing r done with
  | nil =>
    rw [List.map_nil, List.flatMap_nil, List.append_nil]
    rfl
  | cons m messages ih =>
    rw [List.foldl_cons, hear, ih, List.map_cons, List.flatMap_cons, ← List.append_assoc]
    rfl

/-- What is done for a source is what a reporter at work does while the source is scanned into it,
and then what is done after the scan. -/
theorem runSource_eq (r : Reporter) (source : Text) :
    let told := (Cursor.atStart source).tellScan (Call.heard hear) (r, [])
    runSource r source = (told.2.1, told.2.2 ++ closing told.1.2) := by
  intro told
  obtain ⟨-, complete⟩ := Cursor.scan_atStart source
  have counted := Cursor.counted_scan (c := Cursor.atStart source) rfl
  have reported : (Cursor.atStart source).scan.2.reported =
      (Scan.ofSource source).findings.map Finding.entry := complete.reported
  rw [reported, List.length_map] at counted
  have heard : told = _ := Cursor.tellScan_heard source hear (r, [])
  have closes : closing (Cursor.atStart source).scan.2 =
      scanRecord (Scan.ofSource source) ::
        (Scan.ofSource source).tokens.map fun t => .outputLine t.render := by
    rw [closing, Cursor.tokens_atStart, complete.line, counted]
    rfl
  rw [heard, foldl_hear, closes, runSource, scanEvents, ← Cursor.diagnostics_scan]
  rfl

/-! ### The limit of a run -/

/-- The last line in the log of a script that has diagnostics. -/
def countLine (path : Path) (count : Nat) : Text :=
  "DEBUG: ".toList ++ Origin.command.name ++ ": ".toList
    ++ (path.render ++ ": ".toList ++ Numeral.ofNat count ++ " diagnostics".toList) ++ ['\n']

/-- Two outcomes of runs with these arguments are the same, but for the number in the last line of
the log where details are asked for and the arguments name one script. -/
structure SameButCount (arguments : List Text) (o o' : Outcome) : Prop where
  exit : o.exit = o'.exit
  verbose : o.verbose = o'.verbose
  stdout : o.stdout = o'.stdout
  quiet : o.verbose = false → o.stderr = o'.stderr
  stderr : o.stderr = o'.stderr ∨ ∃ options script before count count',
    Arguments.options arguments = .ok options ∧ options.scripts = [script] ∧
    o.stderr = before ++ countLine (Path.ofText script) count ∧
    o'.stderr = before ++ countLine (Path.ofText script) count'

theorem SameButCount.refl (arguments : List Text) (o : Outcome) : SameButCount arguments o o where
  exit := rfl
  verbose := rfl
  stdout := rfl
  quiet _ := rfl
  stderr := Or.inl rfl

theorem onError_countRecord (path : Path) (count : Nat) :
    (countRecord path count).onError true = countLine path count :=
  rfl

theorem sameButCount_append {arguments : List Text} {options : Options} {script : Text}
    (parsed : Arguments.options arguments = .ok options) (one : options.scripts = [script])
    (exit : Nat) (verbose : Bool) (events : List Event) (count count' : Nat) :
    SameButCount arguments
      ⟨exit, verbose, events ++ [countRecord (Path.ofText script) count]⟩
      ⟨exit, verbose, events ++ [countRecord (Path.ofText script) count']⟩ := by
  have stderr (count : Nat) :
      Outcome.stderr ⟨exit, verbose, events ++ [countRecord (Path.ofText script) count]⟩ =
        events.flatMap (Event.onError verbose) ++
          (countRecord (Path.ofText script) count).onError verbose := by
    rw [Outcome.stderr, List.flatMap_append, List.flatMap_singleton]
  refine ⟨rfl, rfl, ?_, ?_, ?_⟩
  · rw [Outcome.stdout, Outcome.stdout, List.flatMap_append, List.flatMap_append]
    rfl
  · rintro rfl
    rw [stderr, stderr]
    rfl
  -- The record is the last line where details are asked for, and not written where they are not.
  · cases verbose with
    | false =>
      rw [stderr, stderr]
      exact .inl rfl
    | true =>
      rw [stderr, stderr, onError_countRecord, onError_countRecord]
      exact .inr ⟨options, script, _, count, count', parsed, one, rfl, rfl⟩

variable {i : Invocation} {o : Options}

theorem sameButCount_runScript {script : Text}
    (parsed : Arguments.options i.arguments = .ok o) (one : o.scripts = [script]) (s : Settings)
    (limit : Nat) :
    SameButCount i.arguments (runScript i.openFile i.codecs s (Path.ofText script))
      (runScript i.openFile i.codecs { s with maxErrors := limit } (Path.ofText script)) := by
  unfold runScript
  cases readScript i.openFile i.codecs s.encoding (Path.ofText script) with
  | error f => exact .refl _ _
  | ok source =>
    dsimp only
    rw [scriptOutcome_eq, scriptOutcome_eq]
    unfold scriptEvents
    split
    · exact .refl _ _
    · exact sameButCount_append parsed one _ _ _ _ _

theorem sameButCount_taskWith (parsed : Arguments.options i.arguments = .ok o) (s : Settings)
    (limit : Nat) :
    SameButCount i.arguments ((taskWith s o.scripts).outcome i)
      ((taskWith { s with maxErrors := limit } o.scripts).outcome i) := by
  match scripts : o.scripts with
  | [] =>
    have same : runPrompt s i.input = runPrompt { s with maxErrors := limit } i.input := by
      simp only [runPrompt, events_runLines]
    rw [taskWith, taskWith, Task.outcome, Task.outcome, ← same]
    exact .refl _ _
  | [script] => exact sameButCount_runScript parsed scripts s limit
  | _ :: _ :: _ => exact .refl _ _

end Session

/-- The invocation with a text, or none, in the variable that sets the limit. -/
def Invocation.withLimit (i : Invocation) (limit : Option Text) : Invocation :=
  { i with environment := { i.environment with maxErrors := limit } }

theorem Session.sameButCount_run (i : Invocation) (limit limit' : Option Text) :
    SameButCount i.arguments (run (i.withLimit limit)) (run (i.withLimit limit')) := by
  have same (limit : Option Text) : (i.withLimit limit).arguments = i.arguments := rfl
  rw [run_eq, run_eq, same, same]
  cases parsed : Arguments.options i.arguments with
  | error f => exact .refl _ _
  | ok o =>
    dsimp only
    unfold taskOfOptions
    cases o.request with
    | some r => exact .refl _ _
    | none =>
      have files := Task.outcome_congr (i := i.withLimit limit') (j := i.withLimit limit)
      dsimp only
      rw [files _ rfl rfl rfl]
      exact sameButCount_taskWith (i := i.withLimit limit) parsed _ _

/-- Two sinks, whatever they make of the messages, are sent the same messages by a scan, and the
scan comes without a fault to the same end with the same tokens. A run scans into its reporter in
this way, and prints what the scan ends with. So two runs that differ in the text that sets the
limit, be it a number or not, have the same exit code and the same standard output, and the same
standard error but for the number that the log of a script tells at last. -/
theorem limit_unseen :
    (∀ (source : Text) (σ σ' : Type) (sink : σ → Nat → Text → σ) (sink' : σ' → Nat → Text → σ')
      (s : σ) (s' : σ'),
      let told := (Cursor.atStart source).tellScan (Call.heard (Call.noting sink)) (s, [])
      let told' := (Cursor.atStart source).tellScan (Call.heard (Call.noting sink')) (s', [])
      told.1.1 = none ∧ told.1 = told'.1 ∧ told.2.2 = told'.2.2 ∧
      (told.1, told.2.1) = (Cursor.atStart source).tellScan (Call.heard sink) s) ∧
    (∀ (r : Reporter) (source : Text),
      let told := (Cursor.atStart source).tellScan (Call.heard Session.hear) (r, [])
      Session.runSource r source = (told.2.1, told.2.2 ++ Session.closing told.1.2)) ∧
    ∀ (i : Invocation) (limit limit' : Option Text),
      Session.SameButCount i.arguments (Session.run (i.withLimit limit))
        (Session.run (i.withLimit limit')) := by
  refine ⟨?_, Session.runSource_eq, Session.sameButCount_run⟩
  intro source σ σ' sink sink' s s' told told'
  have heard : told = _ := Cursor.tellScan_heard source (Call.noting sink) (s, [])
  have heard' : told' = _ := Cursor.tellScan_heard source (Call.noting sink') (s', [])
  rw [Call.foldl_noting] at heard heard'
  rw [heard, heard', Cursor.tellScan_heard]
  exact ⟨(Cursor.scan_atStart source).1, rfl, rfl, rfl⟩

end BearLex
