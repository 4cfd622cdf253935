import BearLex.Proofs.PromptSession

/-! Details. A run that shows records and traces does the same as one that does not: it ends with
the same exit code and prints the same, and what it writes to standard error is the same but for the
records and traces themselves. The record of a diagnostic stands right in front of its echo. -/

namespace BearLex

namespace Event

/-- An event that writes to standard error; records and traces do where details are asked for. -/
def writesError (verbose : Bool) : Event → Bool
  | error _ => true
  | record _ _ | trace => verbose
  | output _ => false

/-- A record of the log, or the trace of an internal error. -/
def isDetail : Event → Bool
  | record _ _ | trace => true
  | error _ | output _ => false

end Event

namespace Outcome

/-- What is written to standard error, one after the other. -/
def writes (o : Outcome) : List Event :=
  o.events.filter (Event.writesError o.verbose)

theorem stderr_eq_writes (o : Outcome) :
    o.stderr = o.writes.flatMap (Event.onError o.verbose) := by
  rw [stderr, writes]
  induction o.events with
  | nil => rfl
  | cons e events ih =>
    rw [List.flatMap_cons, ih, List.filter_cons]
    cases e with
    | output text => rfl
    | error text => rfl
    | record origin text => cases o.verbose <;> rfl
    | trace => cases o.verbose <;> rfl

theorem writes_quiet (o : Outcome) :
    writes { o with verbose := false } = o.writes.filter fun e => !e.isDetail := by
  rw [writes, writes, List.filter_filter]
  refine List.filter_congr fun e _ => ?_
  cases e <;> rfl

end Outcome

/-- The diagnostics are announced in these writes, one after the other: the record of each stands
right in front of its echo, and between them there are records of other origins only. -/
inductive Announces : List Diagnostic → List Event → Prop
  | nil : Announces [] []
  | diagnostic (d : Diagnostic) {ds : List Diagnostic} {writes : List Event}
    (more : Announces ds writes) :
    Announces (d :: ds)
      (.record .diagnostics ("diagnostic: ".toList ++ d.render) :: .error (d.render ++ ['\n']) ::
        writes)
  | other {origin : Origin} (text : Text) (h : origin ≠ .diagnostics) {ds : List Diagnostic}
    {writes : List Event} (more : Announces ds writes) :
    Announces ds (.record origin text :: writes)

namespace Announces

variable {ds more : List Diagnostic} {writes further : List Event}

theorem append (h : Announces ds writes) (k : Announces more further) :
    Announces (ds ++ more) (writes ++ further) := by
  induction h with
  | nil => exact k
  | diagnostic d _ ih => exact .diagnostic d ih
  | other text h _ ih => exact .other text h ih

end Announces

namespace Session

/-! ### What a run announces -/

theorem announces_scanEvents (source : Text) :
    Announces (Cursor.atStart source).scan.2.diagnostics
      ((scanEvents (Scan.ofSource source)).filter (Event.writesError true)) := by
  have tokens : ((Scan.ofSource source).tokens.map fun t => Event.outputLine t.render).filter
      (Event.writesError true) = [] := by
    rw [List.filter_eq_nil_iff]
    simp [Event.outputLine, Event.writesError]
  have last : Announces [] ((scanRecord (Scan.ofSource source) ::
      (Scan.ofSource source).tokens.map fun t => Event.outputLine t.render).filter
        (Event.writesError true)) := by
    rw [List.filter_cons, tokens]
    exact .other _ (by decide) .nil
  rw [Cursor.diagnostics_scan, scanEvents, List.filter_append]
  induction (Scan.ofSource source).diagnostics with
  | nil => exact last
  | cons d ds ih => exact .diagnostic d ih

theorem announces_scriptEvents (path : Path) (source : Text) (count : Nat) :
    Announces (Cursor.atStart source).scan.2.diagnostics
      ((scriptEvents path source count).filter (Event.writesError true)) := by
  have last : Announces [] ((if (Cursor.atStart source).scan.2.diagnostics = [] then []
      else [countRecord path count]).filter (Event.writesError true)) := by
    split
    · exact .nil
    · exact .other _ (by decide) .nil
  have whole := (announces_scanEvents source).append last
  rw [List.append_nil] at whole
  rw [scriptEvents, List.filter_append]
  exact .other _ (by decide) whole

theorem announces_runLines (prompt : Text) (r : Reporter) (lines : List Text) :
    Announces (lines.flatMap fun line => (Cursor.atStart line).scan.2.diagnostics)
      ((runLines prompt r lines).2.filter (Event.writesError true)) := by
  rw [events_runLines]
  induction lines with
  | nil => exact .nil
  | cons line lines ih =>
    rw [List.flatMap_cons, List.flatMap_cons, List.filter_append]
    exact (announces_scanEvents line).append ih

/-- The texts that a task scans, one after the other; none if it ends before a scan. -/
def Task.sources? (i : Invocation) : Task → Option (List Text)
  | answer _ => none
  | script s path =>
    match readScript i.openFile i.codecs s.encoding path with
    | .ok source => some [source]
    | .error _ => none
  | prompt _ => some (Lines.split (Lines.unify i.input))

/-- The texts that a run scans, one after the other; none if it ends before a scan. -/
def sources? (i : Invocation) : Option (List Text) :=
  (task i.environment i.arguments).sources? i

/-- The diagnostics of the texts scanned are announced in the writes, and there is no record of a
diagnostic if there was no scan. -/
def Announced (writes : List Event) : Option (List Text) → Prop
  | some sources =>
    Announces (sources.flatMap fun source => (Cursor.atStart source).scan.2.diagnostics) writes
  | none => ∀ text, .record .diagnostics text ∉ writes

theorem announced_taskWith (i : Invocation) {s : Settings} (asked : s.verbose = true)
    (scripts : List Text) :
    Announced ((taskWith s scripts).outcome i).writes ((taskWith s scripts).sources? i) := by
  match scripts with
  | [] =>
    have last : Announces [] (([.output s.prompt, .outputLine []] : List Event).filter
        (Event.writesError s.verbose)) := .nil
    have whole := (announces_runLines s.prompt (reporter s)
      (Lines.split (Lines.unify i.input))).append last
    rw [List.append_nil] at whole
    rw [taskWith, Task.outcome, runPrompt, Outcome.writes, List.filter_append, asked]
    rwa [asked] at whole
  | [script] =>
    rw [taskWith, Task.outcome, Task.sources?, runScript]
    cases readScript i.openFile i.codecs s.encoding (Path.ofText script) with
    | error f =>
      intro text
      dsimp only
      rw [Outcome.ofFailure, Outcome.writes]
      cases f.isInternal <;> simp [Event.errorLine]
    | ok source =>
      have whole := announces_scriptEvents (Path.ofText script) source
        (runSource (reporter s) source).1.stored.size
      dsimp only
      rw [Announced, List.flatMap_singleton, scriptOutcome_eq, Outcome.writes, asked]
      exact whole
  | _ :: _ :: _ =>
    intro text
    rw [taskWith, Task.outcome, usageOutcome, Outcome.writes]
    simp [Event.errorLine]

/-! ### Asking for details changes nothing else -/

/-- Whether details are asked for does not change what a task comes to. -/
theorem outcome_taskWith_verbose (i : Invocation) (s : Settings) (verbose : Bool)
    (scripts : List Text) :
    (taskWith { s with verbose } scripts).outcome i =
      { (taskWith s scripts).outcome i with verbose } := by
  match scripts with
  | [] => rfl
  | [script] =>
    rw [taskWith, taskWith, Task.outcome, Task.outcome, runScript, runScript]
    cases readScript i.openFile i.codecs s.encoding (Path.ofText script) with
    | error f => rfl
    | ok source =>
      dsimp only
      rw [scriptOutcome_eq, scriptOutcome_eq]
      rfl
  | _ :: _ :: _ => rfl

theorem verbose_outcome_taskWith (i : Invocation) (s : Settings) (scripts : List Text) :
    ((taskWith s scripts).outcome i).verbose = s.verbose :=
  congrArg Outcome.verbose (outcome_taskWith_verbose i s s.verbose scripts)

end Session

/-- The choices but for those that ask for details. -/
def Choice.withoutVerbose (choices : List Choice) : List Choice :=
  choices.filter (· ≠ .verbose)

theorem Choice.filterMap_withoutVerbose {α : Type} (f : Choice → Option α) (h : f .verbose = none)
    (choices : List Choice) : (withoutVerbose choices).filterMap f = choices.filterMap f := by
  rw [withoutVerbose, List.filterMap_filter]
  refine List.filterMap_congr fun c _ => ?_
  by_cases verbose : c = .verbose
  · rw [if_neg (by simpa using verbose), verbose, h]
  · rw [if_pos (by simpa using verbose)]

theorem Options.ofChoices_withoutVerbose (choices : List Choice) :
    ofChoices (Choice.withoutVerbose choices) = { ofChoices choices with verbose := false } := by
  have none : (Choice.withoutVerbose choices).contains .verbose = false := by
    simp [Choice.withoutVerbose]
  simp only [ofChoices, none, Choice.filterMap_withoutVerbose Choice.script? rfl,
    Choice.filterMap_withoutVerbose Choice.encoding? rfl,
    Choice.filterMap_withoutVerbose Choice.prompt? rfl,
    Choice.filterMap_withoutVerbose Choice.request? rfl]

namespace Invocation

/-- Two invocations that differ at most in whether details are asked for, be it in the variable for
that or in the options for it among the arguments. -/
structure Alike (i j : Invocation) : Prop where
  arguments : (Arguments.choices i.arguments).map Choice.withoutVerbose =
    (Arguments.choices j.arguments).map Choice.withoutVerbose
  environment : { i.environment with verbose := none } = { j.environment with verbose := none }
  input : i.input = j.input
  openFile : i.openFile = j.openFile
  codecs : i.codecs = j.codecs

/-- The options and the environment together ask for details. -/
def asksDetails (i : Invocation) : Bool :=
  match Arguments.options i.arguments with
  | .ok o => (Session.settings i.environment o).verbose
  | .error _ => false

variable {i j : Invocation}

theorem alike_option (i : Invocation) :
    Alike { i with arguments := "-v".toList :: i.arguments } i := by
  refine ⟨?_, rfl, rfl, rfl, rfl⟩
  have first : Arguments.choices ("-v".toList :: i.arguments) =
      (Arguments.choices i.arguments).map ([.verbose] ++ ·) := rfl
  rw [first]
  cases Arguments.choices i.arguments <;> rfl

/-- The run of an invocation with every request for details taken out. -/
def silenced (i : Invocation) : Outcome :=
  match (Arguments.choices i.arguments).map Choice.withoutVerbose with
  | .error f => Session.faultOutcome f
  | .ok choices =>
    (Session.taskOfOptions { i.environment with verbose := none }
      (Options.ofChoices choices)).outcome i

theorem Alike.silenced (h : Alike i j) : i.silenced = j.silenced := by
  simp only [Invocation.silenced, h.arguments, h.environment,
    Session.Task.outcome_congr _ h.openFile h.codecs h.input]

/-- Requests for details decide whether they are shown, and nothing else. -/
theorem run_eq_silenced (i : Invocation) :
    Session.run i = { i.silenced with verbose := (Session.run i).verbose } := by
  rw [Session.run_eq, silenced, Arguments.options]
  cases Arguments.choices i.arguments with
  | error f => rfl
  | ok choices =>
    simp only [Except.map, Options.ofChoices_withoutVerbose]
    generalize Options.ofChoices choices = o
    unfold Session.taskOfOptions
    cases o.request with
    | some r => rfl
    | none =>
      dsimp only
      rw [Session.verbose_outcome_taskWith]
      exact Session.outcome_taskWith_verbose i
        (Session.settings { i.environment with verbose := none } { o with verbose := false })
        (Session.settings i.environment o).verbose o.scripts

theorem asksDetails_of_verbose (h : (Session.run i).verbose = true) : i.asksDetails = true := by
  rw [Session.run_eq] at h
  rw [asksDetails]
  cases parsed : Arguments.options i.arguments with
  | error f =>
    rw [parsed] at h
    cases h
  | ok o =>
    rw [parsed] at h
    dsimp only [Session.taskOfOptions] at h ⊢
    cases request : o.request with
    | some r =>
      rw [request] at h
      cases r <;> cases h
    | none =>
      rw [request] at h
      rwa [Session.verbose_outcome_taskWith] at h

theorem announced_run (asked : i.asksDetails = true) :
    Session.Announced (Session.run i).writes (Session.sources? i) := by
  rw [asksDetails] at asked
  rw [Session.run, Session.sources?, Session.task]
  cases parsed : Arguments.options i.arguments with
  | error f =>
    rw [parsed] at asked
    cases asked
  | ok o =>
    rw [parsed] at asked
    dsimp only [Session.taskOfOptions]
    cases o.request with
    | some r =>
      intro text
      cases r <;>
        simp [Session.Task.outcome, Session.requestOutcome, Outcome.writes, Event.outputLine]
    | none => exact Session.announced_taskWith i asked o.scripts

theorem Alike.run_quiet (h : Alike i j) (silent : j.asksDetails = false) :
    Session.run j = { Session.run i with verbose := false } := by
  -- Only this direction holds: a run that asks for details shows none if it ends before it has its
  -- settings.
  have hidden : (Session.run j).verbose = false :=
    Bool.eq_false_iff.2 fun shown => Bool.eq_false_iff.1 silent (asksDetails_of_verbose shown)
  rw [run_eq_silenced j, run_eq_silenced i, h.silenced, hidden]

end Invocation

open Session in
/-- Of two invocations that differ at most in whether details are asked for, the one that asks for
none ends with the same exit code and prints the same as the other, and what it writes to standard
error is what the other writes there with the records and traces taken out. Where details are asked
for, the record of every diagnostic stands right in front of its echo. -/
theorem verbose_adds_details {loud quiet : Invocation} (alike : loud.Alike quiet)
    (silent : quiet.asksDetails = false) :
    (run loud).exit = (run quiet).exit ∧
    (run loud).stdout = (run quiet).stdout ∧
    ((run loud).writes.filter fun e => !e.isDetail) = (run quiet).writes ∧
    (run loud).stderr = (run loud).writes.flatMap (Event.onError (run loud).verbose) ∧
    (run quiet).stderr =
      ((run loud).writes.filter fun e => !e.isDetail).flatMap (Event.onError false) ∧
    (loud.asksDetails = true → Announced (run loud).writes (sources? loud)) := by
  have same := alike.run_quiet silent
  have writes : ((run loud).writes.filter fun e => !e.isDetail) = (run quiet).writes := by
    rw [same, Outcome.writes_quiet]
  refine ⟨by rw [same], ?_, writes, (run loud).stderr_eq_writes, ?_, Invocation.announced_run⟩
  · rw [same]
    rfl
  · rw [writes, Outcome.stderr_eq_writes, same]

/-- A script in Latin 1 with a stray character in each of two lines. -/
def strayScript : Invocation where
  arguments := ["a.bear".toList]
  environment := ⟨none, some "latin-1".toList, some "no".toList, none⟩
  input := []
  openFile := fun _ => .ok [0x40, 0x0A, 0x23]

open Session in
theorem verbose_adds_details_stray :
    let loud := { strayScript with arguments := ["-v".toList, "a.bear".toList] }
    loud.Alike strayScript ∧ strayScript.asksDetails = false ∧ loud.asksDetails = true ∧
    (run loud).exit = (run strayScript).exit ∧
    ((run loud).writes.filter fun e => !e.isDetail) = (run strayScript).writes ∧
    sources? loud = some ["@\n#".toList] ∧
    Announced (run loud).writes (some ["@\n#".toList]) := by
  intro loud
  have alike : loud.Alike strayScript := Invocation.alike_option strayScript
  have silent : strayScript.asksDetails = false := by decide
  have asked : loud.asksDetails = true := by decide
  have scanned : sources? loud = some ["@\n#".toList] := by decide
  obtain ⟨exit, -, writes, -, -, announced⟩ := verbose_adds_details alike silent
  rw [scanned] at announced
  exact ⟨alike, silent, asked, exit, writes, scanned, announced asked⟩

end BearLex
