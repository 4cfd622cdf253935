import BearLex.Command.Session

/-! Options and variables of the environment say the same. The settings of a run are those of the
environment, changed by one choice after the other; so a choice in front of all others counts where
the variable of its kind counts, and a run with the choice is the run with the variable set to
it. -/

namespace BearLex

/-- The settings after a choice. Requests and scripts set nothing. -/
def Settings.override (s : Settings) : Choice → Settings
  | .encoding name => { s with encoding := name }
  | .prompt text => { s with prompt := text }
  | .verbose => { s with verbose := true }
  | .request _ | .script _ => s

theorem Settings.changed_cons (s : Settings) (c : Choice) (choices : List Choice) :
    s.changed (Options.ofChoices (c :: choices)) =
      (s.override c).changed (Options.ofChoices choices) := by
  cases c with
  | encoding name =>
    have last : ((Choice.encoding name :: choices).filterMap Choice.encoding?).getLast? =
        some (((choices.filterMap Choice.encoding?).getLast?).getD name) := List.getLast?_cons
    simp only [changed, override, Options.ofChoices, last, Option.getD_some]
    rfl
  | prompt text =>
    have last : ((Choice.prompt text :: choices).filterMap Choice.prompt?).getLast? =
        some (((choices.filterMap Choice.prompt?).getLast?).getD text) := List.getLast?_cons
    simp only [changed, override, Options.ofChoices, last, Option.getD_some]
    rfl
  | verbose =>
    have asked : (Choice.verbose :: choices).contains .verbose = true := by simp
    simp only [changed, override, Options.ofChoices, asked, Bool.or_true, Bool.true_or]
    rfl
  | request r =>
    rfl
  | script path =>
    rfl

/-- Of choices that set the same, the last one counts. -/
theorem Settings.changed_ofChoices (s : Settings) (choices : List Choice) :
    s.changed (Options.ofChoices choices) = choices.foldl override s := by
  induction choices generalizing s with
  | nil => simp [changed, Options.ofChoices]
  | cons c choices ih => rw [changed_cons, ih, List.foldl_cons]

/-- The environment with the variable of a choice set to what the choice says. -/
def Environment.override (environment : Environment) : Choice → Environment
  | .encoding name => { environment with encoding := some name }
  | .prompt text => { environment with prompt := some text }
  | .verbose => { environment with verbose := some "1".toList }
  | .request _ | .script _ => environment

/-- A choice that a variable can say as well. An empty name of an encoding is one as an option, but
counts as absent in the environment. -/
def Choice.IsSetting : Choice → Prop
  | .encoding name => name ≠ []
  | .prompt _ | .verbose => True
  | .request _ | .script _ => False

namespace Session

variable {c : Choice}

theorem ofEnvironment_override (h : c.IsSetting) (environment : Environment) :
    Settings.ofEnvironment (environment.override c) =
      (Settings.ofEnvironment environment).override c := by
  cases c with
  | encoding name =>
    have nonempty : name ≠ [] := h
    simp only [Environment.override, Settings.override, Settings.ofEnvironment,
      Settings.filter_encoding nonempty, Option.getD_some]
  | prompt text => rfl
  | verbose => rfl
  | request r => cases h
  | script path => cases h

theorem settings_ofChoices (environment : Environment) (choices : List Choice) :
    settings environment (Options.ofChoices choices) =
      choices.foldl Settings.override (Settings.ofEnvironment environment) :=
  Settings.changed_ofChoices _ choices

/-- A run whose arguments make one setting more, in front of all other choices, is the run with that
setting in the environment. -/
theorem run_override {i : Invocation} {arguments : List Text} (h : c.IsSetting)
    (first : Arguments.choices arguments = (Arguments.choices i.arguments).map ([c] ++ ·)) :
    run { i with arguments } = run { i with environment := i.environment.override c } := by
  rw [run_eq, run_eq]
  dsimp only
  rw [Arguments.options, Arguments.options, first]
  cases Arguments.choices i.arguments with
  | error f => rfl
  | ok choices =>
    have settings : settings i.environment (Options.ofChoices (c :: choices)) =
        settings (i.environment.override c) (Options.ofChoices choices) := by
      rw [settings_ofChoices, settings_ofChoices, List.foldl_cons, ofEnvironment_override h]
    have same : (Options.ofChoices (c :: choices)).scripts = (Options.ofChoices choices).scripts ∧
        (Options.ofChoices (c :: choices)).request = (Options.ofChoices choices).request := by
      cases c with
      | request r => cases h
      | script path => cases h
      | _ => exact ⟨rfl, rfl⟩
    simp only [Except.map, taskOfOptions, List.singleton_append, settings, same.1, same.2]
    exact Task.outcome_congr _ rfl rfl rfl

/-- An option in front of the arguments and the variable for it say the same, whatever the arguments
are: a name of an encoding that is not empty, a prompt, and the wish for details. -/
theorem options_as_variables (i : Invocation) :
    (∀ name, name ≠ [] →
      run { i with arguments := "-e".toList :: name :: i.arguments } =
        run { i with environment := { i.environment with encoding := some name } }) ∧
    (∀ text,
      run { i with arguments := "--prompt".toList :: text :: i.arguments } =
        run { i with environment := { i.environment with prompt := some text } }) ∧
    run { i with arguments := "-v".toList :: i.arguments } =
      run { i with environment := { i.environment with verbose := some "1".toList } } :=
  ⟨fun name given => run_override (c := .encoding name) given rfl,
    fun text => run_override (c := .prompt text) trivial rfl,
    run_override (c := .verbose) trivial rfl⟩

/-- A script with a later option that takes `--` as the name of an encoding, and another encoding in
the environment. -/
def dashedScript : Invocation where
  arguments := ["-ve".toList, "--".toList, "a.bear".toList]
  environment := ⟨none, some "ascii".toList, none, none⟩
  input := []
  openFile := fun _ => .ok [0xE9]

theorem options_as_variables_dashed :
    "latin-1".toList ≠ [] ∧
    run { dashedScript with
      arguments := ["-e".toList, "latin-1".toList, "-ve".toList, "--".toList, "a.bear".toList] } =
    run { dashedScript with environment := ⟨none, some "latin-1".toList, none, none⟩ } :=
  ⟨by decide, (options_as_variables dashedScript).1 "latin-1".toList (by decide)⟩

end Session

end BearLex
