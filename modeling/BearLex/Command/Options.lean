import BearLex.Text.Quoted

/-! The arguments of the command. Options may stand anywhere up to `--`; short options may be joined
in one argument; an option that takes a value takes the rest of its argument or the next argument,
whatever that looks like. The arguments become choices in their order, and the choices together are
the options: the last value wins, and the first request. -/

namespace BearLex

/-- A request that is answered instead of running anything. -/
inductive Request
  | help
  | version
  deriving DecidableEq

/-- What one option or script says. -/
inductive Choice
  | encoding (name : Text)
  | prompt (text : Text)
  | verbose
  | request (r : Request)
  | script (path : Text)
  deriving DecidableEq

/-- An option that takes a value. -/
inductive ValueOption
  | encoding
  | prompt
  deriving DecidableEq

/-- An option is a choice by itself, or it takes a value. -/
inductive OptionKind
  | flag (c : Choice)
  | valued (o : ValueOption)
  deriving DecidableEq

/-- What is wrong with the arguments. -/
inductive OptionFault
  | unknown (name : Text)
  | needsValue (name : Text)
  | takesNoValue (name : Text)
  deriving DecidableEq

namespace OptionFault

def message : OptionFault → Text
  | unknown name => "No such option ".toList ++ Quoted.encode name ++ ".".toList
  | needsValue name => "Option ".toList ++ Quoted.encode name ++ " requires an argument.".toList
  | takesNoValue name => "Option ".toList ++ Quoted.encode name ++ " does not take a value.".toList

end OptionFault

def ValueOption.choice : ValueOption → Text → Choice
  | encoding, value => .encoding value
  | prompt, value => .prompt value

namespace Choice

def encoding? : Choice → Option Text
  | encoding name => some name
  | _ => none

def prompt? : Choice → Option Text
  | prompt text => some text
  | _ => none

def request? : Choice → Option Request
  | request r => some r
  | _ => none

def script? : Choice → Option Text
  | script path => some path
  | _ => none

end Choice

structure Options where
  scripts : List Text
  encoding : Option Text
  prompt : Option Text
  verbose : Bool
  request : Option Request
  deriving DecidableEq

def Options.ofChoices (choices : List Choice) : Options where
  scripts := choices.filterMap Choice.script?
  encoding := (choices.filterMap Choice.encoding?).getLast?
  prompt := (choices.filterMap Choice.prompt?).getLast?
  verbose := choices.contains .verbose
  request := (choices.filterMap Choice.request?).head?

namespace Arguments

/-- The options with a long name. -/
def long? (name : Text) : Option OptionKind :=
  if name = "--encoding".toList then some (.valued .encoding)
  else if name = "--prompt".toList then some (.valued .prompt)
  else if name = "--verbose".toList then some (.flag .verbose)
  else if name = "--version".toList then some (.flag (.request .version))
  else if name = "--help".toList then some (.flag (.request .help))
  else none

/-- The options with a name of one letter. -/
def short? (letter : Char) : Option OptionKind :=
  if letter = 'e' then some (.valued .encoding)
  else if letter = 'v' then some (.flag .verbose)
  else if letter = 'h' then some (.flag (.request .help))
  else none

/-- What one argument says: some choices, some choices and an option that takes the next argument as
its value, or nothing that makes sense. -/
inductive Meaning
  | choices (cs : List Choice)
  | pending (cs : List Choice) (name : Text) (option : ValueOption)
  | fault (f : OptionFault)

/-- The meaning with one more choice in front. -/
def Meaning.after (c : Choice) : Meaning → Meaning
  | choices cs => choices (c :: cs)
  | pending cs name option => pending (c :: cs) name option
  | fault f => fault f

/-- Short options that stand together after one `-`. -/
def cluster : Text → Meaning
  | [] => .choices []
  | letter :: rest =>
    match short? letter with
    | none => .fault (.unknown ['-', letter])
    | some (.flag c) => (cluster rest).after c
    | some (.valued o) =>
      if rest.isEmpty then .pending [] ['-', letter] o else .choices [o.choice rest]

/-- An option with a long name, and its value if a `=` follows the name. -/
def longOption (arg : Text) : Meaning :=
  let name := arg.takeWhile (· != '=')
  match long? name, arg.dropWhile (· != '=') with
  | none, _ => .fault (.unknown name)
  | some (.flag c), [] => .choices [c]
  | some (.flag _), _ :: _ => .fault (.takesNoValue name)
  | some (.valued o), [] => .pending [] name o
  | some (.valued o), _ :: value => .choices [o.choice value]

/-- The meaning of an argument before `--`. A `-` alone is a script. -/
def meaning (arg : Text) : Meaning :=
  match arg with
  | '-' :: '-' :: _ => longOption arg
  | '-' :: letter :: rest => cluster (letter :: rest)
  | _ => .choices [.script arg]

/-- The choices that the arguments make, read from left to right up to the first fault. -/
def choices : List Text → Except OptionFault (List Choice)
  | [] => .ok []
  | arg :: rest =>
    if arg = "--".toList then .ok (rest.map .script)
    else
      match meaning arg with
      | .fault f => .error f
      | .choices cs => (choices rest).map (cs ++ ·)
      | .pending cs name option =>
        match rest with
        | [] => .error (.needsValue name)
        | value :: rest => (choices rest).map (cs ++ option.choice value :: ·)

def options (args : List Text) : Except OptionFault Options :=
  (choices args).map Options.ofChoices

end Arguments

end BearLex
