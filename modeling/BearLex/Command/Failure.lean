import BearLex.Encoding.Basic

/-! What ends a run early: how it is told to the user and with which exit code. -/

namespace BearLex

inductive ExitCode
  | success
  | usage
  | dataError
  | noInput
  | software
  deriving DecidableEq

namespace ExitCode

def all : List ExitCode := [success, usage, dataError, noInput, software]

def code : ExitCode → Nat
  | success => 0
  | usage => 64
  | dataError => 65
  | noInput => 66
  | software => 70

def name : ExitCode → Text
  | success => "SUCCESS".toList
  | usage => "USAGE".toList
  | dataError => "DATA_ERROR".toList
  | noInput => "NO_INPUT".toList
  | software => "SOFTWARE".toList

def ofCode? (n : Int) : Option ExitCode :=
  all.find? fun e => (e.code : Int) == n

theorem ofCode?_code (e : ExitCode) : ofCode? e.code = some e := by cases e <;> decide

end ExitCode

/-- One of the values that an error was raised with. -/
inductive Detail
  | number (n : Int)
  | text (t : Text)
  deriving DecidableEq

namespace Detail

def plain : Detail → Text
  | number n => Numeral.ofInt n
  | text t => t

def quoted : Detail → Text
  | number n => Numeral.ofInt n
  | text t => Quoted.encode t

/-- Several values as one text: nothing for none, a single value as it is, more of them in
parentheses. -/
def list : List Detail → Text
  | [] => []
  | [d] => d.plain
  | ds => '(' :: Text.join ", ".toList (ds.map quoted) ++ [')']

end Detail

/-- What an operating system objects to. -/
inductive SystemFault
  | missing
  | denied
  | isFolder
  | notFolder
  | nameTooLong
  | other
  deriving DecidableEq

namespace SystemFault

/-- The fault of an error number. -/
def ofNumber : Int → SystemFault
  | 1 => denied
  | 2 => missing
  | 13 => denied
  | 20 => notFolder
  | 21 => isFolder
  | 36 => nameTooLong
  | _ => other

/-- The number and the words for a fault of opening a file. -/
def description : SystemFault → Int × Text
  | missing => (2, "No such file or directory".toList)
  | denied => (13, "Permission denied".toList)
  | isFolder => (21, "Is a directory".toList)
  | notFolder => (20, "Not a directory".toList)
  | nameTooLong => (36, "File name too long".toList)
  | other => (5, "Input/output error".toList)

/-- The fault and its details in words: a number, a text and perhaps the path, or whatever else was
given. -/
def message : List Detail → Text
  | [number, words] => errno number words
  | [number, words, path] => errno number words ++ ": ".toList ++ path.quoted
  | [number, words, path, _] => errno number words ++ ": ".toList ++ path.quoted
  | [number, words, path, _, target] =>
    errno number words ++ ": ".toList ++ path.quoted ++ " -> ".toList ++ target.quoted
  | details => Detail.list details
where
  /-- The number and the text of a fault. -/
  errno (number words : Detail) : Text :=
    "[Errno ".toList ++ number.plain ++ "] ".toList ++ words.plain

end SystemFault

/-- What ends a run early. -/
inductive Failure
  | undecodable (f : DecodeFault)
  | unencodable (f : EncodeFault)
  | system (fault : SystemFault) (details : List Detail)
  | encodingName (f : NameFault)
  | noByteOrderMark
  | missingKey (key : Detail)
  | other (details : List Detail)
  deriving DecidableEq

namespace Failure

def ofOpening (fault : SystemFault) (path : Text) : Failure :=
  .system fault [.number fault.description.1, .text fault.description.2, .text path]

/-- The failure to read the bytes of a file. -/
def ofBytes : UnreadableBytes → Failure
  | .fault f => .undecodable f
  | .noMark => .noByteOrderMark
  | .refused message => .other [.text message]

def message : Failure → Text
  | undecodable f => f.message
  | unencodable f => f.message
  | system _ details => SystemFault.message details
  | encodingName f => f.message
  | noByteOrderMark => "UTF-16 stream does not start with BOM".toList
  | missingKey key => key.quoted
  | other details => Detail.list details

def exitCode : Failure → ExitCode
  | undecodable _ => .dataError
  | system .missing _ | system .denied _ | system .isFolder _ => .noInput
  | _ => .software

def announcement (f : Failure) : Text :=
  match f.exitCode with
  | .dataError => "Error: cannot decode source: ".toList ++ f.message
  | .noInput => "Error: ".toList ++ f.message
  | _ => "Internal error: ".toList ++ f.message

/-- A failure of the command itself, which leaves a trace where details are asked for. -/
def isInternal (f : Failure) : Bool :=
  f.exitCode == .software

end Failure

end BearLex
