import BearLex.Source.Segment
import BearLex.Text.Lines
import BearLex.Token.Basic
import BearLex.Number.Reading
import BearLex.Diagnostic.Basic

/-! The tokens of a source and what is wrong with it. Both are read off its segments, each taken
with the line it starts on. -/

namespace BearLex

/-- What can be wrong with a source. -/
inductive Problem
  | unexpected (c : Char)
  | unterminatedString
  deriving DecidableEq

/-- A problem and the line where it was noticed. -/
structure Finding where
  line : Nat
  problem : Problem
  deriving DecidableEq

namespace Problem

/-- A problem in words. -/
def message : Problem → Text
  | unexpected c => "Unexpected character ".toList ++ Quoted.encode [c] ++ ".".toList
  | unterminatedString => "Unterminated string.".toList

end Problem

namespace Finding

/-- The line and the message of a finding. -/
def entry (f : Finding) : Nat × Text :=
  (f.line, f.problem.message)

/-- A finding is told without a place in its line. -/
def diagnostic (f : Finding) : Diagnostic :=
  ⟨f.line, f.problem.message, []⟩

end Finding

namespace Segment

/-- The value of a lexeme: a number, the text between the quotation marks, or nothing. -/
def literal (kind : Kind) (lexeme : Text) : Literal :=
  match kind with
  | .number => .number (.signed false (Reading.pointed lexeme))
  | .string => .text lexeme.tail.dropLast
  | _ => .absent

/-- The token of a segment that starts on `line`. -/
def token? (line : Nat) (s : Segment) : Option Token :=
  match s.form with
  | .lexeme kind => some ⟨kind, s.text, literal kind s.text, line⟩
  | _ => none

/-- What is wrong with a segment that starts on `line`. An open string is noticed where it ends. -/
def finding? (line : Nat) (s : Segment) : Option Finding :=
  match s.form, s.text with
  | .stray, c :: _ => some ⟨line, .unexpected c⟩
  | .openString, text => some ⟨line + Lines.count text, .unterminatedString⟩
  | _, _ => none

end Segment

/-- A segment and the line it starts on. -/
structure Placed where
  line : Nat
  segment : Segment
  deriving DecidableEq

namespace Placed

/-- The segments from `line` on, each with its line, after those in `before`, which come in
reverse. -/
def along (before : List Placed) (line : Nat) : List Segment → List Placed
  | [] => before.reverse
  | s :: rest => along (⟨line, s⟩ :: before) (line + Lines.count s.text) rest

/-- The segments of a source with their lines. The source starts on `line`. -/
def fromLine (line : Nat) (source : Text) : List Placed :=
  along [] line (Segment.ofSource source)

theorem along_eq (before : List Placed) (line : Nat) (segments : List Segment) :
    along before line segments = before.reverse ++ along [] line segments := by
  induction segments generalizing before line with
  | nil => simp [along]
  | cons s rest ih => rw [along, ih, along, ih [_]]; simp

@[simp] theorem fromLine_nil (line : Nat) : fromLine line [] = [] := by
  simp [fromLine, along]

/-- A source that is not empty is placed segment by segment. -/
theorem fromLine_cons (line : Nat) (c : Char) (ahead : Text) :
    fromLine line (c :: ahead) =
      ⟨line, Segment.first c ahead⟩ ::
        fromLine (line + Lines.count (Segment.first c ahead).text)
          (ahead.drop (Segment.extent c ahead).2) := by
  rw [fromLine, Segment.ofSource_cons, along, along_eq]
  rfl

end Placed

/-- What a source holds: its tokens up to and including the one at the end of input, and what is
wrong with it, both in the order of the source. -/
structure Scan where
  tokens : List Token
  findings : List Finding
  lastLine : Nat

namespace Scan

/-- The scan of a source that starts on `line`. -/
def fromLine (line : Nat) (source : Text) : Scan :=
  let placed := Placed.fromLine line source
  let lastLine := line + Lines.count source
  { tokens := placed.filterMap (fun p => p.segment.token? p.line) ++ [Token.ending lastLine]
    findings := placed.filterMap fun p => p.segment.finding? p.line
    lastLine }

/-- The scan of a source, whose first line is line 1. -/
def ofSource (source : Text) : Scan :=
  fromLine 1 source

@[simp] theorem fromLine_nil (line : Nat) :
    fromLine line [] = ⟨[Token.ending line], [], line⟩ := by
  simp [fromLine, Lines.count]

/-- The scan of a source that is not empty is that of its first segment and that of the rest. -/
theorem fromLine_cons (line : Nat) (c : Char) (ahead : Text) :
    fromLine line (c :: ahead) =
      let s := Segment.first c ahead
      let later := fromLine (line + Lines.count s.text) (ahead.drop (Segment.extent c ahead).2)
      ⟨(s.token? line).toList ++ later.tokens, (s.finding? line).toList ++ later.findings,
        later.lastLine⟩ := by
  have lines : Lines.count (c :: ahead) = Lines.count (Segment.first c ahead).text +
      Lines.count (ahead.drop (Segment.extent c ahead).2) := by
    rw [← Segment.text_first_append, Lines.count_append]
  simp only [fromLine, Placed.fromLine_cons, lines, List.filterMap_cons, Nat.add_assoc]
  cases (Segment.first c ahead).token? line <;> cases (Segment.first c ahead).finding? line <;> rfl

/-- The findings as diagnostics. -/
def diagnostics (s : Scan) : List Diagnostic :=
  s.findings.map Finding.diagnostic

end Scan

end BearLex
