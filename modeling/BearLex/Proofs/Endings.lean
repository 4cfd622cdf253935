import Mathlib.Logic.Function.Basic
import BearLex.Encoding.Utf8.Lemmas
import BearLex.Proofs.Streams

/-! How the lines of a text end makes no difference to a run. A text may be written with an LF, a CR
LF or a CR for each of its newlines, as long as no CR stands right in front of an LF that is a
newline of its own; a run that is given the text so written, as a script or as input, is the run
that is given the text itself. -/

namespace BearLex

/-- A way to write a newline. -/
inductive Ending
  | lf
  | crlf
  | cr
  deriving DecidableEq

def Ending.text : Ending → Text
  | lf => ['\n']
  | crlf => ['\r', '\n']
  | cr => ['\r']

namespace Lines

/-- The text with the newline at place `n`, if there is one, written as `endings n` says. -/
def written (endings : Nat → Ending) : Text → Text
  | [] => []
  | c :: rest =>
    (if c = '\n' then (endings 0).text else [c]) ++ written (fun n => endings (n + 1)) rest

/-- No newline that is written CR is directly followed by a newline that is written LF. -/
def Apart (endings : Nat → Ending) (s : Text) : Prop :=
  ∀ n, s[n]? = some '\n' → s[n + 1]? = some '\n' → endings n = .cr → endings (n + 1) ≠ .lf

variable {endings : Nat → Ending} {c : Char} {s : Text}

theorem Apart.tail (h : Apart endings (c :: s)) : Apart (fun n => endings (n + 1)) s :=
  fun n here next => h (n + 1) here next

theorem written_newline (endings : Nat → Ending) (s : Text) :
    written endings ('\n' :: s) = (endings 0).text ++ written (fun n => endings (n + 1)) s := by
  rw [written, if_pos rfl]

theorem written_cons (h : c ≠ '\n') (endings : Nat → Ending) (s : Text) :
    written endings (c :: s) = c :: written (fun n => endings (n + 1)) s := by
  rw [written, if_neg h]
  rfl

/-- A text that is written with an LF in front starts with a newline, and that is written LF. -/
theorem of_written_eq_newline {rest : Text} (plain : '\r' ∉ s)
    (h : written endings s = '\n' :: rest) : s[0]? = some '\n' ∧ endings 0 = .lf := by
  cases s with
  | nil => cases h
  | cons c s =>
    by_cases newline : c = '\n'
    · subst newline
      rw [written_newline] at h
      cases first : endings 0 with
      | lf => exact ⟨rfl, rfl⟩
      | crlf | cr =>
        rw [first] at h
        cases h
    · rw [written_cons newline] at h
      exact absurd (List.cons.inj h).1 newline

/-- However the newlines of a text are written, the text is read. -/
theorem unify_written (plain : '\r' ∉ s) (apart : Apart endings s) :
    unify (written endings s) = s := by
  induction s generalizing endings with
  | nil => rfl
  | cons c s ih =>
    obtain ⟨notReturn, plainRest⟩ := not_or.1 (mt List.mem_cons.2 plain)
    have rest := ih plainRest apart.tail
    by_cases newline : c = '\n'
    · subst newline
      rw [written_newline]
      cases first : endings 0 with
      | lf => exact congrArg ('\n' :: ·) rest
      | crlf => exact congrArg ('\n' :: ·) rest
      | cr =>
        -- What follows the CR does not start with an LF, which would be read with it.
        have alone (t : Text) (follows : written (fun n => endings (n + 1)) s = '\n' :: t) :
            False := by
          obtain ⟨next, feed⟩ := of_written_eq_newline plainRest follows
          exact apart 0 rfl next first feed
        show unify ('\r' :: written (fun n => endings (n + 1)) s) = '\n' :: s
        rw [unify.eq_3 _ alone, rest]
    · have noReturn : c ≠ '\r' := Ne.symm notReturn
      rw [written_cons newline, unify.eq_4 _ _ (fun _ e => absurd e noReturn) noReturn, rest]

end Lines

/-- The invocation with a file of these bytes at a path. -/
def Invocation.holding (i : Invocation) (path : Path) (bytes : Bytes) : Invocation :=
  { i with openFile := Function.update i.openFile path (.ok bytes) }

namespace Session

theorem run_input (i : Invocation) {input input' : Text}
    (same : Lines.unify input = Lines.unify input') :
    run { i with input } = run { i with input := input' } := by
  unfold run
  cases task i.environment i.arguments with
  | answer o => rfl
  | script s path => rfl
  | prompt s =>
    simp only [Task.outcome]
    rw [runPrompt, runPrompt, same]

section

variable {i : Invocation} {s : Settings} {path : Path} {bytes : Bytes} {e : Encoding}
  (script : task i.environment i.arguments = .script s path)

include script

theorem run_holding_eq (bytes : Bytes) :
    run (i.holding path bytes) = runScript (i.holding path bytes).openFile i.codecs s path := by
  have same : task (i.holding path bytes).environment (i.holding path bytes).arguments =
      .script s path := script
  rw [run, same]
  rfl

/-- A script whose bytes are a text is run as that text. -/
theorem run_holding_of_text {text : Text} (known : Encoding.ofName? s.encoding = .ok e)
    (decoded : e.decode bytes = .ok text) :
    run (i.holding path bytes) = scriptOutcome s path (Lines.unify text) := by
  have opened : (i.holding path bytes).openFile path = .ok bytes := Function.update_self _ _ _
  have codec := Codec.ofName?_of_encoding i.codecs known
  rw [run_holding_eq script, runScript, readScript_of_text opened codec decoded]

/-- A script whose bytes are no text ends the run. -/
theorem run_holding_of_fault {fault : UnreadableBytes}
    (known : Encoding.ofName? s.encoding = .ok e) (refused : e.decode bytes = .error fault) :
    run (i.holding path bytes) = .ofFailure s.verbose (.ofBytes fault) := by
  have opened : (i.holding path bytes).openFile path = .ok bytes := Function.update_self _ _ _
  rw [run_holding_eq script, runScript, readScript, opened]
  simp only [Codec.ofName?_of_encoding i.codecs known, refused]

theorem run_holding (known : Encoding.ofName? s.encoding = .ok .utf8) (text : Text) :
    run (i.holding path (Utf8.encode text)) = scriptOutcome s path (Lines.unify text) := by
  have decoded : Encoding.utf8.decode (Utf8.encode text) = .ok text := by
    rw [Encoding.decode, Utf8.decode_encode]
    rfl
  exact run_holding_of_text script known decoded

end

/-- A text without CR may be written with any of the three endings for each of its newlines, as long
as no CR stands right in front of an LF that is a newline of its own: as input of a session, and in
UTF-8 as a script, it is run as the text itself is, with the same exit code and the same of
everything that is written. -/
theorem run_ignores_endings {text : Text} {endings : Nat → Ending} (plain : '\r' ∉ text)
    (apart : Lines.Apart endings text) (i : Invocation) :
    run { i with input := Lines.written endings text } = run { i with input := text } ∧
    ∀ s path, task i.environment i.arguments = .script s path →
      Encoding.ofName? s.encoding = .ok .utf8 →
      run (i.holding path (Utf8.encode (Lines.written endings text))) =
          run (i.holding path (Utf8.encode text)) ∧
        run (i.holding path (Utf8.encode text)) = scriptOutcome s path text := by
  have read : Lines.unify (Lines.written endings text) = text := Lines.unify_written plain apart
  have same : Lines.unify text = text := Lines.unify_of_not_mem plain
  refine ⟨run_input i (read.trans same.symm), fun s path script known => ?_⟩
  rw [run_holding script known, run_holding script known, read, same]
  exact ⟨rfl, rfl⟩

/-- A text with an empty line in a string, and a newline behind a comment. -/
def spreadText : Text :=
  "\"a\n\nb\"//c\n@\n".toList

/-- The newlines of that text written CR, CR LF, CR and LF. -/
def spreadEndings (n : Nat) : Ending :=
  if n = 3 then .crlf else if n = 11 then .lf else .cr

/-- A script, with details asked for. -/
def spreadScript : Invocation where
  arguments := ["-v".toList, "a".toList]
  environment := ⟨none, none, none, none⟩
  input := []
  openFile := fun _ => .error .missing

def spreadSettings : Settings :=
  ⟨"> ".toList, "utf-8".toList, true, 100⟩

theorem run_ignores_endings_spread :
    '\r' ∉ spreadText ∧ Lines.Apart spreadEndings spreadText ∧
    Lines.written spreadEndings spreadText = "\"a\r\r\nb\"//c\r@\n".toList ∧
    run (spreadScript.holding (Path.ofText "a".toList)
        (Utf8.encode (Lines.written spreadEndings spreadText))) =
      run (spreadScript.holding (Path.ofText "a".toList) (Utf8.encode spreadText)) := by
  have plain : '\r' ∉ spreadText := by decide
  have apart : Lines.Apart spreadEndings spreadText := by
    have places : ∀ n < spreadText.length, spreadText[n]? = some '\n' →
        spreadText[n + 1]? = some '\n' → spreadEndings n = .cr → spreadEndings (n + 1) ≠ .lf := by
      decide
    intro n here
    exact places n (List.getElem?_eq_some_iff.1 here).1 here
  have script : task spreadScript.environment spreadScript.arguments =
      .script spreadSettings (Path.ofText "a".toList) := rfl
  have runs := (run_ignores_endings plain apart spreadScript).2 _ _ script rfl
  exact ⟨plain, apart, by decide, runs.1⟩

end Session

end BearLex
