import BearLex.Proofs.LineCut
import BearLex.Proofs.Monitor
import BearLex.Proofs.PromptSession

/-! The same text in a script and at the prompt. A script is scanned as a whole and a session scans
every line anew, but where no line by itself leaves a string open, both print the same tokens and
the same diagnostics: they differ in the lines that the diagnostics tell, and in the tokens at the
end of input. -/

namespace BearLex

/-- The findings of a text without newlines are all on its line, and the same on every line. -/
theorem Phase.watch_of_not_mem {a : Text} (inside : '\n' ∉ a) (phase : Phase) (line other : Nat) :
    watch phase line a = (watch phase other a).map fun f => ⟨line, f.problem⟩ := by
  induction a generalizing phase with
  | nil =>
    rw [watch, watch]
    split <;> rfl
  | cons c a ih =>
    obtain ⟨notFirst, notLater⟩ := not_or.1 (mt List.mem_cons.2 inside)
    rw [watch, watch, if_neg (Ne.symm notFirst), if_neg (Ne.symm notFirst), ih notLater,
      List.map_append]
    split <;> rfl

theorem Problem.message_unexpected_ne (c : Char) :
    (Problem.unexpected c).message ≠ Problem.unterminatedString.message := by
  intro same
  have third : some 'e' = some 't' := congrArg (fun message : Text => message[2]?) same
  exact absurd third (by decide)

namespace Session

/-- What is printed for the tokens of a source, but for the one at the end of input. -/
def words (source : Text) : List Text :=
  ((Cursor.atStart source).scan.2.tokens.filter fun t => t.kind ≠ .endOfInput).map Token.printed

/-- The messages that are reported for a source. -/
def complaints (source : Text) : List Text :=
  (Cursor.atStart source).scan.2.reported.map Prod.snd

/-- The source leaves no string open. -/
def Closed (source : Text) : Prop :=
  Problem.unterminatedString.message ∉ complaints source

/-- What is printed for the token at the end of input. -/
def lastWord : Text := "END  None\n".toList

variable {line source : Text}

theorem words_eq (source : Text) :
    words source = (Scan.ofSource source).words.map Token.printed := by
  rw [words, Cursor.tokens_atStart, Scan.words]

theorem complaints_eq (source : Text) :
    complaints source = (Scan.ofSource source).findings.map fun f => f.problem.message := by
  rw [complaints, (Cursor.scan_atStart source).2.reported, Cursor.atStart, List.nil_append,
    List.map_map]
  rfl

theorem printed_tokens (source : Text) :
    (Cursor.atStart source).scan.2.tokens.map Token.printed = words source ++ [lastWord] := by
  rw [Cursor.tokens_atStart, Scan.ofSource, Scan.tokens_fromLine, List.map_append, words_eq]
  rfl

/-- A token is printed in the same way wherever its source starts. -/
theorem printed_words (first : Nat) (source : Text) :
    (Scan.fromLine first source).words.map Token.printed = words source := by
  have below (lines : Nat) : (Scan.fromLine lines source).words.map Token.printed =
      (Scan.fromLine 0 source).words.map Token.printed := by
    -- Only the lines of the tokens change, and those are not printed.
    rw [← Nat.zero_add lines, Scan.words_fromLine_add, List.map_map]
    rfl
  rw [words_eq, Scan.ofSource, below first, below 1]

theorem diagnostics_of_not_mem (inside : '\n' ∉ line) (number : Nat) :
    (Scan.fromLine number line).diagnostics =
      (complaints line).map fun message => ⟨number, message, []⟩ := by
  rw [Scan.diagnostics, complaints_eq, Scan.ofSource, Phase.findings_fromLine,
    Phase.findings_fromLine, Phase.watch_of_not_mem inside .code number 1, List.map_map,
    List.map_map]
  rfl

theorem Closed.form_ne (closed : Closed source) :
    ∀ s ∈ Segment.ofSource source, s.form ≠ .openString := by
  intro s mem opens
  rw [← Placed.map_segment_along 1 (Segment.ofSource source)] at mem
  obtain ⟨p, placed, rfl⟩ := List.mem_map.1 mem
  have finding : p.segment.finding? p.line =
      some ⟨p.line + Lines.count p.segment.text, .unterminatedString⟩ := by
    rw [Segment.finding?, opens]
  apply closed
  rw [complaints_eq]
  exact List.mem_map.2 ⟨_, List.mem_filterMap.2 ⟨p, placed, finding⟩, rfl⟩

/-- A source leaves no string open if the machine that reads it one character at a time does not
end in a string. -/
theorem closed_iff : Closed source ↔ Phase.after .code source ≠ .string := by
  rw [Closed, complaints_eq, Scan.ofSource, Phase.findings_fromLine, Phase.watch_eq]
  constructor
  · intro closed inString
    rw [if_pos inString] at closed
    exact closed (by simp)
  · intro notInString mem
    rw [if_neg notInString, List.append_nil] at mem
    obtain ⟨f, found, message⟩ := List.mem_map.1 mem
    obtain ⟨offset, -, problem⟩ := List.mem_filterMap.1 found
    unfold Phase.problemAt at problem
    split at problem
    · split at problem
      · cases problem
        exact Problem.message_unexpected_ne _ message
      · cases problem
    · cases problem

/-- The tokens of a source are those of its lines. -/
theorem words_split (closed : ∀ line ∈ Lines.split source, Closed line) :
    words source = (Lines.split source).flatMap words := by
  induction source using Lines.induction_lines with
  | nil =>
    rw [words_eq, Scan.ofSource, Scan.fromLine_nil]
    rfl
  | last line inside nonempty =>
    rw [Lines.split_of_not_mem inside nonempty, List.flatMap_singleton]
  | cons line rest inside ih =>
    rw [Lines.split_append_newline inside] at closed ⊢
    obtain ⟨first, others⟩ := List.forall_mem_cons.1 closed
    rw [words_eq, Scan.ofSource, Scan.words_append_newline first.form_ne, List.map_append,
      printed_words, printed_words, List.flatMap_cons, ih others]

/-- The diagnostics of a source are those of its lines, each on its line. -/
theorem diagnostics_split (number : Nat) (closed : ∀ line ∈ Lines.split source, Closed line) :
    (Scan.fromLine number source).diagnostics =
      ((Lines.split source).zipIdx number).flatMap fun p =>
        (complaints p.1).map fun message => ⟨p.2, message, []⟩ := by
  induction source using Lines.induction_lines generalizing number with
  | nil =>
    rw [Scan.fromLine_nil]
    rfl
  | last line inside nonempty =>
    rw [Lines.split_of_not_mem inside nonempty, diagnostics_of_not_mem inside,
      List.zipIdx_singleton, List.flatMap_singleton]
  | cons line rest inside ih =>
    rw [Lines.split_append_newline inside] at closed ⊢
    obtain ⟨first, others⟩ := List.forall_mem_cons.1 closed
    have sameLine : Lines.count line = 0 := List.count_eq_zero.2 inside
    rw [Scan.diagnostics, Scan.findings_append_newline first.form_ne, List.map_append, sameLine,
      ← Scan.diagnostics, ← Scan.diagnostics, diagnostics_of_not_mem inside, ih _ others,
      List.zipIdx_cons, List.flatMap_cons]

theorem diagnostics_eq_nil_iff (closed : ∀ line ∈ Lines.split source, Closed line) :
    (Scan.ofSource source).diagnostics = [] ↔
      ∀ line ∈ Lines.split source, complaints line = [] := by
  rw [Scan.ofSource, diagnostics_split 1 closed, List.flatMap_eq_nil_iff]
  simp only [List.map_eq_nil_iff]
  constructor
  · intro none line mem
    rw [← List.zipIdx_map_fst 1 (Lines.split source)] at mem
    obtain ⟨p, placed, rfl⟩ := List.mem_map.1 mem
    exact none p placed
  · intro none p placed
    exact none p.1 (List.fst_mem_of_mem_zipIdx placed)

/-- A session prints the tokens of every line, with the one at its end, behind the prompt. -/
theorem outputs_runPrompt (s : Settings) (input : Text) :
    (runPrompt s input).outputs =
      (Lines.split (Lines.unify input)).flatMap
          (fun line => s.prompt :: (words line ++ [lastWord])) ++
        [s.prompt, ['\n']] := by
  rw [Outcome.outputs, runPrompt, events_runLines, List.filterMap_append, List.filterMap_flatMap]
  simp only [List.filterMap_cons, Event.output?, outputs_scanEvents, printed_tokens]
  rfl

/-- A session prints the diagnostics of every line as those of a line 1. -/
theorem errors_runPrompt (s : Settings) (input : Text) :
    (runPrompt s input).errors =
      (Lines.split (Lines.unify input)).flatMap fun line =>
        (complaints line).map fun message => Diagnostic.printed ⟨1, message, []⟩ := by
  rw [Outcome.errors, runPrompt, events_runLines, List.filterMap_append, List.filterMap_flatMap]
  simp only [List.filterMap_cons, Event.error?, errors_scanEvents]
  refine (List.append_nil _).trans (List.flatMap_congr fun line mem => ?_)
  rw [Cursor.diagnostics_scan, Scan.ofSource, diagnostics_of_not_mem (mem_lines mem).1,
    List.map_map]
  rfl

/-- A script and a session at the prompt with the same text, no line of which leaves a string open
by itself, print the same tokens, the script with one token at the end of input and the session with
one for every line, and the same diagnostics, the script as those of their lines and the session as
those of a line 1. The session ends with exit code 0, and the script with 65 if there are
diagnostics for a line and 0 otherwise. -/
theorem script_agrees_with_prompt {openFile : Path → Except SystemFault Bytes} {codecs : Codecs}
    {path : Path} {bytes : Bytes} {codec : Codec} {text : Text} (s s' : Settings)
    (opened : openFile path = .ok bytes) (known : Codec.ofName? codecs s.encoding = .ok codec)
    (decoded : codec bytes = .ok text)
    (closed : ∀ line ∈ Lines.split (Lines.unify text), Closed line) :
    let lines := Lines.split (Lines.unify text)
    let script := runScript openFile codecs s path
    let session := runPrompt s' text
    script.outputs = lines.flatMap words ++ [lastWord] ∧
    session.outputs =
      lines.flatMap (fun line => s'.prompt :: (words line ++ [lastWord])) ++ [s'.prompt, ['\n']] ∧
    script.errors = ((lines.zipIdx 1).flatMap fun p =>
      (complaints p.1).map fun message => Diagnostic.printed ⟨p.2, message, []⟩) ∧
    session.errors = (lines.flatMap fun line =>
      (complaints line).map fun message => Diagnostic.printed ⟨1, message, []⟩) ∧
    session.exit = 0 ∧
    script.exit = if ∃ line ∈ lines, complaints line ≠ [] then 65 else 0 := by
  intro lines script session
  have tells : Tells (Lines.unify text) s.verbose script := by
    show Tells _ _ (runScript openFile codecs s path)
    rw [runScript, readScript_of_text opened known decoded]
    exact tells_scriptOutcome s path (Lines.unify text)
  refine ⟨?_, outputs_runPrompt s' text, ?_, errors_runPrompt s' text, rfl, ?_⟩
  · rw [tells.outputs, printed_tokens, words_split closed]
  · rw [tells.errors, Cursor.diagnostics_scan, Scan.ofSource, diagnostics_split 1 closed,
      List.map_flatMap]
    simp only [List.map_map]
    rfl
  · have clean := diagnostics_eq_nil_iff closed
    rw [tells.exit, scanExit, Cursor.diagnostics_scan]
    by_cases complaint : ∃ line ∈ lines, complaints line ≠ []
    · have found : (Scan.ofSource (Lines.unify text)).diagnostics ≠ [] := by
        obtain ⟨line, mem, some⟩ := complaint
        exact fun none => some (clean.1 none line mem)
      rw [if_neg found, if_pos complaint]
      rfl
    · have none : ∀ line ∈ lines, complaints line = [] := by simpa using complaint
      rw [if_pos (clean.2 none), if_neg complaint]
      rfl

/-- Lines that end with a number and a point, within a comment with a quotation mark, and with a
sign that a further one would make longer. -/
def mixedLines : List Text :=
  ["@ 1.".toList, "\"a\" // \"".toList, "=".toList, "é".toList]

def mixedText : Text :=
  "@ 1.\r\n\"a\" // \"\n=\ré\n".toList

def mixedFile (_ : Path) : Except SystemFault Bytes :=
  .ok (mixedText.map fun c => UInt8.ofNat c.toNat)

def latinSettings : Settings :=
  ⟨"> ".toList, "latin-1".toList, false, 1⟩

theorem script_agrees_with_prompt_mixed :
    (∀ line ∈ mixedLines, Closed line) ∧
    let script := runScript mixedFile (fun _ => none) latinSettings (Path.ofText "a".toList)
    script.outputs = mixedLines.flatMap words ++ [lastWord] ∧
    (script.errors = (mixedLines.zipIdx 1).flatMap fun p =>
      (complaints p.1).map fun message => Diagnostic.printed ⟨p.2, message, []⟩) ∧
    script.exit = 65 := by
  have closed : ∀ line ∈ mixedLines, Closed line := by
    simp only [closed_iff]
    decide
  have complaint : ∃ line ∈ mixedLines, complaints line ≠ [] := by
    refine ⟨"@ 1.".toList, List.mem_cons_self, ?_⟩
    rw [complaints_eq, Scan.ofSource, Phase.findings_fromLine]
    exact List.cons_ne_nil _ _
  have opened : mixedFile (Path.ofText "a".toList) = .ok _ := rfl
  have known : Codec.ofName? (fun _ => none) latinSettings.encoding =
      .ok Encoding.latin1.decode := rfl
  have decoded : Encoding.latin1.decode (mixedText.map fun c => UInt8.ofNat c.toNat) =
      .ok mixedText := rfl
  obtain ⟨outputs, -, errors, -, -, exit⟩ :=
    script_agrees_with_prompt latinSettings latinSettings opened known decoded closed
  exact ⟨closed, outputs, errors, exit.trans (if_pos complaint)⟩

end Session

end BearLex
