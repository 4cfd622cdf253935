import Mathlib.Data.List.Basic
import BearLex.Proofs.Streams

/-! Sessions at the prompt. Every line is answered as if it were the only one: the reporter that
lives through a session rests in front of every line, with nothing stored and its flag down, and
what a session does for a line depends on nothing but the line. So it makes no difference whether the
input is there at once or is typed in pieces. -/

namespace BearLex

namespace Session

/-- What a session does for a line that is all its input, between the prompt in front of the line
and the last prompt. -/
def soleAnswer (s : Settings) (line : Text) : List Event :=
  ((runPrompt s (line ++ ['\n'])).events.drop 1).dropLast.dropLast

variable {prompt : Text} {s : Settings} {r : Reporter} {line : Text} {before : List Text}

theorem runLines_append (prompt : Text) (r : Reporter) (before after : List Text) :
    runLines prompt r (before ++ after) =
      ((runLines prompt (runLines prompt r before).1 after).1,
        (runLines prompt r before).2 ++
          (runLines prompt (runLines prompt r before).1 after).2) := by
  induction before generalizing r with
  | nil => rfl
  | cons line before ih =>
    rw [List.cons_append, runLines, ih, runLines]
    simp only [List.append_assoc, List.cons_append]

/-- What is done for the lines, one after the other, whatever the reporter holds. -/
theorem events_runLines (prompt : Text) (r : Reporter) (lines : List Text) :
    (runLines prompt r lines).2 =
      lines.flatMap fun line => .output prompt :: scanEvents (Scan.ofSource line) := by
  induction lines generalizing r with
  | nil => rfl
  | cons line lines ih =>
    rw [runLines, List.flatMap_cons, ih]
    rfl

theorem split_unify_line (inside : '\n' ∉ line) (noReturn : '\r' ∉ line) :
    Lines.split (Lines.unify (line ++ ['\n'])) = [line] := by
  have plain : '\r' ∉ line ++ ['\n'] := by simpa using noReturn
  rw [Lines.unify_of_not_mem plain, Lines.split_append_newline inside]
  rfl

theorem soleAnswer_eq (s : Settings) (inside : '\n' ∉ line) (noReturn : '\r' ∉ line) :
    soleAnswer s line = scanEvents (Scan.ofSource line) := by
  rw [soleAnswer, runPrompt, split_unify_line inside noReturn]
  simp only [events_runLines, List.flatMap_singleton, List.cons_append, List.drop_succ_cons,
    List.drop_zero]
  rw [List.dropLast_append_of_ne_nil (List.cons_ne_nil _ _), List.dropLast_cons_cons,
    List.dropLast_singleton, List.dropLast_concat]

/-- A line that was read from input has no line end in it. -/
theorem mem_lines {input : Text} (h : line ∈ Lines.split (Lines.unify input)) :
    '\n' ∉ line ∧ '\r' ∉ line := by
  obtain ⟨inside, sub⟩ := Lines.mem_split h
  exact ⟨inside, fun mem => Lines.return_not_mem_unify input (sub _ mem)⟩

/-- The reporter of a session stands as new in front of a line, but for its echo, which has received
the diagnostics of the lines before. -/
structure Rested (s : Settings) (before : List Text) (r : Reporter) : Prop where
  limit : r.limit = s.maxErrors
  hadError : r.hadError = false
  stored : r.stored = #[]
  echoed : r.echoed = some (before.flatMap fun line =>
    (Cursor.atStart line).scan.2.diagnostics.map Diagnostic.render).toArray

theorem rested_reporter (s : Settings) : Rested s [] (reporter s) :=
  ⟨rfl, rfl, rfl, rfl⟩

/-- A line leaves the reporter rested, whatever is wrong with it. -/
theorem Rested.clear (h : Rested s before r) (line : Text) :
    Rested s (before ++ [line]) (runSource r line).1.clear := by
  refine ⟨?_, rfl, rfl, ?_⟩
  · exact (Reporter.limit_reportAll r _).trans h.limit
  · show (r.reportAll (Scan.ofSource line).diagnostics).echoed = _
    rw [Reporter.echoed_reportAll, h.echoed, ← Cursor.diagnostics_scan, List.flatMap_append]
    simp

theorem rested_runLines (s : Settings) (before : List Text) :
    Rested s before (runLines s.prompt (reporter s) before).1 := by
  induction before using List.reverseRecOn with
  | nil => exact rested_reporter s
  | append_singleton before line ih =>
    rw [runLines_append]
    exact ih.clear line

/-- A session ends with exit code 0. It shows the prompt in front of every line and once more, and
then a newline, and for every line it does what a session does that has no other line: it prints the
tokens of the line and its diagnostics, and nothing of any other line. In front of every line the
reporter has nothing stored and its flag is down. -/
theorem session_isolated (s : Settings) (input : Text) :
    let lines := Lines.split (Lines.unify input)
    (runPrompt s input).exit = 0 ∧ (runPrompt s input).verbose = s.verbose ∧
    (runPrompt s input).events =
      lines.flatMap (fun line => .output s.prompt :: soleAnswer s line) ++
        [.output s.prompt, .outputLine []] ∧
    (∀ line ∈ lines,
      (soleAnswer s line).filterMap Event.output? =
        (Cursor.atStart line).scan.2.tokens.map Token.printed ∧
      (soleAnswer s line).filterMap Event.error? =
        (Cursor.atStart line).scan.2.diagnostics.map Diagnostic.printed) ∧
    ∀ before after, lines = before ++ after →
      let head := (runLines s.prompt (reporter s) before).1
      runLines s.prompt (reporter s) lines =
        ((runLines s.prompt head after).1,
          (runLines s.prompt (reporter s) before).2 ++ (runLines s.prompt head after).2) ∧
      Rested s before head := by
  intro lines
  have answer (line : Text) (h : line ∈ lines) :
      soleAnswer s line = scanEvents (Scan.ofSource line) := by
    obtain ⟨inside, noReturn⟩ := mem_lines h
    exact soleAnswer_eq s inside noReturn
  refine ⟨rfl, rfl, ?_, fun line h => ?_, fun before after split => ?_⟩
  · rw [runPrompt, events_runLines]
    refine congrArg (· ++ _) (List.flatMap_congr fun line h => ?_)
    rw [answer line h]
  · rw [answer line h]
    exact ⟨outputs_scanEvents line, errors_scanEvents line⟩
  · rw [split]
    exact ⟨runLines_append _ _ _ _, rested_runLines s before⟩

/-! ### Typed input -/

/-- Pieces of input as they are typed: each ends with an LF, but perhaps the last. -/
inductive Typed : List Text → Prop
  | nil : Typed []
  | last {piece : Text} (nonempty : piece ≠ []) : Typed [piece]
  | cons (s : Text) {pieces : List Text} (later : Typed pieces) : Typed ((s ++ ['\n']) :: pieces)

/-- What is done for one piece after the other. -/
def resumeAll (prompt : Text) (r : Reporter) : List Text → Reporter × List Event
  | [] => (r, [])
  | piece :: pieces =>
    let ran := resume prompt r piece
    let later := resumeAll prompt ran.1 pieces
    (later.1, ran.2 ++ later.2)

theorem prompt_cons_resume (prompt : Text) (r : Reporter) {piece : Text} (nonempty : piece ≠ []) :
    .output prompt :: (resume prompt r piece).2 =
      (runLines prompt r (Lines.split (Lines.unify piece))).2 ++ [.output prompt] := by
  obtain ⟨line, lines, split⟩ :=
    List.exists_cons_of_ne_nil (Lines.split_ne_nil (Lines.unify_ne_nil nonempty))
  rw [resume, split, runLines]
  rfl

/-- The pieces are answered as the lines of the whole input, with the first prompt in front of all of
them and the last one behind. -/
theorem resumeAll_eq {pieces : List Text} (typed : Typed pieces) (prompt : Text) (r : Reporter) :
    let answered := runLines prompt r (Lines.split (Lines.unify pieces.flatten))
    (resumeAll prompt r pieces).1 = answered.1 ∧
    .output prompt :: (resumeAll prompt r pieces).2 = answered.2 ++ [.output prompt] := by
  induction typed generalizing r with
  | nil => exact ⟨rfl, rfl⟩
  | @last piece nonempty =>
    rw [List.flatten_singleton]
    refine ⟨rfl, ?_⟩
    rw [← prompt_cons_resume prompt r nonempty]
    simp only [resumeAll, List.append_nil]
  | @cons s pieces _ ih =>
    obtain ⟨reporter, events⟩ := ih (resume prompt r (s ++ ['\n'])).1
    have first := prompt_cons_resume prompt r (List.concat_ne_nil '\n' s)
    rw [List.flatten_cons, List.append_assoc, List.singleton_append, Lines.split_unify_append,
      runLines_append]
    refine ⟨reporter, ?_⟩
    rw [resumeAll, ← List.cons_append, first, List.append_assoc, List.singleton_append, events,
      List.append_assoc]
    rfl

/-- A session whose input is typed in pieces shows the prompt, does what is to be done for one piece
after the other, and ends with a newline. -/
theorem events_runPrompt_of_typed {pieces : List Text} (typed : Typed pieces) (s : Settings) :
    (runPrompt s pieces.flatten).events =
      .output s.prompt :: (resumeAll s.prompt (reporter s) pieces).2 ++ [.outputLine []] := by
  rw [(resumeAll_eq typed s.prompt (reporter s)).2, List.append_assoc]
  rfl

end Session

end BearLex
