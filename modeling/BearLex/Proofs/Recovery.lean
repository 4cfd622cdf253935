import BearLex.Proofs.Collection
import BearLex.Proofs.Legible
import BearLex.Proofs.Position
import BearLex.Text.Numeral.Lemmas
import BearLex.Text.Quoted.Lemmas
import Mathlib.Data.List.Basic

/-! The diagnostic of a scan is one printable line, and what it is about is read back from it: the
line, the kind of problem and the character. So the report of a reporter that only scans report to
falls apart into the stored diagnostics, whatever characters are in the sources. -/

namespace BearLex

/-- The characters that end a line for one reader of texts or another. -/
def lineBreaks : List Char :=
  ['\n', '\r', '\x0b', '\x0c', '\x1c', '\x1d', '\x1e', '\u0085', '\u2028', '\u2029']

theorem Legible.lineBreak_not_mem {s : Text} (h : Legible s) : ∀ c ∈ lineBreaks, c ∉ s := by
  have unprintable : lineBreaks.all (fun c => !isPrintable c) = true := by decide +kernel
  intro c mem
  apply h.not_mem
  rw [← Bool.not_eq_true']
  exact List.all_eq_true.1 unprintable c mem

/-! ### Findings read back -/

/-- The problem that a message puts in words. -/
def Problem.read? (s : Text) : Option Problem :=
  match "Unexpected character ".toList.isPrefixOf? s with
  | some quoted =>
    match Quoted.decode quoted with
    | some ([c], ['.']) => some (.unexpected c)
    | _ => none
  | none => if s = "Unterminated string.".toList then some .unterminatedString else none

/-- The finding that a line is the diagnostic of. -/
def Finding.read? (s : Text) : Option Finding := do
  let atLine ← "[line ".toList.isPrefixOf? s
  let (line, behindLine) := Numeral.splitInt atLine
  let message ← "] Error: ".toList.isPrefixOf? behindLine
  let problem ← Problem.read? message
  some ⟨line.toNat, problem⟩

theorem Problem.read?_message (p : Problem) : read? p.message = some p := by
  cases p with
  | unexpected c =>
    have quoted : Quoted.decode (Quoted.encode [c] ++ ".".toList) = some ([c], ['.']) :=
      Quoted.decode_encode [c] _
    have pieces : (unexpected c).message =
        "Unexpected character ".toList ++ (Quoted.encode [c] ++ ".".toList) :=
      List.append_assoc _ _ _
    unfold read?
    rw [pieces, List.isPrefixOf?_eq_some_iff_append_eq.2 rfl]
    simp only [quoted]
  | unterminatedString => rfl

/-- A finding is read back from its diagnostic, whatever character it is about. -/
theorem Finding.read?_render (f : Finding) : read? f.diagnostic.render = some f := by
  have pieces : f.diagnostic.render = "[line ".toList ++ (Numeral.ofInt f.line
      ++ ("] Error: ".toList ++ f.problem.message)) := by
    have mark : "] Error: ".toList = "] Error".toList ++ ": ".toList := rfl
    unfold Diagnostic.render
    simp only [diagnostic, mark, List.append_assoc, List.nil_append]
  have line : Numeral.splitInt (Numeral.ofInt f.line ++ ("] Error: ".toList ++ f.problem.message)) =
      ((f.line : Int), "] Error: ".toList ++ f.problem.message) :=
    Numeral.splitInt_ofInt f.line (by decide) _
  rw [read?, pieces]
  simp only [List.isPrefixOf?_eq_some_iff_append_eq.2 rfl, Option.bind_eq_bind, Option.bind_some,
    line, f.problem.read?_message, Int.toNat_natCast]

theorem Finding.render_inj {f f' : Finding} :
    f.diagnostic.render = f'.diagnostic.render ↔ f = f' := by
  refine ⟨fun same => ?_, fun e => by rw [e]⟩
  apply Option.some.inj
  rw [← f.read?_render, ← f'.read?_render, same]

/-- The finding is right about the source: the character stands on the line, or it is the last
line. -/
inductive Finding.HoldsOf (source : Text) : Finding → Prop
  | unexpected {place : Nat} {c : Char} (h : source[place]? = some c) :
    HoldsOf source ⟨1 + Lines.count (source.take place), .unexpected c⟩
  | unterminated : HoldsOf source ⟨1 + Lines.count source, .unterminatedString⟩

/-- Whatever a scan reports is the diagnostic of a finding that is right about the source. -/
theorem Cursor.exists_finding {source : Text} {d : Diagnostic}
    (h : d ∈ (Cursor.atStart source).scan.2.diagnostics) :
    ∃ f : Finding, f.HoldsOf source ∧ d = f.diagnostic := by
  obtain ⟨entry, mem, rfl⟩ := List.mem_map.1 h
  have reported := reported_scan (atStart source)
  rw [reported, ← map_snd_noticed] at mem
  obtain ⟨⟨place, entry⟩, told, rfl⟩ := List.mem_map.1 mem
  have noticed : NoticedAt source place entry := noticedAt_of_mem_noticed told
  cases noticed with
  | unexpected here => exact ⟨_, .unexpected here, rfl⟩
  | unterminated => exact ⟨_, .unterminated, rfl⟩

/-! ### Reporters that only scans report to -/

/-- The action reports nothing of its own. -/
def Action.reportsByScan : Action → Bool
  | report _ => false
  | _ => true

namespace Reporter

/-- Every stored diagnostic is the diagnostic of a finding. -/
def OfFindings (r : Reporter) : Prop :=
  ∀ d ∈ r.stored.toList, ∃ f : Finding, d = f.diagnostic

variable {r : Reporter}

theorem legible_summary (count : Nat) : Legible (summary count) := by
  refine .append (legible_ofNat count) ?_
  split <;> exact .of_all (by decide)

theorem mem_stored_reportAll {ds : List Diagnostic} {d : Diagnostic}
    (h : d ∈ (r.reportAll ds).stored.toList) : d ∈ r.stored.toList ∨ d ∈ ds := by
  obtain ⟨further, stored, kept⟩ := r.stored_reportAll ds
  rw [stored] at h
  rcases List.mem_append.1 h with before | new
  · exact .inl before
  · have reported := kept.sublist.subset new
    rw [List.map_map, Function.comp_def, List.map_id'] at reported
    exact .inr reported

namespace OfFindings

theorem after (h : r.OfFindings) {a : Action} (byScan : a.reportsByScan = true) :
    (r.after a).OfFindings := by
  cases a with
  | report d => cases byScan
  | scan source =>
    intro d mem
    rw [Reporter.after, ← Cursor.diagnostics_scan] at mem
    rcases mem_stored_reportAll mem with before | new
    · exact h d before
    · obtain ⟨f, -, e⟩ := Cursor.exists_finding new
      exact ⟨f, e⟩
  | clear => exact List.forall_mem_nil _
  | setLimit limit => exact h
  | readReport => exact h
  | raise => exact h

theorem afterAll (h : r.OfFindings) {actions : List Action}
    (byScans : ∀ a ∈ actions, a.reportsByScan = true) : (r.afterAll actions).OfFindings := by
  induction actions generalizing r with
  | nil => exact h
  | cons a actions ih =>
    obtain ⟨first, others⟩ := List.forall_mem_cons.1 byScans
    exact ih (h.after first) others

/-- Findings have no newlines in them, so the report is split where it was put together. -/
theorem splitOn_reportText (h : r.OfFindings) :
    r.reportText.splitOn '\n' =
      r.stored.toList.map Diagnostic.render ++ [summary r.stored.size] := by
  refine List.splitOn_intercalate '\n' (fun part mem => ?_) ?_
  · rcases List.mem_append.1 mem with line | last
    · obtain ⟨d, stored, rfl⟩ := List.mem_map.1 line
      obtain ⟨f, rfl⟩ := h d stored
      exact f.newline_not_mem
    · rw [List.mem_singleton.1 last]
      exact (legible_summary _).not_mem (by decide)
  · exact List.append_ne_nil_of_right_ne_nil _ (List.cons_ne_nil _ _)

end OfFindings

end Reporter

/-- The diagnostics of a scan are printable lines, from which the finding is read back, and findings
with the same line of text are the same. A reporter that only scans report to has a report that
splits at its newlines into the stored diagnostics, in their order, and the number of them. -/
theorem scan_diagnostics_read_back (limit : Int) (echoes : Bool) {actions : List Action}
    (byScans : ∀ a ∈ actions, a.reportsByScan = true) :
    (∀ source, ∀ d ∈ (Cursor.atStart source).scan.2.diagnostics,
      Legible d.render ∧ (∀ c ∈ lineBreaks, c ∉ d.render) ∧
      ∃ f : Finding, f.HoldsOf source ∧ d = f.diagnostic ∧ Finding.read? d.render = some f) ∧
    (∀ f f' : Finding, f.diagnostic.render = f'.diagnostic.render ↔ f = f') ∧
    let r := (Reporter.fresh limit echoes).afterAll actions
    let lines := r.reportText.splitOn '\n'
    (∀ d ∈ r.stored.toList, ∃ f : Finding, d = f.diagnostic) ∧
    lines.length = r.stored.size + 1 ∧
    (∀ (i : Nat) (d : Diagnostic), r.stored[i]? = some d → lines[i]? = some d.render) ∧
    lines.getLast? = some (Reporter.summary r.stored.size) := by
  refine ⟨fun source d mem => ?_, fun f f' => Finding.render_inj, ?_⟩
  · obtain ⟨f, holds, rfl⟩ := Cursor.exists_finding mem
    exact ⟨f.legible_diagnostic, f.legible_diagnostic.lineBreak_not_mem, f, holds, rfl,
      f.read?_render⟩
  · intro r lines
    have fresh : (Reporter.fresh limit echoes).OfFindings := List.forall_mem_nil _
    have findings : r.OfFindings := fresh.afterAll byScans
    have split : lines = _ := findings.splitOn_reportText
    refine ⟨findings, ?_, fun i d stored => ?_, ?_⟩
    · rw [split, List.length_append, List.length_map, Array.length_toList, List.length_singleton]
    · obtain ⟨inside, rfl⟩ := Array.getElem?_eq_some_iff.1 stored
      rw [split, List.getElem?_append_left (by simpa using inside), List.getElem?_map]
      simp [inside]
    · rw [split, List.getLast?_concat]

/-- A line separator, then a string that is not closed; the second is not stored after the limit was
lowered, and the report has two lines. -/
theorem scan_diagnostics_read_back_separator :
    let actions : List Action :=
      [.scan "x\u2028".toList, .setLimit 1, .scan "\"".toList, .readReport, .raise]
    let r := (Reporter.fresh 100 false).afterAll actions
    let d : Diagnostic := ⟨1, "Unexpected character '\\u2028'.".toList, []⟩
    (∀ a ∈ actions, a.reportsByScan = true) ∧ r.stored[0]? = some d ∧
    (r.reportText.splitOn '\n')[0]? = some "[line 1] Error: Unexpected character '\\u2028'.".toList ∧
    (r.reportText.splitOn '\n').length = 2 := by
  intro actions r d
  have byScans : ∀ a ∈ actions, a.reportsByScan = true := by decide
  have stored : r.stored[0]? = some d := by decide +kernel
  have size : r.stored.size = 1 := by decide +kernel
  have render : d.render = "[line 1] Error: Unexpected character '\\u2028'.".toList := by
    decide +kernel
  obtain ⟨-, -, -, length, lines, -⟩ := scan_diagnostics_read_back 100 false byScans
  refine ⟨byScans, stored, ?_, ?_⟩
  · rw [← render]
    exact lines 0 d stored
  · rw [length, size]

end BearLex
