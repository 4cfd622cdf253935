import BearLex.Proofs.Completion
import BearLex.Proofs.LineByLine

/-! A scan comes apart at every place where its loop is at its head. What is in front of the place
is scanned as it would be by itself, and what is behind it as a source of its own, on later lines.
-/

namespace BearLex

theorem fraction_of_append {s t : Text} (h : fraction (s ++ t) = []) : fraction s = [] := by
  match s with
  | [] | [_] => rfl
  | c :: d :: rest =>
    have none : ¬ (c = '.' ∧ d.isDigit = true) := by
      intro both
      rw [List.cons_append, List.cons_append, fraction, if_pos both] at h
      cases h
    exact if_neg none

theorem Text.takeWhile_of_append {p : Char → Bool} {s t : Text}
    (h : (s ++ t).takeWhile p = []) : s.takeWhile p = [] := by
  cases s with
  | nil => rfl
  | cons c s =>
    have first : ¬ p c = true := by
      intro first
      rw [List.cons_append, List.takeWhile_cons_of_pos first] at h
      cases h
    exact List.takeWhile_cons_of_neg first

/-- What does not make a text longer does not do so when it is cut short. -/
theorem Form.Ends.of_append {form : Form} {text following rest : Text}
    (h : form.Ends text (following ++ rest)) : form.Ends text following := by
  by_cases empty : following = []
  · subst empty
    exact form.ends_nil text
  match form with
  | .comment => exact Text.takeWhile_of_append h
  | .lexeme (.symbol s) =>
    obtain ⟨c, more, rfl⟩ := List.exists_cons_of_ne_nil empty
    exact h
  | .lexeme .number =>
    obtain ⟨noDigit, noFraction⟩ := h
    exact ⟨Text.takeWhile_of_append noDigit, fun noPoint => fraction_of_append (noFraction noPoint)⟩
  | .lexeme .identifier | .lexeme (.keyword _) => exact Text.takeWhile_of_append h
  | .lexeme .string | .lexeme .endOfInput => trivial
  | .blank | .newline | .stray | .openString => trivial

namespace Segment

variable {c : Char} {ahead source : Text} {before after : List Segment}

/-- Nothing follows an open string. -/
theorem drop_of_openString (h : (first c ahead).form = .openString) :
    ahead.drop (extent c ahead).2 = [] := by
  have cases : Extent c ahead (first c ahead).form (extent c ahead).2 := extent_cases c ahead
  rw [h] at cases
  generalize (extent c ahead).2 = count at cases ⊢
  cases cases with
  | unclosed => exact List.drop_length

/-- The first segment of a text is that of the text cut short anywhere behind it. -/
theorem ofSource_first_append {kept : Text} (start : kept <+: ahead.drop (extent c ahead).2) :
    ofSource ((first c ahead).text ++ kept) = first c ahead :: ofSource kept := by
  rcases first_cases c ahead with lexical | ⟨-, -, unclosed⟩ | ⟨foreign, stray⟩
  · obtain ⟨rest, split⟩ := start
    have ends := first_ends c ahead
    rw [← split] at ends
    exact lexical.ofSource_append ends.of_append
  · have nothing := drop_of_openString (congrArg form unclosed)
    rw [nothing, List.prefix_nil] at start
    subst start
    rw [List.append_nil, unclosed, ofSource_cons, unclosed, nothing]
  · rw [stray, List.singleton_append, ofSource_of_isForeign foreign]

/-- The segments of a source, taken apart, are the segments of its two parts. -/
theorem ofSource_of_append (h : ofSource source = before ++ after) :
    ofSource (before.flatMap text) = before ∧ ofSource (after.flatMap text) = after := by
  induction source using induction_rest generalizing before with
  | nil =>
    rw [ofSource_nil] at h
    obtain ⟨rfl, rfl⟩ := List.append_eq_nil_iff.1 h.symm
    exact ⟨ofSource_nil, ofSource_nil⟩
  | cons c ahead ih =>
    cases before with
    | nil =>
      rw [List.nil_append] at h
      rw [← h, flatMap_text_ofSource]
      exact ⟨ofSource_nil, rfl⟩
    | cons s before =>
      rw [ofSource_cons, List.cons_append] at h
      obtain ⟨rfl, rest⟩ := List.cons.inj h
      obtain ⟨front, back⟩ := ih rest
      have start : before.flatMap text <+: ahead.drop (extent c ahead).2 := by
        rw [← flatMap_text_ofSource (ahead.drop (extent c ahead).2), rest, List.flatMap_append]
        exact List.prefix_append _ _
      refine ⟨?_, back⟩
      rw [List.flatMap_cons, ofSource_first_append start, front]

/-- Only the last segment can be an open string. -/
theorem form_ne_openString (h : ofSource source = before ++ after) (more : after ≠ []) :
    ∀ s ∈ before, s.form ≠ .openString := by
  induction source using induction_rest generalizing before with
  | nil =>
    rw [ofSource_nil] at h
    exact absurd (List.append_eq_nil_iff.1 h.symm).2 more
  | cons c ahead ih =>
    cases before with
    | nil => exact List.forall_mem_nil _
    | cons s before =>
      rw [ofSource_cons, List.cons_append] at h
      obtain ⟨rfl, rest⟩ := List.cons.inj h
      refine List.forall_mem_cons.2 ⟨?_, ih rest⟩
      intro isOpen
      rw [drop_of_openString isOpen, ofSource_nil] at rest
      exact more (List.append_eq_nil_iff.1 rest.symm).2

end Segment

namespace Placed

/-- The segments of a source, taken apart, on their lines. -/
theorem fromLine_of_append {source : Text} {before after : List Segment}
    (h : Segment.ofSource source = before ++ after) (line : Nat) :
    fromLine line source =
      fromLine line (before.flatMap Segment.text) ++
        fromLine (line + Lines.count (before.flatMap Segment.text))
          (after.flatMap Segment.text) := by
  obtain ⟨front, back⟩ := Segment.ofSource_of_append h
  rw [fromLine, fromLine, fromLine, h, front, back, along_append]

end Placed

/-- The diagnostic for a line that is `lines` lines further down. -/
def Diagnostic.below (lines : Nat) (d : Diagnostic) : Diagnostic :=
  { d with line := d.line + lines }

theorem Finding.diagnostic_below (lines : Nat) (f : Finding) :
    (f.below lines).diagnostic = f.diagnostic.below lines := by
  rw [diagnostic, below, Int.natCast_add]
  rfl

theorem Token.below_ending (line lines : Nat) :
    (Token.ending line).below lines = Token.ending (line + lines) := by
  rw [Token.ending, Token.ending, Int.natCast_add]
  rfl

namespace Scan

variable {source : Text} {before after : List Segment}
  (h : Segment.ofSource source = before ++ after)
include h

theorem tokens_of_append :
    (ofSource source).tokens =
      (ofSource (before.flatMap Segment.text)).words ++
        (ofSource (after.flatMap Segment.text)).tokens.map
          (Token.below (Lines.count (before.flatMap Segment.text))) := by
  have lines : Lines.count source =
      Lines.count (after.flatMap Segment.text) + Lines.count (before.flatMap Segment.text) := by
    rw [← Segment.flatMap_text_ofSource source, h, List.flatMap_append, Lines.count_append,
      Nat.add_comm]
  rw [ofSource, tokens_fromLine, words_fromLine, Placed.fromLine_of_append h, List.filterMap_append,
    ← words_fromLine, ← words_fromLine, words_fromLine_add, ofSource, ofSource, tokens_fromLine,
    List.map_append, List.map_singleton, Token.below_ending, lines, Nat.add_assoc,
    List.append_assoc]

theorem findings_of_append (line : Nat) :
    (fromLine line source).findings =
      (fromLine line (before.flatMap Segment.text)).findings ++
        (fromLine (line + Lines.count (before.flatMap Segment.text))
          (after.flatMap Segment.text)).findings := by
  rw [findings_fromLine, Placed.fromLine_of_append h, List.filterMap_append, ← findings_fromLine,
    ← findings_fromLine]

theorem diagnostics_of_append :
    (ofSource source).diagnostics =
      (ofSource (before.flatMap Segment.text)).diagnostics ++
        (ofSource (after.flatMap Segment.text)).diagnostics.map
          (Diagnostic.below (Lines.count (before.flatMap Segment.text))) := by
  rw [diagnostics, ofSource, findings_of_append h, findings_fromLine_add, List.map_append,
    List.map_map, diagnostics, diagnostics, List.map_map]
  exact congrArg (_ ++ ·) (List.map_congr_left fun f _ => f.diagnostic_below _)

end Scan

namespace Cursor

/-- The places at which the loop of a scan is at its head, the end included. -/
def places (c : Cursor) : List Nat :=
  c.heads.map current ++ [c.scan.2.current]

theorem mem_places_iff (c : Cursor) {p : Nat} :
    p ∈ c.places ↔ ∃ before after, Segment.ofSource c.ahead = before ++ after ∧
      p = c.current + (before.flatMap Segment.text).length := by
  induction c using induction_ahead with
  | ends c e =>
    rw [places, heads_of_nil e, scan_of_atEnd ((atEnd_iff c).2 e), e, Segment.ofSource_nil]
    simp
  | goes c char ahead e ih =>
    have places_eq : c.places = c.current :: (c.past (Segment.first char ahead)).places := by
      rw [places, heads_of_ahead e, scan_of_ahead e]
      rfl
    rw [places_eq, List.mem_cons, ih, e, Segment.ofSource_cons, ahead_past e]
    constructor
    · rintro (rfl | ⟨before, after, split, rfl⟩)
      · exact ⟨[], _, rfl, rfl⟩
      · refine ⟨_ :: before, after, congrArg (_ :: ·) split, ?_⟩
        rw [current_past, List.flatMap_cons, List.length_append, Nat.add_assoc]
    · rintro ⟨before, after, split, rfl⟩
      cases before with
      | nil => exact .inl rfl
      | cons s before =>
        obtain ⟨rfl, rest⟩ := List.cons.inj split
        refine .inr ⟨before, after, rest, ?_⟩
        rw [current_past, List.flatMap_cons, List.length_append, Nat.add_assoc]

theorem mem_places_atStart {source : Text} {p : Nat} :
    p ∈ (atStart source).places ↔ ∃ before after, Segment.ofSource source = before ++ after ∧
      p = (before.flatMap Segment.text).length := by
  rw [mem_places_iff]
  simp only [atStart, Nat.zero_add]
  rfl

end Cursor

namespace Session

/-- A text leaves no string open if and only if none of its segments is an open string. -/
theorem closed_iff_form_ne {source : Text} :
    Closed source ↔ ∀ s ∈ Segment.ofSource source, s.form ≠ .openString := by
  refine ⟨Closed.form_ne, fun closed mem => ?_⟩
  rw [complaints_eq, Scan.ofSource, Scan.findings_fromLine] at mem
  obtain ⟨f, found, message⟩ := List.mem_map.1 mem
  obtain ⟨p, placed, finding⟩ := List.mem_filterMap.1 found
  have inside : p.segment ∈ Segment.ofSource source := by
    rw [← Placed.map_segment_along 1 (Segment.ofSource source)]
    exact List.mem_map_of_mem placed
  unfold Segment.finding? at finding
  split at finding
  · cases finding
    exact Problem.message_unexpected_ne _ message
  · exact closed _ inside ‹_›
  · cases finding

end Session

/-- A scan comes apart at every place where its loop is at its head, the start and the end included:
its tokens are those of what is in front of the place, without the one at the end of input, and then
those of what is behind it, as many lines further down as there are newlines in front; and so are
its diagnostics. In two texts with a newline between them, the place of the newline is such a place
if and only if the scan of the first one reports no open string. -/
theorem scan_composes (source a b : Text) :
    let tokens (s : Text) := (Cursor.atStart s).scan.2.tokens
    let diagnostics (s : Text) := (Cursor.atStart s).scan.2.diagnostics
    let places (s : Text) := (Cursor.atStart s).places
    0 ∈ places source ∧ source.length ∈ places source ∧
    (∀ p ∈ places source,
      let front := source.take p
      let back := source.drop p
      tokens source = (tokens front).filter (fun t => t.kind ≠ .endOfInput) ++
        (tokens back).map (Token.below (Lines.count front)) ∧
      diagnostics source = diagnostics front ++
        (diagnostics back).map (Diagnostic.below (Lines.count front))) ∧
    (a.length ∈ places (a ++ '\n' :: b) ↔ Session.Closed a) := by
  intro tokens diagnostics places
  refine ⟨?_, ?_, ?_, ?_⟩
  · exact Cursor.mem_places_atStart.2 ⟨[], _, rfl, rfl⟩
  · refine Cursor.mem_places_atStart.2 ⟨Segment.ofSource source, [], (List.append_nil _).symm, ?_⟩
    rw [Segment.flatMap_text_ofSource]
  · intro p head
    obtain ⟨before, after, split, rfl⟩ := Cursor.mem_places_atStart.1 head
    have whole : source = before.flatMap Segment.text ++ after.flatMap Segment.text := by
      rw [← List.flatMap_append, ← split, Segment.flatMap_text_ofSource]
    have front : source.take (before.flatMap Segment.text).length =
        before.flatMap Segment.text := by rw [whole, List.take_left]
    have back : source.drop (before.flatMap Segment.text).length =
        after.flatMap Segment.text := by rw [whole, List.drop_left]
    dsimp only [tokens, diagnostics]
    rw [front, back]
    simp only [Cursor.tokens_atStart, Cursor.diagnostics_scan]
    exact ⟨Scan.tokens_of_append split, Scan.diagnostics_of_append split⟩
  · rw [Session.closed_iff_form_ne]
    constructor
    · intro head
      obtain ⟨before, after, split, length⟩ := Cursor.mem_places_atStart.1 head
      have whole : a ++ '\n' :: b = before.flatMap Segment.text ++ after.flatMap Segment.text := by
        rw [← List.flatMap_append, ← split, Segment.flatMap_text_ofSource]
      obtain ⟨front, back⟩ := List.append_inj whole length
      have more : after ≠ [] := by
        rintro rfl
        cases back
      rw [front, (Segment.ofSource_of_append split).1]
      exact Segment.form_ne_openString split more
    · intro closed
      refine Cursor.mem_places_atStart.2 ⟨_, _, Segment.ofSource_append_newline closed b, ?_⟩
      rw [Segment.flatMap_text_ofSource]

end BearLex
