import BearLex.Proofs.Layout

/-! A newline is a place where a source can be cut. Where the part in front of it leaves no string
open, the segments of the whole are those of the two parts with the newline between them, and so are
the tokens and the findings. -/

namespace BearLex

theorem Text.takeWhile_append_of_nil {p : Char → Bool} {s : Text} (nonempty : s ≠ [])
    (h : s.takeWhile p = []) (t : Text) : (s ++ t).takeWhile p = [] := by
  obtain ⟨c, rest, rfl⟩ := List.exists_cons_of_ne_nil nonempty
  by_cases first : p c = true
  · rw [List.takeWhile_cons_of_pos first] at h
    cases h
  · exact List.takeWhile_cons_of_neg first

theorem fraction_append_cons {s : Text} (nonempty : s ≠ []) (h : fraction s = []) {c : Char}
    (notDigit : c.isDigit = false) (rest : Text) : fraction (s ++ c :: rest) = [] := by
  match s with
  | [] => exact absurd rfl nonempty
  -- A point needs a digit behind it, and `c` is none.
  | [_] => exact if_neg fun both => absurd both.2 (by simp [notDigit])
  | c :: d :: more =>
    have none : ¬ (c = '.' ∧ d.isDigit = true) := by
      intro both
      rw [fraction, if_pos both] at h
      cases h
    exact if_neg none

/-- What does not make a text longer does not do so in front of a separating character either. Right
behind a comment, that character has to be the newline. -/
theorem Form.Ends.append_separates {form : Form} {text following : Text}
    (h : form.Ends text following) {c : Char} (separates : Separates c)
    (inLine : form = .comment → following = [] → c = '\n') (rest : Text) :
    form.Ends text (following ++ c :: rest) := by
  -- The next character is `c` if nothing follows, and else the same as before.
  by_cases empty : following = []
  · subst empty
    match form with
    | .comment =>
      rw [inLine rfl rfl]
      exact rfl
    | .lexeme kind => exact Form.ends_separates separates kind text rest
    | .blank | .newline | .stray | .openString => trivial
  · match form with
    | .comment => exact Text.takeWhile_append_of_nil empty h _
    | .lexeme (.symbol s) =>
      obtain ⟨c, more, rfl⟩ := List.exists_cons_of_ne_nil empty
      exact h
    | .lexeme .number =>
      obtain ⟨noDigit, noFraction⟩ := h
      exact ⟨Text.takeWhile_append_of_nil empty noDigit _,
        fun noPoint =>
          fraction_append_cons empty (noFraction noPoint) separates.notDigit rest⟩
    | .lexeme .identifier | .lexeme (.keyword _) => exact Text.takeWhile_append_of_nil empty h _
    | .lexeme .string | .lexeme .endOfInput => trivial
    | .blank | .newline | .stray | .openString => trivial

theorem Form.Ends.newline {form : Form} {text following : Text} (h : form.Ends text following)
    (rest : Text) : form.Ends text (following ++ '\n' :: rest) :=
  h.append_separates (IsWhite.separates (.inr (.inr (.inr rfl)))) (fun _ _ => rfl) rest

theorem separates_of_isForeign {c : Char} (h : isForeign c = true) : Separates c := by
  have notCode : isCode c = false := by
    cases code : isCode c with
    | false => rfl
    | true =>
      rw [isForeign, code] at h
      cases h
  simp only [isCode, Bool.or_eq_false_iff] at notCode
  obtain ⟨⟨notAlpha, notDigit⟩, -⟩ := notCode
  have notUnderscore := ne_of_isForeign (d := '_') h (by decide)
  exact ⟨notDigit, by simp [isIdentifierRest, notAlpha, notDigit, notUnderscore],
    ne_of_isForeign h (by decide), ne_of_isForeign h (by decide), ne_of_isForeign h (by decide)⟩

namespace Segment

variable {c : Char} {ahead a : Text}

theorem extent_of_isForeign (h : isForeign c = true) : extent c ahead = (.stray, 0) := by
  have separates := separates_of_isForeign h
  have notStart : ¬ isIdentifierStart c = true := by
    intro start
    have inside : isIdentifierRest c = true := by
      rw [isIdentifierRest, ← isIdentifierStart, start, Bool.true_or]
    rw [separates.notRest] at inside
    cases inside
  rw [extent_of_not_mem_marks (not_mem_marks_of h (by decide)),
    if_neg (by simp [separates.notDigit]), if_neg notStart]

/-- A foreign character is a segment of its own. -/
theorem ofSource_of_isForeign (h : isForeign c = true) (ahead : Text) :
    ofSource (c :: ahead) = ⟨.stray, [c]⟩ :: ofSource ahead := by
  rw [ofSource_cons, first, extent_of_isForeign h, List.take_zero, List.drop_zero]

theorem Extent.le {form : Form} {count : Nat} (h : Extent c ahead form count) :
    count ≤ ahead.length := by
  cases h with
  | blank | newline | stray => exact Nat.zero_le _
  | unclosed => exact Nat.le_refl _
  | @comment rest =>
    have := (commentRest_isPrefix rest).length_le
    rw [List.length_cons]
    omega
  | symbol => simp
  | closed => simp
  | number => exact (numberRest_isPrefix ahead).length_le
  | word => exact (identifierRest_isPrefix ahead).length_le

/-- The first segment is the same with a newline behind the text, unless it is an open string. -/
theorem extent_append_newline (closed : (extent c ahead).1 ≠ .openString) (rest : Text) :
    extent c (ahead ++ '\n' :: rest) = extent c ahead := by
  -- What is of the grammar is settled by what follows it, and a stray character by itself.
  rcases first_cases c ahead with lexical | ⟨-, -, unclosed⟩ | ⟨foreign, -⟩
  · have ends := first_ends c ahead
    have cut := Lexical.extent_eq lexical ends
    have cut' := Lexical.extent_eq lexical (ends.newline rest)
    rw [List.take_append_drop] at cut
    rw [← List.append_assoc, List.take_append_drop] at cut'
    exact cut'.trans cut.symm
  · exact absurd (congrArg Segment.form unclosed) closed
  · rw [extent_of_isForeign foreign, extent_of_isForeign foreign]

/-- The segments of a text that is cut at a newline. -/
theorem ofSource_append_newline (closed : ∀ s ∈ ofSource a, s.form ≠ .openString) (b : Text) :
    ofSource (a ++ '\n' :: b) = ofSource a ++ ⟨.newline, ['\n']⟩ :: ofSource b := by
  induction a using induction_rest with
  | nil =>
    rw [ofSource_nil, List.nil_append, ofSource_cons]
    rfl
  | cons c ahead ih =>
    rw [ofSource_cons] at closed
    obtain ⟨first_closed, rest_closed⟩ := List.forall_mem_cons.1 closed
    have same := extent_append_newline first_closed b
    have within := (extent_cases c ahead).le
    have first_eq : first c (ahead ++ '\n' :: b) = first c ahead := by
      rw [first, first, same, List.take_append_of_le_length within]
    rw [List.cons_append, ofSource_cons, ofSource_cons, first_eq, same,
      List.drop_append_of_le_length within, ih rest_closed]
    rfl

end Segment

namespace Placed

theorem along_cons (line : Nat) (s : Segment) (segments : List Segment) :
    along [] line (s :: segments) = ⟨line, s⟩ :: along [] (line + Lines.count s.text) segments := by
  rw [along, along_eq]
  rfl

theorem along_append (line : Nat) (segments others : List Segment) :
    along [] line (segments ++ others) =
      along [] line segments ++
        along [] (line + Lines.count (segments.flatMap Segment.text)) others := by
  induction segments generalizing line with
  | nil => rfl
  | cons s segments ih =>
    rw [List.cons_append, along_cons, ih, along_cons, List.flatMap_cons, Lines.count_append,
      Nat.add_assoc]
    rfl

theorem map_segment_along (line : Nat) (segments : List Segment) :
    (along [] line segments).map segment = segments := by
  induction segments generalizing line with
  | nil => rfl
  | cons s segments ih => rw [along_cons, List.map_cons, ih]

/-- The segments of a text that is cut at a newline, each on its line. -/
theorem fromLine_append_newline {a : Text}
    (closed : ∀ s ∈ Segment.ofSource a, s.form ≠ .openString) (line : Nat) (b : Text) :
    fromLine line (a ++ '\n' :: b) =
      fromLine line a ++ ⟨line + Lines.count a, ⟨.newline, ['\n']⟩⟩ ::
        fromLine (line + Lines.count a + 1) b := by
  rw [fromLine, Segment.ofSource_append_newline closed, along_append,
    Segment.flatMap_text_ofSource, along_cons]
  rfl

theorem along_add (line lines : Nat) (segments : List Segment) :
    along [] (line + lines) segments =
      (along [] line segments).map fun p => ⟨p.line + lines, p.segment⟩ := by
  induction segments generalizing line with
  | nil => rfl
  | cons s segments ih =>
    rw [along_cons, along_cons, Nat.add_right_comm, ih, List.map_cons]

end Placed

/-- No segment of a text is a token at the end of input. -/
theorem Segment.form_ne_ending : ∀ s ∈ ofSource a, s.form ≠ .lexeme .endOfInput := by
  intro s mem form
  obtain ⟨c, ahead, rfl⟩ := exists_first_of_mem mem
  cases lexeme_of_form form

/-- The token on a line that is `lines` lines further down. -/
def Token.below (lines : Nat) (t : Token) : Token :=
  { t with line := t.line + lines }

/-- The finding on a line that is `lines` lines further down. -/
def Finding.below (lines : Nat) (f : Finding) : Finding :=
  { f with line := f.line + lines }

namespace Scan

/-- The tokens of a scan but for the one at the end of input. -/
def words (s : Scan) : List Token :=
  s.tokens.filter fun t => t.kind ≠ .endOfInput

theorem words_fromLine (line : Nat) (source : Text) :
    (fromLine line source).words =
      (Placed.fromLine line source).filterMap fun p => p.segment.token? p.line := by
  rw [words, fromLine, List.filter_append, List.filter_cons_of_neg (by simp [Token.ending]),
    List.filter_nil, List.append_nil, List.filter_eq_self]
  intro t mem
  obtain ⟨p, placed, token⟩ := List.mem_filterMap.1 mem
  have inside : p.segment ∈ Segment.ofSource source := by
    rw [← Placed.map_segment_along line (Segment.ofSource source)]
    exact List.mem_map_of_mem placed
  have other := Segment.form_ne_ending _ inside
  unfold Segment.token? at token
  split at token
  · cases token
    exact decide_eq_true fun ending => other (ending ▸ ‹p.segment.form = _›)
  · cases token

/-- A scan ends with the one token at the end of input. -/
theorem tokens_fromLine (line : Nat) (source : Text) :
    (fromLine line source).tokens =
      (fromLine line source).words ++ [Token.ending (line + Lines.count source)] := by
  rw [words_fromLine]
  rfl

/-- The tokens of a source that starts further down are those of the source, further down. -/
theorem words_fromLine_add (line lines : Nat) (source : Text) :
    (fromLine (line + lines) source).words =
      (fromLine line source).words.map (Token.below lines) := by
  rw [words_fromLine, words_fromLine, Placed.fromLine, Placed.along_add, List.filterMap_map,
    List.map_filterMap]
  congr 1
  funext p
  simp only [Function.comp_apply, Segment.token?]
  split <;> rfl

theorem findings_fromLine (line : Nat) (source : Text) :
    (fromLine line source).findings =
      (Placed.fromLine line source).filterMap fun p => p.segment.finding? p.line := rfl

/-- The findings in a source that starts further down are those in the source, further down. -/
theorem findings_fromLine_add (line lines : Nat) (source : Text) :
    (fromLine (line + lines) source).findings =
      (fromLine line source).findings.map (Finding.below lines) := by
  rw [findings_fromLine, findings_fromLine, Placed.fromLine, Placed.along_add, List.filterMap_map,
    List.map_filterMap]
  congr 1
  funext p
  simp only [Function.comp_apply, Segment.finding?]
  split
  · rfl
  · exact congrArg (fun line => some (Finding.mk line _)) (Nat.add_right_comm _ _ _)
  · rfl

variable {a : Text} (closed : ∀ s ∈ Segment.ofSource a, s.form ≠ .openString)
include closed

theorem words_append_newline (line : Nat) (b : Text) :
    (fromLine line (a ++ '\n' :: b)).words =
      (fromLine line a).words ++ (fromLine (line + Lines.count a + 1) b).words := by
  simp only [words_fromLine, Placed.fromLine_append_newline closed, List.filterMap_append]
  rfl

theorem findings_append_newline (line : Nat) (b : Text) :
    (fromLine line (a ++ '\n' :: b)).findings =
      (fromLine line a).findings ++ (fromLine (line + Lines.count a + 1) b).findings := by
  simp only [fromLine, Placed.fromLine_append_newline closed, List.filterMap_append]
  rfl

end Scan

end BearLex
