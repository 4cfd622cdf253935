import BearLex.Proofs.Composition

/-! Sources that are changed along their segments: blanks are put in where a segment begins or at
the end, comments are left out, and stray characters are wiped out. A scan returns the same tokens,
and finds the same but for the characters that are gone. -/

namespace BearLex

/-- `edited` is `source` with blanks put in where segments begin and at the end, and with comments
left out. If `wiping` says so, a space stands in place of every stray character. -/
inductive Revised (wiping : Bool) : Text → Text → Prop
  | nil : Revised wiping [] []
  | blank {b : Char} {source edited : Text} (h : isSpacing b = true)
    (more : Revised wiping source edited) : Revised wiping source (b :: edited)
  | keep {c : Char} {ahead edited : Text}
    (h : wiping = true → (Segment.first c ahead).form ≠ .stray)
    (more : Revised wiping (ahead.drop (Segment.extent c ahead).2) edited) :
    Revised wiping (c :: ahead) ((Segment.first c ahead).text ++ edited)
  | uncomment {c : Char} {ahead edited : Text} (h : (Segment.first c ahead).form = .comment)
    (more : Revised wiping (ahead.drop (Segment.extent c ahead).2) edited) :
    Revised wiping (c :: ahead) edited
  | wipe {c : Char} {ahead edited : Text} (h : wiping = true) (foreign : isForeign c = true)
    (more : Revised wiping ahead edited) : Revised wiping (c :: ahead) (' ' :: edited)

/-- The finding is not about a character that is wiped out. -/
def Finding.survives (wiping : Bool) (f : Finding) : Bool :=
  !wiping || f.problem = .unterminatedString

namespace Scan

/-- The scan of a source of which the first segment is known. -/
theorem fromLine_append {s : Segment} {following : Text}
    (cut : Segment.ofSource (s.text ++ following) = s :: Segment.ofSource following) (line : Nat) :
    fromLine line (s.text ++ following) =
      let later := fromLine (line + Lines.count s.text) following
      ⟨(s.token? line).toList ++ later.tokens, (s.finding? line).toList ++ later.findings,
        later.lastLine⟩ := by
  simp only [fromLine, Placed.fromLine, cut, Placed.along_cons, Lines.count_append,
    List.filterMap_cons, Nat.add_assoc]
  cases s.token? line <;> cases s.finding? line <;> rfl

/-- A foreign character is a finding and nothing else. -/
theorem fromLine_of_isForeign {c : Char} (h : isForeign c = true) (line : Nat) (rest : Text) :
    fromLine line (c :: rest) =
      let later := fromLine line rest
      ⟨later.tokens, ⟨line, .unexpected c⟩ :: later.findings, later.lastLine⟩ := by
  have inLine : Lines.count [c] = 0 := Lines.count_singleton (ne_of_isForeign h (by decide))
  have scan := fromLine_append (s := ⟨.stray, [c]⟩) (Segment.ofSource_of_isForeign h rest) line
  dsimp only at scan
  rw [inLine] at scan
  exact scan

/-- Blanks at the start of a text are passed over. -/
theorem fromLine_append_of_isSpacing {gap : Text} (h : ∀ b ∈ gap, isSpacing b = true) (line : Nat)
    (following : Text) : fromLine line (gap ++ following) = fromLine line following := by
  induction gap with
  | nil => rfl
  | cons b gap ih =>
    obtain ⟨first, others⟩ := List.forall_mem_cons.1 h
    have blank : Lexical .blank [b] := .blank (by simpa [isSpacing, or_assoc] using first)
    have cut : Segment.ofSource ([b] ++ (gap ++ following)) = _ := blank.ofSource_append trivial
    have inLine : Lines.count [b] = 0 := Lines.count_singleton fun e => by
      subst e
      cases first
    have scan := fromLine_append (s := ⟨.blank, [b]⟩) cut line
    dsimp only at scan
    rw [inLine, Nat.add_zero, ih others] at scan
    exact scan

end Scan

theorem isWhite_of_isSpacing {b : Char} (h : isSpacing b = true) : IsWhite b := by
  simp only [isSpacing, Bool.or_eq_true, beq_iff_eq] at h
  rcases h with (rfl | rfl) | rfl
  · exact .inl rfl
  · exact .inr (.inr (.inl rfl))
  · exact .inr (.inl rfl)

/-- The segment with `gap` at its end. -/
def Segment.grown (s : Segment) (gap : Text) : Segment :=
  ⟨s.form, s.text ++ gap⟩

theorem Lexical.comment_append {text gap : Text} (h : Lexical .comment text) (inLine : '\n' ∉ gap) :
    Lexical .comment (text ++ gap) := by
  cases h with
  | @comment body inside =>
    show Lexical .comment ('/' :: '/' :: (body ++ gap))
    exact .comment fun mem => (List.mem_append.1 mem).elim inside inLine

/-- A text with a quotation mark at its start and no other is an open string. -/
theorem Segment.ofSource_of_unclosed {ahead : Text} (h : '"' ∉ ahead) :
    ofSource ('"' :: ahead) = [⟨.openString, '"' :: ahead⟩] := by
  have extent := (Cursor.extent_quote ahead).trans (if_neg h)
  rw [ofSource_cons, first, extent, List.take_length, List.drop_length, ofSource_nil]

theorem Segment.token?_grown {s : Segment} (h : s.form = .comment ∨ s.form = .openString)
    (gap : Text) (line : Nat) : (s.grown gap).token? line = s.token? line := by
  rcases h with form | form <;> simp only [token?, grown, form]

theorem Segment.finding?_grown {s : Segment} (h : s.form = .comment ∨ s.form = .openString)
    {gap : Text} (inLine : Lines.count gap = 0) (line : Nat) :
    (s.grown gap).finding? line = s.finding? line := by
  rcases h with form | form
  · simp only [finding?, grown, form]
  · simp only [finding?, grown, form, Lines.count_append, inLine, Nat.add_zero]

/-- A comment is no token, no finding and no line. -/
theorem Segment.quiet_of_comment {c : Char} {ahead : Text} (h : (first c ahead).form = .comment)
    (line : Nat) : (first c ahead).token? line = none ∧ (first c ahead).finding? line = none ∧
      Lines.count (first c ahead).text = 0 := by
  refine ⟨by simp only [token?, h], by simp only [finding?, h], Lines.count_eq_zero ?_⟩
  rcases first_cases c ahead with lexical | ⟨-, -, isOpen⟩ | ⟨-, stray⟩
  · rw [h] at lexical
    generalize (first c ahead).text = text at lexical
    cases lexical with
    | comment inside =>
      rintro _ mem rfl
      simp [inside] at mem
  · rw [isOpen] at h
    cases h
  · rw [stray] at h
    cases h

theorem Segment.survives_of_finding? {c : Char} {ahead : Text} {wiping : Bool} {line : Nat}
    {f : Finding} (notStray : wiping = true → (first c ahead).form ≠ .stray)
    (h : (first c ahead).finding? line = some f) : f.survives wiping = true := by
  cases wiping with
  | false => rfl
  | true =>
    unfold finding? at h
    split at h
    · exact absurd ‹(first c ahead).form = .stray› (notStray rfl)
    · cases h
      rfl
    · cases h

/-- What follows a comment is nothing or a newline. -/
theorem Segment.begins_of_comment {c : Char} {ahead : Text}
    (h : (first c ahead).form = .comment) :
    ahead.drop (extent c ahead).2 = [] ∨ ∃ rest, ahead.drop (extent c ahead).2 = '\n' :: rest := by
  have ends := first_ends c ahead
  rw [h] at ends
  generalize ahead.drop (extent c ahead).2 = following at ends ⊢
  have stops : commentRest following = [] := ends
  cases following with
  | nil => exact .inl rfl
  | cons d rest =>
    by_cases newline : d = '\n'
    · exact .inr ⟨rest, by rw [newline]⟩
    · rw [commentRest, List.takeWhile_cons_of_pos (by simpa using newline)] at stops
      cases stops

namespace Revised

variable {wiping : Bool} {source edited : Text}

/-! ### How an edited source begins -/

theorem begins (h : Revised wiping source edited) :
    edited = [] ∨ ∃ c rest, edited = c :: rest ∧ (IsWhite c ∨ source.head? = some c) := by
  induction h with
  | nil => exact .inl rfl
  | blank spacing more ih => exact .inr ⟨_, _, rfl, .inl (isWhite_of_isSpacing spacing)⟩
  | keep notStray more ih => exact .inr ⟨_, _, rfl, .inr rfl⟩
  | uncomment comment more ih =>
    rcases ih with none | ⟨c, rest, e, white | same⟩
    · exact .inl none
    · exact .inr ⟨c, rest, e, .inl white⟩
    · rcases Segment.begins_of_comment comment with nothing | ⟨_, newline⟩
      · rw [nothing] at same
        cases same
      · rw [newline] at same
        cases same
        exact .inr ⟨_, rest, e, .inl (.inr (.inr (.inr rfl)))⟩
  | wipe _ _ more ih => exact .inr ⟨_, _, rfl, .inl (.inl rfl)⟩

/-- A point at the start of an edited source is the one at the start of the source. -/
theorem of_point {rest : Text} (h : Revised wiping source ('.' :: rest)) :
    ∃ others, source = '.' :: others ∧ Revised wiping others rest := by
  generalize e : '.' :: rest = edited at h
  cases h with
  | nil => cases e
  | blank spacing more =>
    cases e
    cases spacing
  | @keep c ahead edited notStray more =>
    have head : c = '.' := (List.cons.inj e).1.symm
    subst head
    have whole : Segment.extent '.' ahead = (.lexeme (.symbol .dot), 0) := rfl
    rw [Segment.first, whole] at e
    rw [whole] at more
    cases e
    exact ⟨ahead, rfl, more⟩
  | uncomment comment more =>
    subst e
    rcases more.begins with none | ⟨c, _, e, white | same⟩
    · cases none
    · cases e
      rcases white with white | white | white | white <;> cases white
    · cases e
      rcases Segment.begins_of_comment comment with nothing | ⟨_, newline⟩
      · rw [nothing] at same
        cases same
      · rw [newline] at same
        cases same
  | wipe => cases e

theorem fraction_eq_nil (h : Revised wiping source edited) (none : fraction source = []) :
    fraction edited = [] := by
  match edited with
  | [] | [_] => rfl
  | c :: d :: rest =>
    refine if_neg ?_
    rintro ⟨rfl, digit⟩
    obtain ⟨others, rfl, behind⟩ := h.of_point
    rcases behind.begins with nothing | ⟨_, _, e, white | same⟩
    · cases nothing
    · cases e
      rw [white.separates.notDigit] at digit
      cases digit
    · cases e
      obtain ⟨more, rfl⟩ := List.head?_eq_some_iff.1 same
      rw [fraction, if_pos ⟨rfl, digit⟩] at none
      cases none

/-- What ends in front of a source ends in front of the edited source, comments apart. -/
theorem ends (h : Revised wiping source edited) {form : Form} {text : Text}
    (ends : form.Ends text source) (notComment : form ≠ .comment) : form.Ends text edited := by
  match form with
  | .blank | .newline | .stray | .openString => trivial
  | .comment => exact absurd rfl notComment
  | .lexeme kind =>
    rcases h.begins with rfl | ⟨c, rest, rfl, white | same⟩
    · exact Form.ends_nil _ text
    · exact Form.ends_white white kind text rest
    · obtain ⟨others, rfl⟩ := List.head?_eq_some_iff.1 same
      have stops {p : Char → Bool} (none : (c :: others).takeWhile p = []) :
          (c :: rest).takeWhile p = [] := by
        refine List.takeWhile_cons_of_neg fun first => ?_
        rw [List.takeWhile_cons_of_pos first] at none
        cases none
      match kind with
      | .symbol s => exact ends
      | .number => exact ⟨stops ends.1, fun noPoint => h.fraction_eq_nil (ends.2 noPoint)⟩
      | .identifier | .keyword _ => exact stops ends
      | .string | .endOfInput => trivial

/-! ### What is put in behind a comment or an open string -/

theorem isSpacing_of_nil (h : Revised wiping [] edited) : ∀ c ∈ edited, isSpacing c = true := by
  generalize e : ([] : Text) = source at h
  induction h with
  | nil => exact List.forall_mem_nil _
  | blank spacing more ih => exact List.forall_mem_cons.2 ⟨spacing, ih e⟩
  | keep | uncomment | wipe => cases e

/-- Only blanks come in front of the first newline where the source begins with one. -/
theorem isSpacing_of_newline {rest : Text} (h : Revised wiping ('\n' :: rest) edited) :
    ∀ c ∈ commentRest edited, isSpacing c = true := by
  generalize e : '\n' :: rest = source at h
  induction h with
  | nil => cases e
  | @blank b source edited spacing more ih =>
    have inLine : (b != '\n') = true := by
      rw [bne_iff_ne]
      rintro rfl
      cases spacing
    rw [commentRest, List.takeWhile_cons_of_pos (p := (· != '\n')) inLine]
    exact List.forall_mem_cons.2 ⟨spacing, ih e⟩
  | keep =>
    cases e
    exact List.forall_mem_nil _
  | uncomment comment =>
    cases e
    cases comment
  | wipe _ foreign =>
    cases e
    cases foreign

/-! ### The scan of an edited source -/

variable {c : Char} {ahead : Text}

/-- A segment that is kept is the first of the edited text. A comment or an open string also takes
in the blanks that are put in behind it. -/
theorem exists_grown (h : Revised wiping (ahead.drop (Segment.extent c ahead).2) edited) :
    ∃ gap rest : Text, edited = gap ++ rest ∧ (∀ b ∈ gap, isSpacing b = true) ∧
      (gap = [] ∨ (Segment.first c ahead).form = .comment ∨
        (Segment.first c ahead).form = .openString) ∧
      Segment.ofSource (((Segment.first c ahead).grown gap).text ++ rest) =
        (Segment.first c ahead).grown gap :: Segment.ofSource rest := by
  have ends := Segment.first_ends c ahead
  rcases Segment.first_cases c ahead with lexical | ⟨rfl, unclosed, isOpen⟩ | ⟨foreign, stray⟩
  · by_cases comment : (Segment.first c ahead).form = .comment
    · have blanks : ∀ b ∈ commentRest edited, isSpacing b = true := by
        rcases Segment.begins_of_comment comment with nothing | ⟨rest, newline⟩
        · rw [nothing] at h
          exact fun b mem => h.isSpacing_of_nil b ((commentRest_isPrefix edited).subset mem)
        · rw [newline] at h
          exact h.isSpacing_of_newline
      refine ⟨commentRest edited, edited.drop (commentRest edited).length,
        List.prefix_iff_eq_append.1 (commentRest_isPrefix edited) |>.symm, blanks,
        .inr (.inl comment), ?_⟩
      have inLine : '\n' ∉ commentRest edited := fun mem => by cases blanks _ mem
      rw [comment] at lexical
      have ends : Form.comment.Ends ((Segment.first c ahead).text ++ commentRest edited)
          (edited.drop (commentRest edited).length) := by
        rw [commentRest, Text.drop_length_takeWhile]
        exact Text.takeWhile_dropWhile _ edited
      rw [Segment.grown, comment]
      exact (lexical.comment_append inLine).ofSource_append ends
    · refine ⟨[], edited, rfl, List.forall_mem_nil _, .inl rfl, ?_⟩
      rw [Segment.grown, List.append_nil]
      exact lexical.ofSource_append (h.ends ends comment)
  · have isOpen' : (Segment.first '"' ahead).form = .openString := by rw [isOpen]
    rw [Segment.drop_of_openString isOpen'] at h
    have blanks := h.isSpacing_of_nil
    refine ⟨edited, [], (List.append_nil _).symm, blanks, .inr (.inr isOpen'), ?_⟩
    rw [isOpen, List.append_nil, Segment.ofSource_nil]
    refine Segment.ofSource_of_unclosed fun mem => ?_
    rcases List.mem_append.1 mem with mem | mem
    · exact unclosed mem
    · cases blanks _ mem
  · refine ⟨[], edited, rfl, List.forall_mem_nil _, .inl rfl, ?_⟩
    rw [stray, Segment.grown, List.append_nil, List.singleton_append,
      Segment.ofSource_of_isForeign foreign]

theorem fromLine_keep (h : Revised wiping (ahead.drop (Segment.extent c ahead).2) edited)
    (line : Nat) :
    Scan.fromLine line ((Segment.first c ahead).text ++ edited) =
      let s := Segment.first c ahead
      let later := Scan.fromLine (line + Lines.count s.text) edited
      ⟨(s.token? line).toList ++ later.tokens, (s.finding? line).toList ++ later.findings,
        later.lastLine⟩ := by
  obtain ⟨gap, rest, rfl, blanks, unseen, cut⟩ := h.exists_grown
  have inLine : Lines.count gap = 0 := Lines.count_eq_zero fun b mem e => by
    subst e
    cases blanks _ mem
  have lines : Lines.count ((Segment.first c ahead).grown gap).text =
      Lines.count (Segment.first c ahead).text := by
    rw [Segment.grown, Lines.count_append, inLine, Nat.add_zero]
  have same : ((Segment.first c ahead).grown gap).token? line =
        (Segment.first c ahead).token? line ∧
      ((Segment.first c ahead).grown gap).finding? line =
        (Segment.first c ahead).finding? line := by
    rcases unseen with rfl | form
    · rw [Segment.grown, List.append_nil]
      exact ⟨rfl, rfl⟩
    · exact ⟨Segment.token?_grown form gap line, Segment.finding?_grown form inLine line⟩
  have later := Scan.fromLine_append_of_isSpacing blanks
    (line + Lines.count (Segment.first c ahead).text) rest
  have scan := Scan.fromLine_append cut line
  rw [same.1, same.2, lines] at scan
  rw [← List.append_assoc]
  dsimp only
  rw [later]
  exact scan

/-- A scan of an edited source returns the same tokens, and finds the same but for the characters
that are wiped out. -/
theorem scan_eq (h : Revised wiping source edited) (line : Nat) :
    (Scan.fromLine line edited).tokens = (Scan.fromLine line source).tokens ∧
    (Scan.fromLine line edited).findings =
      (Scan.fromLine line source).findings.filter (Finding.survives wiping) := by
  induction h generalizing line with
  | nil => exact ⟨rfl, by rw [Scan.fromLine_nil, List.filter_nil]⟩
  | @blank b source edited spacing more ih =>
    have blank : ∀ d ∈ [b], isSpacing d = true := List.forall_mem_singleton.2 spacing
    have passed := Scan.fromLine_append_of_isSpacing blank line edited
    rw [List.singleton_append] at passed
    rw [passed]
    exact ih line
  | @keep c ahead edited notStray more ih =>
    obtain ⟨tokens, findings⟩ := ih (line + Lines.count (Segment.first c ahead).text)
    rw [more.fromLine_keep, Scan.fromLine_cons]
    dsimp only
    rw [tokens, findings, List.filter_append]
    refine ⟨rfl, congrArg (· ++ _) (List.filter_eq_self.2 fun f mem => ?_).symm⟩
    exact Segment.survives_of_finding? notStray (Option.mem_toList.1 mem)
  | @uncomment c ahead edited comment more ih =>
    have quiet := Segment.quiet_of_comment comment line
    obtain ⟨tokens, findings⟩ := ih line
    rw [Scan.fromLine_cons]
    dsimp only
    rw [quiet.1, quiet.2.1, quiet.2.2, tokens, findings]
    exact ⟨rfl, rfl⟩
  | @wipe c ahead edited wipes foreign more ih =>
    have blank : ∀ b ∈ [' '], isSpacing b = true := List.forall_mem_singleton.2 rfl
    have space := Scan.fromLine_append_of_isSpacing blank line edited
    have gone : (Finding.mk line (.unexpected c)).survives wiping = false := by
      rw [wipes]
      rfl
    obtain ⟨tokens, findings⟩ := ih line
    rw [List.singleton_append] at space
    rw [space, Scan.fromLine_of_isForeign foreign]
    dsimp only
    rw [tokens, findings, List.filter_cons_of_neg (by simp [gone])]
    exact ⟨rfl, rfl⟩

theorem gap {gap : Text} (h : ∀ b ∈ gap, isSpacing b = true)
    (more : Revised wiping source edited) : Revised wiping source (gap ++ edited) := by
  induction gap with
  | nil => exact more
  | cons b gap ih =>
    obtain ⟨first, others⟩ := List.forall_mem_cons.1 h
    exact .blank first (ih others)

end Revised

namespace Cursor

variable {c : Cursor} {char : Char} {ahead : Text}

/-- The segment that is begun at `c` is a comment. -/
def isComment (c : Cursor) : Bool :=
  "//".toList.isPrefixOf c.covered

theorem isComment_iff (h : c.ahead = char :: ahead) :
    c.isComment = true ↔ (Segment.first char ahead).form = .comment := by
  rw [isComment, covered_eq h, List.isPrefixOf_iff_prefix]
  constructor
  · rintro ⟨body, e⟩
    obtain ⟨rfl, inside⟩ : '/' = char ∧ _ := List.cons.inj e
    have second := congrArg List.head? inside
    rw [List.head?_take] at second
    split at second
    · cases second
    · obtain ⟨rest, rfl⟩ := List.head?_eq_some_iff.1 second.symm
      rfl
  · intro comment
    rcases Segment.first_cases char ahead with lexical | ⟨-, -, isOpen⟩ | ⟨-, stray⟩
    · rw [comment] at lexical
      generalize (Segment.first char ahead).text = text at lexical
      cases lexical
      exact List.prefix_append _ _
    · rw [isOpen] at comment
      cases comment
    · rw [stray] at comment
      cases comment

end Cursor

end BearLex
