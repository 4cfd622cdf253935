import BearLex.Proofs.Printout

/-! What the lexeme of a token tells of it. A token is classified by its lexeme alone: wherever a
lexeme stands, its token has the same kind and the same literal, and scanned alone it gives that
token again. -/

namespace BearLex

theorem Lexeme.kind_unique {kind kind' : Kind} {text : Text} (h : Lexeme kind text)
    (h' : Lexeme kind' text) : kind' = kind :=
  Form.lexeme.inj (Lexical.form_unique (.lexeme h') (.lexeme h))

namespace Token.Genuine

variable {t t' : Token}

/-- A token of a lexeme, or the one at the end of input. -/
theorem cases_kind (h : t.Genuine) :
    (Lexeme t.kind t.lexeme ∧ t.literal = Segment.literal t.kind t.lexeme) ∨
      (t.kind = .endOfInput ∧ t.lexeme = [] ∧ t.literal = .absent) := by
  cases h with
  | lexeme lexeme value => exact .inl ⟨lexeme, value⟩
  | ending shown =>
    obtain ⟨kind, shown⟩ := Prod.mk.inj shown
    obtain ⟨lexeme, literal⟩ := Prod.mk.inj shown
    exact .inr ⟨kind, lexeme, literal⟩

theorem lexeme_of_kind_ne (h : t.Genuine) (inside : t.kind ≠ .endOfInput) :
    Lexeme t.kind t.lexeme ∧ t.literal = Segment.literal t.kind t.lexeme :=
  h.cases_kind.resolve_right fun ending => inside ending.1

theorem lexeme_eq_nil_iff (h : t.Genuine) : t.lexeme = [] ↔ t.kind = .endOfInput := by
  refine ⟨fun empty => ?_, fun ending => ?_⟩
  · by_contra inside
    exact (h.lexeme_of_kind_ne inside).1.ne_nil empty
  · rcases h.cases_kind with ⟨lexeme, -⟩ | ⟨-, lexeme, -⟩
    · rw [ending] at lexeme
      cases lexeme
    · exact lexeme

/-- Tokens of one lexeme are of one kind. -/
theorem kind_eq (h : t.Genuine) (h' : t'.Genuine) (same : t'.lexeme = t.lexeme) :
    t'.kind = t.kind := by
  by_cases ending : t.kind = .endOfInput
  · rw [ending, ← h'.lexeme_eq_nil_iff, same, h.lexeme_eq_nil_iff, ending]
  · have ending' : t'.kind ≠ .endOfInput := by
      rwa [Ne, ← h'.lexeme_eq_nil_iff, same, h.lexeme_eq_nil_iff]
    have lexeme' := (h'.lexeme_of_kind_ne ending').1
    rw [same] at lexeme'
    exact (h.lexeme_of_kind_ne ending).1.kind_unique lexeme'

theorem literal_eq (h : t.Genuine) : t.literal = Segment.literal t.kind t.lexeme :=
  (Printout.literal_of_genuine h).symm

/-- Tokens of one lexeme have one literal. -/
theorem literal_unique (h : t.Genuine) (h' : t'.Genuine) (same : t'.lexeme = t.lexeme) :
    t'.literal = t.literal := by
  rw [h.literal_eq, h'.literal_eq, h.kind_eq h' same, same]

/-- No literal of a token is a not-a-number, so each is equal to itself as a value. -/
theorem valueEq_literal (h : t.Genuine) : t.literal.valueEq t.literal = true := by
  rw [h.literal_eq]
  unfold Segment.literal
  split <;> simp [Literal.valueEq, Binary64.numberEq]

/-- Tokens are equal if they have the same lexeme and the same line. -/
theorem valueEq_iff (h : t.Genuine) (h' : t'.Genuine) :
    t.valueEq t' = true ↔ t'.lexeme = t.lexeme ∧ t'.line = t.line := by
  simp only [valueEq, Bool.and_eq_true, beq_iff_eq]
  constructor
  · rintro ⟨⟨⟨-, lexeme⟩, -⟩, line⟩
    exact ⟨lexeme.symm, line.symm⟩
  · rintro ⟨lexeme, line⟩
    rw [h.kind_eq h' lexeme, h.literal_unique h' lexeme, lexeme, line]
    exact ⟨⟨⟨rfl, rfl⟩, h.valueEq_literal⟩, rfl⟩

theorem kind_eq_keyword_iff (h : t.Genuine) (k : Keyword) :
    t.kind = .keyword k ↔ t.lexeme = k.word := by
  have word : Lexeme (.keyword k) k.word := .keyword k
  constructor
  · intro kind
    have lexeme := (h.lexeme_of_kind_ne (by rw [kind]; nofun)).1
    rw [kind] at lexeme
    generalize t.lexeme = text at lexeme
    cases lexeme
    rfl
  · intro spelled
    have inside : t.kind ≠ .endOfInput := by
      rw [Ne, ← h.lexeme_eq_nil_iff, spelled]
      exact word.ne_nil
    have lexeme := (h.lexeme_of_kind_ne inside).1
    rw [spelled] at lexeme
    exact word.kind_unique lexeme

/-- Keywords are the tokens whose lexemes are in the table of keywords. -/
theorem isKeyword_iff (h : t.Genuine) :
    t.isKeyword = true ↔ t.lexeme ∈ Keyword.all.map Keyword.word := by
  have kinds : t.isKeyword = true ↔ ∃ k, t.kind = .keyword k := by
    unfold isKeyword
    split <;> simp_all
  rw [kinds, List.mem_map]
  constructor
  · rintro ⟨k, kind⟩
    exact ⟨k, k.mem_all, ((h.kind_eq_keyword_iff k).1 kind).symm⟩
  · rintro ⟨k, -, spelled⟩
    exact ⟨k, (h.kind_eq_keyword_iff k).2 spelled.symm⟩

theorem kind_eq_number_iff (h : t.Genuine) : t.kind = .number ↔ ∃ x, t.literal = .number x := by
  rw [h.literal_eq]
  unfold Segment.literal
  split <;> simp_all

theorem kind_eq_string_iff (h : t.Genuine) : t.kind = .string ↔ ∃ s, t.literal = .text s := by
  rw [h.literal_eq]
  unfold Segment.literal
  split <;> simp_all

theorem isLiteral_iff (h : t.Genuine) : t.isLiteral = true ↔ t.literal ≠ .absent := by
  simp only [isLiteral, Bool.or_eq_true, beq_iff_eq, h.kind_eq_number_iff, h.kind_eq_string_iff]
  cases t.literal <;> simp

end Token.Genuine

/-! ### A lexeme alone -/

theorem Lexeme.ofSource_eq {kind : Kind} {text : Text} (h : Lexeme kind text) :
    Segment.ofSource text = [⟨.lexeme kind, text⟩] := by
  have cut := Lexical.ofSource_append (.lexeme h) (Form.ends_nil _ text)
  rwa [List.append_nil, Segment.ofSource_nil] at cut

/-- A lexeme alone is scanned as its token. -/
theorem Lexeme.scan_eq {kind : Kind} {text : Text} (h : Lexeme kind text) :
    Scan.ofSource text =
      ⟨[⟨kind, text, Segment.literal kind text, 1⟩, Token.ending (1 + Lines.count text)], [],
        1 + Lines.count text⟩ := by
  simp [Scan.ofSource, Scan.fromLine, Placed.fromLine, Placed.along, h.ofSource_eq,
    Segment.token?, Segment.finding?]

theorem Token.genuine_of_mem_tokens {source : Text} {t : Token}
    (h : t ∈ (Cursor.atStart source).scan.2.tokens) : t.Genuine := by
  rw [Cursor.tokens_atStart] at h
  exact Scan.genuine_fromLine 1 source t h

/-- The lexeme of a token of a scan determines its kind and its literal, whatever the sources; so
tokens are equal if lexeme and line are. The lexeme scanned alone gives the token on line 1 and
nothing else but the end of input. Keywords are the tokens with a lexeme in the table of keywords,
literals those with a literal, which is a number for numbers and a text for strings, and the token
at the end of input the one with the empty lexeme. -/
theorem lexeme_determines_token (source : Text) {t : Token}
    (h : t ∈ (Cursor.atStart source).scan.2.tokens) :
    (∀ (source' : Text) (t' : Token), t' ∈ (Cursor.atStart source').scan.2.tokens →
      (t'.lexeme = t.lexeme → t'.kind = t.kind ∧ t'.literal = t.literal) ∧
      (t.valueEq t' = true ↔ t'.lexeme = t.lexeme ∧ t'.line = t.line)) ∧
    (t.kind ≠ .endOfInput →
      (Cursor.atStart t.lexeme).scan.1 = none ∧
      (Cursor.atStart t.lexeme).scan.2.reported = [] ∧
      (Cursor.atStart t.lexeme).scan.2.tokens =
        [{ t with line := 1 }, Token.ending (1 + Lines.count t.lexeme)]) ∧
    (t.isKeyword = true ↔ t.lexeme ∈ Keyword.all.map Keyword.word) ∧
    (t.isLiteral = true ↔ t.literal ≠ .absent) ∧
    (t.kind = .number ↔ ∃ x, t.literal = .number x) ∧
    (t.kind = .string ↔ ∃ s, t.literal = .text s) ∧
    (t.lexeme = [] ↔ t.kind = .endOfInput) := by
  have genuine := Token.genuine_of_mem_tokens h
  refine ⟨fun source' t' h' => ?_, fun inside => ?_, genuine.isKeyword_iff, genuine.isLiteral_iff,
    genuine.kind_eq_number_iff, genuine.kind_eq_string_iff, genuine.lexeme_eq_nil_iff⟩
  · have genuine' := Token.genuine_of_mem_tokens h'
    exact ⟨fun same => ⟨genuine.kind_eq genuine' same, genuine.literal_unique genuine' same⟩,
      genuine.valueEq_iff genuine'⟩
  · obtain ⟨ok, done⟩ := Cursor.scan_atStart t.lexeme
    obtain ⟨lexeme, literal⟩ := genuine.lexeme_of_kind_ne inside
    have alone := lexeme.scan_eq
    refine ⟨ok, ?_, ?_⟩
    · rw [done.reported, alone]
      rfl
    · rw [done.tokens, alone, ← literal]
      rfl

/-- A string over two lines, with a keyword and a number in it, at different places of two
sources. -/
theorem lexeme_determines_token_string :
    let lexeme := "\"for\n1\"".toList
    let t : Token := ⟨.string, lexeme, .text "for\n1".toList, 2⟩
    let t' : Token := { t with line := 3 }
    t ∈ (Cursor.atStart "1;\n\"for\n1\"".toList).scan.2.tokens ∧
    t' ∈ (Cursor.atStart "// \"\n\n\"for\n1\"x".toList).scan.2.tokens ∧
    t'.kind = t.kind ∧ t'.literal = t.literal ∧ ¬ t.valueEq t' = true ∧
    (Cursor.atStart lexeme).scan.2.tokens = [{ t with line := 1 }, Token.ending 2] := by
  intro lexeme t t'
  have mem : t ∈ (Cursor.atStart "1;\n\"for\n1\"".toList).scan.2.tokens := by decide +kernel
  have mem' : t' ∈ (Cursor.atStart "// \"\n\n\"for\n1\"x".toList).scan.2.tokens := by
    decide +kernel
  obtain ⟨others, alone, -⟩ := lexeme_determines_token _ mem
  obtain ⟨same, equal⟩ := others _ t' mem'
  obtain ⟨kind, literal⟩ := same rfl
  obtain ⟨-, -, tokens⟩ := alone nofun
  exact ⟨mem, mem', kind, literal, fun e => absurd (equal.1 e).2 (by decide), tokens⟩

end BearLex
