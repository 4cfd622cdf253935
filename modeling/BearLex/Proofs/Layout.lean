import BearLex.Proofs.Heads
import BearLex.Proofs.Transcript

/-! Lexemes written one after the other with white space and comments between them. Whatever is
written between them, a scan finds nothing wrong and returns the lexemes. -/

namespace BearLex

structure Written where
  kind : Kind
  text : Text
  lexeme : Lexeme kind text

def Written.segment (w : Written) : Segment :=
  ⟨.lexeme w.kind, w.text⟩

/-- A space, tab, carriage return or newline. -/
def IsWhite (c : Char) : Prop :=
  c = ' ' ∨ c = '\t' ∨ c = '\r' ∨ c = '\n'

/-- White space and comments in any mixture, each comment with the newline that ends it. -/
inductive Trivia : Text → Prop
  | nil : Trivia []
  | white {c : Char} {rest : Text} (h : IsWhite c) (more : Trivia rest) : Trivia (c :: rest)
  | comment {body rest : Text} (h : '\n' ∉ body) (more : Trivia rest) :
    Trivia ('/' :: '/' :: body ++ '\n' :: rest)

/-- What may stand between two lexemes: white space, and then any mixture. -/
inductive Separator : Text → Prop
  | mk {c : Char} {rest : Text} (h : IsWhite c) (more : Trivia rest) : Separator (c :: rest)

/-- What may stand behind the last lexeme: nothing, or a separator, perhaps with a comment at its
end that no newline ends. -/
inductive Trailer : Text → Prop
  | nil : Trailer []
  | separator {gap : Text} (h : Separator gap) : Trailer gap
  | comment {gap body : Text} (h : Separator gap) (inside : '\n' ∉ body) :
    Trailer (gap ++ '/' :: '/' :: body)

/-- The text is the lexemes in order, with a separator between two neighbours and a trailer at the
end. -/
inductive Spread : List Written → Text → Prop
  | nothing {tail : Text} (h : Trailer tail) : Spread [] tail
  | last (w : Written) {tail : Text} (h : Trailer tail) : Spread [w] (w.text ++ tail)
  | next (w v : Written) {words : List Written} {gap text : Text} (h : Separator gap)
    (more : Spread (v :: words) text) : Spread (w :: v :: words) (w.text ++ (gap ++ text))

/-- The segments are of the grammar, and the lexemes among them are `words`. -/
structure Carries (segments : List Segment) (words : List Written) : Prop where
  lexical : ∀ s ∈ segments, Lexical s.form s.text
  lexemes : segments.filter Segment.isLexeme = words.map Written.segment

namespace Carries

variable {segments others : List Segment} {words more : List Written}

theorem nil : Carries [] [] :=
  ⟨List.forall_mem_nil _, rfl⟩

theorem silent {s : Segment} (h : Carries segments words) (lexical : Lexical s.form s.text)
    (noLexeme : s.isLexeme = false) : Carries (s :: segments) words := by
  refine ⟨List.forall_mem_cons.2 ⟨lexical, h.lexical⟩, ?_⟩
  rw [List.filter_cons_of_neg (by simp [noLexeme]), h.lexemes]

theorem word (w : Written) (h : Carries segments words) :
    Carries (w.segment :: segments) (w :: words) :=
  ⟨List.forall_mem_cons.2 ⟨.lexeme w.lexeme, h.lexical⟩, congrArg _ h.lexemes⟩

end Carries

theorem IsWhite.lexical {c : Char} (h : IsWhite c) : ∃ form, Lexical form [c] ∧
    (∀ kind, form ≠ .lexeme kind) ∧ ∀ following, form.Ends [c] following := by
  rcases h with rfl | rfl | rfl | rfl
  · exact ⟨.blank, .blank (.inl rfl), nofun, fun _ => trivial⟩
  · exact ⟨.blank, .blank (.inr (.inr rfl)), nofun, fun _ => trivial⟩
  · exact ⟨.blank, .blank (.inr (.inl rfl)), nofun, fun _ => trivial⟩
  · exact ⟨.newline, .newline, nofun, fun _ => trivial⟩

/-- No lexeme goes on with the character, whatever is behind it. -/
structure Separates (c : Char) : Prop where
  notDigit : c.isDigit = false
  notRest : isIdentifierRest c = false
  notPoint : c ≠ '.'
  notEqual : c ≠ '='
  notSlash : c ≠ '/'

theorem IsWhite.separates {c : Char} (h : IsWhite c) : Separates c := by
  rcases h with rfl | rfl | rfl | rfl <;>
    exact ⟨by decide, by decide, by decide, by decide, by decide⟩

theorem Form.ends_separates {c : Char} (h : Separates c) (kind : Kind) (text rest : Text) :
    (Form.lexeme kind).Ends text (c :: rest) := by
  cases kind with
  | symbol s =>
    cases s <;> simp [Form.Ends, Symbol.grownBy, h.notEqual, h.notSlash]
  | number =>
    refine ⟨List.takeWhile_cons_of_neg (by simp [h.notDigit]), fun _ => ?_⟩
    cases rest with
    | nil => rfl
    | cons d rest => exact if_neg fun both => h.notPoint both.1
  | string | endOfInput => trivial
  | identifier | keyword k => exact List.takeWhile_cons_of_neg (by simp [h.notRest])

theorem Form.ends_white {c : Char} (h : IsWhite c) (kind : Kind) (text rest : Text) :
    (Form.lexeme kind).Ends text (c :: rest) :=
  Form.ends_separates h.separates kind text rest

variable {rest : Text} {words : List Written}

theorem Carries.white {c : Char} (h : IsWhite c) (behind : Carries (Segment.ofSource rest) words) :
    Carries (Segment.ofSource (c :: rest)) words := by
  obtain ⟨form, lexical, noLexeme, ends⟩ := h.lexical
  have cut := lexical.ofSource_append (ends rest)
  rw [List.singleton_append] at cut
  rw [cut]
  exact behind.silent lexical (Segment.isLexeme_eq_false noLexeme)

theorem Carries.comment {body : Text} (h : '\n' ∉ body) (ends : commentRest rest = [])
    (behind : Carries (Segment.ofSource rest) words) :
    Carries (Segment.ofSource ('/' :: '/' :: body ++ rest)) words := by
  have lexical : Lexical .comment ('/' :: '/' :: body) := .comment h
  rw [lexical.ofSource_append ends]
  exact behind.silent lexical rfl

/-- In front of segments that carry words, trivia make no difference. -/
theorem Trivia.carries {gap : Text} (h : Trivia gap)
    (behind : Carries (Segment.ofSource rest) words) :
    Carries (Segment.ofSource (gap ++ rest)) words := by
  induction h with
  | nil => exact behind
  | white h more ih => exact ih.white h
  | @comment body others h more ih =>
    rw [List.append_assoc]
    exact (ih.white (.inr (.inr (.inr rfl)))).comment h rfl

theorem Separator.carries {gap : Text} (h : Separator gap)
    (behind : Carries (Segment.ofSource rest) words) :
    Carries (Segment.ofSource (gap ++ rest)) words := by
  obtain ⟨white, more⟩ := h
  exact (more.carries behind).white white

theorem Trailer.carries {tail : Text} (h : Trailer tail) : Carries (Segment.ofSource tail) [] := by
  have nothing : Carries (Segment.ofSource []) [] := by
    rw [Segment.ofSource_nil]
    exact .nil
  cases h with
  | nil => exact nothing
  | separator h =>
    have := h.carries nothing
    rwa [List.append_nil] at this
  | comment h inside =>
    have := Carries.comment inside rfl nothing
    rw [List.append_nil] at this
    exact h.carries this

theorem Separator.ends {gap : Text} (h : Separator gap) (kind : Kind) (text following : Text) :
    (Form.lexeme kind).Ends text (gap ++ following) := by
  obtain ⟨white, more⟩ := h
  exact Form.ends_white white kind text _

theorem Trailer.ends {tail : Text} (h : Trailer tail) (kind : Kind) (text : Text) :
    (Form.lexeme kind).Ends text tail := by
  cases h with
  | nil => exact Form.ends_nil _ text
  | separator h =>
    have := h.ends kind text []
    rwa [List.append_nil] at this
  | comment h inside => exact h.ends kind text _

theorem Written.ofSource_append (w : Written) (ends : (Form.lexeme w.kind).Ends w.text rest) :
    Segment.ofSource (w.text ++ rest) = w.segment :: Segment.ofSource rest :=
  Lexical.ofSource_append (.lexeme w.lexeme) ends

/-- The lexemes of a text are those that are written in it. -/
theorem Spread.carries {text : Text} (h : Spread words text) :
    Carries (Segment.ofSource text) words := by
  induction h with
  | nothing h => exact h.carries
  | last w h =>
    rw [w.ofSource_append (h.ends w.kind w.text)]
    exact h.carries.word w
  | next w v h more ih =>
    rw [w.ofSource_append (h.ends w.kind w.text _)]
    exact (h.carries ih).word w

/-- A scan of a source that carries words reports nothing and returns the words, each with its kind
and the literal that it stands for, and the token at the end of input. -/
theorem Carries.scan {source : Text} (carries : Carries (Segment.ofSource source) words) :
    (Cursor.atStart source).scan.1 = none ∧
    (Cursor.atStart source).scan.2.reported = [] ∧
    ∃ tokens : List Token,
      (Cursor.atStart source).scan.2.tokens =
        tokens ++ [Token.ending (1 + Lines.count source)] ∧
      tokens.map Token.kind = words.map Written.kind ∧
      tokens.map Token.lexeme = words.map Written.text ∧
      ∀ t ∈ tokens, Value t.kind t.lexeme t.literal := by
  obtain ⟨ok, done⟩ := Cursor.scan_atStart source
  obtain ⟨found, tokens, lexemes, values⟩ := (transcript_fromLine 1 source).lexemes
  rw [Segment.flatMap_text_ofSource] at tokens
  rw [carries.lexemes] at lexemes
  refine ⟨ok, ?_, found, ?_, ?_, ?_, values⟩
  · rw [done.reported, Scan.ofSource, findings_eq_nil carries.lexical]
    rfl
  · exact done.tokens.trans tokens
  · have forms := congrArg (List.map Segment.form) lexemes
    have kinds : (found.map Token.kind).map Form.lexeme =
        (words.map Written.kind).map Form.lexeme := by
      rw [List.map_map, List.map_map] at forms ⊢
      exact forms
    exact (List.map_inj_right fun _ _ => Form.lexeme.inj).1 kinds
  · have texts := congrArg (List.map Segment.text) lexemes
    rw [List.map_map, List.map_map] at texts
    exact texts

/-- Scanning undoes writing: the scan of lexemes that are spread over a text, with trivia in front,
reports nothing, and returns the lexemes in order, each with its kind and the literal that it stands
for, and the token at the end of input. -/
theorem scan_spread {lead text : Text} (start : Trivia lead) (spread : Spread words text) :
    (Cursor.atStart (lead ++ text)).scan.1 = none ∧
    (Cursor.atStart (lead ++ text)).scan.2.reported = [] ∧
    ∃ tokens : List Token,
      (Cursor.atStart (lead ++ text)).scan.2.tokens =
        tokens ++ [Token.ending (1 + Lines.count (lead ++ text))] ∧
      tokens.map Token.kind = words.map Written.kind ∧
      tokens.map Token.lexeme = words.map Written.text ∧
      ∀ t ∈ tokens, Value t.kind t.lexeme t.literal :=
  (start.carries spread.carries).scan

/-- Lexemes of which the first begins like a keyword and the last looks like a comment and further
lexemes inside. -/
def forestSlashNumber : List Written :=
  [⟨.identifier, "forest".toList,
      .identifier (.mk (by decide) (List.all_eq_true.1 (by decide))) fun k => by
        cases k <;> decide⟩,
    ⟨.symbol .slash, ['/'], .symbol .slash⟩,
    ⟨.number, "1.5".toList,
      .number (@Reading.Pointed.fraction ['1'] ['5'] (by decide) (List.all_eq_true.1 (by decide))
        (by decide) (List.all_eq_true.1 (by decide)))⟩,
    ⟨.string, "\"a // 2\n\"".toList, @Lexeme.string "a // 2\n".toList (by decide)⟩]

def forestText : Text :=
  "forest // 2.\n/\r1.5\n// \"b\n \"a // 2\n\" // c".toList

theorem scan_spread_forest :
    Trivia "// \"1\n\t".toList ∧ Spread forestSlashNumber forestText ∧
    (Cursor.atStart ("// \"1\n\t".toList ++ forestText)).scan.1 = none ∧
    (Cursor.atStart ("// \"1\n\t".toList ++ forestText)).scan.2.reported = [] ∧
    ∃ tokens : List Token,
      (Cursor.atStart ("// \"1\n\t".toList ++ forestText)).scan.2.tokens =
        tokens ++ [Token.ending 6] ∧
      tokens.map Token.kind = [.identifier, .symbol .slash, .number, .string] ∧
      tokens.map Token.lexeme =
        ["forest".toList, "/".toList, "1.5".toList, "\"a // 2\n\"".toList] ∧
      ∀ t ∈ tokens, Value t.kind t.lexeme t.literal := by
  have white {c : Char} (h : c ∈ [' ', '\t', '\r', '\n']) : IsWhite c := by
    simpa [IsWhite] using h
  have trivia : Trivia "// \"1\n\t".toList :=
    @Trivia.comment " \"1".toList _ (by decide) (.white (white (by decide)) .nil)
  have spread : Spread forestSlashNumber forestText := by
    refine @Spread.next _ _ _ " // 2.\n".toList _ (.mk (white (by decide)) ?_) ?_
    · exact @Trivia.comment " 2.".toList _ (by decide) .nil
    refine @Spread.next _ _ _ "\r".toList _ (.mk (white (by decide)) .nil) ?_
    refine @Spread.next _ _ _ "\n// \"b\n ".toList _ (.mk (white (by decide)) ?_) ?_
    · exact @Trivia.comment " \"b".toList _ (by decide) (.white (white (by decide)) .nil)
    exact @Spread.last _ " // c".toList
      (@Trailer.comment " ".toList " c".toList (.mk (white (by decide)) .nil) (by decide))
  exact ⟨trivia, spread, scan_spread trivia spread⟩

end BearLex
