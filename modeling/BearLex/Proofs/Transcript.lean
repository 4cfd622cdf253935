import BearLex.Proofs.Extent

/-! The tokens that go with a list of segments: one for each lexeme, on the line where it starts,
and the token at the end of input. The tokens of a scan are those of the segments of its source. -/

namespace BearLex

/-- The token is that of the segment: the segment is a lexeme of its kind and has its text, and its
literal is what the lexeme stands for. -/
structure Token.Reads (t : Token) (s : Segment) : Prop where
  form : s.form = .lexeme t.kind
  text : t.lexeme = s.text
  value : Value t.kind t.lexeme t.literal

/-- The tokens of segments of which the first starts on `line`. -/
inductive Transcript : Nat → List Segment → List Token → Prop
  | ending (line : Nat) : Transcript line [] [Token.ending line]
  | lexeme {line : Nat} {s : Segment} {t : Token} {segments : List Segment} {tokens : List Token}
    (reads : t.Reads s) (place : t.line = line)
    (more : Transcript (line + Lines.count s.text) segments tokens) :
    Transcript line (s :: segments) (t :: tokens)
  | silent {line : Nat} {s : Segment} {segments : List Segment} {tokens : List Token}
    (noLexeme : ∀ kind, s.form ≠ .lexeme kind)
    (more : Transcript (line + Lines.count s.text) segments tokens) :
    Transcript line (s :: segments) tokens

namespace Segment

theorem lexeme_of_form {c : Char} {ahead : Text} {kind : Kind}
    (h : (first c ahead).form = .lexeme kind) : Lexeme kind (first c ahead).text := by
  rcases first_cases c ahead with lexical | ⟨-, -, e⟩ | ⟨-, e⟩
  · rw [h] at lexical
    cases lexical with
    | lexeme lexeme => exact lexeme
  · rw [e] at h
    cases h
  · rw [e] at h
    cases h

theorem reads_token {s : Segment} {kind : Kind} (h : s.form = .lexeme kind)
    (lexeme : Lexeme kind s.text) (line : Nat) :
    Token.Reads ⟨kind, s.text, literal kind s.text, line⟩ s :=
  ⟨h, rfl, lexeme.value⟩

theorem token?_of_form {s : Segment} {kind : Kind} (h : s.form = .lexeme kind) (line : Nat) :
    s.token? line = some ⟨kind, s.text, literal kind s.text, line⟩ := by
  rw [token?, h]

theorem token?_eq_none {s : Segment} (h : ∀ kind, s.form ≠ .lexeme kind) (line : Nat) :
    s.token? line = none := by
  unfold token?
  split
  · exact absurd ‹s.form = _› (h _)
  · rfl

theorem finding?_of_lexical {s : Segment} (h : Lexical s.form s.text) (line : Nat) :
    s.finding? line = none := by
  cases s
  cases h <;> rfl

end Segment

/-- The tokens of a scan are those of the segments of the text. -/
theorem transcript_fromLine (line : Nat) (source : Text) :
    Transcript line (Segment.ofSource source) (Scan.fromLine line source).tokens := by
  induction source using Segment.induction_rest generalizing line with
  | nil =>
    rw [Segment.ofSource_nil, Scan.fromLine_nil]
    exact .ending line
  | cons c ahead ih =>
    have more := ih (line + Lines.count (Segment.first c ahead).text)
    rw [Segment.ofSource_cons, Scan.fromLine_cons]
    dsimp only
    by_cases isLexeme : ∃ kind, (Segment.first c ahead).form = .lexeme kind
    · obtain ⟨kind, form⟩ := isLexeme
      have reads := Segment.reads_token form (Segment.lexeme_of_form form) line
      rw [Segment.token?_of_form form]
      exact .lexeme reads rfl more
    · have noLexeme : ∀ kind, (Segment.first c ahead).form ≠ .lexeme kind :=
        fun kind form => isLexeme ⟨kind, form⟩
      rw [Segment.token?_eq_none noLexeme]
      exact .silent noLexeme more

/-- Nothing is wrong with a text all of whose segments are of the grammar. -/
theorem findings_eq_nil {source : Text}
    (h : ∀ s ∈ Segment.ofSource source, Lexical s.form s.text) (line : Nat) :
    (Scan.fromLine line source).findings = [] := by
  induction source using Segment.induction_rest generalizing line with
  | nil => rw [Scan.fromLine_nil]
  | cons c ahead ih =>
    rw [Segment.ofSource_cons] at h
    obtain ⟨first, rest⟩ := List.forall_mem_cons.1 h
    rw [Scan.fromLine_cons]
    dsimp only
    rw [Segment.finding?_of_lexical first, ih rest]
    rfl

/-- The segment that a token other than the last is read from. -/
def Token.segment (t : Token) : Segment :=
  ⟨.lexeme t.kind, t.lexeme⟩

def Segment.isLexeme (s : Segment) : Bool :=
  match s.form with
  | .lexeme _ => true
  | _ => false

theorem Segment.isLexeme_eq_false {s : Segment} (h : ∀ kind, s.form ≠ .lexeme kind) :
    s.isLexeme = false := by
  unfold isLexeme
  split
  · exact absurd ‹s.form = _› (h _)
  · rfl

/-- The tokens of segments are those of the lexemes among them, and the one at the end of input. -/
theorem Transcript.lexemes {line : Nat} {segments : List Segment} {tokens : List Token}
    (h : Transcript line segments tokens) :
    ∃ found : List Token,
      tokens = found ++ [Token.ending (line + Lines.count (segments.flatMap Segment.text))] ∧
      found.map Token.segment = segments.filter Segment.isLexeme ∧
      ∀ t ∈ found, Value t.kind t.lexeme t.literal := by
  induction h with
  | ending line => exact ⟨[], rfl, rfl, List.forall_mem_nil _⟩
  | @lexeme line s t segments tokens reads place more ih =>
    obtain ⟨found, rfl, map, values⟩ := ih
    have segment : t.segment = s := by
      rw [Token.segment, ← reads.form, reads.text]
    have isLexeme : s.isLexeme = true := by
      rw [Segment.isLexeme, reads.form]
    refine ⟨t :: found, ?_, ?_, List.forall_mem_cons.2 ⟨reads.value, values⟩⟩
    · rw [List.flatMap_cons, Lines.count_append, List.cons_append, Nat.add_assoc]
    · rw [List.map_cons, List.filter_cons_of_pos isLexeme, segment, map]
  | @silent line s segments tokens noLexeme more ih =>
    obtain ⟨found, rfl, map, values⟩ := ih
    have isLexeme : ¬ s.isLexeme = true := by
      rw [Segment.isLexeme_eq_false noLexeme]
      exact Bool.false_ne_true
    refine ⟨found, ?_, ?_, values⟩
    · rw [List.flatMap_cons, Lines.count_append, Nat.add_assoc]
    · rw [List.filter_cons_of_neg isLexeme, map]

end BearLex
