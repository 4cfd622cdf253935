import BearLex.Proofs.Heads
import BearLex.Proofs.Transcript

/-! Maximal munch. From left to right, each segment of a source is the longest text of the grammar
that starts what remains; where no text of the grammar does, it is all that remains from a quotation
mark on, and a single character otherwise. Only one list of segments is such a cut of a source, and
a scan walks over these segments and returns their tokens. -/

namespace BearLex

/-- The segment is a text of the grammar that starts `remaining`, and none is longer. -/
structure Longest (remaining : Text) (s : Segment) : Prop where
  lexical : Lexical s.form s.text
  start : s.text <+: remaining
  longest : ∀ form text, Lexical form text → text <+: remaining → text.length ≤ s.text.length

/-- No text of the grammar starts `remaining`. -/
def Foreign (remaining : Text) : Prop :=
  ∀ form text, Lexical form text → ¬ text <+: remaining

/-- The segments are the longest ones from left to right. -/
inductive Munched : Text → List Segment → Prop
  | nil : Munched [] []
  | longest {s : Segment} {rest : Text} {segments : List Segment} (h : Longest (s.text ++ rest) s)
    (more : Munched rest segments) : Munched (s.text ++ rest) (s :: segments)
  | unclosed {rest : Text} (h : Foreign ('"' :: rest)) :
    Munched ('"' :: rest) [⟨.openString, '"' :: rest⟩]
  | stray {c : Char} {rest : Text} {segments : List Segment} (h : Foreign (c :: rest))
    (other : c ≠ '"') (more : Munched rest segments) :
    Munched (c :: rest) (⟨.stray, [c]⟩ :: segments)

namespace Segment

variable {c : Char} {ahead : Text}

theorem text_first_isPrefix (c : Char) (ahead : Text) : (first c ahead).text <+: c :: ahead :=
  ⟨_, text_first_append c ahead⟩

theorem length_le_first {form : Form} {text : Text} (h : Lexical form text)
    (start : text <+: c :: ahead) : text.length ≤ (first c ahead).text.length := by
  obtain ⟨d, rest, rfl⟩ := List.exists_cons_of_ne_nil h.ne_nil
  obtain ⟨rfl, inside⟩ := List.cons_prefix_cons.1 start
  have le := (h.length_le_extent inside).1
  have fits := inside.length_le
  simp only [first, List.length_cons, List.length_take]
  omega

theorem first_longest (h : Lexical (first c ahead).form (first c ahead).text) :
    Longest (c :: ahead) (first c ahead) :=
  ⟨h, text_first_isPrefix c ahead, fun _ _ other start => length_le_first other start⟩

/-- Where a segment is stray or an open string, no text of the grammar starts. -/
theorem foreign_of_form (h : (first c ahead).form = .stray ∨ (first c ahead).form = .openString) :
    Foreign (c :: ahead) := by
  intro form text lexical start
  obtain ⟨d, rest, rfl⟩ := List.exists_cons_of_ne_nil lexical.ne_nil
  obtain ⟨rfl, inside⟩ := List.cons_prefix_cons.1 start
  obtain ⟨-, notStray, notOpen⟩ := lexical.length_le_extent inside
  rcases h with stray | unclosed
  · exact notStray stray
  · exact notOpen unclosed

theorem eq_first_of_longest {s : Segment} (h : Longest (c :: ahead) s) : s = first c ahead := by
  have lexical : Lexical (first c ahead).form (first c ahead).text := by
    rcases first_cases c ahead with lexical | ⟨-, -, e⟩ | ⟨-, e⟩
    · exact lexical
    · exact absurd h.start (foreign_of_form (.inr (by rw [e])) _ _ h.lexical)
    · exact absurd h.start (foreign_of_form (.inl (by rw [e])) _ _ h.lexical)
  have le := length_le_first h.lexical h.start
  have ge := h.longest _ _ lexical (text_first_isPrefix c ahead)
  -- Both start the same text and neither is longer, so they are the same text.
  have text : s.text = (first c ahead).text :=
    (List.prefix_of_prefix_length_le h.start (text_first_isPrefix c ahead) le).eq_of_length
      (Nat.le_antisymm le ge)
  have form : s.form = (first c ahead).form := by
    refine h.lexical.form_unique ?_
    rw [text]
    exact lexical
  cases s
  simp only at text form
  rw [text, form]

/-- Where no text of the grammar starts, the first segment is all from a quotation mark on, or one
other character. -/
theorem first_of_foreign (h : Foreign (c :: ahead)) :
    (c = '"' ∧ first c ahead = ⟨.openString, c :: ahead⟩) ∨
      (c ≠ '"' ∧ first c ahead = ⟨.stray, [c]⟩) := by
  rcases first_cases c ahead with lexical | ⟨quote, -, e⟩ | ⟨foreign, e⟩
  · exact absurd (text_first_isPrefix c ahead) (h _ _ lexical)
  · exact .inl ⟨quote, e⟩
  · exact .inr ⟨ne_of_isForeign foreign (by decide), e⟩

theorem ofSource_of_first {s : Segment} {rest : Text} (h : first c ahead = s)
    (e : s.text ++ rest = c :: ahead) : ofSource (c :: ahead) = s :: ofSource rest := by
  subst h
  have rest_eq : rest = ahead.drop (extent c ahead).2 :=
    List.append_cancel_left (e.trans (text_first_append c ahead).symm)
  rw [ofSource_cons, rest_eq]

end Segment

/-- The segments of a source are the longest ones. -/
theorem munched_ofSource (source : Text) : Munched source (Segment.ofSource source) := by
  induction source using Segment.induction_rest with
  | nil =>
    rw [Segment.ofSource_nil]
    exact .nil
  | cons c ahead ih =>
    have split := Segment.text_first_append c ahead
    rw [Segment.ofSource_cons]
    rcases Segment.first_cases c ahead with lexical | ⟨rfl, -, e⟩ | ⟨foreign, e⟩
    · have longest := Segment.first_longest lexical
      rw [← split] at longest ⊢
      exact .longest longest ih
    · have foreign := Segment.foreign_of_form (.inr (congrArg Segment.form e))
      rw [e] at split ⊢
      have all : ahead.drop (Segment.extent '"' ahead).2 = [] := by simpa using split
      rw [all, Segment.ofSource_nil]
      exact .unclosed foreign
    · have nothing := Segment.foreign_of_form (.inl (congrArg Segment.form e))
      rw [e] at split ⊢
      have rest : ahead.drop (Segment.extent c ahead).2 = ahead := by simpa using split
      rw [rest] at ih ⊢
      exact .stray nothing (ne_of_isForeign foreign (by decide)) ih

/-- No other segments are the longest ones. -/
theorem Munched.eq_ofSource {source : Text} {segments : List Segment}
    (h : Munched source segments) : segments = Segment.ofSource source := by
  induction h with
  | nil => rw [Segment.ofSource_nil]
  | @longest s rest segments h more ih =>
    obtain ⟨c, others, e⟩ := List.exists_cons_of_ne_nil h.lexical.ne_nil
    have split : s.text ++ rest = c :: (others ++ rest) := by rw [e, List.cons_append]
    rw [split] at h ⊢
    rw [Segment.ofSource_of_first (Segment.eq_first_of_longest h).symm split, ih]
  | @unclosed rest h =>
    rcases Segment.first_of_foreign h with ⟨-, e⟩ | ⟨other, -⟩
    · rw [Segment.ofSource_of_first e (List.append_nil _), Segment.ofSource_nil]
    · exact absurd rfl other
  | @stray c rest segments h other more ih =>
    rcases Segment.first_of_foreign h with ⟨same, -⟩ | ⟨-, e⟩
    · exact absurd same other
    · rw [Segment.ofSource_of_first e rfl, ih]

/-- A scan of a source walks over its longest segments, which no other segments are, without gap or
overlap, and returns the token of every lexeme among them and the token at the end of input. -/
theorem scan_munches (source : Text) :
    ∃ segments : List Segment,
      Munched source segments ∧ (∀ others, Munched source others → others = segments) ∧
      segments.flatMap Segment.text = source ∧
      (Cursor.atStart source).heads.map Cursor.covered = segments.map Segment.text ∧
      (Cursor.atStart source).scan.1 = none ∧
      Transcript 1 segments (Cursor.atStart source).scan.2.tokens := by
  obtain ⟨ok, done⟩ := Cursor.scan_atStart source
  refine ⟨Segment.ofSource source, munched_ofSource source, fun _ h => h.eq_ofSource,
    Segment.flatMap_text_ofSource source, Cursor.covered_heads (Cursor.atStart source), ok, ?_⟩
  rw [done.tokens]
  exact transcript_fromLine 1 source

end BearLex
