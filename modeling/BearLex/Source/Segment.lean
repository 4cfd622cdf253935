import BearLex.Source.Character

/-! A source cut into segments from left to right, without gap or overlap: white space, comments,
lexemes, and what belongs to no lexeme. -/

namespace BearLex

/-- What a segment of a source is. -/
inductive Form
  | blank
  | newline
  | comment
  | stray
  | openString
  | lexeme (kind : Kind)
  deriving DecidableEq

/-- A part of a source. -/
structure Segment where
  form : Form
  text : Text
  deriving DecidableEq

namespace Segment

/-- The form of the segment that starts with `c` and is followed by `ahead`, and the number of
characters of `ahead` in it. -/
def extent (c : Char) (ahead : Text) : Form × Nat :=
  match Symbol.singles.lookup c, Symbol.pairs.lookup c with
  | some s, _ => (.lexeme (.symbol s), 0)
  | none, some (short, long) =>
    if ahead.head? = some '=' then (.lexeme (.symbol long), 1) else (.lexeme (.symbol short), 0)
  | none, none =>
    if c = '/' then
      if ahead.head? = some '/' then (.comment, 1 + (commentRest ahead.tail).length)
      else (.lexeme (.symbol .slash), 0)
    else if isSpacing c then (.blank, 0)
    else if c = '\n' then (.newline, 0)
    else if c = '"' then
      if '"' ∈ ahead then (.lexeme .string, (stringBody ahead).length + 1)
      else (.openString, ahead.length)
    else if c.isDigit then (.lexeme .number, (numberRest ahead).length)
    else if isIdentifierStart c then
      (.lexeme (wordKind (c :: identifierRest ahead)), (identifierRest ahead).length)
    else (.stray, 0)

/-- The first segment of a text that starts with `c` and goes on with `ahead`. -/
def first (c : Char) (ahead : Text) : Segment :=
  ⟨(extent c ahead).1, c :: ahead.take (extent c ahead).2⟩

theorem text_first_append (c : Char) (ahead : Text) :
    (first c ahead).text ++ ahead.drop (extent c ahead).2 = c :: ahead := by
  simp [first]

/-- The segments of `source`, after those in `before`, which come in reverse. -/
def cut (before : List Segment) (source : Text) : List Segment :=
  match source with
  | [] => before.reverse
  | c :: ahead => cut (first c ahead :: before) (ahead.drop (extent c ahead).2)
termination_by source.length
decreasing_by
  simp only [List.length_drop, List.length_cons]
  omega

/-- The segments of a source. -/
def ofSource (source : Text) : List Segment :=
  cut [] source

theorem cut_nil (before : List Segment) : cut before [] = before.reverse := by
  rw [cut]

theorem cut_cons (before : List Segment) (c : Char) (ahead : Text) :
    cut before (c :: ahead) = cut (first c ahead :: before) (ahead.drop (extent c ahead).2) := by
  rw [cut]

/-- What holds of the empty text, and of a text if it holds of what follows the first segment,
holds of every text. -/
theorem induction_rest {P : Text → Prop} (nil : P [])
    (cons : ∀ (c : Char) (ahead : Text), P (ahead.drop (extent c ahead).2) → P (c :: ahead))
    (source : Text) : P source := by
  induction h : source.length using Nat.strongRecOn generalizing source with
  | _ n ih =>
    cases source with
    | nil => exact nil
    | cons c ahead =>
      refine cons c ahead (ih _ ?_ _ rfl)
      rw [← h, List.length_drop, List.length_cons]
      omega

theorem cut_eq (before : List Segment) (source : Text) :
    cut before source = before.reverse ++ ofSource source := by
  induction source using induction_rest generalizing before with
  | nil => simp [ofSource, cut_nil]
  | cons c ahead ih =>
    rw [ofSource, cut_cons, cut_cons [], ih, ih [_]]
    simp

@[simp] theorem ofSource_nil : ofSource [] = [] := by
  simp [ofSource, cut_nil]

/-- A source that is not empty is its first segment and the segments of what follows. -/
theorem ofSource_cons (c : Char) (ahead : Text) :
    ofSource (c :: ahead) = first c ahead :: ofSource (ahead.drop (extent c ahead).2) := by
  rw [ofSource, cut_cons, cut_eq]
  simp

/-- The segments put together again are the source. -/
theorem flatMap_text_ofSource (source : Text) : (ofSource source).flatMap text = source := by
  induction source using induction_rest with
  | nil => rw [ofSource_nil, List.flatMap_nil]
  | cons c ahead ih => rw [ofSource_cons, List.flatMap_cons, ih, text_first_append]

theorem exists_first_of_mem {source : Text} {s : Segment} (h : s ∈ ofSource source) :
    ∃ c ahead, s = first c ahead := by
  induction source using induction_rest with
  | nil =>
    rw [ofSource_nil] at h
    cases h
  | cons c ahead ih =>
    rw [ofSource_cons, List.mem_cons] at h
    rcases h with rfl | later
    · exact ⟨c, ahead, rfl⟩
    · exact ih later

end Segment

end BearLex
