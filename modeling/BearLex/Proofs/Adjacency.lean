import BearLex.Proofs.Layout
import Mathlib.Data.List.Basic
import Mathlib.Data.List.Flatten

/-! Lexemes written one right after the other, with nothing between them. They are scanned as
themselves if and only if none of them runs into what follows it, and there are five ways in which
one can. -/

namespace BearLex

/-- The words with nothing between them. -/
def joined (words : List Written) : Text :=
  words.flatMap Written.text

/-- The ways in which a word runs into the words after it. -/
inductive Clashes (w : Written) : List Written → Prop
  | word {v : Written} {rest : List Written} {c : Char} {t : Text}
    (h : w.kind = .identifier ∨ ∃ k, w.kind = .keyword k) (text : v.text = c :: t)
    (inside : isIdentifierRest c = true) : Clashes w (v :: rest)
  | numbers {v : Written} {rest : List Written} (h : w.kind = .number) (h' : v.kind = .number) :
    Clashes w (v :: rest)
  | operators {v : Written} {rest : List Written} {s : Symbol} (h : w.kind = .symbol s)
    (short : s = .bang ∨ s = .equal ∨ s = .less ∨ s = .greater)
    (h' : v.kind = .symbol .equal ∨ v.kind = .symbol .equalEqual) : Clashes w (v :: rest)
  | slashes {v : Written} {rest : List Written} (h : w.kind = .symbol .slash)
    (h' : v.kind = .symbol .slash) : Clashes w (v :: rest)
  | point {v u : Written} {rest : List Written} (h : w.kind = .number) (noPoint : '.' ∉ w.text)
    (h' : v.kind = .symbol .dot) (h'' : u.kind = .number) : Clashes w (v :: u :: rest)

/-- One of the words runs into those after it. -/
def Clash (words : List Written) : Prop :=
  ∃ w rest, w :: rest <:+ words ∧ Clashes w rest

variable {w v : Written} {words rest : List Written} {c : Char} {t : Text}

theorem joined_cons (w : Written) (rest : List Written) :
    joined (w :: rest) = w.text ++ joined rest :=
  List.flatMap_cons

theorem not_clash_nil : ¬ Clash [] := by
  rintro ⟨w, rest, suffix, -⟩
  cases List.suffix_nil.1 suffix

theorem clash_cons : Clash (w :: rest) ↔ Clashes w rest ∨ Clash rest := by
  constructor
  · rintro ⟨v, others, suffix, clashes⟩
    rcases List.suffix_cons_iff.1 suffix with same | later
    · cases same
      exact .inl clashes
    · exact .inr ⟨v, others, later, clashes⟩
  · rintro (clashes | ⟨v, others, later, clashes⟩)
    · exact ⟨w, rest, List.suffix_rfl, clashes⟩
    · exact ⟨v, others, later.trans (List.suffix_cons w rest), clashes⟩

/-! ### The first character of a word -/

/-- The form of a lexeme is that of the first segment of its text. -/
theorem Written.extent_eq (v : Written) (text : v.text = c :: t) :
    (Segment.extent c t).1 = .lexeme v.kind := by
  have lexical := Lexical.lexeme v.lexeme
  rw [text] at lexical
  have extent := lexical.extent_eq (Form.ends_nil _ _)
  rw [List.append_nil] at extent
  rw [extent]

theorem Written.text_of_symbol {s : Symbol} (h : v.kind = .symbol s) : v.text = s.spelling := by
  obtain ⟨kind, text, lexeme⟩ := v
  cases h
  cases lexeme
  rfl

theorem Written.digit_of_number (h : v.kind = .number) :
    ∃ c t, v.text = c :: t ∧ c.isDigit = true := by
  obtain ⟨kind, text, lexeme⟩ := v
  cases h
  cases lexeme with
  | number pointed => exact pointed.exists_cons

theorem Written.number_of_digit (text : v.text = c :: t) (digit : c.isDigit = true) :
    v.kind = .number := by
  have extent := v.extent_eq text
  rw [Segment.extent_digit digit] at extent
  exact (Form.lexeme.inj extent).symm

theorem Written.dot_of_point (text : v.text = '.' :: t) : v.kind = .symbol .dot :=
  (Form.lexeme.inj (v.extent_eq text)).symm

theorem Written.slash_of_slash (text : v.text = '/' :: t) : v.kind = .symbol .slash := by
  have extent := v.extent_eq text
  have cases : Segment.extent '/' t = if t.head? = some '/' then
      (.comment, 1 + (commentRest t.tail).length) else (.lexeme (.symbol .slash), 0) := rfl
  rw [cases] at extent
  split at extent
  · cases extent
  · exact (Form.lexeme.inj extent).symm

theorem Written.equal_of_equal (text : v.text = '=' :: t) :
    v.kind = .symbol .equal ∨ v.kind = .symbol .equalEqual := by
  have extent := v.extent_eq text
  have cases : Segment.extent '=' t = if t.head? = some '=' then
      (.lexeme (.symbol .equalEqual), 1) else (.lexeme (.symbol .equal), 0) := rfl
  rw [cases] at extent
  split at extent
  · exact .inr (Form.lexeme.inj extent).symm
  · exact .inl (Form.lexeme.inj extent).symm

/-- Words with nothing between them begin with the first character of the first word. -/
theorem exists_of_joined (h : joined rest = c :: t) :
    ∃ v others t', rest = v :: others ∧ v.text = c :: t' ∧ t = t' ++ joined others := by
  cases rest with
  | nil => cases h
  | cons v others =>
    obtain ⟨d, t', text⟩ := List.exists_cons_of_ne_nil v.lexeme.ne_nil
    rw [joined_cons, text, List.cons_append] at h
    obtain ⟨rfl, rfl⟩ := List.cons.inj h
    exact ⟨v, others, t', rfl, text, rfl⟩

/-! ### Clashes -/

theorem Clashes.not_ends (h : Clashes w rest) :
    ¬ (Form.lexeme w.kind).Ends w.text (joined rest) := by
  cases h with
  | @word v rest c t h text inside =>
    have some : identifierRest (joined (v :: rest)) ≠ [] := by
      rw [joined_cons, text, List.cons_append, identifierRest,
        List.takeWhile_cons_of_pos inside]
      exact List.cons_ne_nil _ _
    rcases h with kind | ⟨k, kind⟩
    · rw [kind]
      exact some
    · rw [kind]
      exact some
  | @numbers v rest h h' =>
    obtain ⟨c, t, text, digit⟩ := v.digit_of_number h'
    rw [h, joined_cons, text, List.cons_append]
    rintro ⟨noDigit, -⟩
    rw [List.takeWhile_cons_of_pos digit] at noDigit
    cases noDigit
  | @operators v rest s h short h' =>
    have next : (joined (v :: rest)).head? = some '=' := by
      rw [joined_cons]
      rcases h' with kind | kind
      · rw [v.text_of_symbol kind]
        rfl
      · rw [v.text_of_symbol kind]
        rfl
    have grown : s.grownBy = some '=' := by rcases short with rfl | rfl | rfl | rfl <;> rfl
    rw [h]
    rintro (alone | other)
    · rw [grown] at alone
      cases alone
    · exact other (next.trans grown.symm)
  | @slashes v rest h h' =>
    rw [h, joined_cons, v.text_of_symbol h']
    rintro (alone | other)
    · cases alone
    · exact other rfl
  | @point v u rest h noPoint h' h'' =>
    obtain ⟨d, t, text, digit⟩ := u.digit_of_number h''
    rw [h, joined_cons, v.text_of_symbol h', joined_cons, text]
    rintro ⟨-, noFraction⟩
    have some : fraction ('.' :: d :: (t ++ joined rest)) ≠ [] := by
      rw [fraction, if_pos ⟨rfl, digit⟩]
      exact List.cons_ne_nil _ _
    exact some (noFraction noPoint)

theorem takeWhile_joined {p : Char → Bool}
    (h : ∀ v others c t, rest = v :: others → v.text = c :: t → ¬ p c = true) :
    (joined rest).takeWhile p = [] := by
  cases front : joined rest with
  | nil => rfl
  | cons c t =>
    obtain ⟨v, others, t', rfl, text, -⟩ := exists_of_joined front
    exact List.takeWhile_cons_of_neg (h v others c t' rfl text)

theorem exists_of_fraction {s : Text} (h : fraction s ≠ []) :
    ∃ d t, s = '.' :: d :: t ∧ d.isDigit = true := by
  match s with
  | [] | [_] => exact absurd rfl h
  | c :: d :: t =>
    by_cases both : c = '.' ∧ d.isDigit = true
    · exact ⟨d, t, by rw [both.1], both.2⟩
    · exact absurd (if_neg both) h

/-- A word that does not run into those after it is not made longer by them. -/
theorem ends_of_not_clashes (h : ¬ Clashes w rest) :
    (Form.lexeme w.kind).Ends w.text (joined rest) := by
  cases kind : w.kind with
  | symbol s =>
    cases s with
    | bang | equal | less | greater =>
      refine .inr fun next => ?_
      obtain ⟨t, front⟩ := List.head?_eq_some_iff.1 next
      obtain ⟨v, others, t', rfl, text, -⟩ := exists_of_joined front
      exact h (.operators kind (by simp) (v.equal_of_equal text))
    | slash =>
      refine .inr fun next => ?_
      obtain ⟨t, front⟩ := List.head?_eq_some_iff.1 next
      obtain ⟨v, others, t', rfl, text, -⟩ := exists_of_joined front
      exact h (.slashes kind (v.slash_of_slash text))
    | _ => exact .inl rfl
  | number =>
    refine ⟨takeWhile_joined ?_, fun noPoint => ?_⟩
    · rintro v others c t rfl text digit
      exact h (.numbers kind (v.number_of_digit text digit))
    · refine Decidable.byContradiction fun some => ?_
      obtain ⟨d, t, front, digit⟩ := exists_of_fraction some
      obtain ⟨v, others, t', rfl, text, after⟩ := exists_of_joined front
      have dot := v.dot_of_point text
      -- The point is all of its word, so the digit begins the next one.
      have spelled := v.text_of_symbol dot
      rw [text] at spelled
      cases spelled
      obtain ⟨u, others, t', rfl, text, -⟩ := exists_of_joined after.symm
      exact h (.point kind noPoint dot (u.number_of_digit text digit))
  | identifier =>
    refine takeWhile_joined ?_
    rintro v others c t rfl text inside
    exact h (.word (.inl kind) text inside)
  | keyword k =>
    refine takeWhile_joined ?_
    rintro v others c t rfl text inside
    exact h (.word (.inr ⟨k, kind⟩) text inside)
  | string | endOfInput => trivial

/-- Joined words are the segments of their text if and only if none runs into those after it. -/
theorem ofSource_joined_iff :
    Segment.ofSource (joined words) = words.map Written.segment ↔ ¬ Clash words := by
  induction words with
  | nil => exact iff_of_true Segment.ofSource_nil not_clash_nil
  | cons w rest ih =>
    rw [clash_cons, not_or, ← ih, joined_cons, List.map_cons]
    constructor
    · intro cut
      obtain ⟨c, t, text⟩ := List.exists_cons_of_ne_nil w.lexeme.ne_nil
      rw [text, List.cons_append, Segment.ofSource_cons] at cut
      obtain ⟨first, others⟩ := List.cons.inj cut
      have behind : (t ++ joined rest).drop (Segment.extent c (t ++ joined rest)).2 =
          joined rest := by
        rw [← Segment.flatMap_text_ofSource (List.drop _ _), others, List.flatMap_map]
        rfl
      have ends := Segment.first_ends c (t ++ joined rest)
      rw [first, behind] at ends
      rw [behind] at others
      exact ⟨fun clashes => clashes.not_ends ends, others⟩
    · rintro ⟨apart, others⟩
      rw [w.ofSource_append (ends_of_not_clashes apart)]
      exact congrArg _ others

/-! ### What a scan tells of its segments -/

namespace Segment

variable {segments : List Segment} {source : Text} {s : Segment}

theorem lexical_of_isLexeme (inside : s ∈ ofSource source) (isLexeme : s.isLexeme = true) :
    Lexical s.form s.text := by
  obtain ⟨c, ahead, rfl⟩ := exists_first_of_mem inside
  unfold Segment.isLexeme at isLexeme
  split at isLexeme
  · rename_i kind form
    rw [form]
    exact .lexeme (lexeme_of_form form)
  · cases isLexeme

/-- Segments of the grammar are known from their texts. -/
theorem flatMap_ofSource_text (h : ∀ s ∈ segments, Lexical s.form s.text) :
    (segments.map text).flatMap ofSource = segments := by
  have single : ∀ s ∈ segments, ofSource s.text = [s] := by
    intro s mem
    have cut := (h s mem).ofSource_append (Form.ends_nil _ _)
    rw [List.append_nil, ofSource_nil] at cut
    exact cut
  calc
    (segments.map text).flatMap ofSource = segments.flatMap fun s => [s] := by
      rw [List.flatMap_map]
      exact List.flatMap_congr single
    _ = segments := List.flatMap_singleton' segments

/-- Where the lexemes of a source are all of its text, there is nothing else in it. -/
theorem forall_isLexeme (nonempty : ∀ s ∈ segments, s.text ≠ [])
    (all : (segments.filter isLexeme).flatMap text = segments.flatMap text) :
    ∀ s ∈ segments, s.isLexeme = true := by
  induction segments with
  | nil => exact List.forall_mem_nil _
  | cons s segments ih =>
    obtain ⟨first, others⟩ := List.forall_mem_cons.1 nonempty
    by_cases isLexeme : s.isLexeme = true
    · rw [List.filter_cons_of_pos isLexeme, List.flatMap_cons, List.flatMap_cons] at all
      exact List.forall_mem_cons.2 ⟨isLexeme, ih others (List.append_cancel_left all)⟩
    · rw [List.filter_cons_of_neg isLexeme, List.flatMap_cons] at all
      have fewer := (List.filter_sublist (p := Segment.isLexeme) (l := segments)).flatMap text
      have short := fewer.length_le
      have some := List.length_pos_iff.2 first
      rw [all, List.length_append] at short
      omega

end Segment

/-- Where the tokens of joined words have the texts of the words, the segments are the words. -/
theorem ofSource_of_lexemes
    (h : (Scan.ofSource (joined words)).tokens.map Token.lexeme =
      words.map Written.text ++ [[]]) :
    Segment.ofSource (joined words) = words.map Written.segment := by
  obtain ⟨found, tokens, lexemes, -⟩ := (transcript_fromLine 1 (joined words)).lexemes
  rw [Scan.ofSource, tokens, List.map_append] at h
  have texts : ((Segment.ofSource (joined words)).filter Segment.isLexeme).map Segment.text =
      words.map Written.text := by
    rw [← lexemes, List.map_map]
    exact (List.append_inj' h rfl).1
  have all : ((Segment.ofSource (joined words)).filter Segment.isLexeme).flatMap Segment.text =
      (Segment.ofSource (joined words)).flatMap Segment.text := by
    rw [List.flatMap_def, texts, ← List.flatMap_def, Segment.flatMap_text_ofSource, joined]
  have nonempty : ∀ s ∈ Segment.ofSource (joined words), s.text ≠ [] := by
    intro s mem
    obtain ⟨c, ahead, rfl⟩ := Segment.exists_first_of_mem mem
    exact List.cons_ne_nil _ _
  have each := Segment.forall_isLexeme nonempty all
  rw [List.filter_eq_self.2 each] at texts
  have written : ∀ s ∈ words.map Written.segment, Lexical s.form s.text := by
    intro s mem
    obtain ⟨w, -, rfl⟩ := List.mem_map.1 mem
    exact .lexeme w.lexeme
  calc
    Segment.ofSource (joined words) =
        ((Segment.ofSource (joined words)).map Segment.text).flatMap Segment.ofSource :=
      (Segment.flatMap_ofSource_text fun s mem =>
        Segment.lexical_of_isLexeme mem (each s mem)).symm
    _ = ((words.map Written.segment).map Segment.text).flatMap Segment.ofSource := by
      rw [texts, List.map_map]
      rfl
    _ = words.map Written.segment := Segment.flatMap_ofSource_text written

theorem carries_map_segment (words : List Written) :
    Carries (words.map Written.segment) words := by
  induction words with
  | nil => exact .nil
  | cons w words ih => exact ih.word w

/-- Words with nothing between them are scanned without a diagnostic and as themselves, up to the
token at the end of input, if and only if none runs into what follows it: no identifier or keyword
is followed by a letter, digit or underscore, no number by a number, no `!`, `=`, `<` or `>` by `=`
or `==`, no slash by a slash, and no number without a point by a point and a number. The tokens then
have the kinds of the words, too. -/
theorem scan_adjacent (words : List Written) :
    let ran := (Cursor.atStart (joined words)).scan
    ran.1 = none ∧
    (ran.2.reported = [] ∧ ran.2.tokens.map Token.lexeme = words.map Written.text ++ [[]] ↔
      ¬ Clash words) ∧
    (¬ Clash words → ran.2.tokens.map Token.kind = words.map Written.kind ++ [.endOfInput]) := by
  intro ran
  obtain ⟨ok, done⟩ := Cursor.scan_atStart (joined words)
  have apart : ¬ Clash words → Carries (Segment.ofSource (joined words)) words := by
    intro none
    rw [ofSource_joined_iff.2 none]
    exact carries_map_segment words
  refine ⟨ok, ⟨?_, ?_⟩, ?_⟩
  · rintro ⟨-, lexemes⟩
    have tokens : ran.2.tokens = (Scan.ofSource (joined words)).tokens := done.tokens
    rw [tokens] at lexemes
    exact ofSource_joined_iff.1 (ofSource_of_lexemes lexemes)
  · intro none
    obtain ⟨-, reported, found, tokens, -, lexemes, -⟩ := (apart none).scan
    refine ⟨reported, ?_⟩
    rw [tokens, List.map_append, lexemes]
    rfl
  · intro none
    obtain ⟨-, -, found, tokens, kinds, -, -⟩ := (apart none).scan
    rw [tokens, List.map_append, kinds]
    rfl

end BearLex
