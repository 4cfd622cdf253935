import BearLex.Proofs.Grammar

/-! How far the first segment of a text reaches. A text of the grammar is the first segment of
every text it starts, unless what follows makes it longer, and nothing of the grammar at the start
of a text is longer than its first segment. -/

namespace BearLex

/-! ### The parts of a lexeme before further text -/

theorem commentRest_append {s : Text} (h : '\n' ∉ s) (t : Text) :
    commentRest (s ++ t) = s ++ commentRest t := by
  refine List.takeWhile_append_of_pos fun c hc => ?_
  have : c ≠ '\n' := fun e => h (e ▸ hc)
  simpa using this

theorem identifierRest_append {s : Text} (h : ∀ c ∈ s, isIdentifierRest c = true) (t : Text) :
    identifierRest (s ++ t) = s ++ identifierRest t :=
  List.takeWhile_append_of_pos h

theorem stringBody_append {s : Text} (h : '"' ∉ s) (t : Text) :
    stringBody (s ++ '"' :: t) = s := by
  refine Text.takeWhile_append_cons (fun c hc => ?_) (by decide) t
  have : c ≠ '"' := fun e => h (e ▸ hc)
  simpa using this

theorem numberRest_append {s : Text} (h : ∀ c ∈ s, c.isDigit = true) (t : Text) :
    numberRest (s ++ t) = s ++ numberRest t := by
  rw [numberRest, List.takeWhile_append_of_pos h, List.dropWhile_append_of_pos h, numberRest,
    List.append_assoc]

theorem numberRest_point {s : Text} (nonempty : s ≠ []) (h : ∀ c ∈ s, c.isDigit = true)
    (t : Text) : numberRest ('.' :: s ++ t) = '.' :: s ++ t.takeWhile Char.isDigit := by
  obtain ⟨d, rest, rfl⟩ := List.exists_cons_of_ne_nil nonempty
  have first : d.isDigit = true := h d List.mem_cons_self
  have others : ∀ c ∈ rest, c.isDigit = true := fun c hc => h c (List.mem_cons_of_mem d hc)
  have point : ('.' : Char).isDigit = false := by decide
  simp [numberRest, fraction, point, first, List.takeWhile_append_of_pos others]

theorem numberRest_decimal {s u : Text} (h : ∀ c ∈ s, c.isDigit = true) (nonempty : u ≠ [])
    (h' : ∀ c ∈ u, c.isDigit = true) (t : Text) :
    numberRest (s ++ '.' :: u ++ t) = s ++ '.' :: u ++ t.takeWhile Char.isDigit := by
  rw [List.append_assoc, numberRest_append h, numberRest_point nonempty h', List.append_assoc]

namespace Segment

variable {c : Char} {ahead : Text}

/-! ### The extent by the first character -/

/-- The characters that open a segment by themselves, whatever class they are in. -/
def marks : Text :=
  Symbol.singles.map Prod.fst ++ Symbol.pairs.map Prod.fst ++ ['/', ' ', '\r', '\t', '\n', '"']

theorem lookup_eq_none_iff {α : Type} {pairs : List (Char × α)} :
    pairs.lookup c = none ↔ c ∉ pairs.map Prod.fst := by
  simp only [List.lookup_eq_none_iff, List.mem_map, bne_iff_ne]
  constructor
  · rintro h ⟨p, hp, e⟩
    exact h p hp e.symm
  · intro h p hp e
    exact h ⟨p, hp, e.symm⟩

theorem extent_of_not_mem_marks (h : c ∉ marks) :
    extent c ahead =
      if c.isDigit then (.lexeme .number, (numberRest ahead).length)
      else if isIdentifierStart c then
        (.lexeme (wordKind (c :: identifierRest ahead)), (identifierRest ahead).length)
      else (.stray, 0) := by
  simp only [marks, List.mem_append, not_or] at h
  obtain ⟨⟨single, pair⟩, others⟩ := h
  simp only [List.mem_cons, List.not_mem_nil, or_false, not_or] at others
  obtain ⟨slash, space, ret, tab, newline, quote⟩ := others
  simp [extent, lookup_eq_none_iff.2 single, lookup_eq_none_iff.2 pair, isSpacing, *]

theorem not_mem_marks_of {p : Char → Bool} (h : p c = true) (none : marks.any p = false) :
    c ∉ marks := by
  intro mem
  exact List.any_eq_false.1 none c mem h

theorem extent_digit (h : c.isDigit = true) :
    extent c ahead = (.lexeme .number, (numberRest ahead).length) := by
  rw [extent_of_not_mem_marks (not_mem_marks_of h (by decide)), if_pos h]

theorem extent_start (h : isIdentifierStart c = true) :
    extent c ahead =
      (.lexeme (wordKind (c :: identifierRest ahead)), (identifierRest ahead).length) := by
  have notDigit : ¬ c.isDigit = true := by
    intro digit
    have := Reading.forall_isDigit (P := fun d => isIdentifierStart d = false) (by decide) digit
    rw [this] at h
    cases h
  rw [extent_of_not_mem_marks (not_mem_marks_of h (by decide)), if_neg notDigit, if_pos h]

theorem extent_blank (h : c = ' ' ∨ c = '\r' ∨ c = '\t') : extent c ahead = (.blank, 0) := by
  obtain rfl | rfl | rfl := h <;> rfl

theorem extent_newline : extent '\n' ahead = (.newline, 0) := rfl

theorem extent_comment : extent '/' ('/' :: ahead) = (.comment, 1 + (commentRest ahead).length) :=
  rfl

theorem extent_closed (h : '"' ∈ ahead) :
    extent '"' ahead = (.lexeme .string, (stringBody ahead).length + 1) :=
  if_pos h

end Segment

/-- The character that, behind a symbol, makes it a longer symbol or a comment. -/
def Symbol.grownBy : Symbol → Option Char
  | bang | equal | less | greater => some '='
  | slash => some '/'
  | _ => none

/-- What follows a text of the grammar does not make it longer. -/
def Form.Ends : Form → Text → Text → Prop
  | .comment, _, following => commentRest following = []
  | .lexeme (.symbol s), _, following => s.grownBy = none ∨ following.head? ≠ s.grownBy
  | .lexeme .number, text, following =>
    following.takeWhile Char.isDigit = [] ∧ ('.' ∉ text → fraction following = [])
  | .lexeme .identifier, _, following => identifierRest following = []
  | .lexeme (.keyword _), _, following => identifierRest following = []
  | _, _, _ => True

namespace Segment

theorem extent_symbol {s : Symbol} {c : Char} {rest following : Text} (e : s.spelling = c :: rest)
    (ends : s.grownBy = none ∨ following.head? ≠ s.grownBy) :
    extent c (rest ++ following) = (.lexeme (.symbol s), rest.length) := by
  have unequal (d : Char) (grown : s.grownBy = some d) : following.head? ≠ some d := by
    rcases ends with none | other
    · rw [none] at grown
      cases grown
    · exact grown ▸ other
  cases s with
  | bang | equal | less | greater =>
    cases e
    exact if_neg (unequal '=' rfl)
  | slash =>
    cases e
    exact if_neg (unequal '/' rfl)
  | _ =>
    cases e
    rfl

theorem extent_symbol_grown {s : Symbol} {c d : Char} {rest : Text} (e : s.spelling = c :: rest)
    (grown : s.grownBy = some d) (following : Text) :
    ∃ form more, extent c (rest ++ d :: following) = (form, rest.length + 1 + more) ∧
      form ≠ .stray ∧ form ≠ .openString := by
  cases s with
  | bang | equal | less | greater =>
    cases e
    cases grown
    exact ⟨_, 0, rfl, nofun, nofun⟩
  | slash =>
    cases e
    cases grown
    exact ⟨.comment, (commentRest following).length, rfl, nofun, nofun⟩
  | _ => cases grown

theorem extent_word {c : Char} {rest : Text} (h : IsWord (c :: rest)) (following : Text) :
    extent c (rest ++ following) =
      (.lexeme (wordKind (c :: rest ++ identifierRest following)),
        (rest ++ identifierRest following).length) := by
  obtain ⟨start, inside⟩ := h
  rw [extent_start start, identifierRest_append inside]
  rfl

theorem extent_number_append {c : Char} {rest text : Text} (e : c :: rest = text)
    (h : Reading.Pointed text) (following : Text) :
    extent c (rest ++ following) =
      (.lexeme .number,
        (rest ++ if '.' ∈ text then following.takeWhile Char.isDigit
          else numberRest following).length) := by
  cases h with
  | whole nonempty h =>
    subst e
    have noPoint : '.' ∉ c :: rest := by
      intro mem
      exact absurd (h '.' mem) (by decide)
    rw [extent_digit (h c List.mem_cons_self), if_neg noPoint,
      numberRest_append fun d hd => h d (List.mem_cons_of_mem c hd)]
  | @fraction digits decimals nonempty h nonempty' h' =>
    obtain ⟨d, others, rfl⟩ := List.exists_cons_of_ne_nil nonempty
    obtain ⟨rfl, rfl⟩ : c = d ∧ rest = others ++ '.' :: decimals := List.cons.inj e
    rw [extent_digit (h c List.mem_cons_self), if_pos (by simp),
      numberRest_decimal (fun d hd => h d (List.mem_cons_of_mem c hd)) nonempty' h']

theorem extent_string {body : Text} (h : '"' ∉ body) (following : Text) :
    extent '"' (body ++ '"' :: following) = (.lexeme .string, body.length + 1) := by
  rw [extent_closed (by simp), stringBody_append h]

end Segment

/-- A text of the grammar is the first segment of every text that starts with it and does not make
it longer. -/
theorem Lexical.extent_eq {form : Form} {c : Char} {rest following : Text}
    (h : Lexical form (c :: rest)) (ends : form.Ends (c :: rest) following) :
    Segment.extent c (rest ++ following) = (form, rest.length) := by
  generalize e : c :: rest = text at h ends
  cases h with
  | blank h =>
    cases e
    exact Segment.extent_blank h
  | newline =>
    cases e
    exact Segment.extent_newline
  | @comment body h =>
    cases e
    have none : commentRest following = [] := ends
    rw [List.cons_append, Segment.extent_comment, commentRest_append h, none, List.append_nil,
      List.length_cons, Nat.add_comm]
  | lexeme h =>
    cases h with
    | symbol s => exact Segment.extent_symbol e.symm ends
    | number h =>
      obtain ⟨noDigit, noFraction⟩ := ends
      rw [Segment.extent_number_append e h following, noDigit]
      by_cases point : '.' ∈ text
      · simp [point]
      · have none : numberRest following = [] := by
          have := List.takeWhile_append_dropWhile (p := Char.isDigit) (l := following)
          rw [noDigit, List.nil_append] at this
          rw [numberRest, noDigit, this, noFraction point, List.nil_append]
        simp [point, none]
    | @string body h =>
      obtain ⟨rfl, rfl⟩ : c = '"' ∧ rest = body ++ ['"'] := List.cons.inj e
      rw [List.append_assoc, List.length_append]
      exact Segment.extent_string h following
    | keyword k =>
      have none : identifierRest following = [] := ends
      have word := k.isWord_word
      rw [← e] at word
      rw [Segment.extent_word word, none, List.append_nil, List.append_nil, e, wordKind_word]
    | identifier word free =>
      subst e
      have none : identifierRest following = [] := ends
      rw [Segment.extent_word word, none, List.append_nil, List.append_nil, wordKind_of_free free]

/-- No text of the grammar at the start of a text is longer than its first segment, which then is
of the grammar too. -/
theorem Lexical.length_le_extent {form : Form} {c : Char} {rest ahead : Text}
    (h : Lexical form (c :: rest)) (start : rest <+: ahead) :
    rest.length ≤ (Segment.extent c ahead).2 ∧
      (Segment.extent c ahead).1 ≠ .stray ∧ (Segment.extent c ahead).1 ≠ .openString := by
  obtain ⟨following, rfl⟩ := start
  generalize e : c :: rest = text at h
  cases h with
  | blank h =>
    cases e
    rw [Segment.extent_blank h]
    exact ⟨Nat.le_refl _, nofun, nofun⟩
  | newline =>
    cases e
    exact ⟨Nat.le_refl _, nofun, nofun⟩
  | @comment body h =>
    cases e
    rw [List.cons_append, Segment.extent_comment, commentRest_append h]
    refine ⟨?_, nofun, nofun⟩
    simp only [List.length_cons, List.length_append]
    omega
  | lexeme h =>
    cases h with
    | symbol s =>
      by_cases ends : s.grownBy = none ∨ following.head? ≠ s.grownBy
      · rw [Segment.extent_symbol e.symm ends]
        exact ⟨Nat.le_refl _, nofun, nofun⟩
      · obtain ⟨notNone, same⟩ := not_or.1 ends
        obtain ⟨d, grown⟩ := Option.ne_none_iff_exists'.1 notNone
        rw [Decidable.not_not, grown] at same
        obtain ⟨others, rfl⟩ := List.head?_eq_some_iff.1 same
        obtain ⟨form, more, extent, grammatical⟩ :=
          Segment.extent_symbol_grown e.symm grown others
        rw [extent]
        exact ⟨by omega, grammatical⟩
    | number h =>
      rw [Segment.extent_number_append e h following]
      exact ⟨by simp, nofun, nofun⟩
    | @string body h =>
      obtain ⟨rfl, rfl⟩ : c = '"' ∧ rest = body ++ ['"'] := List.cons.inj e
      rw [List.append_assoc]
      have extent := Segment.extent_string h following
      rw [show ['"'] ++ following = '"' :: following from rfl, extent]
      exact ⟨by simp, nofun, nofun⟩
    | keyword k =>
      have word := k.isWord_word
      rw [← e] at word
      rw [Segment.extent_word word]
      exact ⟨by simp, nofun, nofun⟩
    | identifier word free =>
      subst e
      rw [Segment.extent_word word]
      exact ⟨by simp, nofun, nofun⟩

namespace Segment

/-- The ways in which the first segment of a text that starts with `c` is cut: the text ahead, the
form, and the number of characters ahead that belong to the segment. -/
inductive Extent (c : Char) : Text → Form → Nat → Prop
  | blank {ahead : Text} (h : c = ' ' ∨ c = '\r' ∨ c = '\t') : Extent c ahead .blank 0
  | newline {ahead : Text} (h : c = '\n') : Extent c ahead .newline 0
  | comment {rest : Text} (h : c = '/') :
    Extent c ('/' :: rest) .comment (1 + (commentRest rest).length)
  | symbol {s : Symbol} {rest following : Text} (e : s.spelling = c :: rest)
    (ends : s.grownBy = none ∨ following.head? ≠ s.grownBy) :
    Extent c (rest ++ following) (.lexeme (.symbol s)) rest.length
  | closed {body following : Text} (h : c = '"') (inside : '"' ∉ body) :
    Extent c (body ++ '"' :: following) (.lexeme .string) (body.length + 1)
  | unclosed {ahead : Text} (h : c = '"') (inside : '"' ∉ ahead) :
    Extent c ahead .openString ahead.length
  | number {ahead : Text} (h : c.isDigit = true) :
    Extent c ahead (.lexeme .number) (numberRest ahead).length
  | word {ahead : Text} (h : isIdentifierStart c = true) :
    Extent c ahead (.lexeme (wordKind (c :: identifierRest ahead))) (identifierRest ahead).length
  | stray {ahead : Text} (foreign : isForeign c = true) : Extent c ahead .stray 0

theorem mem_of_lookup {α : Type} {c : Char} {x : α} {pairs : List (Char × α)}
    (h : pairs.lookup c = some x) : (c, x) ∈ pairs := by
  obtain ⟨before, after, rfl, -⟩ := List.lookup_eq_some_iff.1 h
  simp

theorem spelling_of_mem_singles : ∀ p ∈ Symbol.singles,
    p.2.spelling = [p.1] ∧ p.2.grownBy = none := by
  decide

theorem spelling_of_mem_pairs : ∀ p ∈ Symbol.pairs,
    p.2.1.spelling = [p.1] ∧ p.2.1.grownBy = some '=' ∧
      p.2.2.spelling = [p.1, '='] ∧ p.2.2.grownBy = none := by
  decide

theorem isForeign_of_unmarked {c : Char} (unmarked : c ∉ marks) (notDigit : ¬ c.isDigit = true)
    (notStart : ¬ isIdentifierStart c = true) : isForeign c = true := by
  have marked : (punctuation.all fun d => marks.contains d || isIdentifierStart d) = true := by
    decide
  have notPunctuation : c ∉ punctuation := by
    intro mem
    rcases Bool.or_eq_true _ _ ▸ List.all_eq_true.1 marked c mem with mark | start
    · exact unmarked (List.contains_iff_mem.1 mark)
    · exact notStart start
  have notSlash : c ≠ '/' := by
    rintro rfl
    exact unmarked (by decide)
  have notQuote : c ≠ '"' := by
    rintro rfl
    exact unmarked (by decide)
  simp only [isIdentifierStart, Bool.or_eq_true, not_or] at notStart
  simp [isForeign, isCode, *]

theorem extent_cases (c : Char) (ahead : Text) :
    Extent c ahead (extent c ahead).1 (extent c ahead).2 := by
  unfold extent
  split
  · rename_i s _ found
    obtain ⟨spelled, alone⟩ := spelling_of_mem_singles _ (mem_of_lookup found)
    exact .symbol spelled (.inl alone)
  · rename_i short long _ found
    obtain ⟨shortSpelled, grown, longSpelled, alone⟩ :=
      spelling_of_mem_pairs _ (mem_of_lookup found)
    split
    · obtain ⟨rest, rfl⟩ := List.head?_eq_some_iff.1 ‹ahead.head? = some '='›
      exact .symbol longSpelled (.inl alone)
    · refine .symbol shortSpelled (.inr ?_)
      rw [grown]
      assumption
  · rename_i single pair
    split
    · subst c
      split
      · obtain ⟨rest, rfl⟩ := List.head?_eq_some_iff.1 ‹ahead.head? = some '/'›
        exact .comment rfl
      · exact .symbol (s := .slash) rfl (.inr ‹_›)
    split
    · refine .blank ?_
      simpa [isSpacing, or_assoc] using ‹isSpacing c = true›
    split
    · exact .newline ‹_›
    split
    · split
      · obtain ⟨body, following, rfl, inside⟩ := List.eq_append_cons_of_mem ‹ '"' ∈ ahead ›
        rw [stringBody_append inside]
        exact .closed ‹_› inside
      · exact .unclosed ‹_› ‹_›
    split
    · exact .number ‹_›
    split
    · exact .word ‹_›
    · refine .stray (isForeign_of_unmarked ?_ ‹_› ‹_›)
      have single := lookup_eq_none_iff.1 single
      have pair := lookup_eq_none_iff.1 pair
      have spacing : ¬ isSpacing c = true := ‹_›
      simp only [isSpacing, Bool.or_eq_true, beq_iff_eq, not_or] at spacing
      simp [marks, *]

/-- A first segment that is neither stray nor an open string is a text of the grammar. -/
theorem Extent.lexical {c : Char} {ahead : Text} {form : Form} {count : Nat}
    (h : Extent c ahead form count) (notStray : form ≠ .stray) (notOpen : form ≠ .openString) :
    Lexical form (c :: ahead.take count) := by
  cases h with
  | blank h => exact .blank h
  | newline h =>
    subst h
    exact .newline
  | @comment rest h =>
    subst h
    rw [Nat.add_comm, List.take_succ_cons, Text.take_of_isPrefix (commentRest_isPrefix rest)]
    refine .comment fun mem => ?_
    exact absurd (List.mem_takeWhile_imp mem) (by decide)
  | @symbol s rest following e ends =>
    rw [List.take_left, ← e]
    exact .lexeme (.symbol s)
  | @closed body following h inside =>
    subst h
    rw [List.take_length_add_append 1]
    exact .lexeme (.string inside)
  | unclosed => exact absurd rfl notOpen
  | number digit =>
    rw [Text.take_of_isPrefix (numberRest_isPrefix ahead)]
    exact .lexeme (.number (pointed_number digit ahead))
  | word start =>
    rw [Text.take_of_isPrefix (identifierRest_isPrefix ahead)]
    exact .lexeme (IsWord.mk start fun _ => List.mem_takeWhile_imp).lexeme
  | stray => exact absurd rfl notStray

theorem ends_wordKind {following : Text} (h : identifierRest following = []) (word text : Text) :
    (Form.lexeme (wordKind word)).Ends text following := by
  unfold wordKind
  split <;> exact h

theorem takeWhile_drop_fraction {s : Text} (h : fraction s ≠ []) :
    (s.drop (fraction s).length).takeWhile Char.isDigit = [] := by
  unfold fraction at h ⊢
  split at h
  · split at h
    · rw [if_pos ‹_›, List.length_cons, List.length_cons, List.drop_succ_cons, List.drop_succ_cons,
        Text.drop_length_takeWhile, Text.takeWhile_dropWhile]
    · exact absurd rfl h
  · exact absurd rfl h

theorem ends_number (c : Char) (ahead : Text) :
    (Form.lexeme .number).Ends (c :: numberRest ahead) (ahead.drop (numberRest ahead).length) := by
  have rest : ahead.drop (numberRest ahead).length =
      (ahead.dropWhile Char.isDigit).drop (fraction (ahead.dropWhile Char.isDigit)).length := by
    rw [numberRest, List.length_append, ← List.drop_drop, Text.drop_length_takeWhile]
  rw [rest]
  by_cases pointed : fraction (ahead.dropWhile Char.isDigit) = []
  · rw [pointed]
    exact ⟨Text.takeWhile_dropWhile _ _, fun _ => pointed⟩
  · refine ⟨takeWhile_drop_fraction pointed, fun noPoint => absurd ?_ noPoint⟩
    rcases fraction_eq (ahead.dropWhile Char.isDigit) with none | ⟨decimals, -, some, -⟩
    · exact absurd none pointed
    · simp [numberRest, some]

theorem Extent.ends {c : Char} {ahead : Text} {form : Form} {count : Nat}
    (h : Extent c ahead form count) :
    form.Ends (c :: ahead.take count) (ahead.drop count) := by
  cases h with
  | blank | newline | closed | unclosed | stray => trivial
  | @comment rest =>
    show commentRest (('/' :: rest).drop (1 + (commentRest rest).length)) = []
    rw [Nat.add_comm, List.drop_succ_cons, commentRest, commentRest, Text.drop_length_takeWhile]
    exact Text.takeWhile_dropWhile _ _
  | symbol e ends =>
    rw [List.drop_left]
    exact ends
  | number =>
    rw [Text.take_of_isPrefix (numberRest_isPrefix ahead)]
    exact ends_number c ahead
  | word =>
    refine ends_wordKind ?_ _ _
    rw [identifierRest, identifierRest, Text.drop_length_takeWhile]
    exact Text.takeWhile_dropWhile _ _

theorem first_ends (c : Char) (ahead : Text) :
    (first c ahead).form.Ends (first c ahead).text (ahead.drop (extent c ahead).2) :=
  (extent_cases c ahead).ends

/-- The first segment of a text is of the grammar, or it is the whole text from a quotation mark
on, or a single foreign character. -/
theorem first_cases (c : Char) (ahead : Text) :
    Lexical (first c ahead).form (first c ahead).text ∨
      (c = '"' ∧ '"' ∉ ahead ∧ first c ahead = ⟨.openString, c :: ahead⟩) ∨
      (isForeign c = true ∧ first c ahead = ⟨.stray, [c]⟩) := by
  have cases := extent_cases c ahead
  unfold first
  generalize extent c ahead = extent at cases
  obtain ⟨form, count⟩ := extent
  by_cases isStray : form = .stray
  · subst isStray
    cases cases with
    | stray foreign => exact .inr (.inr ⟨foreign, rfl⟩)
  · by_cases isOpen : form = .openString
    · subst isOpen
      cases cases with
      | unclosed h inside => exact .inr (.inl ⟨h, inside, by simp⟩)
    · exact .inl (cases.lexical isStray isOpen)

end Segment

theorem Form.ends_nil (form : Form) (text : Text) : form.Ends text [] := by
  match form with
  | .blank | .newline | .stray | .openString => trivial
  | .comment => exact rfl
  | .lexeme kind =>
    cases kind with
    | symbol s => cases s <;> simp [Form.Ends, Symbol.grownBy]
    | number => exact ⟨rfl, fun _ => rfl⟩
    | string | endOfInput => trivial
    | identifier | keyword => exact rfl

theorem Lexical.form_unique {form form' : Form} {text : Text} (h : Lexical form text)
    (h' : Lexical form' text) : form = form' := by
  obtain ⟨c, rest, rfl⟩ := List.exists_cons_of_ne_nil h.ne_nil
  have extent := h.extent_eq (form.ends_nil _)
  rw [h'.extent_eq (form'.ends_nil _)] at extent
  exact (congrArg Prod.fst extent).symm

/-- A text of the grammar is cut off from what does not make it longer. -/
theorem Lexical.ofSource_append {form : Form} {text following : Text} (h : Lexical form text)
    (ends : form.Ends text following) :
    Segment.ofSource (text ++ following) = ⟨form, text⟩ :: Segment.ofSource following := by
  obtain ⟨c, rest, rfl⟩ := List.exists_cons_of_ne_nil h.ne_nil
  rw [List.cons_append, Segment.ofSource_cons, Segment.first, h.extent_eq ends, List.take_left,
    List.drop_left]

end BearLex
