import BearLex.Source.Reach
import BearLex.Source.Scan

/-! The lexical grammar, stated without a scanner: which texts are lexemes and of what kind, what
each lexeme stands for, and which other texts a source is made of. -/

namespace BearLex

/-- The text of a symbol. -/
def Symbol.spelling : Symbol → Text
  | leftParen => ['(']
  | rightParen => [')']
  | leftBrace => ['{']
  | rightBrace => ['}']
  | comma => [',']
  | dot => ['.']
  | minus => ['-']
  | plus => ['+']
  | semicolon => [';']
  | slash => ['/']
  | star => ['*']
  | bang => ['!']
  | bangEqual => ['!', '=']
  | equal => ['=']
  | equalEqual => ['=', '=']
  | greater => ['>']
  | greaterEqual => ['>', '=']
  | less => ['<']
  | lessEqual => ['<', '=']

/-- The characters of code that are no letters or digits, the slash and the quotation mark apart. -/
def punctuation : Text :=
  ['_', '(', ')', '{', '}', ',', '.', '-', '+', ';', '*', '!', '=', '<', '>', ' ', '\t', '\r',
   '\n']

/-- The character stands in code and begins neither a comment nor a string. -/
def isCode (c : Char) : Bool :=
  c.isAlpha || c.isDigit || punctuation.contains c

/-- The character stands nowhere in code. -/
def isForeign (c : Char) : Bool :=
  !(isCode c || c == '/' || c == '"')

/-- A letter or underscore, with letters, digits and underscores after it. -/
inductive IsWord : Text → Prop
  | mk {c : Char} {rest : Text} (start : isIdentifierStart c = true)
    (inside : ∀ d ∈ rest, isIdentifierRest d = true) : IsWord (c :: rest)

/-- A text is a lexeme of a kind. -/
inductive Lexeme : Kind → Text → Prop
  | symbol (s : Symbol) : Lexeme (.symbol s) s.spelling
  | number {text : Text} (h : Reading.Pointed text) : Lexeme .number text
  | string {body : Text} (h : '"' ∉ body) : Lexeme .string ('"' :: body ++ ['"'])
  | keyword (k : Keyword) : Lexeme (.keyword k) k.word
  | identifier {word : Text} (h : IsWord word) (free : ∀ k : Keyword, word ≠ k.word) :
    Lexeme .identifier word

/-- What a lexeme stands for: a number what it reads as, a string the text between its quotation
marks, and every other lexeme nothing. -/
inductive Value : Kind → Text → Literal → Prop
  | number {text : Text} {x : Binary64} (h : Reading.binary64? text = some x) :
    Value .number text (.number x)
  | string (body : Text) : Value .string ('"' :: body ++ ['"']) (.text body)
  | absent {kind : Kind} (text : Text) (notNumber : kind ≠ .number) (notString : kind ≠ .string) :
    Value kind text .absent

/-- White space of one character, a newline, a comment up to the end of its line, or a lexeme. -/
inductive Lexical : Form → Text → Prop
  | blank {c : Char} (h : c = ' ' ∨ c = '\r' ∨ c = '\t') : Lexical .blank [c]
  | newline : Lexical .newline ['\n']
  | comment {rest : Text} (h : '\n' ∉ rest) : Lexical .comment ('/' :: '/' :: rest)
  | lexeme {kind : Kind} {text : Text} (h : Lexeme kind text) : Lexical (.lexeme kind) text

theorem ne_of_isForeign {c d : Char} (h : isForeign c = true) (known : isForeign d = false) :
    c ≠ d := by
  rintro rfl
  rw [h] at known
  cases known

theorem Symbol.spelling_ne_nil (s : Symbol) : s.spelling ≠ [] := by
  cases s <;> decide

theorem IsWord.ne_nil {word : Text} (h : IsWord word) : word ≠ [] := by
  obtain ⟨-, -⟩ := h
  exact List.cons_ne_nil _ _

theorem Keyword.isWord_word (k : Keyword) : IsWord k.word := by
  cases k <;> exact IsWord.mk (by decide) (List.all_eq_true.1 (by decide))

theorem Lexeme.ne_nil {kind : Kind} {text : Text} (h : Lexeme kind text) : text ≠ [] := by
  cases h with
  | symbol s => exact s.spelling_ne_nil
  | number h =>
    obtain ⟨c, rest, rfl, -⟩ := h.exists_cons
    exact List.cons_ne_nil c rest
  | string => simp
  | keyword k => exact k.isWord_word.ne_nil
  | identifier h => exact h.ne_nil

theorem Lexical.ne_nil {form : Form} {text : Text} (h : Lexical form text) : text ≠ [] := by
  cases h with
  | blank => simp
  | newline => simp
  | comment => simp
  | lexeme h => exact h.ne_nil

/-! ### Words -/

theorem wordKind_word (k : Keyword) : wordKind k.word = .keyword k := by
  rw [wordKind, Keyword.ofWord?_eq_some_iff.2 rfl]

theorem wordKind_of_free {word : Text} (free : ∀ k : Keyword, word ≠ k.word) :
    wordKind word = .identifier := by
  unfold wordKind
  split
  · exact absurd (Keyword.ofWord?_eq_some_iff.1 ‹_›) (free _)
  · rfl

/-- A word is a lexeme of the kind that is looked up for it. -/
theorem IsWord.lexeme {word : Text} (h : IsWord word) : Lexeme (wordKind word) word := by
  by_cases spelled : ∃ k : Keyword, word = k.word
  · obtain ⟨k, rfl⟩ := spelled
    rw [wordKind_word]
    exact .keyword k
  · have free : ∀ k : Keyword, word ≠ k.word := fun k e => spelled ⟨k, e⟩
    rw [wordKind_of_free free]
    exact .identifier h free

/-! ### Values -/

/-- A lexeme stands for the literal that its token carries. -/
theorem Lexeme.value {kind : Kind} {text : Text} (h : Lexeme kind text) :
    Value kind text (Segment.literal kind text) := by
  cases h with
  | symbol s => exact .absent _ nofun nofun
  | number h => exact .number (Reading.binary64?_of_pointed h)
  | @string body h =>
    have inner : ('"' :: body ++ ['"']).tail.dropLast = body := by simp
    rw [Segment.literal, inner]
    exact .string body
  | keyword k => exact .absent _ nofun nofun
  | identifier h free => exact .absent _ nofun nofun

end BearLex
