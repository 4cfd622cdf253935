import BearLex.Source.Scan

/-! A cursor that walks over a source by single steps, in whatever order they are asked for. It
holds the start of the current lexeme, its own position, the line of each, the tokens made, the
messages reported and their number. A step may fail; what it changed before stays changed. -/

namespace BearLex

inductive Fault
  | pastEnd
  | notANumber (lexeme : Text)
  deriving DecidableEq

def Fault.message : Fault → Text
  | pastEnd => "string index out of range".toList
  | notANumber lexeme => "could not convert string to float: ".toList ++ Quoted.encode lexeme

/-- A place in a source and what has been found on the way to it. -/
structure Cursor where
  source : Text
  start : Nat
  current : Nat
  line : Nat
  startLine : Nat
  tokens : List Token
  reported : List (Nat × Text)
  diagnosticCount : Nat

namespace Cursor

def atStart (source : Text) : Cursor :=
  ⟨source, 0, 0, 1, 1, [], [], 0⟩

/-- The cursor is at the end of its source or beyond it. -/
def atEnd (c : Cursor) : Bool :=
  decide (c.source.length ≤ c.current)

/-- The text from the cursor on. -/
def ahead (c : Cursor) : Text :=
  c.source.drop c.current

/-- The part of the source from `first` up to but without `last`. -/
def slice (c : Cursor) (first last : Nat) : Text :=
  (c.source.take last).drop first

/-- The text of the current lexeme. -/
def lexeme (c : Cursor) : Text :=
  c.slice c.start c.current

/-- The character `offset` places after the cursor, and none past the end. A place before the source
counts from its end, as far as the source reaches. -/
def peek (c : Cursor) (offset : Int) : Except Fault (Option Char) :=
  let place := c.current + offset
  if c.source.length ≤ place then .ok none
  else if 0 ≤ place then .ok c.source[place.toNat]?
  else if 0 ≤ c.source.length + place then .ok c.source[(c.source.length + place).toNat]?
  else .error .pastEnd

/-- Moves `count` places on. -/
def forward (c : Cursor) (count : Nat) : Cursor :=
  { c with current := c.current + count }

/-- Counts `count` further lines. -/
def lineFeed (c : Cursor) (count : Nat) : Cursor :=
  { c with line := c.line + count }

/-- The lexeme starts here. -/
def mark (c : Cursor) : Cursor :=
  { c with start := c.current, startLine := c.line }

/-- Adds a token for the current lexeme. -/
def addToken (c : Cursor) (kind : Kind) (literal : Literal) : Cursor :=
  { c with tokens := c.tokens ++ [⟨kind, c.lexeme, literal, c.startLine⟩] }

/-- Counts a message about the current line and reports it. -/
def report (c : Cursor) (message : Text) : Cursor :=
  { c with
    diagnosticCount := c.diagnosticCount + 1
    reported := c.reported ++ [(c.line, message)] }

/-- Moves over one character, and tells which it was. -/
def advance (c : Cursor) : Except Fault Char × Cursor :=
  match c.source[c.current]? with
  | some char => (.ok char, c.forward 1)
  | none => (.error .pastEnd, c)

/-- Moves one place on if the text at the cursor, which is one character or nothing, is
`expected`. -/
def matches? (c : Cursor) (expected : Text) : Bool × Cursor :=
  if c.source[c.current]?.toList = expected then (true, c.forward 1)
  else (false, c)

/-- Moves over one character. -/
def move (c : Cursor) : Option Fault × Cursor :=
  match c.advance with
  | (.ok _, d) => (none, d)
  | (.error fault, d) => (some fault, d)

/-- A point is at the cursor, and a digit after it. -/
def atFraction (c : Cursor) : Bool :=
  c.source[c.current]? == some '.' && (c.source[c.current + 1]?).any Char.isDigit

theorem atEnd_iff (c : Cursor) : c.atEnd = true ↔ c.ahead = [] := by
  rw [atEnd, decide_eq_true_iff, Cursor.ahead, List.drop_eq_nil_iff]

theorem getElem?_current (c : Cursor) : c.source[c.current]? = c.ahead.head? :=
  List.head?_drop.symm

theorem ahead_forward (c : Cursor) (count : Nat) : (c.forward count).ahead = c.ahead.drop count :=
  List.drop_drop.symm

theorem getElem?_of_ahead {c : Cursor} {char : Char} {ahead : Text} (h : c.ahead = char :: ahead) :
    c.source[c.current]? = some char := by
  rw [getElem?_current, h]
  rfl

theorem move_of_ahead {c : Cursor} (h : c.ahead ≠ []) : c.move = (none, c.forward 1) := by
  obtain ⟨char, ahead, e⟩ := List.exists_cons_of_ne_nil h
  simp only [move, advance, getElem?_of_ahead e]

/-! ### No step goes back -/

/-- The cursor `d` is over the same source as `c` and not before it. -/
structure Onward (c d : Cursor) : Prop where
  source : d.source = c.source
  current : c.current ≤ d.current

theorem Onward.refl (c : Cursor) : Onward c c :=
  ⟨rfl, Nat.le_refl _⟩

theorem Onward.trans {c d e : Cursor} (h : Onward c d) (k : Onward d e) : Onward c e :=
  ⟨k.source.trans h.source, Nat.le_trans h.current k.current⟩

theorem onward_forward (c : Cursor) (count : Nat) : Onward c (c.forward count) :=
  ⟨rfl, Nat.le_add_right _ _⟩

theorem onward_advance (c : Cursor) : Onward c c.advance.2 := by
  unfold advance
  split
  · exact onward_forward c 1
  · exact Onward.refl c

theorem onward_move (c : Cursor) : Onward c c.move.2 := by
  have moved := onward_advance c
  unfold move
  split <;> simp_all

theorem onward_matches? (c : Cursor) (expected : Text) : Onward c (c.matches? expected).2 := by
  unfold matches?
  split
  · exact onward_forward c 1
  · exact Onward.refl c

end Cursor

end BearLex
