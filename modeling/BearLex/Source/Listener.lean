import BearLex.Source.Cursor

/-! A scan by a cursor, which tells a listener what it is about to do: read a segment, move over a
character, read a lexeme as a number, or report a message. The listener has a state of its own and
cannot answer. A listener that hears the messages alone is a sink for them; the plain scan is the
one that nobody listens to. -/

namespace BearLex

/-- What a scan is about to do: read the segment that starts at a place, move over the character at
a place, read a text as a number, or report a message about a line. -/
inductive Call
  | segment (place : Nat)
  | advance (place : Nat)
  | reading (text : Text)
  | message (line : Nat) (text : Text)
  deriving DecidableEq

namespace Call

/-- A sink as a listener. -/
def heard {σ : Type} (sink : σ → Nat → Text → σ) (s : σ) : Call → σ
  | message line text => sink s line text
  | _ => s

def segment? : Call → Option Nat
  | segment place => some place
  | _ => none

def advance? : Call → Option Nat
  | advance place => some place
  | _ => none

def reading? : Call → Option Text
  | reading text => some text
  | _ => none

def message? : Call → Option (Nat × Text)
  | message line text => some (line, text)
  | _ => none

end Call

namespace Cursor

variable {σ : Type}

/-- Goes on with `later` from where a step ended, unless the step failed. -/
def andThen (step : (Option Fault × Cursor) × σ)
    (later : Cursor → σ → (Option Fault × Cursor) × σ) : (Option Fault × Cursor) × σ :=
  match step with
  | ((none, c), s) => later c s
  | failed => failed

variable (tell : σ → Call → σ)

def tellMove (c : Cursor) (s : σ) : (Option Fault × Cursor) × σ :=
  (c.move, tell s (.advance c.current))

def tellReport (c : Cursor) (text : Text) (s : σ) : (Option Fault × Cursor) × σ :=
  ((none, c.report text), tell s (.message c.line text))

/-- Moves on over one character after the other as long as they satisfy `p`. The newlines among them
count if `counting` says so. -/
def tellWhile (p : Char → Bool) (counting : Bool) (c : Cursor) (s : σ) :
    (Option Fault × Cursor) × σ :=
  match _h : c.source[c.current]? with
  | some char =>
    if p char then
      let moved := (c.lineFeed (if counting && char == '\n' then 1 else 0)).tellMove tell s
      match moved.1.1 with
      | none => moved.1.2.tellWhile p counting moved.2
      | failed => ((failed, moved.1.2), moved.2)
    else ((none, c), s)
  | none => ((none, c), s)
termination_by c.source.length - c.current
decreasing_by
  obtain ⟨inside, -⟩ := List.getElem?_eq_some_iff.1 _h
  simp only [tellMove, move, advance, lineFeed, _h, forward]
  omega

def tellComment (c : Cursor) (s : σ) : (Option Fault × Cursor) × σ :=
  c.tellWhile tell (· != '\n') false s

/-- Moves behind the closing quotation mark of a string and adds the token, or reports that there is
none. -/
def tellString (c : Cursor) (s : σ) : (Option Fault × Cursor) × σ :=
  andThen (c.tellWhile tell (· != '"') true s) fun inside s =>
    if inside.atEnd then inside.tellReport tell Problem.unterminatedString.message s
    else
      andThen (inside.tellMove tell s) fun closed s =>
        ((none, closed.addToken .string
          (.text (closed.slice (closed.start + 1) (closed.current - 1)))), s)

/-- Moves over a point and the digits after it, if there is a digit. -/
def tellFraction (c : Cursor) (s : σ) : (Option Fault × Cursor) × σ :=
  if c.atFraction then andThen (c.tellMove tell s) (tellWhile tell Char.isDigit false)
  else ((none, c), s)

/-- Moves to the end of a number and adds the token, if the lexeme is a number. -/
def tellNumber (c : Cursor) (s : σ) : (Option Fault × Cursor) × σ :=
  andThen (c.tellWhile tell Char.isDigit false s) fun whole s =>
    andThen (whole.tellFraction tell s) fun behind s =>
      let heard := tell s (.reading behind.lexeme)
      match Reading.binary64? behind.lexeme with
      | some x => ((none, behind.addToken .number (.number x)), heard)
      | none => ((some (.notANumber behind.lexeme), behind), heard)

def tellWord (c : Cursor) (s : σ) : (Option Fault × Cursor) × σ :=
  andThen (c.tellWhile tell isIdentifierRest false s) fun behind s =>
    ((none, behind.addToken (wordKind behind.lexeme) .absent), s)

/-- Reads one segment whose first character is `char`, with the cursor behind that character. -/
def tellFrom (c : Cursor) (char : Char) (s : σ) : (Option Fault × Cursor) × σ :=
  match Symbol.singles.lookup char, Symbol.pairs.lookup char with
  | some symbol, _ => ((none, c.addToken (.symbol symbol) .absent), s)
  | none, some (short, long) =>
    let tried := c.matches? ['=']
    ((none, tried.2.addToken (.symbol (if tried.1 then long else short)) .absent), s)
  | none, none =>
    if char = '/' then
      let tried := c.matches? ['/']
      if tried.1 then tried.2.tellComment tell s
      else ((none, tried.2.addToken (.symbol .slash) .absent), s)
    else if isSpacing char then ((none, c), s)
    else if char = '\n' then ((none, c.lineFeed 1), s)
    else if char = '"' then c.tellString tell s
    else if char.isDigit then c.tellNumber tell s
    else if isIdentifierStart char then c.tellWord tell s
    else c.tellReport tell (Problem.unexpected char).message s

/-- Reads one segment without marking its start. -/
def tellSegment (c : Cursor) (s : σ) : (Option Fault × Cursor) × σ :=
  let heard := tell s (.advance c.current)
  match c.advance with
  | (.ok char, behind) => behind.tellFrom tell char heard
  | (.error fault, same) => ((some fault, same), heard)

/-- Marks the start of a segment and reads it. -/
def tellNext (c : Cursor) (s : σ) : (Option Fault × Cursor) × σ :=
  c.mark.tellSegment tell (tell s (.segment c.current))

/-! ### Every segment that is read takes the cursor further -/

variable {tell} (c : Cursor) (s : σ)

theorem onward_andThen {c : Cursor} {step : (Option Fault × Cursor) × σ}
    {later : Cursor → σ → (Option Fault × Cursor) × σ} (here : Onward c step.1.2)
    (there : ∀ d s, Onward d (later d s).1.2) : Onward c (andThen step later).1.2 := by
  obtain ⟨⟨fault, d⟩, s⟩ := step
  cases fault with
  | none => exact here.trans (there d s)
  | some fault => exact here

theorem onward_tellWhile (p : Char → Bool) (counting : Bool) :
    Onward c (c.tellWhile tell p counting s).1.2 := by
  fun_induction tellWhile tell p counting c s with
  | case1 c s char _ _ moved _ ih =>
    have here : Onward c moved.1.2 :=
      Onward.trans (d := c.lineFeed _) ⟨rfl, Nat.le_refl _⟩ (onward_move _)
    exact here.trans ih
  | case2 c s char _ _ moved failed =>
    exact Onward.trans (d := c.lineFeed _) ⟨rfl, Nat.le_refl _⟩ (onward_move _)
  | case3 | case4 => exact Onward.refl _

theorem onward_tellString : Onward c (c.tellString tell s).1.2 := by
  refine onward_andThen (onward_tellWhile c s _ _) fun inside s => ?_
  split
  · exact ⟨rfl, Nat.le_refl _⟩
  · exact onward_andThen (onward_move inside) fun closed _ => ⟨rfl, Nat.le_refl _⟩

theorem onward_tellFraction : Onward c (c.tellFraction tell s).1.2 := by
  unfold tellFraction
  split
  · exact onward_andThen (onward_move c) fun d s => onward_tellWhile d s _ _
  · exact Onward.refl c

theorem onward_tellNumber : Onward c (c.tellNumber tell s).1.2 := by
  refine onward_andThen (onward_tellWhile c s _ _) fun whole s => ?_
  refine onward_andThen (onward_tellFraction whole s) fun behind s => ?_
  dsimp only
  split <;> exact ⟨rfl, Nat.le_refl _⟩

theorem onward_tellWord : Onward c (c.tellWord tell s).1.2 :=
  onward_andThen (onward_tellWhile c s _ _) fun _ _ => ⟨rfl, Nat.le_refl _⟩

theorem onward_tellFrom (char : Char) : Onward c (c.tellFrom tell char s).1.2 := by
  have tried (expected : Text) (kind : Kind) :
      Onward c ((c.matches? expected).2.addToken kind .absent) :=
    (onward_matches? c expected).trans ⟨rfl, Nat.le_refl _⟩
  unfold tellFrom
  split
  · exact ⟨rfl, Nat.le_refl _⟩
  · exact tried _ _
  · split
    · dsimp only
      split
      · exact (onward_matches? c _).trans (onward_tellWhile _ s _ _)
      · exact tried _ _
    split
    · exact Onward.refl c
    split
    · exact ⟨rfl, Nat.le_refl _⟩
    split
    · exact onward_tellString c s
    split
    · exact onward_tellNumber c s
    split
    · exact onward_tellWord c s
    · exact ⟨rfl, Nat.le_refl _⟩

variable {c}

/-- A segment read before the end leaves the source as it is and the cursor further on. -/
theorem onward_tellNext (h : c.atEnd = false) : Onward (c.forward 1) (c.tellNext tell s).1.2 := by
  have inside : c.current < c.source.length := by simpa [atEnd] using h
  have here : c.mark.advance = (.ok c.source[c.current], c.mark.forward 1) := by
    simp [advance, mark, List.getElem?_eq_getElem inside]
  rw [tellNext, tellSegment, here]
  exact Onward.trans (d := c.mark.forward 1) ⟨rfl, Nat.le_refl _⟩ (onward_tellFrom _ _ _)

/-- Reads segments up to the end of the source, then adds the token at the end of input. -/
def tellScan (tell : σ → Call → σ) (c : Cursor) (s : σ) : (Option Fault × Cursor) × σ :=
  if _h : c.atEnd = true then ((none, { c with tokens := c.tokens ++ [Token.ending c.line] }), s)
  else
    let step := c.tellNext tell s
    match step.1.1 with
    | some fault => ((some fault, step.1.2), step.2)
    | none => step.1.2.tellScan tell step.2
termination_by c.source.length - c.current
decreasing_by
  have onward : Onward (c.forward 1) (c.tellNext tell s).1.2 :=
    onward_tellNext s (Bool.eq_false_iff.2 _h)
  have inside : c.current < c.source.length := by simpa [atEnd] using _h
  have source : (c.tellNext tell s).1.2.source = c.source := onward.source
  have current : c.current + 1 ≤ (c.tellNext tell s).1.2.current := onward.current
  rw [source]
  omega

/-! ### The plain scan -/

/-- A listener that takes note of nothing. -/
def unheard (s : Unit) (_ : Call) : Unit := s

def advanceWhile (p : Char → Bool) (counting : Bool) (c : Cursor) : Option Fault × Cursor :=
  (c.tellWhile unheard p counting ()).1

def skipComment (c : Cursor) : Option Fault × Cursor :=
  (c.tellComment unheard ()).1

def scanString (c : Cursor) : Option Fault × Cursor :=
  (c.tellString unheard ()).1

def scanNumber (c : Cursor) : Option Fault × Cursor :=
  (c.tellNumber unheard ()).1

def scanWord (c : Cursor) : Option Fault × Cursor :=
  (c.tellWord unheard ()).1

def scanSegment (c : Cursor) : Option Fault × Cursor :=
  (c.tellSegment unheard ()).1

def next (c : Cursor) : Option Fault × Cursor :=
  (c.tellNext unheard ()).1

def scan (c : Cursor) : Option Fault × Cursor :=
  (c.tellScan unheard ()).1

end Cursor

end BearLex
