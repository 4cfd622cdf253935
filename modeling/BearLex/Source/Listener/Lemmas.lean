import BearLex.Source.Listener
import BearLex.Source.Reach

/-! What each step of a scan comes to, and the calls that its listener hears on the way. The steps
of the plain scan are read off these equations. -/

namespace BearLex

/-- Moves over `count` characters, one after the other. -/
def Call.advances (place count : Nat) : List Call :=
  (List.range' place count).map advance

namespace Cursor

variable {σ : Type} {tell : σ → Call → σ} {c : Cursor} {s : σ}

@[simp] theorem andThen_none (c : Cursor) (s : σ)
    (later : Cursor → σ → (Option Fault × Cursor) × σ) :
    andThen ((none, c), s) later = later c s :=
  rfl

/-! ### Loops -/

theorem tellWhile_of_ahead {p : Char → Bool} {char : Char} {ahead : Text}
    (h : c.ahead = char :: ahead) (counting : Bool) (ok : p char = true) :
    c.tellWhile tell p counting s =
      ((c.lineFeed (if counting && char == '\n' then 1 else 0)).forward 1).tellWhile tell p counting
        (tell s (.advance c.current)) := by
  have moved (feeds : Nat) : (c.lineFeed feeds).move = (none, (c.lineFeed feeds).forward 1) := by
    apply move_of_ahead
    show c.ahead ≠ []
    rw [h]
    exact List.cons_ne_nil _ _
  rw [tellWhile]
  split
  · rename_i d e
    obtain rfl : char = d := Option.some.inj ((getElem?_of_ahead h).symm.trans e)
    simp only [if_pos ok, tellMove, moved]
    rfl
  · rename_i e
    rw [getElem?_of_ahead h] at e
    cases e

theorem tellWhile_of_end {p : Char → Bool} (counting : Bool)
    (h : ∀ char ∈ c.ahead.head?, p char = false) :
    c.tellWhile tell p counting s = ((none, c), s) := by
  rw [tellWhile]
  split
  · rename_i char e
    have stop := h char (by rw [← getElem?_current, e]; rfl)
    rw [if_neg (by rw [stop]; decide)]
  · rfl

/-- A loop never fails. It moves over the characters that are taken from the text ahead, one after
the other, and counts the newlines among them if it is to. -/
theorem tellWhile_eq (tell : σ → Call → σ) (p : Char → Bool) (counting : Bool) (c : Cursor)
    (s : σ) :
    c.tellWhile tell p counting s =
      ((none, (c.forward (c.ahead.takeWhile p).length).lineFeed
        (if counting then Lines.count (c.ahead.takeWhile p) else 0)),
        (Call.advances c.current (c.ahead.takeWhile p).length).foldl tell s) := by
  induction h : c.ahead generalizing c s with
  | nil =>
    rw [tellWhile_of_end counting (by simp [h])]
    cases counting <;> rfl
  | cons char ahead ih =>
    by_cases ok : p char = true
    · have next := ih ((c.lineFeed (if counting && char == '\n' then 1 else 0)).forward 1)
        (tell s (.advance c.current)) (by
          rw [ahead_forward]
          show c.ahead.drop 1 = ahead
          rw [h]
          rfl)
      rw [tellWhile_of_ahead h counting ok, next, List.takeWhile_cons_of_pos ok]
      have length : c.current + 1 + (ahead.takeWhile p).length =
          c.current + (char :: ahead.takeWhile p).length := by
        rw [List.length_cons]
        omega
      have lines : c.line + (if counting && char == '\n' then 1 else 0) +
          (if counting then Lines.count (ahead.takeWhile p) else 0) =
          c.line + if counting then Lines.count (char :: ahead.takeWhile p) else 0 := by
        cases counting with
        | false => rfl
        | true =>
          have := List.count_cons (a := '\n') (b := char) (l := ahead.takeWhile p)
          simp only [Bool.true_and, if_true, Lines.count, this]
          omega
      simp only [forward, lineFeed, length, lines]
      rfl
    · rw [tellWhile_of_end counting (by simpa [h] using ok), List.takeWhile_cons_of_neg ok]
      cases counting <;> rfl

theorem tellComment_eq (tell : σ → Call → σ) (c : Cursor) (s : σ) :
    c.tellComment tell s =
      ((none, c.forward (commentRest c.ahead).length),
        (Call.advances c.current (commentRest c.ahead).length).foldl tell s) :=
  tellWhile_eq tell _ false c s

theorem advances_append (place m n : Nat) :
    Call.advances place m ++ Call.advances (place + m) n = Call.advances place (m + n) := by
  rw [Call.advances, Call.advances, Call.advances, ← List.map_append, List.range'_append_1]

/-! ### Strings, numbers and words -/

/-- Behind the inside of a string there is its closing quotation mark, unless the source ends. -/
theorem tellString_eq (tell : σ → Call → σ) (c : Cursor) (s : σ) {inside : Cursor}
    (h : inside = (c.forward (stringBody c.ahead).length).lineFeed
      (Lines.count (stringBody c.ahead))) :
    c.tellString tell s =
      ((none,
        if inside.atEnd then inside.report Problem.unterminatedString.message
        else (inside.forward 1).addToken .string
          (.text ((inside.forward 1).slice (c.start + 1) inside.current))),
        (Call.advances c.current (stringBody c.ahead).length ++
          [if inside.atEnd then Call.message inside.line Problem.unterminatedString.message
            else Call.advance inside.current]).foldl tell s) := by
  have looped : c.tellWhile tell (· != '"') true s =
      ((none, inside), (Call.advances c.current (stringBody c.ahead).length).foldl tell s) := by
    rw [tellWhile_eq, h]
    rfl
  rw [tellString, looped, andThen_none, List.foldl_append]
  split
  · rfl
  · rename_i before
    have moved := move_of_ahead (mt (atEnd_iff inside).2 before)
    subst h
    rw [tellMove, moved]
    rfl

theorem fraction_ahead (c : Cursor) :
    fraction c.ahead =
      if c.atFraction then '.' :: (c.forward 1).ahead.takeWhile Char.isDigit else [] := by
  have second : c.source[c.current + 1]? = c.ahead[1]? := List.getElem?_drop.symm
  rw [atFraction, getElem?_current, second, ahead_forward]
  rcases c.ahead with _ | ⟨point, _ | ⟨digit, rest⟩⟩
  · simp [fraction]
  · simp [fraction]
  · by_cases dotted : point = '.' ∧ digit.isDigit = true
    · simp [fraction, dotted]
    · rw [fraction, if_neg dotted, if_neg (by simpa using dotted)]

theorem tellFraction_eq (tell : σ → Call → σ) (c : Cursor) (s : σ) :
    c.tellFraction tell s =
      ((none, c.forward (fraction c.ahead).length),
        (Call.advances c.current (fraction c.ahead).length).foldl tell s) := by
  rw [tellFraction, fraction_ahead]
  by_cases pointed : c.atFraction = true
  · have some : c.ahead ≠ [] := by
      intro none
      simp [atFraction, getElem?_current, none] at pointed
    have length (count : Nat) : (c.forward 1).forward count = c.forward (count + 1) := by
      simp only [forward, Nat.add_assoc, Nat.add_comm 1]
    rw [if_pos pointed, if_pos pointed, tellMove, move_of_ahead some, andThen_none, tellWhile_eq,
      length]
    rfl
  · rw [if_neg pointed, if_neg pointed]
    rfl

theorem tellNumber_eq (tell : σ → Call → σ) (c : Cursor) (s : σ) {behind : Cursor}
    (h : behind = c.forward (numberRest c.ahead).length) :
    c.tellNumber tell s =
      (match Reading.binary64? behind.lexeme with
        | some x => (none, behind.addToken .number (.number x))
        | none => (some (.notANumber behind.lexeme), behind),
        (Call.advances c.current (numberRest c.ahead).length ++
          [Call.reading behind.lexeme]).foldl tell s) := by
  have looped : c.tellWhile tell Char.isDigit false s =
      ((none, c.forward (c.ahead.takeWhile Char.isDigit).length),
        (Call.advances c.current (c.ahead.takeWhile Char.isDigit).length).foldl tell s) :=
    tellWhile_eq tell _ false c s
  have rest : (c.forward (c.ahead.takeWhile Char.isDigit).length).ahead =
      c.ahead.dropWhile Char.isDigit := by
    rw [ahead_forward, Text.drop_length_takeWhile]
  have both : (c.forward (c.ahead.takeWhile Char.isDigit).length).forward
      (fraction (c.ahead.dropWhile Char.isDigit)).length = behind := by
    rw [h, numberRest, List.length_append]
    simp only [forward, Nat.add_assoc]
  have places : Call.advances c.current (numberRest c.ahead).length =
      Call.advances c.current (c.ahead.takeWhile Char.isDigit).length ++
        Call.advances (c.current + (c.ahead.takeWhile Char.isDigit).length)
          (fraction (c.ahead.dropWhile Char.isDigit)).length := by
    rw [advances_append, numberRest, List.length_append]
  rw [tellNumber, looped, andThen_none, tellFraction_eq, rest, both, andThen_none, places,
    List.foldl_append, List.foldl_append]
  cases Reading.binary64? behind.lexeme <;> rfl

theorem tellWord_eq (tell : σ → Call → σ) (c : Cursor) (s : σ) {behind : Cursor}
    (h : behind = c.forward (identifierRest c.ahead).length) :
    c.tellWord tell s =
      ((none, behind.addToken (wordKind behind.lexeme) .absent),
        (Call.advances c.current (identifierRest c.ahead).length).foldl tell s) := by
  have looped : c.tellWhile tell isIdentifierRest false s =
      ((none, behind), (Call.advances c.current (identifierRest c.ahead).length).foldl tell s) := by
    rw [h]
    exact tellWhile_eq tell _ false c s
  rw [tellWord, looped, andThen_none]

/-! ### The steps of the plain scan -/

theorem advanceWhile_of_ahead {p : Char → Bool} {char : Char} {ahead : Text}
    (h : c.ahead = char :: ahead) (counting : Bool) (ok : p char = true) :
    c.advanceWhile p counting =
      ((c.lineFeed (if counting && char == '\n' then 1 else 0)).forward 1).advanceWhile p
        counting :=
  congrArg Prod.fst (tellWhile_of_ahead h counting ok)

theorem advanceWhile_of_end {p : Char → Bool} (counting : Bool)
    (h : ∀ char ∈ c.ahead.head?, p char = false) : c.advanceWhile p counting = (none, c) :=
  congrArg Prod.fst (tellWhile_of_end counting h)

theorem skipComment_eq (c : Cursor) :
    c.skipComment = (none, c.forward (commentRest c.ahead).length) :=
  congrArg Prod.fst (tellComment_eq unheard c ())

theorem scanString_eq (c : Cursor) {inside : Cursor}
    (h : inside = (c.forward (stringBody c.ahead).length).lineFeed
      (Lines.count (stringBody c.ahead))) :
    c.scanString =
      (none,
        if inside.atEnd then inside.report Problem.unterminatedString.message
        else (inside.forward 1).addToken .string
          (.text ((inside.forward 1).slice (c.start + 1) inside.current))) :=
  congrArg Prod.fst (tellString_eq unheard c () h)

theorem scanNumber_eq (c : Cursor) {behind : Cursor}
    (h : behind = c.forward (numberRest c.ahead).length) :
    c.scanNumber =
      match Reading.binary64? behind.lexeme with
      | some x => (none, behind.addToken .number (.number x))
      | none => (some (.notANumber behind.lexeme), behind) :=
  congrArg Prod.fst (tellNumber_eq unheard c () h)

theorem scanWord_eq (c : Cursor) {behind : Cursor}
    (h : behind = c.forward (identifierRest c.ahead).length) :
    c.scanWord = (none, behind.addToken (wordKind behind.lexeme) .absent) :=
  congrArg Prod.fst (tellWord_eq unheard c () h)

theorem onward_next (h : c.atEnd = false) : Onward (c.forward 1) c.next.2 :=
  onward_tellNext () h

end Cursor

end BearLex
