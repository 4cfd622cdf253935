import BearLex.Source.Listener.Lemmas

/-! A cursor that is walked from segment to segment finds the segments of its source: `scan` ends
with the tokens, the messages and the line that are read off the source as a whole, from every
cursor, and never fails. -/

namespace BearLex

namespace Cursor

/-- The cursor behind a segment that starts where `c` is. -/
def past (c : Cursor) (s : Segment) : Cursor where
  source := c.source
  start := c.current
  current := c.current + s.text.length
  line := c.line + Lines.count s.text
  startLine := c.line
  tokens := c.tokens ++ (s.token? c.line).toList
  reported := c.reported ++ ((s.finding? c.line).map Finding.entry).toList
  diagnosticCount := c.diagnosticCount + (s.finding? c.line).toList.length

theorem slice_of_ahead {c : Cursor} {t : Text} (h : c.ahead = t) (skip count : Nat) :
    c.slice (c.current + skip) (c.current + skip + count) = (t.drop skip).take count := by
  rw [slice, List.drop_take, ← h, ahead, List.drop_drop, Nat.add_sub_cancel_left]

variable {c : Cursor} {char : Char} {ahead : Text}

theorem ahead_behind (h : c.ahead = char :: ahead) : (c.mark.forward 1).ahead = ahead := by
  rw [ahead_forward]
  show c.ahead.drop 1 = ahead
  rw [h]
  rfl

/-- In front of a character, the next segment begins with a move over it. -/
theorem tellNext_of_ahead {σ : Type} (tell : σ → Call → σ) (h : c.ahead = char :: ahead) (s : σ) :
    c.tellNext tell s =
      (c.mark.forward 1).tellFrom tell char
        ([Call.segment c.current, .advance c.current].foldl tell s) := by
  have here : c.mark.advance = (.ok char, c.mark.forward 1) := by
    simp [advance, mark, getElem?_of_ahead h]
  rw [tellNext, tellSegment, here]
  rfl

theorem head?_of_ahead (h : c.ahead = char :: ahead) :
    (c.mark.forward 1).source[(c.mark.forward 1).current]? = ahead.head? := by
  rw [getElem?_current, ahead_behind h]

theorem past_first {form : Form} {count : Nat} (extent : Segment.extent char ahead = (form, count))
    (count_le : count ≤ ahead.length) :
    c.past (Segment.first char ahead) =
      { source := c.source
        start := c.current
        current := c.current + 1 + count
        line := c.line + Lines.count (char :: ahead.take count)
        startLine := c.line
        tokens := c.tokens ++ (Segment.token? c.line ⟨form, char :: ahead.take count⟩).toList
        reported := c.reported ++
          ((Segment.finding? c.line ⟨form, char :: ahead.take count⟩).map
            Finding.entry).toList
        diagnosticCount := c.diagnosticCount +
          (Segment.finding? c.line ⟨form, char :: ahead.take count⟩).toList.length } := by
  simp only [past, Segment.first, extent, List.length_cons, List.length_take_of_le count_le]
  simp only [Nat.add_assoc, Nat.add_comm 1]

/-- A lexeme without newlines becomes a token. -/
theorem addToken_eq_past (h : c.ahead = char :: ahead) {kind : Kind} {literal : Literal}
    {count : Nat} (extent : Segment.extent char ahead = (.lexeme kind, count))
    (count_le : count ≤ ahead.length)
    (value : Segment.literal kind (char :: ahead.take count) = literal) (feeds : Nat)
    (lines : Lines.count (char :: ahead.take count) = feeds) :
    (((c.mark.forward 1).forward count).lineFeed feeds).addToken kind literal =
      c.past (Segment.first char ahead) := by
  have lexeme := slice_of_ahead h 0 (count + 1)
  rw [past_first extent count_le, lines]
  simp only [Nat.add_zero, List.drop_zero, List.take_succ_cons] at lexeme
  simp only [addToken, Cursor.lexeme, forward, mark, lineFeed, Segment.token?, value,
    Option.toList_some, Segment.finding?, Option.map_none, Option.toList_none, List.append_nil,
    List.length_nil, Nat.add_zero]
  rw [← lexeme]
  simp only [slice, Nat.add_assoc, Nat.add_comm 1]

/-- What is neither a token nor a finding leaves nothing but the place. -/
theorem forward_eq_past {form : Form} {count : Nat}
    (extent : Segment.extent char ahead = (form, count)) (count_le : count ≤ ahead.length)
    (token : ∀ text, Segment.token? c.line ⟨form, text⟩ = none)
    (finding : ∀ text, Segment.finding? c.line ⟨form, text⟩ = none) (feeds : Nat)
    (lines : Lines.count (char :: ahead.take count) = feeds) :
    ((c.mark.forward 1).forward count).lineFeed feeds = c.past (Segment.first char ahead) := by
  rw [past_first extent count_le, lines, token, finding]
  simp only [forward, mark, lineFeed, Option.toList_none, Option.map_none, List.append_nil,
    List.length_nil, Nat.add_zero]

/-- Behind the first character and a text after it, these are the lexeme. -/
theorem lexeme_behind (h : c.ahead = char :: ahead) {t : Text} (here : t <+: ahead) :
    ((c.mark.forward 1).forward t.length).lexeme = char :: t := by
  have := slice_of_ahead h 0 (t.length + 1)
  simp only [List.drop_zero, List.take_succ_cons, Text.take_of_isPrefix here, Nat.add_zero] at this
  rw [← this]
  simp only [Cursor.lexeme, slice, forward, mark, Nat.add_assoc, Nat.add_comm 1]

theorem scanNumber_eq_past (h : c.ahead = char :: ahead) (digit : char.isDigit = true)
    (extent : Segment.extent char ahead = (.lexeme .number, (numberRest ahead).length)) :
    (c.mark.forward 1).scanNumber = (none, c.past (Segment.first char ahead)) := by
  have here := numberRest_isPrefix ahead
  have taken := Text.take_of_isPrefix here
  have lexeme := lexeme_behind h here
  have lines : Lines.count (char :: ahead.take (numberRest ahead).length) = 0 := by
    rw [taken]
    apply Lines.count_eq_zero
    intro d hd e
    subst e
    rcases List.mem_cons.1 hd with rfl | hd
    · exact absurd digit (by decide)
    · rcases mem_numberRest hd with bad | bad <;> revert bad <;> decide
  have past := addToken_eq_past h extent here.length_le rfl 0 lines
  rw [taken] at past
  rw [scanNumber_eq _ (by rw [ahead_behind h]), lexeme,
    Reading.binary64?_of_pointed (pointed_number digit ahead)]
  exact congrArg (Prod.mk none) past

theorem scanWord_eq_past (h : c.ahead = char :: ahead) (start : isIdentifierStart char = true)
    (extent : Segment.extent char ahead =
      (.lexeme (wordKind (char :: identifierRest ahead)), (identifierRest ahead).length)) :
    (c.mark.forward 1).scanWord = (none, c.past (Segment.first char ahead)) := by
  have here := identifierRest_isPrefix ahead
  have taken := Text.take_of_isPrefix here
  have lexeme := lexeme_behind h here
  have lines : Lines.count (char :: ahead.take (identifierRest ahead).length) = 0 := by
    rw [taken]
    apply Lines.count_eq_zero
    intro d hd e
    subst e
    rcases List.mem_cons.1 hd with rfl | hd
    · exact absurd start (by decide)
    · exact absurd (List.mem_takeWhile_imp hd) (by decide)
  have value : Segment.literal (wordKind (char :: identifierRest ahead))
      (char :: ahead.take (identifierRest ahead).length) = .absent := by
    unfold wordKind
    split <;> rfl
  have past := addToken_eq_past h extent here.length_le value 0 lines
  rw [scanWord_eq _ (by rw [ahead_behind h]), lexeme]
  exact congrArg (Prod.mk none) past

theorem extent_quote (ahead : Text) :
    Segment.extent '"' ahead =
      if '"' ∈ ahead then (.lexeme .string, (stringBody ahead).length + 1)
      else (.openString, ahead.length) :=
  rfl

theorem scanString_eq_past (h : c.ahead = '"' :: ahead) :
    (c.mark.forward 1).scanString = (none, c.past (Segment.first '"' ahead)) := by
  have body := stringBody_isPrefix ahead
  have length : c.source.length - c.current = ahead.length + 1 := by
    have := congrArg List.length h
    simpa [Cursor.ahead] using this
  have open_iff : (((c.mark.forward 1).forward (stringBody ahead).length).lineFeed
      (Lines.count (stringBody ahead))).atEnd = true ↔ '"' ∉ ahead := by
    rw [← length_stringBody_lt_iff, atEnd, decide_eq_true_iff]
    simp only [lineFeed, forward, mark]
    omega
  rw [scanString_eq _ (by rw [ahead_behind h])]
  apply congrArg (Prod.mk none)
  by_cases closed : '"' ∈ ahead
  · have extent := (extent_quote ahead).trans (if_pos closed)
    have taken := take_succ_length_stringBody closed
    have lines : Lines.count ('"' :: ahead.take ((stringBody ahead).length + 1)) =
        Lines.count (stringBody ahead) := by
      rw [taken]
      simp [Lines.count]
    have value : Segment.literal .string ('"' :: ahead.take ((stringBody ahead).length + 1)) =
        .text (stringBody ahead) := by
      rw [taken]
      simp [Segment.literal]
    have inner : c.slice (c.current + 1) (c.current + 1 + (stringBody ahead).length) =
        stringBody ahead := by
      rw [slice_of_ahead h]
      exact Text.take_of_isPrefix body
    have past := addToken_eq_past h extent (length_stringBody_lt_iff.2 closed) value _ lines
    rw [← past, if_neg (fun e => open_iff.1 e closed)]
    change addToken _ .string
      (.text (c.slice (c.current + 1) (c.current + 1 + (stringBody ahead).length))) = _
    rw [inner]
    rfl
  · have extent := (extent_quote ahead).trans (if_neg closed)
    have whole : stringBody ahead = ahead := by
      have := body.length_le
      have open_ := mt length_stringBody_lt_iff.1 closed
      exact body.eq_of_length (by omega)
    rw [past_first extent (Nat.le_refl _), if_pos (open_iff.2 closed), whole, List.take_length]
    simp [report, lineFeed, forward, mark, Segment.token?, Segment.finding?, Finding.entry,
      Lines.count]

theorem matches?_of_ahead (h : c.ahead = char :: ahead) (expected : Char) :
    (c.mark.forward 1).matches? [expected] =
      if ahead.head? = some expected then (true, (c.mark.forward 1).forward 1)
      else (false, c.mark.forward 1) := by
  rw [matches?, head?_of_ahead h]
  cases ahead with
  | nil => simp
  | cons d rest => by_cases e : d = expected <;> simp [e]

theorem skipComment_eq_past {rest : Text} (h : c.ahead = '/' :: '/' :: rest) :
    ((c.mark.forward 1).forward 1).skipComment =
      (none, c.past (Segment.first '/' ('/' :: rest))) := by
  have extent : Segment.extent '/' ('/' :: rest) = (.comment, (commentRest rest).length + 1) := by
    rw [Nat.add_comm]
    rfl
  have here := commentRest_isPrefix rest
  have ahead_eq : ((c.mark.forward 1).forward 1).ahead = rest := by
    rw [ahead_forward, ahead_behind h]
    rfl
  have lines : Lines.count ('/' :: ('/' :: rest).take ((commentRest rest).length + 1)) = 0 := by
    rw [List.take_succ_cons, Text.take_of_isPrefix here]
    apply Lines.count_eq_zero
    intro d hd e
    subst e
    simp only [List.mem_cons, Char.reduceEq, false_or] at hd
    exact absurd (List.mem_takeWhile_imp hd) (by decide)
  have past := forward_eq_past (c := c) extent (Nat.succ_le_succ here.length_le) (fun _ => rfl)
    (fun _ => rfl) 0 lines
  rw [← past, skipComment_eq, ahead_eq]
  simp only [forward, lineFeed, mark, Nat.add_zero, Nat.add_assoc, Nat.add_comm 1]

/-- A symbol of one character. -/
theorem addSymbol_eq_past (h : c.ahead = char :: ahead) {s : Symbol}
    (extent : Segment.extent char ahead = (.lexeme (.symbol s), 0)) (inLine : char ≠ '\n') :
    (c.mark.forward 1).addToken (.symbol s) .absent = c.past (Segment.first char ahead) :=
  addToken_eq_past h extent (Nat.zero_le _) rfl 0 (Lines.count_singleton inLine)

/-- From every cursor that is not at the end, the next segment is the first one of the text
ahead. -/
theorem next_eq_past (h : c.ahead = char :: ahead) :
    c.next = (none, c.past (Segment.first char ahead)) := by
  rw [next, tellNext_of_ahead _ h, tellFrom]
  split
  · rename_i s _ found
    have inLine : char ≠ '\n' := by
      rintro rfl
      cases found
    exact congrArg (Prod.mk none) (addSymbol_eq_past h (by simp [Segment.extent, found]) inLine)
  · rename_i short long single found
    have inLine : char ≠ '\n' := by
      rintro rfl
      cases found
    rw [matches?_of_ahead h]
    split
    · obtain ⟨rest, rfl⟩ := List.head?_eq_some_iff.1 ‹ahead.head? = some '='›
      refine congrArg (Prod.mk none) (addToken_eq_past h ?_ (Nat.le_add_left 1 _) rfl 0 ?_)
      · simp [Segment.extent, single, found]
      · exact Lines.count_eq_zero (by simpa using inLine)
    · exact congrArg (Prod.mk none)
        (addSymbol_eq_past h (by simp [Segment.extent, *]) inLine)
  · split
    · subst char
      rw [matches?_of_ahead h]
      split
      · obtain ⟨rest, rfl⟩ := List.head?_eq_some_iff.1 ‹ahead.head? = some '/'›
        exact skipComment_eq_past h
      · exact congrArg (Prod.mk none)
          (addSymbol_eq_past h (by simp [Segment.extent, *]) (by decide))
    split
    · have inLine : char ≠ '\n' := by
        rintro rfl
        exact absurd ‹isSpacing _ = true› (by decide)
      have extent : Segment.extent char ahead = (.blank, 0) := by
        simp [Segment.extent, *]
      exact congrArg (Prod.mk none) (forward_eq_past extent (Nat.zero_le _) (fun _ => rfl)
        (fun _ => rfl) 0 (Lines.count_singleton inLine))
    split
    · subst char
      have extent : Segment.extent '\n' ahead = (.newline, 0) := rfl
      exact congrArg (Prod.mk none) (forward_eq_past extent (Nat.zero_le _) (fun _ => rfl)
        (fun _ => rfl) 1 rfl)
    split
    · subst char
      exact scanString_eq_past h
    split
    · refine scanNumber_eq_past h ‹_› ?_
      simp [Segment.extent, *]
    split
    · refine scanWord_eq_past h ‹_› ?_
      simp [Segment.extent, *]
    · have extent : Segment.extent char ahead = (.stray, 0) := by
        simp [Segment.extent, *]
      rw [past_first extent (Nat.zero_le _), List.take_zero, Lines.count_singleton ‹_›]
      simp [tellReport, report, forward, mark, Segment.token?, Segment.finding?, Finding.entry]

theorem ahead_drop (c : Cursor) (s : Segment) : (c.past s).ahead = c.ahead.drop s.text.length := by
  rw [Cursor.ahead, Cursor.ahead, List.drop_drop]
  rfl

theorem ahead_past (h : c.ahead = char :: ahead) :
    (c.past (Segment.first char ahead)).ahead = ahead.drop (Segment.extent char ahead).2 := by
  rw [ahead_drop, h]
  simp only [Segment.first, List.length_cons, List.drop_succ_cons, List.length_take]
  exact List.drop_eq_drop_min.symm

/-- What holds at the end, and of a cursor if it holds behind the next segment, holds of every
cursor. -/
theorem induction_ahead {P : Cursor → Prop} (ends : ∀ c : Cursor, c.ahead = [] → P c)
    (goes : ∀ (c : Cursor) (char : Char) (ahead : Text), c.ahead = char :: ahead →
      P (c.past (Segment.first char ahead)) → P c) (c : Cursor) : P c := by
  induction h : c.ahead.length using Nat.strongRecOn generalizing c with
  | _ n ih =>
    cases e : c.ahead with
    | nil => exact ends c e
    | cons char ahead =>
      refine goes c char ahead e (ih _ ?_ _ rfl)
      rw [ahead_past e, List.length_drop, ← h, e, List.length_cons]
      omega

theorem scan_of_atEnd (h : c.atEnd = true) :
    c.scan = (none, { c with tokens := c.tokens ++ [Token.ending c.line] }) := by
  rw [scan, tellScan, dif_pos h]

theorem scan_of_ahead (h : c.ahead = char :: ahead) :
    c.scan = (c.past (Segment.first char ahead)).scan := by
  have before : ¬ c.atEnd = true := by simp [atEnd_iff, h]
  have step : (c.tellNext unheard ()).1 = (none, c.past (Segment.first char ahead)) :=
    next_eq_past h
  rw [scan, tellScan, dif_neg before]
  simp only [step]
  rfl

/-- The cursor has read everything up to the end: what it found since `c` is `found`. -/
structure Completes (c d : Cursor) (found : Scan) : Prop where
  tokens : d.tokens = c.tokens ++ found.tokens
  reported : d.reported = c.reported ++ found.findings.map Finding.entry
  line : d.line = found.lastLine
  source : d.source = c.source
  atEnd : d.atEnd = true

/-- From every cursor, a scan finds what the text ahead holds, and does not fail. -/
theorem scan_completes (c : Cursor) :
    c.scan.1 = none ∧ Completes c c.scan.2 (Scan.fromLine c.line c.ahead) := by
  induction c using induction_ahead with
  | ends c e =>
    have atEnd := (atEnd_iff c).2 e
    rw [scan_of_atEnd atEnd, e, Scan.fromLine_nil]
    exact ⟨rfl, rfl, (List.append_nil _).symm, rfl, rfl, atEnd⟩
  | goes c char ahead e ih =>
    obtain ⟨ok, done⟩ := ih
    rw [ahead_past e] at done
    rw [scan_of_ahead e, e, Scan.fromLine_cons]
    refine ⟨ok, ?_, ?_, done.line, done.source, done.atEnd⟩
    · rw [done.tokens]
      simp only [past, List.append_assoc]
    · rw [done.reported]
      simp only [past, List.append_assoc, List.map_append, Option.toList_map]

/-- A cursor that scans a source from its start finds what the source holds. -/
theorem scan_atStart (source : Text) :
    (atStart source).scan.1 = none ∧
      Completes (atStart source) (atStart source).scan.2 (Scan.ofSource source) :=
  scan_completes (atStart source)

end Cursor

end BearLex
