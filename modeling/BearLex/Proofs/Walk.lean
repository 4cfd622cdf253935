import BearLex.Proofs.Transcript
import BearLex.Source.Operation
import BearLex.Source.Traversal

/-! Walks of a cursor by single operations in any order. Whatever an operation does, it moves the
cursor on and counts no more lines than it passes, and at its end it may add one token or report one
message. What holds of every cursor that a walk reaches follows from this alone. -/

namespace BearLex

namespace Cursor

/-- The ways in which a step over text ends: with nothing, a token, a message, or a fault. Before
that, it moves `count` places on, and counts at most the newlines on the way. -/
inductive Reads (c : Cursor) : Option Fault × Cursor → Prop
  | silent (count feeds : Nat) (h : feeds ≤ Lines.count (c.ahead.take count)) :
    Reads c (none, (c.forward count).lineFeed feeds)
  | token (count feeds : Nat) (h : feeds ≤ Lines.count (c.ahead.take count)) (kind : Kind)
    (literal : Literal) : Reads c (none, ((c.forward count).lineFeed feeds).addToken kind literal)
  | message (count feeds : Nat) (h : feeds ≤ Lines.count (c.ahead.take count)) (text : Text) :
    Reads c (none, ((c.forward count).lineFeed feeds).report text)
  | notANumber (count : Nat) :
    Reads c (some (.notANumber (c.forward count).lexeme), c.forward count)
  | pastEnd : Reads c (some .pastEnd, c)

variable {c d : Cursor} {r : Option Fault × Cursor}

theorem forward_forward (c : Cursor) (m n : Nat) : (c.forward m).forward n = c.forward (m + n) := by
  simp only [forward, Nat.add_assoc]

theorem count_take_forward_le (c : Cursor) (m n : Nat) :
    Lines.count ((c.forward m).ahead.take n) ≤ Lines.count (c.ahead.take (m + n)) := by
  rw [ahead_forward, List.take_add, Lines.count_append]
  omega

/-- A step from further on is a step that moves there first, unless nothing is there. -/
theorem Reads.behind {m : Nat} (h : Reads (c.forward m) r) (ok : r.1 ≠ some .pastEnd) :
    Reads c r := by
  have more (n : Nat) := count_take_forward_le c m n
  cases h with
  | silent n feeds h =>
    rw [forward_forward]
    exact .silent (m + n) feeds (Nat.le_trans h (more n))
  | token n feeds h =>
    rw [forward_forward]
    exact .token (m + n) feeds (Nat.le_trans h (more n)) _ _
  | message n feeds h =>
    rw [forward_forward]
    exact .message (m + n) feeds (Nat.le_trans h (more n)) _
  | notANumber n =>
    rw [forward_forward]
    exact .notANumber (m + n)
  | pastEnd => exact absurd rfl ok

theorem Reads.further {m : Nat} (h : Reads (c.forward m) (none, d)) : Reads c (none, d) :=
  h.behind (by simp)

theorem reads_here (c : Cursor) : Reads c (none, c) :=
  .silent 0 0 (Nat.zero_le _)

theorem reads_addToken (c : Cursor) (kind : Kind) (literal : Literal) :
    Reads c (none, c.addToken kind literal) :=
  .token 0 0 (Nat.zero_le _) kind literal

theorem reads_report (c : Cursor) (text : Text) : Reads c (none, c.report text) :=
  .message 0 0 (Nat.zero_le _) text

theorem reads_matches? (c : Cursor) (expected : Text) :
    Reads c (none, (c.matches? expected).2) := by
  unfold matches?
  split
  · exact .silent 1 0 (Nat.zero_le _)
  · exact reads_here c

theorem reads_skipComment (c : Cursor) : Reads c c.skipComment := by
  rw [skipComment_eq]
  exact .silent _ 0 (Nat.zero_le _)

theorem reads_scanString (c : Cursor) : Reads c c.scanString := by
  have body := Text.take_of_isPrefix (stringBody_isPrefix c.ahead)
  rw [scanString_eq c rfl]
  split
  · exact .message _ _ (Nat.le_of_eq (by rw [body])) _
  · refine .token ((stringBody c.ahead).length + 1) (Lines.count (stringBody c.ahead)) ?_ _ _
    rw [List.take_add, body, Lines.count_append]
    omega

theorem reads_scanNumber (c : Cursor) : Reads c c.scanNumber := by
  rw [scanNumber_eq c rfl]
  split
  · exact .token _ 0 (Nat.zero_le _) _ _
  · exact .notANumber _

theorem reads_scanWord (c : Cursor) : Reads c c.scanWord := by
  rw [scanWord_eq c rfl]
  exact .token _ 0 (Nat.zero_le _) _ _

theorem scanNumber_ne_pastEnd (c : Cursor) : c.scanNumber.1 ≠ some .pastEnd := by
  rw [scanNumber_eq c rfl]
  split <;> simp

/-- What a step does once it has moved over its first character. -/
theorem reads_tellFrom {char : Char} {ahead : Text} (h : c.ahead = char :: ahead) :
    Reads c ((c.forward 1).tellFrom unheard char ()).1 := by
  unfold tellFrom
  split
  · exact (reads_addToken _ _ _).further
  · dsimp only [matches?]
    split
    · exact (reads_addToken _ _ _).further.further
    · exact (reads_addToken _ _ _).further
  split
  · dsimp only [matches?]
    split
    · rw [if_pos rfl]
      refine ((reads_skipComment _).behind ?_).behind ?_ <;> simp [skipComment_eq]
    · rw [if_neg Bool.false_ne_true]
      exact (reads_addToken _ _ _).further
  split
  · exact (reads_here _).further
  split
  · subst char
    -- The line that is counted is the one that the first character ends.
    refine .silent 1 1 ?_
    rw [h]
    simp [Lines.count]
  split
  · exact (reads_scanString _).behind (by simp [scanString_eq _ rfl])
  split
  · exact (reads_scanNumber _).behind (scanNumber_ne_pastEnd _)
  split
  · exact (reads_scanWord _).behind (by simp [scanWord_eq _ rfl])
  · exact (reads_report _ _).further

theorem reads_scanSegment (c : Cursor) : Reads c c.scanSegment := by
  cases e : c.ahead with
  | nil =>
    have none : c.source[c.current]? = none := by rw [getElem?_current, e]; rfl
    simpa [scanSegment, tellSegment, advance, none] using Reads.pastEnd
  | cons char ahead =>
    simpa [scanSegment, tellSegment, advance, getElem?_of_ahead e] using reads_tellFrom e

/-! ### What every step keeps -/

/-- The facts that every walk over `source` keeps. -/
structure Sound (source : Text) (c : Cursor) : Prop where
  source_eq : c.source = source
  start_le : c.start ≤ c.current
  one_le : 1 ≤ c.startLine
  startLine_le : c.startLine ≤ c.line
  line_le : c.line ≤ 1 + Lines.count (source.take c.current)
  counted : c.diagnosticCount = c.reported.length

/-- Nothing in `d` is behind `c`, and nothing that `c` holds is lost. -/
structure Grows (c d : Cursor) : Prop where
  start : c.start ≤ d.start
  current : c.current ≤ d.current
  line : c.line ≤ d.line
  startLine : c.startLine ≤ d.startLine
  tokens : c.tokens <+: d.tokens
  reported : c.reported <+: d.reported

/-- The tokens of `d` are those of `c`, or they are those of `c` and one that was appended in a
cursor `e`: the slice of the source from the start of `e` to its place, on the line of its start. -/
inductive Adds (c d : Cursor) : Prop
  | nothing (same : d.tokens = c.tokens)
  | token (e : Cursor) (kind : Kind) (literal : Literal) (same : e.tokens = c.tokens)
    (appended : d = { e with
      tokens := e.tokens ++
        [⟨kind, (e.source.take e.current).drop e.start, literal, e.startLine⟩] })

variable {source : Text}

theorem sound_atStart (source : Text) : Sound source (atStart source) :=
  ⟨rfl, Nat.le_refl _, Nat.le_refl _, Nat.le_refl _, Nat.le_add_right _ _, rfl⟩

theorem Sound.mark (h : Sound source c) : Sound source c.mark :=
  ⟨h.source_eq, Nat.le_refl _, Nat.le_trans h.one_le h.startLine_le, Nat.le_refl _, h.line_le,
    h.counted⟩

theorem Sound.move (h : Sound source c) {count feeds : Nat}
    (within : feeds ≤ Lines.count (c.ahead.take count)) :
    Sound source ((c.forward count).lineFeed feeds) := by
  have passed : Lines.count (source.take (c.current + count)) =
      Lines.count (source.take c.current) + Lines.count (c.ahead.take count) := by
    rw [List.take_add, Lines.count_append, ahead, h.source_eq]
  refine ⟨h.source_eq, Nat.le_add_right_of_le h.start_le, h.one_le,
    Nat.le_add_right_of_le h.startLine_le, ?_, h.counted⟩
  have := h.line_le
  show c.line + feeds ≤ 1 + Lines.count (source.take (c.current + count))
  omega

theorem Sound.addToken (h : Sound source c) (kind : Kind) (literal : Literal) :
    Sound source (c.addToken kind literal) :=
  ⟨h.source_eq, h.start_le, h.one_le, h.startLine_le, h.line_le, h.counted⟩

theorem Sound.report (h : Sound source c) (text : Text) : Sound source (c.report text) := by
  refine ⟨h.source_eq, h.start_le, h.one_le, h.startLine_le, h.line_le, ?_⟩
  simp [Cursor.report, h.counted]

theorem Sound.reads (h : Sound source c) (step : Reads c r) : Sound source r.2 := by
  cases step with
  | silent count feeds within => exact h.move within
  | token count feeds within kind literal => exact (h.move within).addToken kind literal
  | message count feeds within text => exact (h.move within).report text
  | notANumber count => exact h.move (Nat.zero_le _)
  | pastEnd => exact h

theorem Grows.refl (c : Cursor) : Grows c c :=
  ⟨Nat.le_refl _, Nat.le_refl _, Nat.le_refl _, Nat.le_refl _, List.prefix_refl _,
    List.prefix_refl _⟩

theorem Grows.trans {e : Cursor} (h : Grows c d) (k : Grows d e) : Grows c e :=
  ⟨Nat.le_trans h.start k.start, Nat.le_trans h.current k.current, Nat.le_trans h.line k.line,
    Nat.le_trans h.startLine k.startLine, h.tokens.trans k.tokens, h.reported.trans k.reported⟩

theorem Sound.grows_mark (h : Sound source c) : Grows c c.mark :=
  ⟨h.start_le, Nat.le_refl _, Nat.le_refl _, h.startLine_le, List.prefix_refl _,
    List.prefix_refl _⟩

theorem Reads.grows (step : Reads c r) : Grows c r.2 := by
  cases step with
  | pastEnd => exact Grows.refl c
  | _ =>
    refine ⟨Nat.le_refl _, Nat.le_add_right _ _, ?_, Nat.le_refl _, ?_, ?_⟩ <;>
      simp [Cursor.addToken, Cursor.report, lineFeed, forward]

theorem Reads.adds (step : Reads c r) : Adds c r.2 := by
  cases step with
  | token count feeds within kind literal =>
    exact .token ((c.forward count).lineFeed feeds) kind literal rfl rfl
  | _ => exact .nothing rfl

/-- An operation other than a whole scan is a step over text, from the cursor or from its mark. -/
theorem perform_reads (c : Cursor) {o : Operation} (h : o ≠ .scan) :
    ∃ b f, (b = c ∨ b = c.mark) ∧ Reads b (f, (c.perform o).2) := by
  cases o with
  | scan => exact absurd rfl h
  | next => exact ⟨c.mark, _, .inr rfl, reads_scanSegment c.mark⟩
  | mark => exact ⟨c.mark, _, .inr rfl, reads_here c.mark⟩
  | scanSegment => exact ⟨c, _, .inl rfl, reads_scanSegment c⟩
  | skipComment => exact ⟨c, _, .inl rfl, reads_skipComment c⟩
  | scanString => exact ⟨c, _, .inl rfl, reads_scanString c⟩
  | scanNumber => exact ⟨c, _, .inl rfl, reads_scanNumber c⟩
  | scanWord => exact ⟨c, _, .inl rfl, reads_scanWord c⟩
  | atEnd => exact ⟨c, _, .inl rfl, reads_here c⟩
  | peek offset =>
    have same : (c.perform (.peek offset)).2 = c := by
      simp only [perform]
      split <;> rfl
    rw [same]
    exact ⟨c, _, .inl rfl, reads_here c⟩
  | advance =>
    refine ⟨c, none, .inl rfl, ?_⟩
    simp only [perform, advance]
    split
    · rename_i moved
      split at moved
      · cases moved
        exact .silent 1 0 (Nat.zero_le _)
      · cases moved
    · rename_i stuck
      split at stuck
      · cases stuck
      · cases stuck
        exact reads_here c
  | «matches» expected => exact ⟨c, _, .inl rfl, reads_matches? c expected⟩
  | addToken kind literal => exact ⟨c, _, .inl rfl, reads_addToken c kind literal⟩
  | report text => exact ⟨c, _, .inl rfl, reads_report c text⟩

theorem Sound.perform (h : Sound source c) {o : Operation} (single : o ≠ .scan) :
    Sound source (c.perform o).2 ∧ Grows c (c.perform o).2 := by
  obtain ⟨b, f, rfl | rfl, step⟩ := perform_reads c single
  · exact ⟨h.reads step, step.grows⟩
  · exact ⟨h.mark.reads step, h.grows_mark.trans step.grows⟩

theorem adds_perform (c : Cursor) {o : Operation} (single : o ≠ .scan) :
    Adds c (c.perform o).2 := by
  obtain ⟨b, f, rfl | rfl, step⟩ := perform_reads c single
  · exact step.adds
  · cases step.adds with
    | nothing same => exact .nothing same
    | token e kind literal same appended => exact .token e kind literal same appended

/-! ### A whole scan is a walk by segments -/

/-- The cursor after `count` segments. -/
def nexts (c : Cursor) (count : Nat) : Cursor :=
  c.walk (List.replicate count .next)

theorem nexts_succ (c : Cursor) (count : Nat) :
    c.nexts (count + 1) = (c.perform .next).2.nexts count :=
  rfl

theorem nexts_add_one (c : Cursor) (count : Nat) :
    c.nexts (count + 1) = ((c.nexts count).perform .next).2 := by
  induction count generalizing c with
  | zero => rfl
  | succ count ih => rw [nexts_succ, ih, nexts_succ]

theorem Sound.nexts (h : Sound source c) (count : Nat) :
    Sound source (c.nexts count) ∧ Grows c (c.nexts count) := by
  induction count with
  | zero => exact ⟨h, Grows.refl c⟩
  | succ count ih =>
    obtain ⟨sound, grows⟩ := ih
    rw [nexts_add_one]
    have step := sound.perform (o := .next) (by simp)
    exact ⟨step.1, grows.trans step.2⟩

/-- A scan is `count` segments, each begun in front of the end and read without fault, up to the
end, and then the token at the end of input, which no segment adds. -/
structure ScansBy (c : Cursor) (count : Nat) : Prop where
  inside : ∀ i < count, (c.nexts i).atEnd = false ∧ ((c.nexts i).perform .next).1 = .nothing ∧
    Adds (c.nexts i) (c.nexts (i + 1))
  atEnd : (c.nexts count).atEnd = true
  tokens : ∃ new, (c.nexts count).tokens = c.tokens ++ new ∧ ∀ t ∈ new, t.kind ≠ .endOfInput
  scan_eq : c.scan = (none, { c.nexts count with
    tokens := (c.nexts count).tokens ++ [Token.ending (c.nexts count).line] })

theorem perform_next {char : Char} {ahead : Text} (h : c.ahead = char :: ahead) :
    c.perform .next = (.nothing, c.past (Segment.first char ahead)) := by
  rw [perform, next_eq_past h]
  rfl

theorem kind_ne_of_token? {char : Char} {ahead : Text} {line : Nat} {t : Token}
    (h : (Segment.first char ahead).token? line = some t) : t.kind ≠ .endOfInput := by
  unfold Segment.token? at h
  split at h
  · rename_i kind form
    cases h
    intro ending
    cases ending
    cases Segment.lexeme_of_form form
  · cases h

theorem exists_scansBy (c : Cursor) : ∃ count, ScansBy c count := by
  induction c using induction_ahead with
  | ends c e =>
    have atEnd := (atEnd_iff c).2 e
    have nothing : c.tokens = c.tokens ++ [] := (List.append_nil _).symm
    refine ⟨0, ?_, atEnd, ⟨[], nothing, List.forall_mem_nil _⟩, scan_of_atEnd atEnd⟩
    intro i hi
    exact absurd hi (Nat.not_lt_zero i)
  | goes c char ahead e ih =>
    obtain ⟨count, later⟩ := ih
    obtain ⟨new, tokens, kinds⟩ := later.tokens
    have step := perform_next e
    have shift (n : Nat) : c.nexts (n + 1) = (c.past (Segment.first char ahead)).nexts n := by
      rw [nexts_succ, step]
    refine ⟨count + 1, ?_, ?_, ?_, ?_⟩
    · intro i hi
      cases i with
      | zero =>
        have before : c.atEnd = false := by simp [Bool.eq_false_iff, atEnd_iff, e]
        exact ⟨before, congrArg Prod.fst step, adds_perform c (by simp)⟩
      | succ i =>
        rw [shift, shift]
        exact later.inside i (by omega)
    · rw [shift]
      exact later.atEnd
    · rw [shift]
      refine ⟨((Segment.first char ahead).token? c.line).toList ++ new, ?_, ?_⟩
      · rw [tokens, past, List.append_assoc]
      · intro t mem
        rcases List.mem_append.1 mem with here | mem
        · exact kind_ne_of_token? (Option.mem_toList.1 here)
        · exact kinds t mem
    · rw [shift, scan_of_ahead e]
      exact later.scan_eq

/-! ### Loops and faults -/

/-- From `c`, a loop is at `d` after `count` turns, each of which moves over one character, and then
stops. -/
inductive Turns (p : Char → Bool) (counting : Bool) : Nat → Cursor → Cursor → Prop
  | stop {c : Cursor} (h : ∀ char ∈ c.source[c.current]?, p char = false) : Turns p counting 0 c c
  | turn {c d e : Cursor} {char : Char} {count : Nat} (here : c.source[c.current]? = some char)
    (ok : p char = true)
    (step : (c.lineFeed (if counting && char == '\n' then 1 else 0)).move = (none, d))
    (more : Turns p counting count d e) : Turns p counting (count + 1) c e

/-- What a fault leaves changed: nothing but the start that was marked before it, or the place to
which the digits were followed. -/
inductive Halted (c : Cursor) : Operation → Fault → Cursor → Prop
  | pastEnd {o : Operation} (other : o ≠ .next) : Halted c o .pastEnd c
  | marked : Halted c .next .pastEnd c.mark
  | notANumber {o : Operation} (h : o = .scanSegment ∨ o = .scanNumber) (count : Nat) :
    Halted c o (.notANumber (c.forward count).lexeme) (c.forward count)

theorem exists_turns (p : Char → Bool) (counting : Bool) (c : Cursor) :
    ∃ count d, count ≤ c.source.length - c.current ∧ Turns p counting count c d ∧
      c.advanceWhile p counting = (none, d) := by
  induction h : c.ahead generalizing c with
  | nil =>
    refine ⟨0, c, Nat.zero_le _, .stop ?_, advanceWhile_of_end counting ?_⟩
    · simp [getElem?_current, h]
    · simp [h]
  | cons char ahead ih =>
    by_cases ok : p char = true
    · have behind : (((c.lineFeed (if counting && char == '\n' then 1 else 0)).forward 1)).ahead =
          ahead := by
        rw [ahead_forward]
        show c.ahead.drop 1 = ahead
        rw [h]
        rfl
      obtain ⟨count, d, le, turns, loop⟩ := ih _ behind
      have room : 0 < c.source.length - c.current := by
        have := congrArg List.length h
        simp only [Cursor.ahead, List.length_drop, List.length_cons] at this
        omega
      refine ⟨count + 1, d, ?_, .turn (getElem?_of_ahead h) ok (move_of_ahead ?_) turns, ?_⟩
      · simp only [forward, lineFeed] at le
        omega
      · show c.ahead ≠ []
        rw [h]
        exact List.cons_ne_nil _ _
      · rw [advanceWhile_of_ahead h counting ok, loop]
    · refine ⟨0, c, Nat.zero_le _, .stop ?_, advanceWhile_of_end counting ?_⟩
      · simpa [getElem?_current, h] using ok
      · simpa [h] using ok

theorem fault_of_silently {f : Fault} (h : (silently r).1 = .fault f) : r.1 = some f := by
  unfold silently at h
  split at h
  · cases h
    assumption
  · cases h

theorem Reads.halted {o : Operation} {f : Fault} (step : Reads c r) (failed : r.1 = some f)
    (other : o ≠ .next) (h : f ≠ .pastEnd → o = .scanSegment ∨ o = .scanNumber) :
    Halted c o f r.2 := by
  cases step with
  | notANumber count =>
    cases failed
    exact .notANumber (h (by simp)) count
  | pastEnd =>
    cases failed
    exact .pastEnd other
  | _ => cases failed

theorem eq_pastEnd_of_peek {offset : Int} {f : Fault} (h : c.peek offset = .error f) :
    f = .pastEnd := by
  unfold peek at h
  simp only at h
  split at h
  · cases h
  split at h
  · cases h
  split at h
  · cases h
  · cases h
    rfl

theorem eq_pastEnd_of_advance {f : Fault} (h : c.advance = (.error f, d)) :
    f = .pastEnd ∧ d = c := by
  unfold advance at h
  split at h
  · cases h
  · cases h
    exact ⟨rfl, rfl⟩

theorem halted_perform {o : Operation} {f : Fault} (h : (c.perform o).1 = .fault f) :
    Halted c o f (c.perform o).2 := by
  cases o with
  | scan =>
    have ok := (scan_completes c).1
    simp only [perform] at h
    split at h
    · cases h
    · rename_i failed
      rw [fault_of_silently h] at ok
      cases ok
  | next =>
    cases e : c.ahead with
    | nil =>
      have none : c.source[c.current]? = none := by rw [getElem?_current, e]; rfl
      have step : c.next = (some .pastEnd, c.mark) := by
        simp [next, tellNext, tellSegment, advance, Cursor.mark, none]
      rw [perform, step] at h ⊢
      cases h
      exact .marked
    | cons char ahead =>
      rw [perform_next e] at h
      cases h
  | scanSegment =>
    exact (reads_scanSegment c).halted (fault_of_silently h) (by simp) fun _ => .inl rfl
  | scanNumber =>
    exact (reads_scanNumber c).halted (fault_of_silently h) (by simp) fun _ => .inr rfl
  | skipComment =>
    have := fault_of_silently h
    simp [skipComment_eq] at this
  | scanString =>
    have := fault_of_silently h
    simp [scanString_eq c rfl] at this
  | scanWord =>
    have := fault_of_silently h
    simp [scanWord_eq c rfl] at this
  | peek offset =>
    simp only [perform] at h ⊢
    split at h
    · cases h
    · cases h
      rename_i e
      rw [eq_pastEnd_of_peek e]
      exact .pastEnd (by simp)
  | advance =>
    simp only [perform] at h ⊢
    split at h
    · cases h
    · cases h
      rename_i e
      obtain ⟨rfl, rfl⟩ := eq_pastEnd_of_advance e
      exact .pastEnd (by simp)
  | mark | atEnd | «matches» | addToken | report => cases h

/-! ### Every cursor that a walk reaches -/

/-- What holds of a cursor that a walk over `source` reaches, of every operation on it and of every
loop from it. -/
structure Regular (source : Text) (c : Cursor) : Prop where
  sound : Sound source c
  grows : ∀ o, Grows c (c.perform o).2
  adds : ∀ o, o ≠ .scan → Adds c (c.perform o).2
  scans : ∃ count, ScansBy c count
  loops : ∀ p counting, ∃ count d, count ≤ source.length - c.current ∧
    Turns p counting count c d ∧ c.advanceWhile p counting = (none, d)
  halts : ∀ o f, (c.perform o).1 = .fault f → Halted c o f (c.perform o).2

theorem Sound.scan (h : Sound source c) :
    Sound source (c.perform .scan).2 ∧ Grows c (c.perform .scan).2 := by
  obtain ⟨count, scans⟩ := exists_scansBy c
  obtain ⟨sound, grows⟩ := h.nexts count
  simp only [Cursor.perform, scans.scan_eq]
  refine ⟨⟨sound.source_eq, sound.start_le, sound.one_le, sound.startLine_le, sound.line_le,
    sound.counted⟩, grows.trans ?_⟩
  exact ⟨Nat.le_refl _, Nat.le_refl _, Nat.le_refl _, Nat.le_refl _, List.prefix_append _ _,
    List.prefix_refl _⟩

theorem Sound.step (h : Sound source c) (o : Operation) :
    Sound source (c.perform o).2 ∧ Grows c (c.perform o).2 := by
  by_cases single : o = .scan
  · rw [single]
    exact h.scan
  · exact h.perform single

theorem Sound.walk (h : Sound source c) (operations : List Operation) :
    Sound source (c.walk operations) := by
  induction operations generalizing c with
  | nil => exact h
  | cons o operations ih => exact ih (h.step o).1

/-- Whatever operations are performed in whatever order, failing ones included, the cursor is in
order: its start is not behind its place, its lines are at most those of the newlines passed, and it
has counted what it reported. Every further operation takes it on and keeps what it holds; adds at
most the lexeme of the moment, unless it is a whole scan, which never fails and adds one token at
the end of input; and leaves nothing else half done where it fails. Every loop comes to its end. -/
theorem regular_walk (source : Text) (operations : List Operation) :
    Regular source ((atStart source).walk operations) := by
  have sound := (sound_atStart source).walk operations
  refine ⟨sound, fun o => (sound.step o).2, fun o => adds_perform _, exists_scansBy _, ?_,
    fun o f => halted_perform⟩
  intro p counting
  have loop := exists_turns p counting ((atStart source).walk operations)
  rwa [sound.source_eq] at loop

end Cursor

end BearLex
