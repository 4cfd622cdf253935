import BearLex.Source.Traversal

/-! The calls of a step: which they are, for every listener alike, and what they say about where the
step goes. -/

namespace BearLex.Cursor

variable {c : Cursor}

/-- With every listener, `run` comes to `r`, and the listener hears `calls`. -/
def Tells (run : (σ : Type) → (σ → Call → σ) → σ → (Option Fault × Cursor) × σ)
    (r : Option Fault × Cursor) (calls : List Call) : Prop :=
  ∀ (σ : Type) (tell : σ → Call → σ) (s : σ), run σ tell s = (r, calls.foldl tell s)

/-- The calls that take a cursor from `c` to `d`: segments are begun at the places in `begun`, the
moves are over characters from `c` on and in front of `d`, each further on than the one before,
every text that is read is a number, and the messages are those that `d` has in addition to `c`. -/
structure Spans (c d : Cursor) (begun : List Nat) (calls : List Call) : Prop where
  le : c.current ≤ d.current
  segments : calls.filterMap Call.segment? = begun
  within : ∀ place ∈ calls.filterMap Call.advance?, c.current ≤ place ∧ place < d.current
  rising : (calls.filterMap Call.advance?).Pairwise (· < ·)
  numbers : ∀ text ∈ calls.filterMap Call.reading?, Reading.Pointed text
  messages : d.reported = c.reported ++ calls.filterMap Call.message?

theorem Spans.append {d e : Cursor} {begun begun' : List Nat} {calls calls' : List Call}
    (h : Spans c d begun calls) (k : Spans d e begun' calls') :
    Spans c e (begun ++ begun') (calls ++ calls') := by
  refine ⟨Nat.le_trans h.le k.le, ?_, ?_, ?_, ?_, ?_⟩
  · rw [List.filterMap_append, h.segments, k.segments]
  · rw [List.filterMap_append]
    intro place mem
    rcases List.mem_append.1 mem with mem | mem
    · have := h.within place mem
      have := k.le
      omega
    · have := k.within place mem
      have := h.le
      omega
  · rw [List.filterMap_append, List.pairwise_append]
    refine ⟨h.rising, k.rising, ?_⟩
    intro place mem place' mem'
    have := h.within place mem
    have := k.within place' mem'
    omega
  · rw [List.filterMap_append]
    intro text mem
    rcases List.mem_append.1 mem with mem | mem
    · exact h.numbers text mem
    · exact k.numbers text mem
  · rw [k.messages, h.messages, List.filterMap_append, List.append_assoc]

theorem spans_silent {d : Cursor} (le : c.current ≤ d.current) (same : d.reported = c.reported) :
    Spans c d [] [] := by
  refine ⟨le, rfl, List.forall_mem_nil _, .nil, List.forall_mem_nil _, ?_⟩
  rw [same]
  exact (List.append_nil _).symm

theorem spans_advances {d : Cursor} {count : Nat} (current : d.current = c.current + count)
    (same : d.reported = c.reported) : Spans c d [] (Call.advances c.current count) := by
  have places : (Call.advances c.current count).filterMap Call.advance? =
      List.range' c.current count := by
    rw [Call.advances, List.filterMap_map]
    exact List.filterMap_some
  have nothing {α : Type} (f : Call → Option α) (h : ∀ place, f (.advance place) = none) :
      (Call.advances c.current count).filterMap f = [] := by
    rw [Call.advances, List.filterMap_map, List.filterMap_eq_nil_iff]
    exact fun place _ => h place
  refine ⟨by omega, nothing _ fun _ => rfl, ?_, ?_, ?_, ?_⟩
  · rw [places]
    intro place mem
    have := List.mem_range'_1.1 mem
    omega
  · rw [places]
    exact List.pairwise_lt_range'
  · rw [nothing _ fun _ => rfl]
    exact List.forall_mem_nil _
  · rw [nothing _ fun _ => rfl, List.append_nil, same]

theorem spans_advance {d : Cursor} (current : d.current = c.current + 1)
    (same : d.reported = c.reported) : Spans c d [] [.advance c.current] :=
  spans_advances current same

theorem spans_segment (c : Cursor) : Spans c c.mark [c.current] [.segment c.current] :=
  ⟨Nat.le_refl _, rfl, List.forall_mem_nil _, .nil, List.forall_mem_nil _, (List.append_nil _).symm⟩

theorem spans_message (c : Cursor) (text : Text) :
    Spans c (c.report text) [] [.message c.line text] :=
  ⟨Nat.le_refl _, rfl, List.forall_mem_nil _, .nil, List.forall_mem_nil _, rfl⟩

theorem spans_reading {d : Cursor} {text : Text} (number : Reading.Pointed text)
    (current : d.current = c.current) (same : d.reported = c.reported) :
    Spans c d [] [.reading text] := by
  refine ⟨Nat.le_of_eq current.symm, rfl, List.forall_mem_nil _, .nil, ?_, ?_⟩
  · intro t mem
    rw [List.mem_singleton.1 mem]
    exact number
  · rw [same]
    exact (List.append_nil _).symm

theorem tells_comment (c : Cursor) :
    ∃ calls, Tells (fun _ tell s => c.tellComment tell s) c.skipComment calls ∧
      Spans c c.skipComment.2 [] calls := by
  rw [skipComment_eq]
  exact ⟨_, fun _ tell s => tellComment_eq tell c s, spans_advances rfl rfl⟩

/-- A string ends behind its closing quotation mark, or with a message. -/
theorem tells_string (c : Cursor) :
    ∃ calls, Tells (fun _ tell s => c.tellString tell s) c.scanString calls ∧
      Spans c c.scanString.2 [] calls := by
  have body : Spans c ((c.forward (stringBody c.ahead).length).lineFeed
      (Lines.count (stringBody c.ahead))) []
      (Call.advances c.current (stringBody c.ahead).length) :=
    spans_advances rfl rfl
  rw [scanString_eq c rfl]
  refine ⟨_, fun _ tell s => tellString_eq tell c s rfl, ?_⟩
  refine body.append ?_
  dsimp only
  split
  · exact spans_message _ _
  · exact spans_advance rfl rfl

/-- A lexeme that is read as a number is one. -/
theorem tells_number (c : Cursor)
    (number : Reading.Pointed (c.forward (numberRest c.ahead).length).lexeme) :
    ∃ calls, Tells (fun _ tell s => c.tellNumber tell s) c.scanNumber calls ∧
      Spans c c.scanNumber.2 [] calls := by
  have digits : Spans c (c.forward (numberRest c.ahead).length) []
      (Call.advances c.current (numberRest c.ahead).length) :=
    spans_advances rfl rfl
  rw [scanNumber_eq c rfl]
  refine ⟨_, fun _ tell s => tellNumber_eq tell c s rfl, ?_⟩
  rw [Reading.binary64?_of_pointed number]
  exact digits.append (spans_reading number rfl rfl)

theorem tells_word (c : Cursor) :
    ∃ calls, Tells (fun _ tell s => c.tellWord tell s) c.scanWord calls ∧
      Spans c c.scanWord.2 [] calls := by
  rw [scanWord_eq c rfl]
  exact ⟨_, fun _ tell s => tellWord_eq tell c s rfl, spans_advances rfl rfl⟩

theorem reported_matches? (c : Cursor) (expected : Text) :
    (c.matches? expected).2.reported = c.reported := by
  unfold matches?
  split <;> rfl

/-- What a step hears and where it goes once it has moved over its first character. -/
theorem tells_from (c : Cursor) (char : Char)
    (number : char.isDigit = true →
      Reading.Pointed (c.forward (numberRest c.ahead).length).lexeme) :
    ∃ calls, Tells (fun _ tell s => c.tellFrom tell char s) (c.tellFrom unheard char ()).1 calls ∧
      Spans c (c.tellFrom unheard char ()).1.2 [] calls := by
  have tried (expected : Text) : Spans c (c.matches? expected).2 [] [] :=
    spans_silent (onward_matches? c expected).current (reported_matches? c expected)
  have symbol (expected : Text) (kind : Kind) :
      Spans c ((c.matches? expected).2.addToken kind .absent) [] [] :=
    (tried expected).append (spans_silent (Nat.le_refl _) rfl)
  unfold tellFrom
  split
  · exact ⟨[], fun _ _ _ => rfl, spans_silent (Nat.le_refl _) rfl⟩
  · exact ⟨[], fun _ _ _ => rfl, symbol _ _⟩
  · dsimp only
    split
    · split
      · obtain ⟨calls, tells, spans⟩ := tells_comment (c.matches? ['/']).2
        exact ⟨calls, tells, (tried _).append spans⟩
      · exact ⟨[], fun _ _ _ => rfl, symbol _ _⟩
    split
    · exact ⟨[], fun _ _ _ => rfl, spans_silent (Nat.le_refl _) rfl⟩
    split
    · exact ⟨[], fun _ _ _ => rfl, spans_silent (Nat.le_refl _) rfl⟩
    split
    · exact tells_string c
    split
    · exact tells_number c (number ‹_›)
    split
    · exact tells_word c
    · exact ⟨[.message c.line _], fun _ _ _ => rfl, spans_message c _⟩

/-- A segment that is begun in front of the end. -/
theorem tells_next {char : Char} {ahead : Text} (h : c.ahead = char :: ahead) :
    ∃ calls, Tells (fun _ tell s => c.tellNext tell s) c.next calls ∧
      Spans c c.next.2 [c.current] calls := by
  have behind := ahead_behind h
  obtain ⟨calls, tells, spans⟩ := tells_from (c.mark.forward 1) char (by
    intro digit
    rw [behind, lexeme_behind h (numberRest_isPrefix ahead)]
    exact pointed_number digit ahead)
  have step : c.next = ((c.mark.forward 1).tellFrom unheard char ()).1 :=
    congrArg Prod.fst (tellNext_of_ahead unheard h ())
  rw [step]
  refine ⟨.segment c.current :: .advance c.current :: calls, ?_, ?_⟩
  · intro σ tell s
    exact (tellNext_of_ahead tell h s).trans (tells σ tell _)
  · have first : Spans c.mark (c.mark.forward 1) [] [.advance c.current] :=
      spans_advance rfl rfl
    exact (spans_segment c).append (first.append spans)

end BearLex.Cursor
