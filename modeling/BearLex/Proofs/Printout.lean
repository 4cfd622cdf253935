import BearLex.Proofs.Streams
import BearLex.Proofs.Transcript

/-! The printed tokens of a source can be read back. Nothing is escaped in a printout, and the text
of a string may look like further lines of it; but a kind has no space in its name, a string has
exactly two quotation marks, every other lexeme has no space, and a lexeme says how long the literal
behind it is. -/

namespace BearLex

/-- What is printed of a token: all but its line. -/
def Token.shown (t : Token) : Kind × Text × Literal :=
  (t.kind, t.lexeme, t.literal)

namespace Printout

/-- The lexeme of a kind at the front of a text. -/
def lexemeOf (kind : Kind) (s : Text) : Text :=
  if kind = .string then '"' :: stringBody s.tail ++ ['"'] else s.takeWhile (· != ' ')

/-- The token at the front of a printout, and what follows it. -/
def read? (s : Text) : Option ((Kind × Text × Literal) × Text) :=
  (Kind.ofName? (s.takeWhile (· != ' '))).map fun kind =>
    let behind := (s.dropWhile (· != ' ')).tail
    let lexeme := lexemeOf kind behind
    let literal := Segment.literal kind lexeme
    ((kind, lexeme, literal), behind.drop (lexeme.length + 1 + literal.plain.length))

theorem length_of_read? {s rest : Text} {shown : Kind × Text × Literal}
    (h : read? s = some (shown, rest)) : rest.length ≤ s.length := by
  obtain ⟨kind, -, e⟩ := Option.map_eq_some_iff.1 h
  obtain ⟨-, rfl⟩ := Prod.mk.inj e
  have := (List.dropWhile_sublist (l := s) (· != ' ')).length_le
  simp only [List.length_drop, List.length_tail]
  omega

/-- The tokens of a printout, with a line end between two neighbours. -/
def decode (s : Text) : Option (List (Kind × Text × Literal)) :=
  match _h : read? s with
  | none => none
  | some (shown, []) => some [shown]
  | some (shown, _ :: rest) => (decode rest).map (shown :: ·)
termination_by s.length
decreasing_by exact length_of_read? _h

variable {s rest : Text} {shown : Kind × Text × Literal}

theorem decode_last (h : read? s = some (shown, [])) : decode s = some [shown] := by
  rw [decode]
  split <;> simp_all

theorem decode_next {c : Char} (h : read? s = some (shown, c :: rest)) :
    decode s = (decode rest).map (shown :: ·) := by
  rw [decode]
  split <;> simp_all

end Printout

/-! ### Tokens as a scan makes them -/

/-- The token is a lexeme with the literal that it stands for, or the one at the end of input. -/
inductive Token.Genuine (t : Token) : Prop
  | lexeme (h : Lexeme t.kind t.lexeme) (value : t.literal = Segment.literal t.kind t.lexeme)
  | ending (h : t.shown = (.endOfInput, [], .absent))

theorem Segment.genuine_of_token? {c : Char} {ahead : Text} {line : Nat} {t : Token}
    (h : (first c ahead).token? line = some t) : t.Genuine := by
  unfold token? at h
  split at h
  · rename_i kind form
    cases h
    exact .lexeme (lexeme_of_form form) rfl
  · cases h

theorem Scan.genuine_fromLine (line : Nat) (source : Text) :
    ∀ t ∈ (fromLine line source).tokens, t.Genuine := by
  induction source using Segment.induction_rest generalizing line with
  | nil =>
    rw [fromLine_nil]
    simpa using Token.Genuine.ending rfl
  | cons c ahead ih =>
    rw [fromLine_cons]
    intro t mem
    rcases List.mem_append.1 mem with here | later
    · exact Segment.genuine_of_token? (Option.mem_toList.1 here)
    · exact ih _ t later

theorem Kind.space_not_mem_name (k : Kind) : ' ' ∉ k.name := by
  cases k with
  | symbol s => cases s <;> decide
  | keyword k => cases k <;> decide
  | _ => decide

theorem IsWord.space_not_mem {word : Text} (h : IsWord word) : ' ' ∉ word := by
  obtain ⟨start, inside⟩ := h
  intro mem
  rcases List.mem_cons.1 mem with rfl | mem
  · exact absurd start (by decide)
  · exact absurd (inside _ mem) (by decide)

theorem Lexeme.space_not_mem {kind : Kind} {text : Text} (h : Lexeme kind text)
    (notString : kind ≠ .string) : ' ' ∉ text := by
  cases h with
  | symbol s => cases s <;> decide
  | number h => exact fun mem => absurd (h.isDecimalMark _ mem) (by decide)
  | string => exact absurd rfl notString
  | keyword k => exact k.isWord_word.space_not_mem
  | identifier h => exact h.space_not_mem

namespace Printout

variable {t : Token}

theorem bne_of_not_mem {c : Char} {s : Text} (h : c ∉ s) : ∀ d ∈ s, (d != c) = true := by
  intro d hd
  have : d ≠ c := fun e => h (e ▸ hd)
  simpa using this

theorem lexemeOf_append (h : t.Genuine) (rest : Text) :
    lexemeOf t.kind (t.lexeme ++ ' ' :: rest) = t.lexeme := by
  by_cases isString : t.kind = .string
  · rw [lexemeOf, if_pos isString]
    cases h with
    | lexeme h =>
      rw [isString] at h
      generalize t.lexeme = lexeme at h
      cases h with
      | @string body inside =>
        have text : ('"' :: body ++ ['"'] ++ ' ' :: rest).tail = body ++ '"' :: ' ' :: rest := by
          simp
        rw [text, stringBody_append inside]
    | ending e =>
      rw [(Prod.mk.inj e).1] at isString
      cases isString
  · have free : ' ' ∉ t.lexeme := by
      cases h with
      | lexeme h => exact h.space_not_mem isString
      | ending e =>
        obtain ⟨-, e⟩ := Prod.mk.inj e
        rw [(Prod.mk.inj e).1]
        exact List.not_mem_nil
    rw [lexemeOf, if_neg isString, Text.takeWhile_append_cons (bne_of_not_mem free) (by decide)]

theorem literal_of_genuine (h : t.Genuine) : Segment.literal t.kind t.lexeme = t.literal := by
  cases h with
  | lexeme h value => exact value.symm
  | ending e =>
    obtain ⟨kind, e⟩ := Prod.mk.inj e
    obtain ⟨lexeme, literal⟩ := Prod.mk.inj e
    rw [kind, literal]
    rfl

/-- A printed token is read back, whatever follows it. -/
theorem read?_render (h : t.Genuine) (rest : Text) :
    read? (t.render ++ rest) = some (t.shown, rest) := by
  have name := bne_of_not_mem t.kind.space_not_mem_name
  have text : t.render ++ rest =
      t.kind.name ++ ' ' :: (t.lexeme ++ ' ' :: (t.literal.plain ++ rest)) := by
    simp [Token.render]
  have literal := literal_of_genuine h
  have behind : (t.lexeme ++ ' ' :: (t.literal.plain ++ rest)).drop
      (t.lexeme.length + 1 + t.literal.plain.length) = rest := by
    rw [Nat.add_assoc, List.drop_length_add_append, Nat.add_comm 1, List.drop_succ_cons,
      List.drop_left]
  rw [read?, text, Text.takeWhile_append_cons name (by decide),
    Text.dropWhile_append_cons name (by decide), Kind.ofName?_name]
  simp only [Option.map_some, List.tail_cons, lexemeOf_append h, literal, behind]
  rfl

/-- Printed tokens are read back, one line after the other. -/
theorem decode_join (tokens : List Token) (genuine : ∀ t ∈ tokens, t.Genuine)
    (nonempty : tokens ≠ []) :
    decode (Text.join ['\n'] (tokens.map Token.render)) = some (tokens.map Token.shown) := by
  induction tokens with
  | nil => exact absurd rfl nonempty
  | cons t tokens ih =>
    obtain ⟨first, others⟩ := List.forall_mem_cons.1 genuine
    cases tokens with
    | nil =>
      have read := read?_render first []
      rw [List.append_nil] at read
      simpa [Text.join, List.intercalate] using decode_last read
    | cons u tokens =>
      have text : Text.join ['\n'] ((t :: u :: tokens).map Token.render) =
          t.render ++ '\n' :: Text.join ['\n'] ((u :: tokens).map Token.render) := by
        simp [Text.join, List.intercalate]
      rw [text, decode_next (read?_render first _), ih others (List.cons_ne_nil u tokens)]
      rfl

end Printout

namespace Session

/-- The lines that are echoed for the tokens of a source, without their line ends. -/
def echoes (r : Reporter) (source : Text) : List Text :=
  ((runSource r source).2.filterMap Event.output?).map List.dropLast

/-- The echoed lines as one text. -/
def printout (r : Reporter) (source : Text) : Text :=
  Text.join ['\n'] (echoes r source)

theorem echoes_eq (r : Reporter) (source : Text) :
    echoes r source = (Cursor.atStart source).scan.2.tokens.map Token.render := by
  rw [echoes, runSource, outputs_scanEvents, List.map_map]
  apply List.map_congr_left
  intro t _
  exact List.dropLast_concat

theorem decode_printout (r : Reporter) (source : Text) :
    Printout.decode (printout r source) =
      some ((Cursor.atStart source).scan.2.tokens.map Token.shown) := by
  rw [printout, echoes_eq, Cursor.tokens_atStart]
  apply Printout.decode_join
  · exact Scan.genuine_fromLine 1 source
  · simp [Scan.ofSource, Scan.fromLine]

/-- The kinds, lexemes and literals of the tokens of every source are decoded from its printout.
Sources that are printed alike have them in common, one by one. -/
theorem printout_decodes :
    (∀ r source, Printout.decode (printout r source) =
      some ((Cursor.atStart source).scan.2.tokens.map Token.shown)) ∧
    ∀ r r' source source', printout r source = printout r' source' →
      (Cursor.atStart source).scan.2.tokens.map Token.shown =
        (Cursor.atStart source').scan.2.tokens.map Token.shown := by
  refine ⟨decode_printout, ?_⟩
  intro r r' source source' same
  apply Option.some.inj
  rw [← decode_printout r, ← decode_printout r', same]

/-- A string whose text looks like the last line of a printout. -/
def disguised : Text := "\"\nEND  None\"".toList

theorem printout_decodes_disguised :
    printout (.fresh 0 true) (disguised ++ " // x".toList) =
      printout (.fresh 9 false) ('\t' :: disguised) ∧
    (Cursor.atStart (disguised ++ " // x".toList)).scan.2.tokens.map Token.shown =
      (Cursor.atStart ('\t' :: disguised)).scan.2.tokens.map Token.shown := by
  have same : printout (.fresh 0 true) (disguised ++ " // x".toList) =
      printout (.fresh 9 false) ('\t' :: disguised) := by
    decide +kernel
  exact ⟨same, printout_decodes.2 _ _ _ _ same⟩

end Session

end BearLex
