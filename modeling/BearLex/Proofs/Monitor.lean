import BearLex.Proofs.Heads
import BearLex.Proofs.Transcript

/-! A machine of four states that reads a source one character at a time and finds the same
problems, on the same lines and in the same order, as a scan that reads whole segments. -/

namespace BearLex

/-- What has been read: code, code that ends with a slash, or the start of a comment or string. -/
inductive Phase
  | code
  | slash
  | comment
  | string
  deriving DecidableEq

namespace Phase

def ofCode (c : Char) : Phase :=
  if c = '/' then slash else if c = '"' then string else code

/-- The phase after one more character. -/
def next : Phase → Char → Phase
  | code, c => ofCode c
  | slash, c => if c = '/' then comment else ofCode c
  | comment, c => if c = '\n' then code else comment
  | string, c => if c = '"' then code else string

/-- The character is a problem in the phase. -/
def refuses : Phase → Char → Bool
  | code, c | slash, c => isForeign c
  | comment, _ | string, _ => false

def after (phase : Phase) (s : Text) : Phase :=
  s.foldl next phase

/-- The problems in a text that is read from `phase` and `line` on. -/
def watch (phase : Phase) (line : Nat) : Text → List Finding
  | [] => if phase = string then [⟨line, .unterminatedString⟩] else []
  | c :: rest =>
    (if phase.refuses c then [⟨line, .unexpected c⟩] else []) ++
      watch (phase.next c) (if c = '\n' then line + 1 else line) rest

/-- The problem with the character at `offset` of a text that is read from `phase` and `line`
on. -/
def problemAt (phase : Phase) (line : Nat) (source : Text) (offset : Nat) : Option Finding :=
  match source[offset]? with
  | some c =>
    if (phase.after (source.take offset)).refuses c then
      some ⟨line + Lines.count (source.take offset), .unexpected c⟩
    else none
  | none => none

variable {phase : Phase} {line : Nat} {rest : Text}

theorem line_cons (c : Char) (s : Text) (line : Nat) :
    (if c = '\n' then line + 1 else line) + Lines.count s = line + Lines.count (c :: s) := by
  by_cases h : c = '\n'
  · subst h
    rw [if_pos rfl, Lines.count, Lines.count, List.count_cons_self]
    omega
  · rw [if_neg h, Lines.count, Lines.count, List.count_cons_of_ne h]

/-- Characters that leave the phase as it is and are no problem in it are passed over. -/
theorem watch_append {s : Text} (keeps : ∀ c ∈ s, phase.next c = phase ∧ phase.refuses c = false) :
    watch phase line (s ++ rest) = watch phase (line + Lines.count s) rest := by
  induction s generalizing line with
  | nil => rfl
  | cons c s ih =>
    obtain ⟨same, quiet⟩ := keeps c List.mem_cons_self
    rw [List.cons_append, watch, same, quiet, ih fun d hd => keeps d (List.mem_cons_of_mem c hd),
      line_cons]
    rfl

/-- Behind a slash that starts no comment, the slash makes no difference. -/
theorem watch_slash (h : rest.head? ≠ some '/') : watch slash line rest = watch code line rest := by
  cases rest with
  | nil => rfl
  | cons c rest =>
    have other : c ≠ '/' := fun e => h (congrArg some e)
    have same : next slash c = next code c := if_neg other
    rw [watch, watch, same]
    rfl

/-- At the end of a line, a comment makes no difference. -/
theorem watch_comment (h : commentRest rest = []) :
    watch comment line rest = watch code line rest := by
  cases rest with
  | nil => rfl
  | cons c rest =>
    by_cases newline : c = '\n'
    · subst newline
      rfl
    · have : (c :: rest).takeWhile (· != '\n') ≠ [] := by simp [newline]
      exact absurd h this

/-! ### The characters of a segment -/

theorem quiet_of_isCode {c : Char} (h : isCode c = true) :
    next code c = code ∧ refuses code c = false := by
  have notSlash : c ≠ '/' := by
    rintro rfl
    exact absurd h (by decide)
  have notQuote : c ≠ '"' := by
    rintro rfl
    exact absurd h (by decide)
  constructor
  · rw [next, ofCode, if_neg notSlash, if_neg notQuote]
  · rw [refuses, isForeign, h]
    rfl

theorem next_of_isForeign {c : Char} (h : isForeign c = true) : next code c = code := by
  rw [next, ofCode, if_neg (ne_of_isForeign h (by decide)), if_neg (ne_of_isForeign h (by decide))]

theorem quiet_string {body : Text} (h : '"' ∉ body) :
    ∀ c ∈ body, next string c = string ∧ refuses string c = false := by
  intro c hc
  have : c ≠ '"' := fun e => h (e ▸ hc)
  exact ⟨if_neg this, rfl⟩

theorem quiet_comment {rest : Text} (h : '\n' ∉ rest) :
    ∀ c ∈ rest, next comment c = comment ∧ refuses comment c = false := by
  intro c hc
  have : c ≠ '\n' := fun e => h (e ▸ hc)
  exact ⟨if_neg this, rfl⟩

theorem watch_isCode {s : Text} (h : ∀ c ∈ s, isCode c = true) :
    watch code line (s ++ rest) = watch code (line + Lines.count s) rest :=
  watch_append fun c hc => quiet_of_isCode (h c hc)

theorem isCode_of_isIdentifierRest {c : Char} (h : isIdentifierRest c = true) :
    isCode c = true := by
  simp only [isIdentifierRest, Bool.or_eq_true, beq_iff_eq] at h
  rcases h with (alpha | rfl) | digit
  · simp [isCode, alpha]
  · decide
  · simp [isCode, digit]

theorem isCode_word {word : Text} (h : IsWord word) : ∀ c ∈ word, isCode c = true := by
  obtain ⟨start, inside⟩ := h
  intro c hc
  refine isCode_of_isIdentifierRest ?_
  rcases List.mem_cons.1 hc with rfl | hc
  · rw [isIdentifierRest, ← isIdentifierStart, start, Bool.true_or]
  · exact inside c hc

theorem isCode_number {text : Text} (h : Reading.Pointed text) : ∀ c ∈ text, isCode c = true := by
  intro c hc
  have mark := h.isDecimalMark c hc
  simp only [Reading.isDecimalMark, Bool.or_eq_true, beq_iff_eq] at mark
  rcases mark with digit | rfl
  · simp [isCode, digit]
  · decide

theorem isCode_spelling {s : Symbol} (h : s ≠ .slash) : ∀ c ∈ s.spelling, isCode c = true := by
  apply List.all_eq_true.1
  revert h
  cases s <;> decide

theorem watch_openString {body : Text} (h : '"' ∉ body) :
    watch code line ('"' :: body) = [⟨line + Lines.count body, .unterminatedString⟩] := by
  have read : watch string line (body ++ []) = watch string (line + Lines.count body) [] :=
    watch_append (quiet_string h)
  rw [List.append_nil] at read
  exact read

/-- No text of the grammar is a problem, and behind one the machine goes on as if the text began
there, provided that what follows does not make it longer. -/
theorem watch_lexical {form : Form} {text : Text} (h : Lexical form text)
    (ends : form.Ends text rest) :
    watch code line (text ++ rest) = watch code (line + Lines.count text) rest := by
  -- Only a comment and a lone slash depend on what follows: they end in a phase other than code.
  cases h with
  | blank h =>
    obtain rfl | rfl | rfl := h <;> rfl
  | newline => rfl
  | @comment body h =>
    have none : commentRest rest = [] := ends
    have slashes : Lines.count ('/' :: '/' :: body) = Lines.count body := by simp [Lines.count]
    show watch comment line (body ++ rest) = _
    rw [watch_append (quiet_comment h), watch_comment none, slashes]
  | lexeme h =>
    cases h with
    | symbol s =>
      by_cases slash : s = .slash
      · subst slash
        have grown : Symbol.slash.grownBy ≠ none := by decide
        have other : rest.head? ≠ some '/' := ends.resolve_left grown
        exact watch_slash other
      · exact watch_isCode (isCode_spelling slash)
    | number h => exact watch_isCode (isCode_number h)
    | @string body h =>
      have marks : Lines.count ('"' :: body ++ ['"']) = Lines.count body := by simp [Lines.count]
      rw [List.append_assoc]
      show watch string line (body ++ '"' :: rest) = _
      rw [watch_append (quiet_string h), marks]
      rfl
    | keyword k => exact watch_isCode (isCode_word k.isWord_word)
    | identifier h => exact watch_isCode (isCode_word h)

/-- Over the first segment of a text, the machine finds what the segment holds, and goes on as if
the text began behind it. -/
theorem watch_first (c : Char) (ahead : Text) (line : Nat) :
    watch code line (c :: ahead) =
      ((Segment.first c ahead).finding? line).toList ++
        watch code (line + Lines.count (Segment.first c ahead).text)
          (ahead.drop (Segment.extent c ahead).2) := by
  have split := Segment.text_first_append c ahead
  rcases Segment.first_cases c ahead with lexical | ⟨rfl, unclosed, e⟩ | ⟨foreign, e⟩
  · have passed : watch code line (_ ++ _) = _ :=
      watch_lexical lexical (Segment.first_ends c ahead)
    rw [split] at passed
    rw [Segment.finding?_of_lexical lexical, passed]
    rfl
  · rw [e] at split ⊢
    have all : ahead.drop (Segment.extent '"' ahead).2 = [] := by simpa using split
    rw [all, watch_openString unclosed]
    simp [Segment.finding?, watch, Lines.count]
  · rw [e] at split ⊢
    have rest : ahead.drop (Segment.extent c ahead).2 = ahead := by simpa using split
    have inLine : c ≠ '\n' := ne_of_isForeign foreign (by decide)
    rw [rest, watch, next_of_isForeign foreign, refuses, if_pos foreign, if_neg inLine]
    simp [Segment.finding?, Lines.count_singleton inLine]

theorem findings_fromLine (line : Nat) (source : Text) :
    (Scan.fromLine line source).findings = watch code line source := by
  induction source using Segment.induction_rest generalizing line with
  | nil => rw [Scan.fromLine_nil]; rfl
  | cons c ahead ih =>
    rw [Scan.fromLine_cons, watch_first, ← ih]

/-! ### Findings by their place -/

theorem problemAt_zero (phase : Phase) (line : Nat) (c : Char) (rest : Text) :
    problemAt phase line (c :: rest) 0 =
      if phase.refuses c then some ⟨line, .unexpected c⟩ else none :=
  rfl

theorem problemAt_succ (phase : Phase) (line : Nat) (c : Char) (rest : Text) (offset : Nat) :
    problemAt phase line (c :: rest) (offset + 1) =
      problemAt (phase.next c) (if c = '\n' then line + 1 else line) rest offset := by
  simp only [problemAt, List.getElem?_cons_succ, List.take_succ_cons, line_cons]
  rfl

/-- The machine finds the problem of each character that has one, once and in order, and at last an
unterminated string if it ends in one. -/
theorem watch_eq (phase : Phase) (line : Nat) (source : Text) :
    watch phase line source =
      (List.range source.length).filterMap (problemAt phase line source) ++
        if phase.after source = string then [⟨line + Lines.count source, .unterminatedString⟩]
        else [] := by
  induction source generalizing phase line with
  | nil => rfl
  | cons c rest ih =>
    have shift : (problemAt phase line (c :: rest)) ∘ Nat.succ =
        problemAt (phase.next c) (if c = '\n' then line + 1 else line) rest :=
      funext (problemAt_succ phase line c rest)
    rw [watch, ih, line_cons, List.length_cons, List.range_succ_eq_map, List.filterMap_cons,
      List.filterMap_map, shift, problemAt_zero]
    by_cases refused : phase.refuses c = true
    · rw [if_pos refused, if_pos refused]
      rfl
    · rw [if_neg refused, if_neg refused]
      rfl

end Phase

/-- A scan reports, in order, what the machine of four states finds when it reads the source one
character at a time: every problem once, none within a comment or a string, and at most one
unterminated string, which comes last. -/
theorem scan_monitored (source : Text) :
    (Cursor.atStart source).scan.1 = none ∧
    (Cursor.atStart source).scan.2.reported =
      (Phase.watch .code 1 source).map Finding.entry ∧
    Phase.watch .code 1 source =
      (List.range source.length).filterMap (Phase.problemAt .code 1 source) ++
        if Phase.after .code source = .string then
          [⟨1 + Lines.count source, .unterminatedString⟩]
        else [] := by
  obtain ⟨ok, done⟩ := Cursor.scan_atStart source
  refine ⟨ok, ?_, Phase.watch_eq .code 1 source⟩
  rw [done.reported, Scan.ofSource, Phase.findings_fromLine]
  rfl

end BearLex
