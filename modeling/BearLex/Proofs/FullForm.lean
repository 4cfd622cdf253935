import BearLex.Proofs.PrintedNumbers
import BearLex.Text.Quoted.Lemmas
import Mathlib.Data.List.Basic

/-! The full form of a token is read back, so tokens are written alike only if they are the same.
Its texts are quoted and say themselves where they end; a number has no comma in it, and neither a
quoted text nor a number starts as the line does, which tells whether there is a literal. -/

namespace BearLex

open Magnitude

/-! ### Numbers with their sign -/

theorem Prints.cases_form {m : Magnitude} {s : Text} (h : Prints m s) :
    s = "inf".toList ∨ (∃ q, Fixed s q) ∨ ∃ q, Exponential s q := by
  by_cases infinite : m = infinity
  · exact .inl (h.infinite.2 infinite)
  by_cases inside : m = zero ∨ 1 / 10 ^ 4 ≤ m.value ∧ m.value < 10 ^ 16
  · obtain ⟨q, fixed, -⟩ := h.fixed inside
    exact .inr (.inl ⟨q, fixed⟩)
  · obtain ⟨positive, outside⟩ := not_or.1 inside
    rw [not_and_or, not_le, not_lt] at outside
    obtain ⟨q, exponential, -⟩ := h.exponential positive infinite outside
    exact .inr (.inr ⟨q, exponential⟩)

/-- A character that numbers are written with. -/
def isNumberMark (c : Char) : Bool :=
  c.isDigit || "+-.aefin".toList.contains c

theorem forall_isNumberMark {P : Char → Prop} [DecidablePred P]
    (digits : ∀ n < 10, P (Char.ofNat (48 + n)))
    (others : "+-.aefin".toList.all (fun c => decide (P c)) = true) {c : Char}
    (h : isNumberMark c = true) : P c := by
  simp only [isNumberMark, Bool.or_eq_true, List.contains_iff_mem] at h
  rcases h with digit | other
  · exact Reading.forall_isDigit digits digit
  · exact of_decide_eq_true (List.all_eq_true.1 others c other)

theorem isNumberMark_of_isDigit {c : Char} (h : c.isDigit = true) : isNumberMark c = true := by
  simp [isNumberMark, h]

theorem Reading.Pointed.isNumberMark {s : Text} (h : Pointed s) :
    ∀ c ∈ s, isNumberMark c = true := fun c mem =>
  forall_isDecimalMark (P := fun c => BearLex.isNumberMark c = true) (by decide) (by decide)
    (h.isDecimalMark c mem)

theorem Fixed.pointed {s : Text} {q : ℚ} (h : Fixed s q) : Reading.Pointed s := by
  obtain ⟨nonempty, h, nonempty', h'⟩ := h
  exact .fraction nonempty h nonempty' h'

theorem Exponential.isNumberMark {s : Text} {q : ℚ} (h : Exponential s q) :
    ∀ c ∈ s, isNumberMark c = true := by
  obtain ⟨pointed, negative, -, digits⟩ := h
  intro c mem
  simp only [Reading.exponent, List.mem_append, List.mem_cons] at mem
  rcases mem with front | rfl | rfl | digit
  · exact pointed.isNumberMark c front
  · decide
  · cases negative <;> decide
  · exact isNumberMark_of_isDigit (digits c digit)

namespace Reading

theorem Pointed.splitSign_append {s : Text} (h : Pointed s) (t : Text) :
    splitSign (s ++ t) = (false, s ++ t) := by
  obtain ⟨c, rest, rfl, digit⟩ := h.exists_cons
  exact splitSign_of_isDigit digit _

theorem isPlain_of_isNumberMark {c : Char} : isNumberMark c = true → IsPlain c :=
  forall_isNumberMark (P := IsPlain) (by decide) (by decide)

/-- A minus sign in front of an unsigned number changes its sign. -/
theorem binary64?_minus {s : Text} {m : Magnitude} (plain : ∀ c ∈ s, IsPlain c)
    (unsigned : splitSign s = (false, s)) (h : binary64? s = some (.signed false m)) :
    binary64? ('-' :: s) = some (.signed true m) := by
  have plain' : ∀ c ∈ '-' :: s, IsPlain c := List.forall_mem_cons.2 ⟨by decide, plain⟩
  have sign : splitSign ('-' :: s) = (true, s) := rfl
  simp only [binary64?, plain?_of_forall plain, unsigned] at h
  simp only [binary64?, plain?_of_forall plain', sign]
  split at h
  case isTrue infinite =>
    rw [if_pos infinite]
    simp_all
  case isFalse finite =>
    rw [if_neg finite]
    split at h
    case isTrue => cases h
    case isFalse number =>
      rw [if_neg number]
      obtain ⟨m', read, e⟩ := Option.map_eq_some_iff.1 h
      rw [read]
      simp_all

end Reading

namespace Prints

variable {m : Magnitude} {s : Text}

theorem isNumberMark (h : Prints m s) : ∀ c ∈ s, isNumberMark c = true := by
  rcases h.cases_form with rfl | ⟨q, fixed⟩ | ⟨q, exponential⟩
  · exact List.all_eq_true.1 (by decide)
  · exact fixed.pointed.isNumberMark
  · exact exponential.isNumberMark

theorem unsigned (h : Prints m s) : Reading.splitSign s = (false, s) := by
  rcases h.cases_form with rfl | ⟨q, fixed⟩ | ⟨q, ⟨pointed, negative, -, -⟩⟩
  · rfl
  · have := fixed.pointed.splitSign_append []
    rwa [List.append_nil] at this
  · exact pointed.splitSign_append _

end Prints

namespace Binary64

/-- Every number is read back as it is written, the sign of a zero included. -/
theorem binary64?_render (x : Binary64) : Reading.binary64? x.render = some x := by
  cases x with
  | notANumber => rfl
  | signed negative m =>
    have prints := prints_renderMagnitude m
    cases negative with
    | false => exact prints.reads
    | true =>
      exact Reading.binary64?_minus
        (fun c mem => Reading.isPlain_of_isNumberMark (prints.isNumberMark c mem))
        prints.unsigned prints.reads

theorem isNumberMark_render (x : Binary64) : ∀ c ∈ x.render, isNumberMark c = true := by
  cases x with
  | notANumber => exact List.all_eq_true.1 (by decide)
  | signed negative m =>
    have marks := (prints_renderMagnitude m).isNumberMark
    cases negative with
    | false => exact marks
    | true => exact List.forall_mem_cons.2 ⟨by decide, marks⟩

theorem exists_render_cons (x : Binary64) :
    ∃ c rest, x.render = c :: rest ∧ isNumberMark c = true := by
  have nonempty : x.render ≠ [] := by
    intro empty
    have read := x.binary64?_render
    rw [empty] at read
    exact absurd read nofun
  obtain ⟨c, rest, e⟩ := List.exists_cons_of_ne_nil nonempty
  exact ⟨c, rest, e, x.isNumberMark_render c (e ▸ List.mem_cons_self)⟩

end Binary64

/-! ### Literals and tokens read back -/

/-- The literal at the front of a text, with the comma behind it, and what follows. There is none
where the line comes at once. -/
def Literal.read? (s : Text) : Option (Literal × Text) :=
  if "line ".toList.isPrefixOf s then some (absent, s)
  else
    match Quoted.decode s with
    | some (t, behind) => (", ".toList.isPrefixOf? behind).map (text t, ·)
    | none =>
      match Reading.binary64? (s.takeWhile (· != ',')) with
      | some x => (", ".toList.isPrefixOf? (s.dropWhile (· != ','))).map (number x, ·)
      | none => none

/-- The token that a text is the full form of. -/
def Token.read? (s : Text) : Option Token := do
  let inside ← "Token(".toList.isPrefixOf? s
  let kind ← Kind.ofName? (inside.takeWhile (· != ','))
  let behindKind ← ", ".toList.isPrefixOf? (inside.dropWhile (· != ','))
  let (lexeme, behindLexeme) ← Quoted.decode behindKind
  let atLiteral ← ", ".toList.isPrefixOf? behindLexeme
  let (literal, behindLiteral) ← Literal.read? atLiteral
  let atLine ← "line ".toList.isPrefixOf? behindLiteral
  let (line, closing) := Numeral.splitInt atLine
  if closing = ")".toList then some ⟨kind, lexeme, literal, line⟩ else none

/-- A part without a comma ends at the comma behind it. -/
theorem Text.split_comma {s : Text} (inside : ∀ c ∈ s, (c != ',') = true) (rest : Text) :
    (s ++ (", ".toList ++ rest)).takeWhile (· != ',') = s ∧
      (s ++ (", ".toList ++ rest)).dropWhile (· != ',') = ", ".toList ++ rest := by
  have comma : ", ".toList ++ rest = ',' :: (' ' :: rest) := rfl
  rw [comma]
  exact ⟨Text.takeWhile_append_cons inside (by decide) _,
    Text.dropWhile_append_cons inside (by decide) _⟩

theorem Kind.comma_not_mem_name (k : Kind) : ',' ∉ k.name := by
  cases k with
  | symbol s => cases s <;> decide
  | keyword k => cases k <;> decide
  | _ => decide

namespace Literal

theorem line_isPrefixOf_cons {c : Char} (h : c ≠ 'l') (rest : Text) :
    ¬ "line ".toList.isPrefixOf (c :: rest) = true := by
  have first : ('l' == c) = false := beq_eq_false_iff_ne.2 h.symm
  show ¬ ('l' == c && _) = true
  simp [first]

theorem read?_text (t rest : Text) :
    read? (Quoted.encode t ++ (", ".toList ++ rest)) = some (text t, rest) := by
  have mark : Quoted.markOf t ≠ 'l' := by
    rcases Quoted.markOf_eq t with e | e <;> rw [e] <;> decide
  have line : ¬ "line ".toList.isPrefixOf (Quoted.encode t ++ (", ".toList ++ rest)) = true :=
    line_isPrefixOf_cons mark _
  rw [read?, if_neg line, Quoted.decode_encode]
  simp only [List.isPrefixOf?_eq_some_iff_append_eq.2 rfl, Option.map_some]

theorem read?_number (x : Binary64) (rest : Text) :
    read? (x.render ++ (", ".toList ++ rest)) = some (number x, rest) := by
  obtain ⟨c, others, e, mark⟩ := x.exists_render_cons
  have first : c ≠ 'l' ∧ ¬ (c = '\'' ∨ c = '"') :=
    forall_isNumberMark (P := fun c => c ≠ 'l' ∧ ¬ (c = '\'' ∨ c = '"')) (by decide) (by decide)
      mark
  have inside : ∀ d ∈ x.render, (d != ',') = true := fun d mem =>
    forall_isNumberMark (P := fun d => (d != ',') = true) (by decide) (by decide)
      (x.isNumberMark_render d mem)
  have unquoted : Quoted.decode (x.render ++ (", ".toList ++ rest)) = none := by
    rw [e]
    exact if_neg first.2
  have line : ¬ "line ".toList.isPrefixOf (x.render ++ (", ".toList ++ rest)) = true := by
    rw [e]
    exact line_isPrefixOf_cons first.1 _
  obtain ⟨before, behind⟩ := Text.split_comma inside rest
  rw [read?, if_neg line, unquoted]
  simp only [before, behind, x.binary64?_render, List.isPrefixOf?_eq_some_iff_append_eq.2 rfl,
    Option.map_some]

/-- A literal is read back in front of the line, and so is none. -/
theorem read?_quoted (l : Literal) (rest : Text) :
    read? (l.quoted ++ ("line ".toList ++ rest)) = some (l, "line ".toList ++ rest) := by
  cases l with
  | absent =>
    have line : "line ".toList.isPrefixOf ("line ".toList ++ rest) = true :=
      List.isPrefixOf_iff_prefix.2 (List.prefix_append _ rest)
    rw [quoted, List.nil_append, read?, if_pos line]
  | number x =>
    rw [quoted, List.append_assoc]
    exact read?_number x _
  | text t =>
    rw [quoted, List.append_assoc]
    exact read?_text t _

end Literal

/-- A token is read back from its full form, whatever texts, number and line are in it. -/
theorem Token.read?_describe (t : Token) : read? t.describe = some t := by
  have pieces : t.describe = "Token(".toList ++ (t.kind.name ++ (", ".toList
      ++ (Quoted.encode t.lexeme ++ (", ".toList ++ (t.literal.quoted ++ ("line ".toList
        ++ (Numeral.ofInt t.line ++ ")".toList))))))) := by
    unfold describe
    simp only [List.append_assoc]
  have line : Numeral.splitInt (Numeral.ofInt t.line ++ ")".toList) = (t.line, ")".toList) :=
    Numeral.splitInt_ofInt t.line (by decide) []
  rw [read?, pieces]
  obtain ⟨before, behind⟩ := Text.split_comma (Printout.bne_of_not_mem t.kind.comma_not_mem_name)
    (Quoted.encode t.lexeme ++ (", ".toList ++ (t.literal.quoted ++ ("line ".toList
        ++ (Numeral.ofInt t.line ++ ")".toList)))))
  simp only [List.isPrefixOf?_eq_some_iff_append_eq.2 rfl, Option.bind_eq_bind, Option.bind_some,
    before, behind, Kind.ofName?_name, Quoted.decode_encode, Literal.read?_quoted, line, if_true]

/-- The text of a string may look like the end of a full form. -/
example : Token.read? "Token(STRING, '\", line 7)\"', ', line 7)', line 1)".toList =
    some ⟨.string, "\", line 7)\"".toList, .text ", line 7)".toList, 1⟩ := by
  decide +kernel

/-- Tokens have the same full form only if they are the same: their kinds, lexemes and lines are
equal, and their literals are both absent, the same text or the same number. -/
theorem full_form_decodes (t t' : Token) :
    Token.read? t.describe = some t ∧
    (t.describe = t'.describe ↔
      t.kind = t'.kind ∧ t.lexeme = t'.lexeme ∧ t.literal = t'.literal ∧ t.line = t'.line) := by
  refine ⟨t.read?_describe, fun same => ?_, ?_⟩
  · have e : t = t' := by
      apply Option.some.inj
      rw [← t.read?_describe, ← t'.read?_describe, same]
    rw [e]
    exact ⟨rfl, rfl, rfl, rfl⟩
  · rintro ⟨kind, lexeme, literal, line⟩
    unfold Token.describe
    rw [kind, lexeme, literal, line]

end BearLex
