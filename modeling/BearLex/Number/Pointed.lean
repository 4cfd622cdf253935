import BearLex.Number.Reading
import BearLex.Text.Lemmas

/-! Decimals made of ASCII digits, or of digits, a point and digits, are read digit for digit:
nothing in them is trimmed, replaced or left out. -/

namespace BearLex.Reading

/-- An ASCII digit or a point. -/
def isDecimalMark (c : Char) : Bool :=
  c.isDigit || c == '.'

/-- What holds of the ten digits holds of every character that is a digit. -/
theorem forall_isDigit {P : Char → Prop} (h : ∀ n < 10, P (Char.ofNat (48 + n))) {c : Char}
    (digit : c.isDigit = true) : P c := by
  have bounds : 48 ≤ c.toNat ∧ c.toNat ≤ 57 :=
    Char.isDigit_iff_toNat.1 digit
  have := h (c.toNat - 48) (by omega)
  rwa [Nat.add_sub_cancel' bounds.1, Char.ofNat_toNat] at this

theorem forall_isDecimalMark {P : Char → Prop} (h : ∀ n < 10, P (Char.ofNat (48 + n)))
    (point : P '.') {c : Char} (mark : isDecimalMark c = true) : P c := by
  simp only [isDecimalMark, Bool.or_eq_true, beq_iff_eq] at mark
  rcases mark with digit | rfl
  · exact forall_isDigit h digit
  · exact point

theorem joinDigits?_of_forall {s : Text} (h : ∀ c ∈ s, c ≠ '_') (afterDigit : Bool) :
    joinDigits? afterDigit s = some s := by
  induction s generalizing afterDigit with
  | nil => rfl
  | cons c rest ih =>
    rw [joinDigits?, if_neg (h c List.mem_cons_self),
      ih fun d hd => h d (List.mem_cons_of_mem c hd)]
    rfl

/-- A character that is read as it is. -/
def IsPlain (c : Char) : Prop :=
  isNumeralBlank c = false ∧ plainDigit c = c ∧ c ≠ '_'

instance (c : Char) : Decidable (IsPlain c) :=
  inferInstanceAs (Decidable (_ ∧ _ ∧ _))

theorem isPlain_of_isDecimalMark {c : Char} : isDecimalMark c = true → IsPlain c :=
  forall_isDecimalMark (P := IsPlain) (by decide) (by decide)

theorem plain?_of_forall {s : Text} (h : ∀ c ∈ s, IsPlain c) : plain? s = some s := by
  have same : s.map plainDigit = s :=
    (List.map_congr_left fun c hc => (h c hc).2.1).trans (List.map_id' s)
  rw [plain?, Text.trim_of_forall fun c hc => (h c hc).1, same,
    joinDigits?_of_forall fun c hc => (h c hc).2.2]

theorem splitSign_of_isDigit {c : Char} (digit : c.isDigit = true) (rest : Text) :
    splitSign (c :: rest) = (false, c :: rest) := by
  unfold splitSign
  split
  · cases ‹_ :: _ = _›; exact absurd digit (by decide)
  · cases ‹_ :: _ = _›; exact absurd digit (by decide)
  · rfl

/-- The text is at least one digit, and perhaps a point with at least one digit after it. -/
inductive Pointed : Text → Prop
  | whole {digits : Text} (nonempty : digits ≠ []) (h : ∀ c ∈ digits, c.isDigit = true) :
    Pointed digits
  | fraction {digits decimals : Text} (nonempty : digits ≠ [])
    (h : ∀ c ∈ digits, c.isDigit = true) (nonempty' : decimals ≠ [])
    (h' : ∀ c ∈ decimals, c.isDigit = true) : Pointed (digits ++ '.' :: decimals)

theorem filter_isDigit_append {s t : Text} (h : ∀ c ∈ s, c.isDigit = true)
    (h' : ∀ c ∈ t, c.isDigit = true) :
    (s ++ '.' :: t).filter Char.isDigit = s ++ t := by
  rw [List.filter_append, List.filter_cons_of_neg (by decide), List.filter_eq_self.2 h,
    List.filter_eq_self.2 h']

theorem decimal?_of_pointed {s : Text} (h : Pointed s) : decimal? s = some (pointed s) := by
  cases h with
  | whole nonempty h =>
    simp [decimal?, pointed, List.takeWhile_eq_self_iff.2 h, List.dropWhile_eq_nil_iff.2 h,
      nonempty, List.filter_eq_self.2 h, exponent?]
  | @fraction digits decimals nonempty h _ h' =>
    simp [decimal?, pointed, Text.takeWhile_append_cons h, Text.dropWhile_append_cons h,
      List.takeWhile_eq_self_iff.2 h', List.dropWhile_eq_nil_iff.2 h', nonempty,
      filter_isDigit_append h h', exponent?]

theorem Pointed.isDecimalMark {s : Text} (h : Pointed s) : ∀ c ∈ s, isDecimalMark c = true := by
  cases h with
  | whole _ h => exact fun c hc => by simp [Reading.isDecimalMark, h c hc]
  | fraction _ h _ h' =>
    intro c hc
    rcases List.mem_append.1 hc with hc | hc
    · simp [Reading.isDecimalMark, h c hc]
    · rcases List.mem_cons.1 hc with rfl | hc
      · decide
      · simp [Reading.isDecimalMark, h' c hc]

theorem Pointed.exists_cons {s : Text} (h : Pointed s) :
    ∃ c rest, s = c :: rest ∧ c.isDigit = true := by
  cases h with
  | whole nonempty h =>
    obtain ⟨c, rest, rfl⟩ := List.exists_cons_of_ne_nil nonempty
    exact ⟨c, rest, rfl, h c List.mem_cons_self⟩
  | fraction nonempty h =>
    obtain ⟨c, rest, rfl⟩ := List.exists_cons_of_ne_nil nonempty
    exact ⟨c, _, rfl, h c List.mem_cons_self⟩

theorem Pointed.isPlain {s : Text} (h : Pointed s) : ∀ c ∈ s, IsPlain c := fun c hc =>
  isPlain_of_isDecimalMark (h.isDecimalMark c hc)

/-- What starts with a digit is read as a decimal without sign. -/
theorem binary64?_of_isDigit {c : Char} {rest : Text} (digit : c.isDigit = true)
    (h : ∀ d ∈ c :: rest, IsPlain d) :
    binary64? (c :: rest) = (decimal? (c :: rest)).map (.signed false) := by
  have notLetter : c.toLower ≠ 'i' ∧ c.toLower ≠ 'n' :=
    forall_isDigit (P := fun c => c.toLower ≠ 'i' ∧ c.toLower ≠ 'n') (by decide) digit
  simp [binary64?, plain?_of_forall h, splitSign_of_isDigit digit, Text.lower, notLetter]

/-- A pointed decimal is read as its own digits. -/
theorem binary64?_of_pointed {s : Text} (h : Pointed s) :
    binary64? s = some (.signed false (pointed s)) := by
  obtain ⟨c, rest, rfl, digit⟩ := h.exists_cons
  rw [binary64?_of_isDigit digit h.isPlain, decimal?_of_pointed h]
  rfl

theorem isDigits_iff {s : Text} : isDigits s = true ↔ s ≠ [] ∧ ∀ c ∈ s, c.isDigit = true := by
  simp [isDigits]

/-! ### Exponents -/

/-- An exponent with its sign. -/
def exponent (negative : Bool) (shift : Text) : Text :=
  'e' :: (if negative then '-' else '+') :: shift

variable {shift : Text} (nonempty : shift ≠ []) (h : ∀ c ∈ shift, c.isDigit = true)
include nonempty h

theorem exponent?_exponent (negative : Bool) :
    exponent? (exponent negative shift) = some (signedValue negative shift) := by
  have all : isDigits shift = true := isDigits_iff.2 ⟨nonempty, h⟩
  cases negative <;> simp [exponent, exponent?, splitSign, all]

theorem decimal?_exponent {s : Text} (pointed : Pointed s) (negative : Bool) :
    decimal? (s ++ exponent negative shift) = some (magnitude (s.filter Char.isDigit)
      (signedValue negative shift - (s.dropWhile Char.isDigit).tail.length)) := by
  have read := exponent?_exponent nonempty h negative
  rw [exponent] at read
  cases pointed with
  | whole nonempty' h' =>
    simp [decimal?, exponent, Text.takeWhile_append_cons h' (c := 'e') (by decide),
      Text.dropWhile_append_cons h' (c := 'e') (by decide), nonempty', List.filter_eq_self.2 h',
      List.dropWhile_eq_nil_iff.2 h', read]
  | fraction nonempty' h' _ h'' =>
    simp [decimal?, exponent, Text.takeWhile_append_cons h' (c := '.') (by decide),
      Text.dropWhile_append_cons h' (c := '.') (by decide),
      Text.takeWhile_append_cons h'' (c := 'e') (by decide),
      Text.dropWhile_append_cons h'' (c := 'e') (by decide), nonempty',
      filter_isDigit_append h' h'', read]

/-- A decimal with an exponent is read as its digits, shifted as the exponent says. -/
theorem binary64?_exponent {s : Text} (pointed : Pointed s) (negative : Bool) :
    binary64? (s ++ exponent negative shift) = some (.signed false (magnitude
      (s.filter Char.isDigit)
      (signedValue negative shift - (s.dropWhile Char.isDigit).tail.length))) := by
  have plain : ∀ c ∈ s ++ exponent negative shift, IsPlain c := by
    intro c mem
    rcases List.mem_append.1 mem with mem | mem
    · exact pointed.isPlain c mem
    simp only [exponent, List.mem_cons] at mem
    rcases mem with rfl | rfl | mem
    · decide
    · cases negative <;> decide
    · exact forall_isDigit (P := IsPlain) (by decide) (h c mem)
  have read := decimal?_exponent nonempty h pointed negative
  obtain ⟨c, rest, rfl, digit⟩ := pointed.exists_cons
  rw [List.cons_append] at plain read ⊢
  rw [binary64?_of_isDigit digit plain, read]
  rfl

end BearLex.Reading
