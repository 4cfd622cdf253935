import BearLex.Number.Pointed
import BearLex.Text.Numeral.Lemmas
import Mathlib.Data.Nat.Digits.Defs

/-! Integers as texts: a sign or none, and digits of any script with single underscores between
them. `integer?` reads the texts of this form whose digits are not too many, with white space around
them, and no other text. -/

namespace BearLex.Reading

/-- A text of digits, with at most one underscore between two of them, and the values of its
digits. -/
inductive Grouped : Text → List ℕ → Prop
  | last {c : Char} {d : ℕ} (digit : IsDigitOf c d) : Grouped [c] [d]
  | next {c : Char} {d : ℕ} {s : Text} {ds : List ℕ} (digit : IsDigitOf c d)
    (rest : Grouped s ds) : Grouped (c :: s) (d :: ds)
  | apart {c : Char} {d : ℕ} {s : Text} {ds : List ℕ} (digit : IsDigitOf c d)
    (rest : Grouped s ds) : Grouped (c :: '_' :: s) (d :: ds)

/-- The number of some digits in decimal, the first of them the most significant one. -/
def decimal (ds : List ℕ) : ℕ :=
  Nat.ofDigits 10 ds.reverse

/-- A text that is an integer in decimal with at most `limit` digits, and that integer. -/
inductive Denotes (limit : ℕ) : Text → ℤ → Prop
  | unsigned {s : Text} {ds : List ℕ} (digits : Grouped s ds) (fits : ds.length ≤ limit) :
    Denotes limit s (decimal ds)
  | plus {s : Text} {ds : List ℕ} (digits : Grouped s ds) (fits : ds.length ≤ limit) :
    Denotes limit ('+' :: s) (decimal ds)
  | minus {s : Text} {ds : List ℕ} (digits : Grouped s ds) (fits : ds.length ≤ limit) :
    Denotes limit ('-' :: s) (-decimal ds)

/-! ### Digits without their underscores -/

theorem underscore_ne_of_isDigit {c : Char} (digit : c.isDigit = true) : c ≠ '_' :=
  forall_isDigit (P := (· ≠ '_')) (by decide) digit

theorem joinDigits?_digit {c : Char} (digit : c.isDigit = true) (afterDigit : Bool) (s : Text) :
    joinDigits? afterDigit (c :: s) = (joinDigits? true s).map (c :: ·) := by
  rw [joinDigits?, if_neg (underscore_ne_of_isDigit digit), digit]

theorem joinDigits?_underscore {c : Char} (digit : c.isDigit = true) (s : Text) :
    joinDigits? true ('_' :: c :: s) = joinDigits? false (c :: s) := by
  rw [joinDigits?, if_pos rfl]
  simp [digit]

namespace Grouped

variable {s : Text} {ds : List ℕ}

theorem lt_ten (h : Grouped s ds) : ∀ d ∈ ds, d < 10 := by
  induction h with
  | last digit => simpa using digit.1
  | next digit _ ih | apart digit _ ih => simpa using ⟨digit.1, ih⟩

theorem ne_nil (h : Grouped s ds) : ds ≠ [] := by
  cases h <;> exact List.cons_ne_nil _ _

theorem exists_cons (h : Grouped s ds) : ∃ c d rest, s = c :: rest ∧ IsDigitOf c d := by
  cases h with
  | last digit | next digit _ | apart digit _ => exact ⟨_, _, _, rfl, digit⟩

/-- Grouped digits become their ASCII digits, whether a digit comes before them or not. -/
theorem joinDigits?_eq (h : Grouped s ds) (afterDigit : Bool) :
    Reading.joinDigits? afterDigit (s.map plainDigit) = some (ds.map asciiDigit) := by
  induction h generalizing afterDigit with
  | last digit =>
    rw [List.map_singleton, plainDigit_of_isDigitOf digit,
      joinDigits?_digit (isDigit_asciiDigit digit.1)]
    rfl
  | next digit _ ih =>
    rw [List.map_cons, plainDigit_of_isDigitOf digit,
      joinDigits?_digit (isDigit_asciiDigit digit.1), ih]
    rfl
  | apart digit rest ih =>
    obtain ⟨c', d', s', rfl, digit'⟩ := rest.exists_cons
    have first : (plainDigit c').isDigit = true := isDigit_plainDigit_iff.2 ⟨d', digit'⟩
    rw [List.map_cons, plainDigit_of_isDigitOf digit,
      joinDigits?_digit (isDigit_asciiDigit digit.1)]
    show (Reading.joinDigits? true ('_' :: plainDigit c' :: s'.map plainDigit)).map _ = _
    rw [joinDigits?_underscore first, ← List.map_cons, ih]
    rfl

end Grouped

/-- The first character of a text without its underscores: an underscore after a digit and in front
of another one is left out, and every other character stays. -/
theorem joinDigits?_cases {afterDigit : Bool} {c : Char} {s t : Text}
    (h : joinDigits? afterDigit (c :: s) = some t) :
    (c = '_' ∧ afterDigit = true ∧ (∃ d rest, s = d :: rest ∧ d.isDigit = true) ∧
      joinDigits? false s = some t) ∨
    (c ≠ '_' ∧ ∃ others, joinDigits? c.isDigit s = some others ∧ t = c :: others) := by
  rw [joinDigits?] at h
  split at h
  case isTrue mark =>
    split at h
    case isTrue between =>
      rw [Bool.and_eq_true] at between
      cases s with
      | nil => exact absurd between.2 (by decide)
      | cons d rest => exact .inl ⟨mark, between.1, ⟨d, rest, rfl, between.2⟩, h⟩
    case isFalse => cases h
  case isFalse other =>
    obtain ⟨others, joined, rfl⟩ := Option.map_eq_some_iff.1 h
    exact .inr ⟨other, others, joined, rfl⟩

/-- Of no text but the empty one nothing is left. -/
theorem eq_nil_of_joinDigits? {afterDigit : Bool} {s : Text}
    (h : joinDigits? afterDigit s = some []) : s = [] := by
  cases s with
  | nil => rfl
  | cons c rest =>
    obtain ⟨-, -, ⟨d, rest', rfl, digit⟩, joined⟩ | ⟨-, others, -, e⟩ := joinDigits?_cases h
    · obtain ⟨mark, -⟩ | ⟨-, others, -, e⟩ := joinDigits?_cases joined
      · exact absurd mark (underscore_ne_of_isDigit digit)
      · cases e
    · cases e

/-- Only grouped digits leave digits and nothing else. After a digit, an underscore may come
first. -/
theorem grouped_of_joinDigits? {s digits : Text} {afterDigit : Bool}
    (h : joinDigits? afterDigit (s.map plainDigit) = some digits) (nonempty : digits ≠ [])
    (all : ∀ c ∈ digits, c.isDigit = true) :
    ∃ ds, digits = ds.map asciiDigit ∧
      (Grouped s ds ∨ afterDigit = true ∧ ∃ rest, s = '_' :: rest ∧ Grouped rest ds) := by
  induction s generalizing afterDigit digits with
  | nil => exact absurd (Option.some.inj h).symm nonempty
  | cons c rest ih =>
    rw [List.map_cons] at h
    obtain ⟨mark, after, -, joined⟩ | ⟨-, others, joined, rfl⟩ := joinDigits?_cases h
    · obtain ⟨ds, e, grouped | ⟨no, -⟩⟩ := ih joined nonempty all
      · rw [plainDigit_eq_iff (by decide)] at mark
        exact ⟨ds, e, .inr ⟨after, rest, by rw [mark], grouped⟩⟩
      · cases no
    · obtain ⟨d, digit⟩ := isDigit_plainDigit_iff.1 (all _ List.mem_cons_self)
      have others_all : ∀ c ∈ others, c.isDigit = true := fun c mem =>
        all c (List.mem_cons_of_mem _ mem)
      by_cases last : others = []
      · have nothing : rest = [] := by
          rw [last] at joined
          exact List.map_eq_nil_iff.1 (eq_nil_of_joinDigits? joined)
        refine ⟨[d], ?_, .inl ?_⟩
        · rw [last, plainDigit_of_isDigitOf digit]
          rfl
        · rw [nothing]
          exact .last digit
      · obtain ⟨ds, e, more⟩ := ih joined last others_all
        refine ⟨d :: ds, by rw [e, plainDigit_of_isDigitOf digit, List.map_cons], .inl ?_⟩
        obtain grouped | ⟨-, rest', rfl, grouped⟩ := more
        · exact .next digit grouped
        · exact .apart digit grouped

/-- The digits of a text without its underscores, if there are no other characters and at most
`limit` digits. -/
def digits? (limit : ℕ) (s : Text) : Option Text :=
  (joinDigits? false (s.map plainDigit)).filter fun digits =>
    isDigits digits && decide (digits.length ≤ limit)

theorem digits?_eq_some_iff {limit : ℕ} {s t : Text} :
    digits? limit s = some t ↔
      ∃ ds, Grouped s ds ∧ ds.length ≤ limit ∧ t = ds.map asciiDigit := by
  rw [digits?, Option.filter_eq_some_iff, Bool.and_eq_true, isDigits_iff, decide_eq_true_eq]
  constructor
  · rintro ⟨joined, ⟨nonempty, all⟩, fits⟩
    obtain ⟨ds, rfl, grouped | ⟨no, -⟩⟩ := grouped_of_joinDigits? joined nonempty all
    · rw [List.length_map] at fits
      exact ⟨ds, grouped, fits, rfl⟩
    · cases no
  · rintro ⟨ds, grouped, fits, rfl⟩
    refine ⟨grouped.joinDigits?_eq false, ⟨?_, fun c mem => ?_⟩, by rwa [List.length_map]⟩
    · exact fun empty => grouped.ne_nil (List.map_eq_nil_iff.1 empty)
    · obtain ⟨d, digit, rfl⟩ := List.mem_map.1 mem
      exact isDigit_asciiDigit (grouped.lt_ten d digit)

theorem value_map_asciiDigit {ds : List ℕ} (h : ∀ d ∈ ds, d < 10) :
    Numeral.value (ds.map asciiDigit) = decimal ds := by
  induction ds with
  | nil => rfl
  | cons d ds ih =>
    have single : ∀ d < 10, Numeral.value [asciiDigit d] = d := by decide
    have small := h d List.mem_cons_self
    have rest := ih fun e mem => h e (List.mem_cons_of_mem d mem)
    calc
      Numeral.value ((d :: ds).map asciiDigit) =
          Numeral.value ([asciiDigit d] ++ ds.map asciiDigit) := rfl
      _ = d * 10 ^ ds.length + decimal ds := by
        rw [Numeral.value_append, single d small, rest, List.length_map]
      _ = decimal (d :: ds) := by
        rw [decimal, decimal, Nat.ofDigits_reverse_cons, Nat.mul_comm, Nat.add_comm]

/-! ### Signs -/

/-- The sign in front of a text, if there is one. -/
theorem splitSign_cases (s : Text) :
    (∃ rest, s = '+' :: rest) ∨ (∃ rest, s = '-' :: rest) ∨
      (splitSign s = (false, s) ∧ ∀ c, s.head? = some c → c ≠ '+' ∧ c ≠ '-') := by
  unfold splitSign
  split
  case h_1 rest => exact .inl ⟨rest, rfl⟩
  case h_2 rest => exact .inr (.inl ⟨rest, rfl⟩)
  case h_3 s plus minus =>
    refine .inr (.inr ⟨rfl, fun c first => ?_⟩)
    obtain ⟨rest, rfl⟩ := List.head?_eq_some_iff.1 first
    exact ⟨fun e => plus rest (by rw [e]), fun e => minus rest (by rw [e])⟩

theorem splitSign_cons {c : Char} (h : c ≠ '+' ∧ c ≠ '-') (rest : Text) :
    splitSign (c :: rest) = (false, c :: rest) := by
  obtain ⟨rest', e⟩ | ⟨rest', e⟩ | ⟨unsigned, -⟩ := splitSign_cases (c :: rest)
  · exact absurd (List.cons.inj e).1 h.1
  · exact absurd (List.cons.inj e).1 h.2
  · exact unsigned

theorem Grouped.splitSign_eq {s : Text} {ds : List ℕ} (h : Grouped s ds) :
    splitSign s = (false, s) := by
  obtain ⟨c, d, rest, rfl, digit⟩ := h.exists_cons
  have value : digitValue? c ≠ none := by
    rw [digitValue?_eq_some_iff.2 digit]
    exact Option.some_ne_none d
  apply splitSign_cons
  constructor
  · rintro rfl
    exact value (by decide)
  · rintro rfl
    exact value (by decide)

/-- The sign of a text may be taken off before its digits become ASCII digits or after that. -/
theorem map_splitSign_joinDigits? (s : Text) :
    (joinDigits? false (s.map plainDigit)).map splitSign =
      (joinDigits? false ((splitSign s).2.map plainDigit)).map ((splitSign s).1, ·) := by
  obtain ⟨rest, rfl⟩ | ⟨rest, rfl⟩ | ⟨unsigned, first⟩ := splitSign_cases s
  · show (joinDigits? false ('+' :: rest.map plainDigit)).map splitSign = _
    rw [joinDigits?, if_neg (by decide), Option.map_map]
    rfl
  · show (joinDigits? false ('-' :: rest.map plainDigit)).map splitSign = _
    rw [joinDigits?, if_neg (by decide), Option.map_map]
    rfl
  · rw [unsigned]
    apply Option.map_congr
    intro plain joined
    cases s with
    | nil => cases joined; rfl
    | cons c rest =>
      obtain ⟨plus, minus⟩ := first c rfl
      obtain ⟨-, no, -⟩ | ⟨-, others, -, rfl⟩ := joinDigits?_cases joined
      · cases no
      · apply splitSign_cons
        rw [Ne, plainDigit_eq_iff (by decide), Ne, plainDigit_eq_iff (by decide)]
        exact ⟨plus, minus⟩

theorem integer?_eq (limit : ℕ) (s : Text) :
    integer? limit s =
      (digits? limit (splitSign (s.trim isNumeralBlank)).2).map
        (signedValue (splitSign (s.trim isNumeralBlank)).1) := by
  let read (signed : Bool × Text) : Option ℤ :=
    if isDigits signed.2 && decide (signed.2.length ≤ limit) then
      some (signedValue signed.1 signed.2)
    else none
  have signLast : integer? limit s =
      ((joinDigits? false ((s.trim isNumeralBlank).map plainDigit)).map splitSign).bind read := by
    rw [integer?, plain?]
    cases joinDigits? false ((s.trim isNumeralBlank).map plainDigit) <;> rfl
  rw [signLast, map_splitSign_joinDigits?, digits?]
  cases joinDigits? false ((splitSign (s.trim isNumeralBlank)).2.map plainDigit) with
  | none => rfl
  | some digits =>
    show (if _ then _ else _) = _
    rw [Option.filter_some]
    split <;> rfl

theorem denotes_iff {limit : ℕ} {s : Text} {n : ℤ} :
    Denotes limit s n ↔
      ∃ digits, digits? limit (splitSign s).2 = some digits ∧
        signedValue (splitSign s).1 digits = n := by
  constructor
  · intro h
    cases h with
    | unsigned digits fits =>
      refine ⟨_, digits?_eq_some_iff.2 ⟨_, ?_, fits, rfl⟩, ?_⟩
      · rwa [digits.splitSign_eq]
      · rw [digits.splitSign_eq, ← value_map_asciiDigit digits.lt_ten]
        rfl
    | plus digits fits =>
      refine ⟨_, digits?_eq_some_iff.2 ⟨_, digits, fits, rfl⟩, ?_⟩
      rw [← value_map_asciiDigit digits.lt_ten]
      rfl
    | minus digits fits =>
      refine ⟨_, digits?_eq_some_iff.2 ⟨_, digits, fits, rfl⟩, ?_⟩
      rw [← value_map_asciiDigit digits.lt_ten]
      rfl
  · rintro ⟨_, h, rfl⟩
    obtain ⟨ds, grouped, fits, rfl⟩ := digits?_eq_some_iff.1 h
    obtain ⟨rest, rfl⟩ | ⟨rest, rfl⟩ | ⟨unsigned, -⟩ := splitSign_cases s
    · show Denotes limit ('+' :: rest) (Numeral.value (ds.map asciiDigit))
      rw [value_map_asciiDigit grouped.lt_ten]
      exact .plus grouped fits
    · show Denotes limit ('-' :: rest) (-Numeral.value (ds.map asciiDigit))
      rw [value_map_asciiDigit grouped.lt_ten]
      exact .minus grouped fits
    · rw [unsigned] at grouped ⊢
      show Denotes limit s (Numeral.value (ds.map asciiDigit))
      rw [value_map_asciiDigit grouped.lt_ten]
      exact .unsigned grouped fits

/-- A text is read as an integer if it is white space around an integer in decimal, and as that
integer. -/
theorem integer?_eq_some_iff {limit : ℕ} {s : Text} {n : ℤ} :
    integer? limit s = some n ↔
      ∃ core, Text.Strips isNumeralBlank s core ∧ Denotes limit core n := by
  simp only [← Text.trim_eq_iff, exists_eq_left', denotes_iff]
  rw [integer?_eq, Option.map_eq_some_iff]

/-- A natural number is read back from its decimal form. -/
theorem integer?_ofNat {limit n : ℕ} (fits : (Numeral.ofNat n).length ≤ limit) :
    integer? limit (Numeral.ofNat n) = some (n : ℤ) := by
  have digits := Numeral.isDigit_of_mem_ofNat (n := n)
  have plain : plain? (Numeral.ofNat n) = some (Numeral.ofNat n) :=
    plain?_of_forall fun c mem => forall_isDigit (P := IsPlain) (by decide) (digits c mem)
  have unsigned : splitSign (Numeral.ofNat n) = (false, Numeral.ofNat n) := by
    obtain ⟨c, rest, first⟩ := List.exists_cons_of_ne_nil (Numeral.ofNat_ne_nil n)
    rw [first] at digits ⊢
    exact splitSign_of_isDigit (digits c List.mem_cons_self) rest
  have all : isDigits (Numeral.ofNat n) = true :=
    isDigits_iff.2 ⟨Numeral.ofNat_ne_nil n, digits⟩
  simp only [integer?, plain, unsigned, all, fits, decide_true, Bool.and_self, if_true]
  show some (Numeral.value (Numeral.ofNat n) : ℤ) = some (n : ℤ)
  rw [Numeral.value_ofNat]

end BearLex.Reading
