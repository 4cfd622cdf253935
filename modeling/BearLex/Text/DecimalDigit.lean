/-! The decimal digits of Unicode 14. They come in runs of ten, each from its zero to its nine. -/

namespace BearLex

/-- The code points of the zeros. -/
def zeroDigits : List Nat :=
  [0x30, 0x660, 0x6F0, 0x7C0, 0x966, 0x9E6, 0xA66, 0xAE6, 0xB66, 0xBE6, 0xC66, 0xCE6, 0xD66,
   0xDE6, 0xE50, 0xED0, 0xF20, 0x1040, 0x1090, 0x17E0, 0x1810, 0x1946, 0x19D0, 0x1A80, 0x1A90,
   0x1B50, 0x1BB0, 0x1C40, 0x1C50, 0xA620, 0xA8D0, 0xA900, 0xA9D0, 0xA9F0, 0xAA50, 0xABF0, 0xFF10,
   0x104A0, 0x10D30, 0x11066, 0x110F0, 0x11136, 0x111D0, 0x112F0, 0x11450, 0x114D0, 0x11650,
   0x116C0, 0x11730, 0x118E0, 0x11950, 0x11C50, 0x11D50, 0x11DA0, 0x16A60, 0x16AC0, 0x16B50,
   0x1D7CE, 0x1D7D8, 0x1D7E2, 0x1D7EC, 0x1D7F6, 0x1E140, 0x1E2F0, 0x1E950, 0x1FBF0]

/-- The value of a decimal digit of any script. -/
def digitValue? (c : Char) : Option Nat :=
  (zeroDigits.find? fun first => decide (first ≤ c.toNat) && decide (c.toNat < first + 10)).map
    (c.toNat - ·)

/-- A decimal digit of any script becomes the ASCII digit of its value, and every other character
stays. -/
def plainDigit (c : Char) : Char :=
  match digitValue? c with
  | some value => Char.ofNat (48 + value)
  | none => c

/-- `c` is the digit `d` of some script. -/
def IsDigitOf (c : Char) (d : Nat) : Prop :=
  d < 10 ∧ ∃ first ∈ zeroDigits, c.toNat = first + d

/-- The runs of digits do not overlap. -/
theorem eq_of_mem_zeroDigits : ∀ first ∈ zeroDigits, ∀ first' ∈ zeroDigits,
    first < first' + 10 → first' < first + 10 → first = first' := by
  decide +kernel

theorem digitValue?_eq_some_iff {c : Char} {d : Nat} :
    digitValue? c = some d ↔ IsDigitOf c d := by
  unfold digitValue?
  constructor
  · intro h
    obtain ⟨first, found, rfl⟩ := Option.map_eq_some_iff.1 h
    have mem := List.mem_of_find?_eq_some found
    have within := List.find?_some found
    simp only [Bool.and_eq_true, decide_eq_true_eq] at within
    exact ⟨by omega, first, mem, by omega⟩
  · rintro ⟨small, first, mem, place⟩
    cases found : zeroDigits.find? fun first =>
        decide (first ≤ c.toNat) && decide (c.toNat < first + 10) with
    | none =>
      have := List.find?_eq_none.1 found first mem
      simp only [Bool.and_eq_true, decide_eq_true_eq] at this
      omega
    | some first' =>
      have mem' := List.mem_of_find?_eq_some found
      have within := List.find?_some found
      simp only [Bool.and_eq_true, decide_eq_true_eq] at within
      have same := eq_of_mem_zeroDigits first mem first' mem' (by omega) (by omega)
      rw [Option.map_some, ← same]
      congr 1
      omega

/-- The ASCII digit with the value `d`. -/
def asciiDigit (d : Nat) : Char :=
  Char.ofNat (48 + d)

theorem isDigit_asciiDigit {d : Nat} (h : d < 10) : (asciiDigit d).isDigit = true := by
  revert d
  decide

theorem plainDigit_of_isDigitOf {c : Char} {d : Nat} (h : IsDigitOf c d) :
    plainDigit c = asciiDigit d := by
  rw [plainDigit, digitValue?_eq_some_iff.2 h]
  rfl

/-- The characters that become ASCII digits are the digits of all scripts. -/
theorem isDigit_plainDigit_iff {c : Char} :
    (plainDigit c).isDigit = true ↔ ∃ d, IsDigitOf c d := by
  constructor
  · intro digit
    cases value : digitValue? c with
    | some d => exact ⟨d, digitValue?_eq_some_iff.1 value⟩
    | none =>
      rw [plainDigit, value] at digit
      have : 48 ≤ c.toNat ∧ c.toNat ≤ 57 :=
        Char.isDigit_iff_toNat.1 digit
      exact ⟨c.toNat - 48, by omega, 48, by decide, by omega⟩
  · rintro ⟨d, h⟩
    rw [plainDigit_of_isDigitOf h]
    exact isDigit_asciiDigit h.1

/-- A character that is no digit comes from itself alone. -/
theorem plainDigit_eq_iff {c mark : Char} (h : digitValue? mark = none) :
    plainDigit c = mark ↔ c = mark := by
  have digits : ∀ d < 10, digitValue? (asciiDigit d) ≠ none := by decide
  constructor
  · intro same
    cases value : digitValue? c with
    | some d =>
      have digit := digitValue?_eq_some_iff.1 value
      rw [plainDigit_of_isDigitOf digit] at same
      exact absurd (same ▸ h) (digits d digit.1)
    | none => rwa [plainDigit, value] at same
  · rintro rfl
    rw [plainDigit, h]

end BearLex
