import BearLex.Text.Lemmas
import BearLex.Text.Numeral
import Mathlib.Algebra.Ring.Nat

/-! How the digits of a number bound it, and what zeros at the end of it stand for. -/

namespace BearLex.Numeral

/-- Digits after others shift those by as many places. -/
theorem value_append (s t : Text) : value (s ++ t) = value s * 10 ^ t.length + value t := by
  rw [value, Nat.ofDigitChars_append, Nat.ofDigitChars_eq_ofDigitChars_zero, Nat.mul_comm]
  rfl

theorem value_replicate_zero (n : Nat) : value (List.replicate n '0') = 0 := by
  rw [value, Nat.ofDigitChars_replicate_zero, Nat.mul_zero]

theorem value_lt {s : Text} (h : ∀ c ∈ s, c.isDigit = true) : value s < 10 ^ s.length := by
  induction s with
  | nil => exact Nat.one_pos
  | cons c rest ih =>
    have digit : value [c] ≤ 9 := by
      have : 48 ≤ c.toNat ∧ c.toNat ≤ 57 :=
        Char.isDigit_iff_toNat.1 (h c List.mem_cons_self)
      simp only [value, Nat.ofDigitChars_cons, Nat.ofDigitChars_nil, Char.reduceToNat]
      omega
    have more := ih fun d hd => h d (List.mem_cons_of_mem c hd)
    rw [← List.singleton_append, value_append, List.length_append, List.length_singleton,
      Nat.pow_add]
    have : value [c] * 10 ^ rest.length ≤ 9 * 10 ^ rest.length := Nat.mul_le_mul_right _ digit
    omega

/-! ### The digits of a number -/

theorem isDigit_of_mem_ofNat {n : Nat} : ∀ c ∈ ofNat n, c.isDigit = true := fun _ mem =>
  Nat.isDigit_of_mem_toDigits (by decide) (by decide) mem

theorem ofNat_ne_nil (n : Nat) : ofNat n ≠ [] :=
  Nat.toDigits_ne_nil

theorem length_ofNat_le_iff {n k : Nat} (h : 0 < k) : (ofNat n).length ≤ k ↔ n < 10 ^ k :=
  Nat.length_toDigits_le_iff (by decide) h

theorem length_ofNat_pos (n : Nat) : 0 < (ofNat n).length :=
  List.length_pos_iff.2 (ofNat_ne_nil n)

theorem lt_pow_length (n : Nat) : n < 10 ^ (ofNat n).length :=
  (length_ofNat_le_iff (length_ofNat_pos n)).1 (Nat.le_refl _)

theorem pow_length_le {n : Nat} (h : 0 < n) : 10 ^ ((ofNat n).length - 1) ≤ n := by
  have := length_ofNat_pos n
  by_cases single : (ofNat n).length = 1
  · rw [single]
    exact h
  · have : ¬ n < 10 ^ ((ofNat n).length - 1) := fun small => by
      have := (length_ofNat_le_iff (by omega)).2 small
      omega
    omega

theorem ofNat_ten_mul {n : Nat} (h : 0 < n) : ofNat (10 * n) = ofNat n ++ ['0'] :=
  (Nat.toDigits_append_toDigits (b := 10) (d := 0) (by decide) h (by decide)).symm

theorem ofNat_ten_pow (k : Nat) : ofNat (10 ^ k) = '1' :: List.replicate k '0' := by
  induction k with
  | zero => rfl
  | succ k ih =>
    rw [Nat.pow_succ, Nat.mul_comm, ofNat_ten_mul (Nat.pow_pos (by decide)), ih,
      List.replicate_succ', List.cons_append]

/-! ### Integers in front of further text -/

/-- The integer at the front of a text, and what follows its digits. -/
def splitInt : Text → Int × Text
  | '-' :: s => (-value (s.takeWhile Char.isDigit), s.dropWhile Char.isDigit)
  | s => (value (s.takeWhile Char.isDigit), s.dropWhile Char.isDigit)

theorem splitInt_unsigned {s : Text} (h : ∀ rest, s ≠ '-' :: rest) :
    splitInt s = ((value (s.takeWhile Char.isDigit) : Int), s.dropWhile Char.isDigit) :=
  splitInt.eq_2 s h

/-- An integer is read back in front of everything that does not go on with a digit. -/
theorem splitInt_ofInt (n : Int) {c : Char} (stops : c.isDigit = false) (rest : Text) :
    splitInt (ofInt n ++ c :: rest) = (n, c :: rest) := by
  have digits := isDigit_of_mem_ofNat (n := n.natAbs)
  unfold ofInt
  split
  case isTrue negative =>
    rw [List.cons_append, splitInt, Text.takeWhile_append_cons digits stops,
      Text.dropWhile_append_cons digits stops, value_ofNat]
    congr 1
    omega
  case isFalse positive =>
    have unsigned : ∀ others, ofNat n.natAbs ++ c :: rest ≠ '-' :: others := by
      intro others e
      obtain ⟨d, more, first⟩ := List.exists_cons_of_ne_nil (ofNat_ne_nil n.natAbs)
      rw [first] at e digits
      have digit := digits d List.mem_cons_self
      rw [(List.cons.inj e).1] at digit
      exact absurd digit (by decide)
    rw [splitInt_unsigned unsigned, Text.takeWhile_append_cons digits stops,
      Text.dropWhile_append_cons digits stops, value_ofNat]
    congr 1
    omega

/-! ### Zeros at the end -/

/-- A text without the zeros at its end. -/
def significand (s : Text) : Text :=
  (s.reverse.dropWhile (· = '0')).reverse

theorem exists_significand_append (s : Text) :
    ∃ zeros, s = significand s ++ List.replicate zeros '0' := by
  refine ⟨(s.reverse.takeWhile (· = '0')).length, ?_⟩
  have zeros : List.replicate (s.reverse.takeWhile (· = '0')).length '0' =
      (s.reverse.takeWhile (· = '0')).reverse := by
    rw [eq_comm, List.reverse_eq_iff, List.reverse_replicate, List.eq_replicate_iff]
    exact ⟨rfl, fun c hc => by simpa using List.mem_takeWhile_imp hc⟩
  rw [zeros, significand, ← List.reverse_append, List.takeWhile_append_dropWhile,
    List.reverse_reverse]

theorem significand_ten_pow (k : Nat) : significand (ofNat (10 ^ k)) = ['1'] := by
  have zeros : ∀ c ∈ List.replicate k '0', decide (c = '0') = true := fun c hc =>
    decide_eq_true (List.eq_of_mem_replicate hc)
  rw [ofNat_ten_pow, significand, List.reverse_cons, List.reverse_replicate,
    List.dropWhile_append_of_pos zeros]
  rfl

theorem length_significand_le (s : Text) : (significand s).length ≤ s.length := by
  have := congrArg List.length (exists_significand_append s).choose_spec
  rw [List.length_append] at this
  omega

end BearLex.Numeral
