import BearLex.Proofs.Printout
import BearLex.Proofs.Rounding
import BearLex.Text.Numeral.Lemmas

/-! The values of the numbers of a source. A number denotes the rational that its digits spell, and
its token carries what this rational is rounded to. -/

namespace BearLex

namespace Magnitude

variable {q : ℚ}

theorem exists_rounds (h : 0 ≤ q) : ∃ m, Rounds q m := by
  have e : (q.num.toNat : ℚ) / q.den = q := by
    rw [← Int.cast_natCast, Int.toNat_of_nonneg (Rat.num_nonneg.2 h), Rat.num_div_den]
  exact ⟨_, e ▸ rounds_nearest q.num.toNat q.den_pos⟩

theorem rounds_zero (h : 0 ≤ q) (small : q ≤ 1 / 2 ^ 1075) : Rounds q zero := by
  obtain ⟨m, rounds⟩ := exists_rounds h
  rwa [← rounds.eq_zero_iff.2 small]

/-- Numbers from `10 ^ 400` on are rounded to infinity. -/
theorem rounds_infinity (h : 10 ^ 400 ≤ q) : Rounds q infinity := by
  refine .overflow ?_
  calc
    (2 : ℚ) ^ 1024 - 2 ^ 970 ≤ 2 ^ 1024 := sub_le_self _ (pow_pos two_pos _).le
    _ ≤ 2 ^ (3 * 400) := pow_le_pow_right₀ one_le_two (by decide)
    _ ≤ 10 ^ 400 := by
      rw [pow_mul]
      exact pow_le_pow_left₀ (by norm_num) (by norm_num) 400
    _ ≤ q := h

/-- Numbers below `10 ^ (-400)` are rounded to zero. -/
theorem rounds_zero_of_lt (h : 0 ≤ q) (small : q < 10 ^ (-400 : ℤ)) : Rounds q zero := by
  refine rounds_zero h (small.le.trans ?_)
  calc
    (10 : ℚ) ^ (-400 : ℤ) = 1 / 10 ^ 400 := by rw [zpow_neg, one_div, zpow_ofNat]
    _ ≤ 1 / 2 ^ (3 * 400) := by
      rw [pow_mul]
      exact one_div_le_one_div_of_le (pow_pos (by norm_num) _)
        (pow_le_pow_left₀ (by norm_num) (by norm_num) 400)
    _ ≤ 1 / 2 ^ 1075 :=
      one_div_le_one_div_of_le (pow_pos two_pos _) (pow_le_pow_right₀ one_le_two (by decide))

end Magnitude

open Magnitude

namespace Reading

/-- The rational that digits, or digits, a point and digits, denote. -/
def rational (s : Text) : ℚ :=
  let decimals := (s.dropWhile Char.isDigit).tail
  Numeral.value (s.takeWhile Char.isDigit) + Numeral.value decimals / 10 ^ decimals.length

/-- The numbers that are settled without a power of ten are rounded like all others. -/
theorem rounds_magnitude {digits : Text} (h : ∀ c ∈ digits, c.isDigit = true) (exponent : ℤ) :
    Rounds (Numeral.value digits * 10 ^ exponent) (magnitude digits exponent) := by
  have power : (0 : ℚ) < 10 ^ exponent := zpow_pos Nat.ofNat_pos _
  have nonneg : (0 : ℚ) ≤ Numeral.value digits * 10 ^ exponent :=
    mul_nonneg (Nat.cast_nonneg _) power.le
  unfold magnitude
  dsimp only
  split
  case isTrue null =>
    refine rounds_zero nonneg ?_
    rw [null, Nat.cast_zero, zero_mul]
    exact one_div_nonneg.2 (pow_pos two_pos _).le
  split
  case isTrue large =>
    have positive : (1 : ℚ) ≤ Numeral.value digits := Nat.one_le_cast.2 (by omega)
    refine rounds_infinity ?_
    calc
      (10 : ℚ) ^ 400 = 10 ^ (400 : ℤ) := (zpow_ofNat 10 400).symm
      _ ≤ 10 ^ exponent := zpow_le_zpow_right₀ Nat.one_le_ofNat large.le
      _ ≤ Numeral.value digits * 10 ^ exponent := le_mul_of_one_le_left power.le positive
  split
  case isTrue small =>
    have below : (Numeral.value digits : ℚ) < 10 ^ digits.length := by
      exact_mod_cast Numeral.value_lt h
    refine rounds_zero_of_lt nonneg ?_
    calc
      Numeral.value digits * (10 : ℚ) ^ exponent < 10 ^ digits.length * 10 ^ exponent :=
        mul_lt_mul_of_pos_right below power
      _ = 10 ^ (digits.length + exponent) := by
        rw [zpow_add₀ (OfNat.ofNat_ne_zero 10), zpow_natCast]
      _ ≤ 10 ^ (-400 : ℤ) := zpow_le_zpow_right₀ Nat.one_le_ofNat small.le
  · exact rounds_ofDecimal _ _

/-- Of two texts of digits, the second stands behind the point. -/
theorem value_append_div (s t : Text) :
    (Numeral.value (s ++ t) : ℚ) / 10 ^ t.length =
      Numeral.value s + Numeral.value t / 10 ^ t.length := by
  have power : (10 : ℚ) ^ t.length ≠ 0 := pow_ne_zero _ (by norm_num)
  rw [Numeral.value_append, Nat.cast_add, Nat.cast_mul, Nat.cast_pow, Nat.cast_ofNat, add_div,
    mul_div_cancel_right₀ _ power]

/-- What a decimal denotes are its digits, divided by ten for each that is behind the point. -/
theorem Pointed.rational_eq {s : Text} (h : Pointed s) :
    rational s = Numeral.value (s.filter Char.isDigit) *
      10 ^ (-((s.dropWhile Char.isDigit).tail.length : ℤ)) := by
  rw [zpow_neg, zpow_natCast, ← div_eq_mul_inv]
  cases h with
  | whole _ h =>
    simp [rational, List.takeWhile_eq_self_iff.2 h, List.dropWhile_eq_nil_iff.2 h,
      List.filter_eq_self.2 h, Numeral.value]
  | fraction _ h _ h' =>
    rw [rational, Text.takeWhile_append_cons h (by decide),
      Text.dropWhile_append_cons h (by decide), List.tail_cons, filter_isDigit_append h h',
      value_append_div]

/-- A decimal is read as what its rational is rounded to. -/
theorem rounds_pointed {s : Text} (h : Pointed s) : Rounds (rational s) (pointed s) := by
  rw [h.rational_eq]
  exact rounds_magnitude (fun c hc => (List.mem_filter.1 hc).2) _

end Reading

/-- The token of a number has a decimal for its lexeme and carries what it is read as. -/
theorem Cursor.number_of_mem_tokens {source : Text} {t : Token}
    (h : t ∈ (atStart source).scan.2.tokens) (number : t.kind = .number) :
    Reading.Pointed t.lexeme ∧ t.literal = .number (.signed false (Reading.pointed t.lexeme)) := by
  rw [tokens_atStart] at h
  have genuine := Scan.genuine_fromLine 1 source t h
  cases genuine with
  | ending shown =>
    have : t.kind = .endOfInput := congrArg Prod.fst shown
    rw [this] at number
    cases number
  | lexeme lexeme value =>
    rw [number] at lexeme value
    cases lexeme with
    | number pointed =>
      exact ⟨pointed, value⟩

/-- The literal of every number of a source is what the rational that its lexeme denotes is rounded
to. It is infinite from half a step above the greatest finite number on, and zero up to half of the
least positive one. -/
theorem scan_rounds_numbers (source : Text) {t : Token}
    (h : t ∈ (Cursor.atStart source).scan.2.tokens) (number : t.kind = .number) :
    Reading.Pointed t.lexeme ∧
    ∃ m, t.literal = .number (.signed false m) ∧
      Rounds (Reading.rational t.lexeme) m ∧
      (m = infinity ↔ 2 ^ 1024 - 2 ^ 970 ≤ Reading.rational t.lexeme) ∧
      (m = zero ↔ Reading.rational t.lexeme ≤ 1 / 2 ^ 1075) := by
  obtain ⟨pointed, literal⟩ := Cursor.number_of_mem_tokens h number
  have rounds := Reading.rounds_pointed pointed
  exact ⟨pointed, _, literal, rounds, rounds.eq_infinity_iff, rounds.eq_zero_iff⟩

/-- One tenth lies between two numbers and is rounded up. -/
theorem scan_rounds_numbers_tenth :
    let m := Magnitude.ofRank 4591870180066957722
    let t : Token := ⟨.number, "0.1".toList, .number (.signed false m), 1⟩
    t ∈ (Cursor.atStart "0.1".toList).scan.2.tokens ∧ t.kind = .number ∧
      Rounds (Reading.rational t.lexeme) m := by
  intro m t
  have mem : t ∈ (Cursor.atStart "0.1".toList).scan.2.tokens := by decide +kernel
  obtain ⟨-, m', literal, rounds, -⟩ := scan_rounds_numbers "0.1".toList mem rfl
  have same : m = m' := (Binary64.signed.inj (Literal.number.inj literal)).2
  exact ⟨mem, rfl, same ▸ rounds⟩

end BearLex
