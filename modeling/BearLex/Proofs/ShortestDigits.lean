import BearLex.Number.Shortest
import BearLex.Proofs.Rounding
import BearLex.Text.Numeral.Lemmas

/-! The shortest decimal of a magnitude. What is rounded to a magnitude forms an interval around its
value, so if a grid of decimals meets the interval at all, one of the two next to the value lies in
it; and with seventeen digits the grid is finer than the interval is wide. -/

namespace BearLex

namespace Digits

/-- The number that digits denote. -/
def value (d : Digits) : ℚ :=
  Numeral.value d.digits * 10 ^ (d.place - d.digits.length)

variable {n : ℕ} {exponent : ℤ}

theorem digits_ofScaled : (ofScaled n exponent).digits = Numeral.significand (Numeral.ofNat n) :=
  rfl

theorem value_ofScaled (n : ℕ) (exponent : ℤ) :
    (ofScaled n exponent).value = n * 10 ^ exponent := by
  obtain ⟨zeros, whole⟩ := Numeral.exists_significand_append (Numeral.ofNat n)
  have number : n = Numeral.value (ofScaled n exponent).digits * 10 ^ zeros := by
    have := Numeral.value_ofNat n
    rw [whole, Numeral.value_append, Numeral.value_replicate_zero, List.length_replicate] at this
    exact this.symm
  have places : (ofScaled n exponent).place - (ofScaled n exponent).digits.length =
      zeros + exponent := by
    have : (Numeral.ofNat n).length = (ofScaled n exponent).digits.length + zeros := by
      conv_lhs => rw [whole]
      rw [List.length_append, List.length_replicate, digits_ofScaled]
    simp only [ofScaled] at this ⊢
    omega
  rw [value, places, zpow_add₀ (OfNat.ofNat_ne_zero 10), zpow_natCast, ← mul_assoc]
  congr 1
  exact_mod_cast number.symm

theorem isDigit_ofScaled : ∀ c ∈ (ofScaled n exponent).digits, c.isDigit = true := by
  intro c mem
  obtain ⟨zeros, whole⟩ := Numeral.exists_significand_append (Numeral.ofNat n)
  exact Numeral.isDigit_of_mem_ofNat c (whole ▸ List.mem_append_left _ mem)

theorem ofScaled_ne_nil (h : 0 < n) : (ofScaled n exponent).digits ≠ [] := by
  intro empty
  have := value_ofScaled n exponent
  rw [value, empty] at this
  have nonzero : (n * 10 ^ exponent : ℚ) ≠ 0 :=
    mul_ne_zero (Nat.cast_ne_zero.2 h.ne') (zpow_pos Nat.ofNat_pos _).ne'
  exact nonzero (this ▸ by simp [Numeral.value])

theorem length_ofScaled_le {count : ℕ} (pos : 1 ≤ count) (h : n ≤ 10 ^ count) :
    (ofScaled n exponent).digits.length ≤ count := by
  rw [digits_ofScaled]
  rcases h.eq_or_lt with rfl | lt
  · rw [Numeral.significand_ten_pow]
    exact pos
  · exact (Numeral.length_significand_le _).trans ((Numeral.length_ofNat_le_iff pos).2 lt)

theorem place_ofScaled_le_iff (h : 0 < n) {t : ℤ} :
    (ofScaled n exponent).place ≤ t ↔ (n * 10 ^ exponent : ℚ) < 10 ^ t := by
  have length := Numeral.length_ofNat_pos n
  have power : (0 : ℚ) < 10 ^ exponent := zpow_pos Nat.ofNat_pos _
  have place : (ofScaled n exponent).place = (Numeral.ofNat n).length + exponent := rfl
  constructor
  · intro le
    have upper : (n : ℚ) < 10 ^ (Numeral.ofNat n).length := by
      exact_mod_cast Numeral.lt_pow_length n
    calc
      (n * 10 ^ exponent : ℚ) < 10 ^ (Numeral.ofNat n).length * 10 ^ exponent :=
        mul_lt_mul_of_pos_right upper power
      _ = 10 ^ ((Numeral.ofNat n).length + exponent) := by
        rw [zpow_add₀ (OfNat.ofNat_ne_zero 10), zpow_natCast]
      _ ≤ 10 ^ t := zpow_le_zpow_right₀ Nat.one_le_ofNat (place ▸ le)
  · intro lt
    by_contra gt
    have lower : (10 : ℚ) ^ ((Numeral.ofNat n).length - 1) ≤ n := by
      exact_mod_cast Numeral.pow_length_le h
    refine lt.not_ge ?_
    calc
      (10 : ℚ) ^ t ≤ 10 ^ (((Numeral.ofNat n).length - 1 : ℕ) + exponent) :=
        zpow_le_zpow_right₀ Nat.one_le_ofNat (by omega)
      _ = 10 ^ ((Numeral.ofNat n).length - 1) * 10 ^ exponent := by
        rw [zpow_add₀ (OfNat.ofNat_ne_zero 10), zpow_natCast]
      _ ≤ n * 10 ^ exponent := mul_le_mul_of_nonneg_right lower power.le

end Digits

namespace Magnitude

variable {m : Magnitude} {exponent : ℤ} {k : ℕ}

/-- A power of ten stands on the grid that is `count` places finer. -/
theorem pow_mul_zpow (count : ℕ) (place : ℤ) :
    ((10 ^ count : ℕ) : ℚ) * 10 ^ (place - count) = 10 ^ place := by
  rw [Nat.cast_pow, Nat.cast_ofNat, ← zpow_natCast, ← zpow_add₀ (OfNat.ofNat_ne_zero 10)]
  congr 1
  omega

/-- The least number of `count` digits is the power of ten one place below. -/
theorem pow_pred_mul_zpow {count : ℕ} (pos : 1 ≤ count) (place : ℤ) :
    ((10 ^ (count - 1) : ℕ) : ℚ) * 10 ^ (place - count) = 10 ^ (place - 1) := by
  have places : place - count = place - 1 - (count - 1 : ℕ) := by omega
  rw [places, pow_mul_zpow]

theorem rank_pos (positive : m ≠ zero) : 0 < m.rank :=
  Nat.pos_of_ne_zero fun e => positive (by rw [← ofRank_rank m, e]; rfl)

theorem value_pos (positive : m ≠ zero) : 0 < m.value := by
  have : unitsAt 0 < unitsAt m.rank := strictMono_unitsAt (rank_pos positive)
  exact div_pos (Nat.cast_pos.2 (Nat.pos_of_ne_zero (by unfold units; omega))) cast_one_pos

/-! ### The place of the value -/

/-- The value has its first digit right behind the point when it is divided by `10 ^ place`. -/
theorem place_spec (positive : m ≠ zero) :
    (10 : ℚ) ^ (m.place - 1) ≤ m.value ∧ m.value < 10 ^ m.place := by
  have units_pos : 0 < m.units := by
    have := value_pos positive
    rw [value, div_pos_iff_of_pos_right cast_one_pos] at this
    exact Nat.cast_pos.1 this
  rw [value, le_div_iff₀ cast_one_pos, div_lt_iff₀ cast_one_pos, place]
  split
  case isTrue large =>
    have quotient : 0 < m.units / one := Nat.div_pos large one_pos
    have below := Numeral.pow_length_le quotient
    have above := Numeral.lt_pow_length (m.units / one)
    rw [Nat.le_div_iff_mul_le one_pos] at below
    rw [Nat.div_lt_iff_lt_mul one_pos] at above
    obtain ⟨n, length⟩ := Nat.exists_eq_add_one.2 (Numeral.length_ofNat_pos (m.units / one))
    rw [length] at below above ⊢
    rw [Nat.cast_add_one, add_sub_cancel_right, zpow_natCast, ← Nat.cast_add_one, zpow_natCast]
    exact ⟨by exact_mod_cast below, by exact_mod_cast above⟩
  case isFalse small =>
    have quotient : 0 < (one - 1) / m.units := Nat.div_pos (by omega) units_pos
    have below := Numeral.pow_length_le quotient
    have above := Numeral.lt_pow_length ((one - 1) / m.units)
    rw [Nat.le_div_iff_mul_le units_pos] at below
    rw [Nat.div_lt_iff_lt_mul units_pos] at above
    obtain ⟨n, length⟩ := Nat.exists_eq_add_one.2 (Numeral.length_ofNat_pos ((one - 1) / m.units))
    rw [length] at below above ⊢
    rw [Nat.add_sub_cancel] at below
    have first : 1 - ((n + 1 : ℕ) : ℤ) - 1 = -((n + 1 : ℕ) : ℤ) := by omega
    have second : 1 - ((n + 1 : ℕ) : ℤ) = -(n : ℤ) := by omega
    rw [first, second, zpow_neg, zpow_neg, zpow_natCast, zpow_natCast,
      inv_mul_le_iff₀ (pow_pos Nat.ofNat_pos _), lt_inv_mul_iff₀ (pow_pos Nat.ofNat_pos _)]
    have lower : one ≤ 10 ^ (n + 1) * m.units := by omega
    have upper : 10 ^ n * m.units < one := by omega
    exact ⟨by exact_mod_cast lower, by exact_mod_cast upper⟩

/-! ### The grid of a power of ten -/

theorem ratio_spec (m : Magnitude) (exponent : ℤ) :
    0 < (m.ratio exponent).2 ∧
      m.value * (m.ratio exponent).2 = (m.ratio exponent).1 * 10 ^ exponent := by
  have cast (n : ℕ) : ((Nat.pow 10 n : ℕ) : ℚ) = 10 ^ n := by
    rw [Nat.pow_eq, Nat.cast_pow, Nat.cast_ofNat]
  unfold ratio
  split
  case isTrue whole =>
    obtain ⟨n, rfl⟩ := Int.eq_ofNat_of_zero_le whole
    rw [Int.toNat_natCast]
    refine ⟨Nat.mul_pos one_pos (Nat.pow_pos (by decide)), ?_⟩
    rw [value, zpow_natCast, Nat.cast_mul, cast, ← mul_assoc, div_mul_cancel₀ _ cast_one_pos.ne']
  case isFalse fraction =>
    obtain ⟨n, rfl⟩ : ∃ n : ℕ, exponent = -n := ⟨(-exponent).toNat, by omega⟩
    dsimp only
    rw [neg_neg, Int.toNat_natCast]
    refine ⟨one_pos, ?_⟩
    rw [value, div_mul_cancel₀ _ cast_one_pos.ne', zpow_neg, zpow_natCast, Nat.cast_mul, cast,
      mul_assoc, mul_inv_cancel₀ (pow_ne_zero n (OfNat.ofNat_ne_zero 10)), mul_one]

/-- The greatest multiple of `10 ^ exponent` that is not above the value. -/
def below (m : Magnitude) (exponent : ℤ) : ℕ :=
  (m.ratio exponent).1 / (m.ratio exponent).2

theorem le_below_iff : k ≤ m.below exponent ↔ k * 10 ^ exponent ≤ m.value := by
  obtain ⟨den_pos, e⟩ := ratio_spec m exponent
  have positive : (0 : ℚ) < (m.ratio exponent).2 := Nat.cast_pos.2 den_pos
  rw [below, Nat.le_div_iff_mul_le den_pos, ← mul_le_mul_iff_left₀ positive, e, mul_right_comm,
    mul_le_mul_iff_left₀ (zpow_pos Nat.ofNat_pos _)]
  exact_mod_cast Iff.rfl

theorem below_le (m : Magnitude) (exponent : ℤ) : m.below exponent * 10 ^ exponent ≤ m.value :=
  le_below_iff.1 le_rfl

theorem lt_below_succ (m : Magnitude) (exponent : ℤ) :
    m.value < (m.below exponent + 1 : ℕ) * 10 ^ exponent :=
  lt_of_not_ge fun h => (Nat.lt_succ_self _).not_ge (le_below_iff.2 h)

theorem ofDecimal_eq_iff : ofDecimal k exponent = m ↔ Rounds (k * 10 ^ exponent) m := by
  constructor
  · rintro rfl
    exact rounds_ofDecimal k exponent
  · exact (rounds_ofDecimal k exponent).unique

/-- What is found on a grid is next to the value and is rounded to it. -/
theorem rounds_of_onGrid? (h : m.onGrid? exponent = some k) :
    Rounds (k * 10 ^ exponent) m ∧ (k = m.below exponent ∨ k = m.below exponent + 1) := by
  rw [← ofDecimal_eq_iff]
  unfold onGrid? at h
  dsimp only at h
  split at h
  case h_1 first second =>
    split at h
    · cases h
      exact ⟨of_decide_eq_true first, .inl rfl⟩
    · cases h
      exact ⟨of_decide_eq_true second, .inr rfl⟩
  case h_2 first second =>
    cases h
    exact ⟨of_decide_eq_true first, .inl rfl⟩
  case h_3 first second =>
    cases h
    exact ⟨of_decide_eq_true second, .inr rfl⟩
  case h_4 => cases h

theorem not_rounds_of_onGrid?_eq_none (h : m.onGrid? exponent = none) :
    ¬ Rounds (m.below exponent * 10 ^ exponent) m ∧
      ¬ Rounds ((m.below exponent + 1 : ℕ) * 10 ^ exponent) m := by
  rw [← ofDecimal_eq_iff, ← ofDecimal_eq_iff]
  unfold onGrid? at h
  dsimp only at h
  split at h
  case h_1 => split at h <;> cases h
  case h_2 => cases h
  case h_3 => cases h
  case h_4 first second => exact ⟨of_decide_eq_false first, of_decide_eq_false second⟩

/-- If anything on a grid is rounded to the magnitude, something is found there. -/
theorem onGrid?_ne_none (finite : m ≠ infinity) (h : Rounds (k * 10 ^ exponent) m) :
    m.onGrid? exponent ≠ none := by
  intro none
  obtain ⟨first, second⟩ := not_rounds_of_onGrid?_eq_none none
  have step {a b : ℕ} (le : a ≤ b) : (a * 10 ^ exponent : ℚ) ≤ b * 10 ^ exponent :=
    mul_le_mul_of_nonneg_right (Nat.cast_le.2 le) (zpow_pos Nat.ofNat_pos _).le
  rcases Nat.lt_or_ge (m.below exponent) k with lt | le
  · exact second (.between (.self m) h finite (lt_below_succ m exponent).le (step lt))
  · exact first (h.between (.self m) finite (step le) (below_le m exponent))

/-- With seventeen digits the grid is finer than the interval of the magnitude is wide. -/
theorem onGrid?_seventeen (positive : m ≠ zero) : m.onGrid? (m.place - (17 : ℕ)) ≠ none := by
  intro none
  obtain ⟨rank, succ⟩ : ∃ rank, m.rank = rank + 1 :=
    Nat.exists_eq_add_one.2 (rank_pos positive)
  have value_one : m.value * one = unitsAt (rank + 1) := by
    rw [value, div_mul_cancel₀ _ cast_one_pos.ne', units, succ]
  generalize grid : m.place - (17 : ℕ) = exponent at none
  obtain ⟨first, second⟩ := not_rounds_of_onGrid?_eq_none none
  have below := mul_le_mul_of_nonneg_right (below_le m exponent) cast_one_pos.le
  have above := mul_le_mul_of_nonneg_right (lt_below_succ m exponent).le cast_one_pos.le
  rw [value_one] at below above
  have step : (10 ^ exponent * one : ℚ) * 10 ^ 16 ≤ unitsAt (rank + 1) := by
    have power : (10 : ℚ) ^ exponent * 10 ^ 16 = 10 ^ (m.place - 1) := by
      have places : exponent + (16 : ℕ) = m.place - 1 := by omega
      rw [← zpow_natCast, ← zpow_add₀ (OfNat.ofNat_ne_zero 10), places]
    rw [mul_right_comm, power]
    exact (mul_le_mul_of_nonneg_right (place_spec positive).1 cast_one_pos.le).trans value_one.le
  have gap : 2 * (unitsAt (rank + 1) : ℚ) < 10 ^ 16 * (unitsAt (rank + 2) - unitsAt rank) := by
    have order : unitsAt rank ≤ unitsAt (rank + 2) := strictMono_unitsAt.monotone (by omega)
    rw [← Nat.cast_sub order]
    exact_mod_cast unitsAt_lt_gap rank
  have close : 2 * ((m.below exponent + 1 : ℕ) * 10 ^ exponent * one -
      m.below exponent * 10 ^ exponent * one : ℚ) < unitsAt (rank + 2) - unitsAt rank := by
    rw [Nat.cast_add_one]
    linarith
  rcases Near.of_close below above close with near | near
  · exact first (.of_near (succ ▸ near))
  · exact second (.of_near (succ ▸ near))

/-! ### The first grid with a decimal for the magnitude -/

/-- A search through a range ends at the first number that is found. -/
theorem findSome?_range' {α : Type} {f : ℕ → Option α} (start size : ℕ) {last : ℕ}
    (ge : start ≤ last) (lt : last < start + size) (found : f last ≠ none) :
    ∃ count, start ≤ count ∧ f count ≠ none ∧ (List.range' start size).findSome? f = f count ∧
      ∀ j, start ≤ j → j < count → f j = none := by
  induction size generalizing start with
  | zero => omega
  | succ size ih =>
    rw [List.range'_succ, List.findSome?_cons]
    cases here : f start with
    | some x => exact ⟨start, le_rfl, here ▸ nofun, here.symm, fun j ge lt => by omega⟩
    | none =>
      have later : start ≠ last := fun e => found (e ▸ here)
      obtain ⟨count, above, found, search, before⟩ :=
        ih (start + 1) (by omega) (by omega)
      refine ⟨count, by omega, found, search, fun j ge lt => ?_⟩
      rcases ge.eq_or_lt with rfl | gt
      · exact here
      · exact before j gt lt

/-- With `count` digits, and not with fewer, a decimal is found for the magnitude. -/
structure Found (m : Magnitude) (count k : ℕ) : Prop where
  pos : 1 ≤ count
  grid : m.onGrid? (m.place - count) = some k
  first : ∀ j : ℕ, 1 ≤ j → j < count → m.onGrid? (m.place - j) = none
  shortest_eq : m.shortest = Digits.ofScaled k (m.place - count)

theorem exists_found (positive : m ≠ zero) : ∃ count k, m.Found count k := by
  let f (count : ℕ) := (m.onGrid? (m.place - count)).map (Digits.ofScaled · (m.place - count))
  have seventeen : f 17 ≠ none := by
    rw [ne_eq, Option.map_eq_none_iff]
    exact onGrid?_seventeen positive
  obtain ⟨count, pos, found, search, before⟩ :=
    findSome?_range' 1 17 (by decide) (by decide) seventeen
  obtain ⟨k, grid⟩ : ∃ k, m.onGrid? (m.place - count) = some k :=
    Option.ne_none_iff_exists'.1 fun none => found (by rw [Option.map_eq_none_iff, none])
  refine ⟨count, k, pos, grid, fun j ge lt => Option.map_eq_none_iff.1 (before j ge lt), ?_⟩
  have here : f count = some (Digits.ofScaled k (m.place - count)) := by
    dsimp only [f]
    rw [grid, Option.map_some]
  rw [shortest, search, here, Option.getD_some]

namespace Found

variable {count : ℕ}

theorem rounds (h : m.Found count k) : Rounds (k * 10 ^ (m.place - count)) m :=
  (rounds_of_onGrid? h.grid).1

/-- The decimal has its first digit at the place of the value, or is the next power of ten. -/
theorem bounds (h : m.Found count k) (positive : m ≠ zero) :
    10 ^ (count - 1) ≤ k ∧ k ≤ 10 ^ count := by
  obtain ⟨lower, upper⟩ := place_spec positive
  have first : 10 ^ (count - 1) ≤ m.below (m.place - count) := by
    rw [le_below_iff, pow_pred_mul_zpow h.pos]
    exact lower
  have second : ¬ 10 ^ count ≤ m.below (m.place - count) := by
    rw [le_below_iff, pow_mul_zpow]
    exact upper.not_ge
  have next := (rounds_of_onGrid? h.grid).2
  omega

/-- No decimal with fewer digits is rounded to the magnitude. -/
theorem count_le (h : m.Found count k) (positive : m ≠ zero) (finite : m ≠ infinity) {n : ℕ}
    (rounds : Rounds (n * 10 ^ exponent) m) : count ≤ (Numeral.ofNat n).length := by
  by_contra fewer
  let length := (Numeral.ofNat n).length
  have missing := h.first length (Numeral.length_ofNat_pos n) (by omega)
  by_cases coarse : m.place - length ≤ exponent
  · -- The decimal itself is on the grid with so many digits.
    obtain ⟨zeros, steps⟩ : ∃ zeros : ℕ, exponent - zeros = m.place - length :=
      ⟨(exponent - (m.place - length)).toNat, by omega⟩
    refine onGrid?_ne_none (k := n * 10 ^ zeros) finite ?_ missing
    rwa [← steps, Nat.cast_mul, mul_assoc, pow_mul_zpow]
  · -- The decimal is below the power of ten that the value starts with, which is on the grid.
    refine onGrid?_ne_none (k := 10 ^ (length - 1)) finite ?_ missing
    rw [pow_pred_mul_zpow (Numeral.length_ofNat_pos n)]
    refine rounds.between (.self m) finite ?_ (place_spec positive).1
    have small : (n : ℚ) ≤ 10 ^ length := by exact_mod_cast (Numeral.lt_pow_length n).le
    calc
      (n : ℚ) * 10 ^ exponent ≤ 10 ^ length * 10 ^ exponent :=
        mul_le_mul_of_nonneg_right small (zpow_pos Nat.ofNat_pos _).le
      _ = 10 ^ (length + exponent) := by rw [zpow_add₀ (OfNat.ofNat_ne_zero 10), zpow_natCast]
      _ ≤ 10 ^ (m.place - 1) := zpow_le_zpow_right₀ Nat.one_le_ofNat (by omega)

end Found

/-! ### The shortest decimal -/

section Shortest

variable (positive : m ≠ zero)
include positive

theorem rounds_shortest : Rounds m.shortest.value m := by
  obtain ⟨count, k, found⟩ := exists_found positive
  rw [found.shortest_eq, Digits.value_ofScaled]
  exact found.rounds

theorem isDigit_shortest : ∀ c ∈ m.shortest.digits, c.isDigit = true := by
  obtain ⟨count, k, found⟩ := exists_found positive
  rw [found.shortest_eq]
  exact Digits.isDigit_ofScaled

theorem shortest_ne_nil : m.shortest.digits ≠ [] := by
  obtain ⟨count, k, found⟩ := exists_found positive
  rw [found.shortest_eq]
  exact Digits.ofScaled_ne_nil ((Nat.pow_pos (by decide)).trans_le (found.bounds positive).1)

/-- No decimal that is rounded to the magnitude has fewer digits. -/
theorem length_shortest_le (finite : m ≠ infinity) {n : ℕ} (h : Rounds (n * 10 ^ exponent) m) :
    m.shortest.digits.length ≤ (Numeral.ofNat n).length := by
  obtain ⟨count, k, found⟩ := exists_found positive
  rw [found.shortest_eq]
  exact (Digits.length_ofScaled_le found.pos (found.bounds positive).2).trans
    (found.count_le positive finite h)

/-- The shortest decimal is below a power of ten if and only if the value is, if the power of ten is
not rounded down. -/
theorem place_shortest_le_iff {t : ℤ} (notDown : 10 ^ t ≤ (ofDecimal 1 t).value) :
    m.shortest.place ≤ t ↔ m.value < 10 ^ t := by
  obtain ⟨count, k, found⟩ := exists_found positive
  obtain ⟨lower, upper⟩ := found.bounds positive
  obtain ⟨first, last⟩ := place_spec positive
  have power : (0 : ℚ) < 10 ^ (m.place - count) := zpow_pos Nat.ofNat_pos _
  have lower' : (10 : ℚ) ^ (m.place - 1) ≤ k * 10 ^ (m.place - count) := by
    rw [← pow_pred_mul_zpow found.pos]
    exact mul_le_mul_of_nonneg_right (Nat.cast_le.2 lower) power.le
  have upper' : (k * 10 ^ (m.place - count) : ℚ) ≤ 10 ^ m.place := by
    rw [← pow_mul_zpow count m.place]
    exact mul_le_mul_of_nonneg_right (Nat.cast_le.2 upper) power.le
  rw [found.shortest_eq, Digits.place_ofScaled_le_iff ((Nat.pow_pos (by decide)).trans_le lower)]
  constructor
  · intro below
    by_contra above
    have start : t < m.place :=
      (zpow_lt_zpow_iff_right₀ Nat.one_lt_ofNat).1 ((le_of_not_gt above).trans_lt last)
    exact below.not_ge ((zpow_le_zpow_right₀ Nat.one_le_ofNat (by omega)).trans lower')
  · intro below
    have start : m.place - 1 < t :=
      (zpow_lt_zpow_iff_right₀ Nat.one_lt_ofNat).1 (first.trans_lt below)
    refine lt_of_le_of_ne
      (upper'.trans (zpow_le_zpow_right₀ Nat.one_le_ofNat (by omega))) fun e => ?_
    have rounds : Rounds ((1 : ℕ) * 10 ^ t) m := by
      rw [Nat.cast_one, one_mul, ← e]
      exact found.rounds
    rw [ofDecimal_eq_iff.2 rounds] at notDown
    exact below.not_ge notDown

end Shortest

end Magnitude

end BearLex
