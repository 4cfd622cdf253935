import BearLex.Number.Magnitude.Lemmas
import Mathlib.Algebra.Order.Field.Basic
import Mathlib.Algebra.Order.Field.Power
import Mathlib.Algebra.Order.Field.Rat
import Mathlib.Tactic.Linarith
import Mathlib.Tactic.NormNum
import Mathlib.Tactic.Ring

/-! Rounding to binary64: to the nearest number, of two that are equally near to the one with the
even significand, and to infinity from half a step above the greatest number on. -/

namespace BearLex

/-- A finite number of binary64 that is not negative. The significand has at most 53 bits, and no
fewer unless the exponent is the least. -/
structure Floating where
  significand : ℕ
  exponent : ℤ
  significand_lt : significand < 2 ^ 53
  le_exponent : -1074 ≤ exponent
  exponent_le : exponent ≤ 971
  normal : exponent = -1074 ∨ 2 ^ 52 ≤ significand

def Floating.value (f : Floating) : ℚ :=
  f.significand * 2 ^ f.exponent

namespace Magnitude

/-- The value of a finite magnitude. -/
def value (m : Magnitude) : ℚ :=
  m.units / one

/-- `m` is the binary64 number that `q` is rounded to. -/
inductive Rounds (q : ℚ) : Magnitude → Prop
  | finite {m : Magnitude} (f : Floating) (finite : m ≠ infinity) (value : m.value = f.value)
    (below : q < 2 ^ 1024 - 2 ^ 970)
    (nearest : ∀ g : Floating, |q - f.value| ≤ |q - g.value|)
    (even : ∀ g : Floating, g ≠ f → |q - f.value| = |q - g.value| → Even f.significand) :
    Rounds q m
  | overflow (above : 2 ^ 1024 - 2 ^ 970 ≤ q) : Rounds q infinity

end Magnitude

open Magnitude

theorem Magnitude.cast_two_pow (n : ℕ) : ((Nat.pow 2 n : ℕ) : ℚ) = 2 ^ n := by
  rw [Nat.pow_eq, Nat.cast_pow, Nat.cast_ofNat]

theorem Magnitude.cast_one : (one : ℚ) = 2 ^ 1074 :=
  cast_two_pow 1074

theorem Magnitude.cast_one_pos : (0 : ℚ) < one := by
  rw [cast_one]
  exact pow_pos two_pos _

theorem Magnitude.one_pos : 0 < one :=
  Nat.cast_pos.1 cast_one_pos

namespace Floating

/-- The place of the number among the numbers of binary64 in order. -/
def rank (f : Floating) : ℕ :=
  (f.exponent + 1074).toNat * 2 ^ 52 + f.significand

theorem scaled (f : Floating) : Scaled f.rank f.significand (f.exponent + 1074).toNat :=
  ⟨rfl, f.significand_lt, f.normal.imp (fun least => by omega) id⟩

theorem rank_lt (f : Floating) : f.rank < top := by
  have := f.significand_lt
  have := f.exponent_le
  have : top = 2047 * 2 ^ 52 := rfl
  unfold rank
  omega

theorem exists_rank_eq {r : ℕ} (h : r < top) : ∃ f : Floating, f.rank = r := by
  obtain ⟨significand, exponent, scaled⟩ := exists_scaled r
  have rank_eq := scaled.rank_eq
  have : top = 2047 * 2 ^ 52 := rfl
  refine ⟨⟨significand, exponent - 1074, scaled.lt, by omega, ?_, ?_⟩, ?_⟩
  · have := scaled.normal
    omega
  · exact scaled.normal.imp (fun least => by omega) id
  · have cancel : ((exponent : ℤ) - 1074 + 1074).toNat = exponent := by omega
    simp only [rank, cancel, ← rank_eq]

theorem eq_of_rank_eq {f g : Floating} (h : f.rank = g.rank) : f = g := by
  obtain ⟨s, e, lt, le, _, normal⟩ := f
  obtain ⟨s', e', lt', le', _, normal'⟩ := g
  simp only [rank] at h
  have same : e = e' := by omega
  subst same
  congr
  omega

theorem value_eq (f : Floating) : f.value = unitsAt f.rank / one := by
  obtain ⟨steps, least⟩ : ∃ steps : ℕ, f.exponent = steps - 1074 :=
    ⟨(f.exponent + 1074).toNat, by have := f.le_exponent; omega⟩
  have cancel : ((steps : ℤ) - 1074 + 1074).toNat = steps := by omega
  rw [f.scaled.unitsAt_eq, value, least, cancel, zpow_sub₀ two_ne_zero, zpow_natCast, cast_one,
    Nat.cast_mul, Nat.cast_pow, Nat.cast_ofNat, mul_div_assoc]
  rfl

theorem even_iff (f : Floating) : Even f.significand ↔ Even f.rank := by
  rw [Nat.even_iff, Nat.even_iff, f.scaled.even_iff]

end Floating

namespace Magnitude

/-! ### Half way between neighbours -/

section Distance

variable {a b x : ℚ}

theorem abs_sub_le_iff_upper (h : a < b) : |x - b| ≤ |x - a| ↔ a + b ≤ 2 * x := by
  rcases abs_cases (x - a) with ⟨ha, _⟩ | ⟨ha, _⟩ <;>
    rcases abs_cases (x - b) with ⟨hb, _⟩ | ⟨hb, _⟩ <;>
    rw [ha, hb] <;> constructor <;> intro <;> linarith

theorem abs_sub_le_iff_lower (h : a < b) : |x - a| ≤ |x - b| ↔ 2 * x ≤ a + b := by
  rcases abs_cases (x - a) with ⟨ha, _⟩ | ⟨ha, _⟩ <;>
    rcases abs_cases (x - b) with ⟨hb, _⟩ | ⟨hb, _⟩ <;>
    rw [ha, hb] <;> constructor <;> intro <;> linarith

theorem abs_sub_eq_iff (h : a < b) : |x - a| = |x - b| ↔ 2 * x = a + b := by
  rw [le_antisymm_iff, abs_sub_le_iff_lower h, abs_sub_le_iff_upper h, le_antisymm_iff]

end Distance

/-- In units, `x` is at least half way up to the rank from the one below it, and at most half way up
to the one above it. Right in the middle between two ranks, the even one counts. -/
structure Near (x : ℚ) (rank : ℕ) : Prop where
  lower : ∀ below, below + 1 = rank →
    (unitsAt below + unitsAt rank : ℚ) ≤ 2 * x ∧
      ((unitsAt below + unitsAt rank : ℚ) = 2 * x → Even rank)
  upper : 2 * x ≤ unitsAt rank + unitsAt (rank + 1) ∧
    (2 * x = unitsAt rank + unitsAt (rank + 1) → Even rank)

theorem unitsAt_cast_lt {r s : ℕ} : (unitsAt r : ℚ) < unitsAt s ↔ r < s := by
  rw [Nat.cast_lt, strictMono_unitsAt.lt_iff_lt]

theorem unitsAt_cast_le {r s : ℕ} : (unitsAt r : ℚ) ≤ unitsAt s ↔ r ≤ s := by
  rw [Nat.cast_le, strictMono_unitsAt.le_iff_le]

theorem unitsAt_cast_lt_succ (r : ℕ) : (unitsAt r : ℚ) < unitsAt (r + 1) :=
  unitsAt_cast_lt.2 r.lt_succ_self

namespace Near

variable {x y z : ℚ} {r s : ℕ}

/-- From the rank up, the lower bound is met. -/
theorem of_ge (ge : (unitsAt r : ℚ) ≤ x)
    (upper : 2 * x ≤ unitsAt r + unitsAt (r + 1) ∧
      (2 * x = unitsAt r + unitsAt (r + 1) → Even r)) : Near x r := by
  refine ⟨?_, upper⟩
  rintro b rfl
  have := unitsAt_cast_lt_succ b
  exact ⟨by linarith, fun e => by linarith⟩

/-- Down from the rank, the upper bound is met. -/
theorem of_le (le : x ≤ unitsAt (r + 1))
    (lower : (unitsAt r + unitsAt (r + 1) : ℚ) ≤ 2 * x ∧
      ((unitsAt r + unitsAt (r + 1) : ℚ) = 2 * x → Even (r + 1))) : Near x (r + 1) := by
  have := unitsAt_cast_lt_succ (r + 1)
  refine ⟨?_, by linarith, fun e => by linarith⟩
  rintro b hb
  obtain rfl : b = r := by omega
  exact lower

/-- Strictly between the two middles, no tie is to be broken. -/
theorem of_lt (lower : ∀ b, b + 1 = r → (unitsAt b + unitsAt r : ℚ) < 2 * x)
    (upper : 2 * x < unitsAt r + unitsAt (r + 1)) : Near x r :=
  ⟨fun b hb => ⟨(lower b hb).le, fun e => absurd e (lower b hb).ne⟩, upper.le,
    fun e => absurd e upper.ne⟩

/-- Every rank is near its own value. -/
theorem self (r : ℕ) : Near (unitsAt r) r := by
  have := unitsAt_cast_lt_succ r
  refine of_lt ?_ (by linarith)
  rintro b rfl
  have := unitsAt_cast_lt_succ b
  linarith

/-- Of two numbers around the value of a rank that are less apart than the middles, one is near the
rank. -/
theorem of_close (below : x ≤ unitsAt (r + 1)) (above : unitsAt (r + 1) ≤ y)
    (close : 2 * (y - x) < unitsAt (r + 2) - unitsAt r) : Near x (r + 1) ∨ Near y (r + 1) := by
  have first := unitsAt_cast_lt_succ r
  have second := unitsAt_cast_lt_succ (r + 1)
  by_cases middle : (unitsAt r + unitsAt (r + 1) : ℚ) < 2 * x
  · refine .inl (of_lt ?_ (by linarith))
    rintro b hb
    obtain rfl : b = r := by omega
    exact middle
  · refine .inr (of_lt ?_ (by linarith))
    rintro b hb
    obtain rfl : b = r := by omega
    linarith

/-- What is near a rank forms an interval. -/
theorem between (hx : Near x r) (hz : Near z r) (above : x ≤ y) (below : y ≤ z) : Near y r := by
  refine ⟨fun b hb => ⟨?_, fun e => ?_⟩, ?_, fun e => ?_⟩
  · linarith [(hx.lower b hb).1]
  · exact (hx.lower b hb).2 (by linarith [(hx.lower b hb).1])
  · linarith [hz.upper.1]
  · exact hz.upper.2 (by linarith [hz.upper.1])

theorem not_lt (hr : Near x r) (hs : Near x s) : ¬ r < s := by
  intro lt
  obtain ⟨b, rfl⟩ : ∃ b, s = b + 1 := ⟨s - 1, by omega⟩
  have first : (unitsAt r : ℚ) ≤ unitsAt b := unitsAt_cast_le.2 (by omega)
  have second : (unitsAt (r + 1) : ℚ) ≤ unitsAt (b + 1) := unitsAt_cast_le.2 (by omega)
  have upper := hr.upper.1
  have lower := (hs.lower b rfl).1
  -- Only the middle between two neighbours is left, and it is near the even one of them.
  have even := hr.upper.2 (by linarith)
  have even' := (hs.lower b rfl).2 (by linarith)
  have adjacent : b ≤ r := unitsAt_cast_le.1 (by linarith)
  obtain rfl : b = r := by omega
  exact Nat.not_even_iff_odd.2 even.add_one even'

theorem unique (hr : Near x r) (hs : Near x s) : r = s := by
  have := hr.not_lt hs
  have := hs.not_lt hr
  omega

/-- No rank is nearer, and if another one is equally near, then the rank is even. -/
theorem abs_le (h : Near x r) (s : ℕ) :
    |x - unitsAt r| ≤ |x - unitsAt s| ∧
      (s ≠ r → |x - unitsAt r| = |x - unitsAt s| → Even r) := by
  rcases Nat.lt_trichotomy s r with lt | rfl | lt
  · obtain ⟨b, rfl⟩ : ∃ b, r = b + 1 := ⟨r - 1, by omega⟩
    have first : (unitsAt s : ℚ) ≤ unitsAt b := unitsAt_cast_le.2 (by omega)
    have second : (unitsAt s : ℚ) < unitsAt (b + 1) := unitsAt_cast_lt.2 lt
    have lower := (h.lower b rfl).1
    refine ⟨(abs_sub_le_iff_upper second).2 (by linarith), fun _ e => (h.lower b rfl).2 ?_⟩
    have := (abs_sub_eq_iff second).1 e.symm
    linarith
  · exact ⟨le_rfl, fun ne => absurd rfl ne⟩
  · have first : (unitsAt (r + 1) : ℚ) ≤ unitsAt s := unitsAt_cast_le.2 lt
    have second : (unitsAt r : ℚ) < unitsAt s := unitsAt_cast_lt.2 lt
    have upper := h.upper.1
    refine ⟨(abs_sub_le_iff_lower second).2 (by linarith), fun _ e => h.upper.2 ?_⟩
    have := (abs_sub_eq_iff second).1 e
    linarith

/-- A finite rank to which no finite rank is preferred is near everything below the middle of the
last two ranks. -/
theorem of_abs_le (finite : r < top) (below : 2 * x < unitsAt (top - 1) + unitsAt top)
    (nearest : ∀ s < top, |x - unitsAt r| ≤ |x - unitsAt s|)
    (even : ∀ s < top, s ≠ r → |x - unitsAt r| = |x - unitsAt s| → Even r) : Near x r := by
  constructor
  · rintro b rfl
    have lt := unitsAt_cast_lt_succ b
    refine ⟨(abs_sub_le_iff_upper lt).1 (nearest b (by omega)), fun e => ?_⟩
    exact even b (by omega) b.lt_succ_self.ne ((abs_sub_eq_iff lt).2 e.symm).symm
  · by_cases last : r + 1 = top
    · obtain rfl : top - 1 = r := by omega
      rw [last]
      exact ⟨below.le, fun e => absurd e below.ne⟩
    · have lt := unitsAt_cast_lt_succ r
      refine ⟨(abs_sub_le_iff_lower lt).1 (nearest (r + 1) (by omega)), fun e => ?_⟩
      exact even (r + 1) (by omega) r.succ_ne_self ((abs_sub_eq_iff lt).2 e)

end Near

/-! ### Rounding by ranks -/

/-- Half way from the greatest finite number to the one that would follow it. -/
theorem unitsAt_last_add_top :
    (unitsAt (top - 1) + unitsAt top : ℚ) = 2 * ((2 ^ 1024 - 2 ^ 970) * one) := by
  have last : (unitsAt (top - 1) : ℚ) = (2 ^ 53 - 1) * 2 ^ 2045 := by
    rw [scaled_last.unitsAt_eq, Nat.cast_mul, Nat.cast_pow]
    norm_num
  have next : (unitsAt top : ℚ) = 2 ^ 53 * 2 ^ 2045 := by
    rw [scaled_top.unitsAt_eq, Nat.cast_mul, Nat.cast_pow, Nat.cast_pow, Nat.cast_ofNat, ← pow_add,
      ← pow_add]
  have limit : (2 ^ 1024 : ℚ) = 2 ^ 54 * 2 ^ 970 := by rw [← pow_add]
  have scale : (2 ^ 2045 : ℚ) = 2 * 2 ^ 970 * 2 ^ 1074 := by rw [← pow_succ', ← pow_add]
  rw [last, next, limit, scale, cast_one]
  ring

variable {q : ℚ} {m m' : Magnitude} {r : ℕ}

theorem value_eq (f : Floating) : f.value = (ofRank f.rank).value := by
  rw [f.value_eq, value, units, rank_ofRank f.rank_lt.le]

theorem abs_sub_value (q : ℚ) (f : Floating) :
    |q - f.value| * one = |q * one - unitsAt f.rank| := by
  rw [← abs_of_pos cast_one_pos, ← abs_mul, abs_of_pos cast_one_pos, sub_mul, f.value_eq,
    div_mul_cancel₀ _ cast_one_pos.ne']

theorem lt_limit_iff :
    2 * (q * one) < unitsAt (top - 1) + unitsAt top ↔ q < 2 ^ 1024 - 2 ^ 970 := by
  rw [unitsAt_last_add_top, mul_lt_mul_iff_right₀ two_pos, mul_lt_mul_iff_left₀ cast_one_pos]

theorem Near.lt_top_iff (h : Near (q * one) r) : r < top ↔ q < 2 ^ 1024 - 2 ^ 970 := by
  rw [← lt_limit_iff]
  constructor
  · intro finite
    have first : (unitsAt r : ℚ) ≤ unitsAt (top - 1) := unitsAt_cast_le.2 (by omega)
    have second : (unitsAt (r + 1) : ℚ) ≤ unitsAt top := unitsAt_cast_le.2 (by omega)
    -- The last finite rank is odd, so the middle above it is not near it.
    refine lt_of_le_of_ne (by linarith [h.upper.1]) fun e => ?_
    have last : top - 1 ≤ r := unitsAt_cast_le.1 (by linarith [h.upper.1])
    obtain rfl : r = top - 1 := by omega
    exact absurd (h.upper.2 e) (by decide)
  · intro below
    by_contra infinite
    obtain ⟨b, rfl⟩ : ∃ b, r = b + 1 := ⟨r - 1, by have : 0 < top := (by decide); omega⟩
    have first : (unitsAt (top - 1) : ℚ) ≤ unitsAt b := unitsAt_cast_le.2 (by omega)
    have second : (unitsAt top : ℚ) ≤ unitsAt (b + 1) := unitsAt_cast_le.2 (by omega)
    linarith [(h.lower b rfl).1]

theorem Near.rounds (h : Near (q * one) r) : Rounds q (ofRank r) := by
  by_cases finite : r < top
  · have below := h.lt_top_iff.1 finite
    obtain ⟨f, rfl⟩ := Floating.exists_rank_eq finite
    refine .finite f (fun e => ?_) (value_eq f).symm below (fun g => ?_) (fun g ne e => ?_)
    · exact absurd (ofRank_eq_infinity_iff.1 e) (by omega)
    · have := (h.abs_le g.rank).1
      rw [← abs_sub_value, ← abs_sub_value] at this
      exact le_of_mul_le_mul_right this cast_one_pos
    · refine f.even_iff.2 ((h.abs_le g.rank).2 (fun same => ne (Floating.eq_of_rank_eq same)) ?_)
      rw [← abs_sub_value, ← abs_sub_value, e]
  · rw [ofRank_eq_infinity_iff.2 (by omega)]
    exact .overflow (le_of_not_gt fun below => finite (h.lt_top_iff.2 below))

theorem Rounds.of_near (h : Near (q * one) m.rank) : Rounds q m := by
  have := h.rounds
  rwa [ofRank_rank] at this

theorem rank_eq_of_value_eq {f : Floating} (h : m.value = f.value) : m.rank = f.rank := by
  have : (unitsAt m.rank : ℚ) = unitsAt f.rank := by
    rwa [f.value_eq, value, div_left_inj' cast_one_pos.ne'] at h
  exact strictMono_unitsAt.injective (Nat.cast_injective this)

namespace Rounds

theorem near (h : Rounds q m) (finite : m ≠ infinity) : Near (q * one) m.rank := by
  cases h with
  | overflow => exact absurd rfl finite
  | finite f _ value below nearest even =>
    rw [rank_eq_of_value_eq value]
    refine .of_abs_le f.rank_lt (lt_limit_iff.2 below) (fun s hs => ?_) (fun s hs ne e => ?_)
    · obtain ⟨g, rfl⟩ := Floating.exists_rank_eq hs
      rw [← abs_sub_value, ← abs_sub_value]
      exact mul_le_mul_of_nonneg_right (nearest g) cast_one_pos.le
    · obtain ⟨g, rfl⟩ := Floating.exists_rank_eq hs
      refine f.even_iff.1 (even g (fun same => ne (congrArg _ same)) ?_)
      rw [← abs_sub_value, ← abs_sub_value] at e
      exact mul_right_cancel₀ cast_one_pos.ne' e

theorem eq_infinity_iff (h : Rounds q m) : m = infinity ↔ 2 ^ 1024 - 2 ^ 970 ≤ q := by
  cases h with
  | overflow above => exact iff_of_true rfl above
  | finite _ finite _ below => exact iff_of_false finite below.not_ge

theorem unique (h : Rounds q m) (h' : Rounds q m') : m = m' := by
  by_cases infinite : m = infinity
  · rw [infinite, h'.eq_infinity_iff.2 (h.eq_infinity_iff.1 infinite)]
  · have infinite' : m' ≠ infinity := fun e =>
      infinite (h.eq_infinity_iff.2 (h'.eq_infinity_iff.1 e))
    rw [← ofRank_rank m, ← ofRank_rank m', (h.near infinite).unique (h'.near infinite')]

theorem eq_zero_iff (h : Rounds q m) : m = zero ↔ q ≤ 1 / 2 ^ 1075 := by
  have half : q ≤ 1 / 2 ^ 1075 ↔ 2 * (q * one) ≤ 1 := by
    rw [le_div_iff₀ (pow_pos two_pos _), pow_succ, cast_one, mul_comm 2 (q * _), mul_assoc]
  have ends : (unitsAt 0 + unitsAt (0 + 1) : ℚ) = 1 := by
    rw [unitsAt_zero, unitsAt_one, Nat.cast_zero, Nat.cast_one, zero_add]
  rw [half]
  constructor
  · rintro rfl
    have upper := (h.near (by decide)).upper.1
    rwa [rank_zero, ends] at upper
  · intro below
    have near : Near (q * one) 0 :=
      ⟨fun b hb => absurd hb b.succ_ne_zero, below.trans_eq ends.symm, fun _ => ⟨0, rfl⟩⟩
    exact h.unique near.rounds

/-- A finite magnitude is what its own value is rounded to. -/
theorem self (m : Magnitude) : Rounds m.value m := by
  refine .of_near ?_
  rw [value, div_mul_cancel₀ _ cast_one_pos.ne']
  exact .self _

/-- What is rounded to a finite magnitude forms an interval. -/
theorem between {x y : ℚ} (hx : Rounds x m) (hy : Rounds y m) (finite : m ≠ infinity)
    (above : x ≤ q) (below : q ≤ y) : Rounds q m :=
  .of_near ((hx.near finite).between (hy.near finite)
    (mul_le_mul_of_nonneg_right above cast_one_pos.le)
    (mul_le_mul_of_nonneg_right below cast_one_pos.le))

end Rounds

/-! ### The rounding of a fraction -/

theorem near_nearest (num : ℕ) {den : ℕ} (h : 0 < den) :
    ∃ r, nearest num den = ofRank r ∧ Near (num / den * one) r := by
  have positive : (0 : ℚ) < den := Nat.cast_pos.2 h
  let below := rankBelow (num * one / den)
  let x : ℚ := num / den * one
  have scaled : x * den = (num * one : ℕ) := by
    rw [Nat.cast_mul, mul_right_comm, div_mul_cancel₀ _ positive.ne']
  have ge : (unitsAt below : ℚ) ≤ x := by
    rw [← mul_le_mul_iff_left₀ positive, scaled, ← Nat.cast_mul, Nat.cast_le]
    exact (Nat.le_div_iff_mul_le h).1 (unitsAt_rankBelow_le _)
  have lt : x < unitsAt (below + 1) := by
    rw [← mul_lt_mul_iff_left₀ positive, scaled, ← Nat.cast_mul, Nat.cast_lt]
    exact (Nat.div_lt_iff_lt_mul h).1 (lt_unitsAt_rankBelow_succ _)
  have lower : 2 * (num * one) < (unitsAt below + unitsAt (below + 1)) * den ↔
      2 * x < unitsAt below + unitsAt (below + 1) := by
    rw [← mul_lt_mul_iff_left₀ positive, mul_assoc 2 x, scaled]
    exact_mod_cast Iff.rfl
  have tie : 2 * (num * one) = (unitsAt below + unitsAt (below + 1)) * den ↔
      2 * x = unitsAt below + unitsAt (below + 1) := by
    rw [← mul_left_inj' positive.ne', mul_assoc 2 x, scaled]
    exact_mod_cast Iff.rfl
  unfold nearest
  dsimp only
  split
  case isTrue down =>
    rw [lower, tie, ← Nat.even_iff] at down
    refine ⟨below, rfl, .of_ge ge ⟨?_, fun e => ?_⟩⟩
    · exact down.elim le_of_lt fun same => same.1.le
    · exact down.elim (fun less => absurd e less.ne) And.right
  case isFalse up =>
    rw [lower, tie, ← Nat.even_iff] at up
    obtain ⟨notLess, odd⟩ := not_or.1 up
    refine ⟨below + 1, rfl, .of_le lt.le ⟨le_of_not_gt notLess, fun e => ?_⟩⟩
    exact (Nat.not_even_iff_odd.1 fun even => odd ⟨e.symm, even⟩).add_one

theorem rounds_nearest (num : ℕ) {den : ℕ} (h : 0 < den) :
    Rounds (num / den) (nearest num den) := by
  obtain ⟨r, e, near⟩ := near_nearest num h
  rw [e]
  exact near.rounds

theorem rounds_ofDecimal (digits : ℕ) (exponent : ℤ) :
    Rounds (digits * 10 ^ exponent) (ofDecimal digits exponent) := by
  unfold ofDecimal
  split
  case isTrue whole =>
    obtain ⟨n, rfl⟩ := Int.eq_ofNat_of_zero_le whole
    have := rounds_nearest (digits * 10 ^ n) Nat.one_pos
    simpa using this
  case isFalse fraction =>
    obtain ⟨n, rfl⟩ : ∃ n : ℕ, exponent = -n := ⟨(-exponent).toNat, by omega⟩
    have := rounds_nearest digits (Nat.pow_pos (n := n) (show 0 < 10 by decide))
    simpa [div_eq_mul_inv] using this

end Magnitude

end BearLex
