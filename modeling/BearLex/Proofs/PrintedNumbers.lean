import BearLex.Proofs.NumberLiterals
import BearLex.Proofs.ShortestDigits

/-! The numbers in printed tokens. A number is printed with a point or with an exponent, and in
either notation what is printed denotes the shortest decimal of the magnitude, so it is read back.
-/

namespace BearLex

open Magnitude

/-! ### The two notations -/

/-- The text denotes the rational with digits on both sides of a point. -/
inductive Fixed : Text → ℚ → Prop
  | mk {whole decimals : Text} (nonempty : whole ≠ []) (h : ∀ c ∈ whole, c.isDigit = true)
    (nonempty' : decimals ≠ []) (h' : ∀ c ∈ decimals, c.isDigit = true) :
    Fixed (whole ++ '.' :: decimals)
      (Numeral.value whole + Numeral.value decimals / 10 ^ decimals.length)

/-- The text denotes the rational with an exponent behind a decimal. -/
inductive Exponential : Text → ℚ → Prop
  | mk {s shift : Text} (pointed : Reading.Pointed s) (negative : Bool) (nonempty : shift ≠ [])
    (h : ∀ c ∈ shift, c.isDigit = true) :
    Exponential (s ++ Reading.exponent negative shift)
      (Reading.rational s * 10 ^ Reading.signedValue negative shift)

/-- What is written in one of the notations is read, as what it denotes is rounded to. -/
theorem Fixed.reads {s : Text} {q : ℚ} (h : Fixed s q) :
    ∃ m, Reading.binary64? s = some (.signed false m) ∧ Rounds q m := by
  obtain ⟨nonempty, h, nonempty', h'⟩ := h
  have pointed := Reading.Pointed.fraction nonempty h nonempty' h'
  refine ⟨_, Reading.binary64?_of_pointed pointed, ?_⟩
  have rounds := Reading.rounds_pointed pointed
  rwa [Reading.rational, Text.takeWhile_append_cons h (by decide),
    Text.dropWhile_append_cons h (by decide), List.tail_cons] at rounds

theorem Exponential.reads {s : Text} {q : ℚ} (h : Exponential s q) :
    ∃ m, Reading.binary64? s = some (.signed false m) ∧ Rounds q m := by
  obtain ⟨pointed, negative, nonempty, h⟩ := h
  refine ⟨_, Reading.binary64?_exponent nonempty h pointed negative, ?_⟩
  rw [pointed.rational_eq, mul_assoc, ← zpow_add₀ (OfNat.ofNat_ne_zero 10), add_comm,
    ← sub_eq_add_neg]
  exact Reading.rounds_magnitude (fun c hc => (List.mem_filter.1 hc).2) _

/-! ### Digits as they are written -/

theorem Numeral.value_leftpad_zero (n : ℕ) (s : Text) : value (s.leftpad n '0') = value s := by
  rw [List.leftpad, value_append, value_replicate_zero, Nat.zero_mul, Nat.zero_add]

theorem Numeral.signedValue_natAbs (z : ℤ) (s : Text) (h : value s = z.natAbs) :
    Reading.signedValue (decide (z < 0)) s = z := by
  unfold Reading.signedValue
  split
  case isTrue negative =>
    have := of_decide_eq_true negative
    omega
  case isFalse negative =>
    have := of_decide_eq_false (Bool.not_eq_true _ ▸ negative)
    omega

/-- The texts before and behind a point are the digits with zeros around them, and the point stands
at the place of the digits. -/
structure Digits.Placed (d : Digits) (whole decimals : Text) (zeros zeros' : ℕ) : Prop where
  whole_ne_nil : whole ≠ []
  decimals_ne_nil : decimals ≠ []
  append_eq : whole ++ decimals =
    List.replicate zeros '0' ++ (d.digits ++ List.replicate zeros' '0')
  place_add : d.place + decimals.length = d.digits.length + zeros'

namespace Digits.Placed

variable {d : Digits} {whole decimals : Text} {zeros zeros' : ℕ}

theorem isDigit (p : d.Placed whole decimals zeros zeros') (h : ∀ c ∈ d.digits, c.isDigit = true) :
    ∀ c ∈ whole ++ decimals, c.isDigit = true := by
  intro c mem
  rw [p.append_eq] at mem
  simp only [List.mem_append] at mem
  rcases mem with zero | digit | zero
  · rw [List.eq_of_mem_replicate zero]
    rfl
  · exact h c digit
  · rw [List.eq_of_mem_replicate zero]
    rfl

theorem fixed (p : d.Placed whole decimals zeros zeros') (h : ∀ c ∈ d.digits, c.isDigit = true) :
    Fixed (whole ++ '.' :: decimals) d.value := by
  have digits := p.isDigit h
  have value : d.value = Numeral.value whole + Numeral.value decimals / 10 ^ decimals.length := by
    have shift : d.place - d.digits.length = (zeros' : ℤ) - decimals.length := by
      have := p.place_add
      omega
    rw [← Reading.value_append_div, p.append_eq, Numeral.value_append, Numeral.value_append,
      Numeral.value_replicate_zero, Numeral.value_replicate_zero, List.length_replicate,
      Nat.zero_mul, Nat.zero_add, Nat.add_zero, Digits.value, shift,
      zpow_sub₀ (OfNat.ofNat_ne_zero 10), zpow_natCast, zpow_natCast, Nat.cast_mul, Nat.cast_pow,
      Nat.cast_ofNat, mul_div_assoc]
  rw [value]
  exact .mk p.whole_ne_nil (fun c mem => digits c (List.mem_append_left _ mem)) p.decimals_ne_nil
    (fun c mem => digits c (List.mem_append_right _ mem))

end Digits.Placed

namespace Binary64

variable {d : Digits} (nonempty : d.digits ≠ [])
include nonempty

/-- The three ways to write digits with a point, by the place of the point. -/
theorem exists_placed : ∃ whole decimals zeros zeros',
    d.Placed whole decimals zeros zeros' ∧ positional d = whole ++ '.' :: decimals := by
  have length := List.length_pos_iff.2 nonempty
  unfold positional
  split
  case isTrue front =>
    obtain ⟨zeros, place⟩ : ∃ zeros : ℕ, d.place = -zeros := ⟨(-d.place).toNat, by omega⟩
    have places : (-d.place).toNat = zeros := by omega
    rw [places]
    refine ⟨['0'], List.replicate zeros '0' ++ d.digits, zeros + 1, 0, ⟨?_, ?_, ?_, ?_⟩, rfl⟩
    · exact List.cons_ne_nil _ _
    · exact List.append_ne_nil_of_right_ne_nil _ nonempty
    · rw [List.replicate_succ, List.replicate_zero, List.append_nil]
      rfl
    · rw [List.length_append, List.length_replicate]
      omega
  case isFalse behind =>
    obtain ⟨k, place⟩ : ∃ k : ℕ, d.place = k := ⟨d.place.toNat, by omega⟩
    have places : d.place.toNat = k := by omega
    rw [places]
    split
    case isTrue inside =>
      refine ⟨d.digits.take k, d.digits.drop k, 0, 0, ⟨?_, ?_, ?_, ?_⟩, rfl⟩
      · exact List.ne_nil_of_length_pos (by rw [List.length_take]; omega)
      · exact List.ne_nil_of_length_pos (by rw [List.length_drop]; omega)
      · simp
      · rw [List.length_drop]
        omega
    case isFalse beyond =>
      refine ⟨d.digits ++ List.replicate (k - d.digits.length) '0', ['0'], 0,
        k - d.digits.length + 1, ⟨?_, ?_, ?_, ?_⟩, ?_⟩
      · exact List.append_ne_nil_of_left_ne_nil nonempty _
      · exact List.cons_ne_nil _ _
      · rw [List.replicate_succ']
        simp
      · rw [List.length_singleton]
        omega
      · rfl

/-- Digits that are written with a point denote themselves. -/
theorem fixed_positional (h : ∀ c ∈ d.digits, c.isDigit = true) : Fixed (positional d) d.value := by
  obtain ⟨whole, decimals, zeros, zeros', placed, e⟩ := exists_placed nonempty
  rw [e]
  exact placed.fixed h

/-- The exponent that digits are written with. -/
def shift (d : Digits) : Text :=
  (Numeral.ofNat (d.place - 1).natAbs).leftpad 2 '0'

theorem exists_mantissa (h : ∀ c ∈ d.digits, c.isDigit = true) : ∃ s, Reading.Pointed s ∧
    s.filter Char.isDigit = d.digits ∧
    (s.dropWhile Char.isDigit).tail.length + 1 = d.digits.length ∧
    scientific d = s ++ Reading.exponent (decide (d.place - 1 < 0)) (shift d) := by
  obtain ⟨first, others, digits⟩ := List.exists_cons_of_ne_nil nonempty
  rw [digits] at h ⊢
  obtain ⟨leading, following⟩ := List.forall_mem_cons.1 h
  have single : ∀ c ∈ [first], c.isDigit = true := List.forall_mem_singleton.2 leading
  cases others with
  | nil =>
    refine ⟨[first], .whole (List.cons_ne_nil _ _) single, List.filter_eq_self.2 single, ?_, ?_⟩
    · rw [List.dropWhile_eq_nil_iff.2 single]
      rfl
    · simp only [scientific, digits, Reading.exponent, decide_eq_true_eq, shift]
  | cons next rest =>
    refine ⟨[first] ++ '.' :: next :: rest, ?_, ?_, ?_, ?_⟩
    · exact .fraction (List.cons_ne_nil _ _) single (List.cons_ne_nil _ _) following
    · exact Reading.filter_isDigit_append single following
    · rw [Text.dropWhile_append_cons single (by decide)]
      rfl
    · simp only [scientific, digits, Reading.exponent, decide_eq_true_eq, shift]
      rfl

/-- Digits that are written with an exponent denote themselves. -/
theorem exponential_scientific (h : ∀ c ∈ d.digits, c.isDigit = true) :
    Exponential (scientific d) d.value := by
  obtain ⟨s, pointed, digits, places, e⟩ := exists_mantissa nonempty h
  have number : Numeral.value (shift d) = (d.place - 1).natAbs := by
    rw [shift, Numeral.value_leftpad_zero, Numeral.value_ofNat]
  have exponent := Numeral.signedValue_natAbs (d.place - 1) _ number
  have value : d.value = Reading.rational s *
      10 ^ Reading.signedValue (decide (d.place - 1 < 0)) (shift d) := by
    have power : d.place - d.digits.length =
        -((s.dropWhile Char.isDigit).tail.length : ℤ) + (d.place - 1) := by omega
    rw [exponent, pointed.rational_eq, digits, mul_assoc, ← zpow_add₀ (OfNat.ofNat_ne_zero 10),
      Digits.value, power]
  rw [e, value]
  refine .mk pointed _ ?_ fun c mem => ?_
  · exact List.append_ne_nil_of_right_ne_nil _ (Numeral.ofNat_ne_nil _)
  · rcases List.mem_append.1 mem with zero | digit
    · rw [List.eq_of_mem_replicate zero]
      rfl
    · exact Numeral.isDigit_of_mem_ofNat c digit

end Binary64

/-! ### Significant digits -/

/-- The digits of a written number, without the zeros at both ends and without the exponent. -/
def significantDigits (s : Text) : Text :=
  Text.trim (· == '0') ((s.takeWhile (· != 'e')).filter Char.isDigit)

theorem Text.length_trim_le {p : Char → Bool} {a b : Text} (ha : ∀ c ∈ a, p c = true)
    (hb : ∀ c ∈ b, p c = true) (s : Text) : (trim p (a ++ (s ++ b))).length ≤ s.length := by
  have inner := (List.dropWhile_sublist (l := s) p).length_le
  have outer := (List.dropWhile_sublist (l := (s.dropWhile p).reverse) p).length_le
  rw [trim, List.dropWhile_append_of_pos ha, List.dropWhile_append]
  split
  · rw [List.dropWhile_eq_nil_iff.2 hb]
    exact Nat.zero_le _
  · have hb' : ∀ c ∈ b.reverse, p c = true := fun c mem => hb c (List.mem_reverse.1 mem)
    rw [List.reverse_append, List.dropWhile_append_of_pos hb', List.length_reverse]
    rw [List.length_reverse] at outer
    exact outer.trans inner

theorem isZero_of_mem_replicate (n : ℕ) : ∀ c ∈ List.replicate n '0', (c == '0') = true :=
  fun _ mem => beq_iff_eq.2 (List.eq_of_mem_replicate mem)

theorem Reading.Pointed.no_exponent {s : Text} (h : Pointed s) : ∀ c ∈ s, (c != 'e') = true :=
  fun c mem => forall_isDecimalMark (P := fun c => (c != 'e') = true) (by decide) (by decide)
    (h.isDecimalMark c mem)

namespace Binary64

variable {d : Digits} (nonempty : d.digits ≠ []) (h : ∀ c ∈ d.digits, c.isDigit = true)
include nonempty h

theorem length_significantDigits_positional :
    (significantDigits (positional d)).length ≤ d.digits.length := by
  obtain ⟨whole, decimals, zeros, zeros', placed, e⟩ := exists_placed nonempty
  have digits := placed.isDigit h
  have digits₁ : ∀ c ∈ whole, c.isDigit = true := fun c mem =>
    digits c (List.mem_append_left _ mem)
  have digits₂ : ∀ c ∈ decimals, c.isDigit = true := fun c mem =>
    digits c (List.mem_append_right _ mem)
  have pointed :=
    Reading.Pointed.fraction placed.whole_ne_nil digits₁ placed.decimals_ne_nil digits₂
  rw [e, significantDigits, List.takeWhile_eq_self_iff.2 pointed.no_exponent,
    Reading.filter_isDigit_append digits₁ digits₂, placed.append_eq]
  exact Text.length_trim_le (isZero_of_mem_replicate _) (isZero_of_mem_replicate _) _

theorem length_significantDigits_scientific :
    (significantDigits (scientific d)).length ≤ d.digits.length := by
  obtain ⟨s, pointed, digits, -, e⟩ := exists_mantissa nonempty h
  have none : ∀ c ∈ ([] : Text), (c == '0') = true := List.forall_mem_nil _
  have := Text.length_trim_le none none d.digits
  rw [List.nil_append, List.append_nil] at this
  rwa [e, significantDigits, Reading.exponent,
    Text.takeWhile_append_cons pointed.no_exponent (by decide), digits]

end Binary64

/-! ### Printed magnitudes -/

/-- The text is what the magnitude should be printed as: it is read back, no shorter decimal is, and
it is in the right notation. -/
structure Prints (m : Magnitude) (s : Text) : Prop where
  reads : Reading.binary64? s = some (.signed false m)
  infinite : s = "inf".toList ↔ m = infinity
  shortest : m ≠ zero → m ≠ infinity → ∀ (n : ℕ) (e : ℤ), Rounds (n * 10 ^ e) m →
    (significantDigits s).length ≤ (Numeral.ofNat n).length
  fixed : m = zero ∨ 1 / 10 ^ 4 ≤ m.value ∧ m.value < 10 ^ 16 → ∃ q, Fixed s q ∧ Rounds q m
  exponential : m ≠ zero → m ≠ infinity → m.value < 1 / 10 ^ 4 ∨ 10 ^ 16 ≤ m.value →
    ∃ q, Exponential s q ∧ Rounds q m

variable {m : Magnitude}

theorem pow_le_value {n : ℕ} (h : 10 ^ n * one ≤ m.units) : (10 : ℚ) ^ n ≤ m.value := by
  rw [value, le_div_iff₀ cast_one_pos]
  exact_mod_cast h

theorem inv_pow_le_value {n : ℕ} (h : one ≤ 10 ^ n * m.units) : 1 / (10 : ℚ) ^ n ≤ m.value := by
  rw [value, le_div_iff₀ cast_one_pos, one_div, inv_mul_le_iff₀ (pow_pos Nat.ofNat_pos n)]
  exact_mod_cast h

/-- The limits of the notation with a point are places of the first digit. -/
theorem isPositional_shortest_iff (positive : m ≠ zero) :
    Binary64.isPositional m.shortest.place = true ↔ 1 / 10 ^ 4 ≤ m.value ∧ m.value < 10 ^ 16 := by
  have least : 1 / (10 : ℚ) ^ 4 ≤ (ofDecimal 1 (-4)).value := inv_pow_le_value (by decide +kernel)
  have limit : (10 : ℚ) ^ 16 ≤ (ofDecimal 1 16).value := pow_le_value (by decide +kernel)
  have power : (10 : ℚ) ^ (-4 : ℤ) = 1 / 10 ^ 4 := by rw [zpow_neg, zpow_ofNat, one_div]
  have below := place_shortest_le_iff positive (power.trans_le least)
  have upper := place_shortest_le_iff positive ((zpow_ofNat (10 : ℚ) 16).trans_le limit)
  have lower : -3 ≤ m.shortest.place ↔ 1 / 10 ^ 4 ≤ m.value := by
    rw [power] at below
    rw [← not_lt (a := m.value), ← below]
    omega
  rw [zpow_ofNat] at upper
  rw [Binary64.isPositional, Bool.and_eq_true, decide_eq_true_eq, decide_eq_true_eq, lower, upper]

theorem binary64?_inf : Reading.binary64? "inf".toList = some (.signed false infinity) := rfl

/-- What is read back and denotes a rational is what this rational is rounded to. -/
theorem rounds_of_reads {s : Text} {q : ℚ} (reads : Reading.binary64? s = some (.signed false m))
    (h : ∃ m', Reading.binary64? s = some (.signed false m') ∧ Rounds q m') : Rounds q m := by
  obtain ⟨m', reads', rounds⟩ := h
  rw [reads] at reads'
  injection reads' with e
  injection e with _ e
  rwa [e]

theorem infinite_of_reads {s : Text} (reads : Reading.binary64? s = some (.signed false m))
    (h : m = infinity → s = "inf".toList) : s = "inf".toList ↔ m = infinity := by
  refine ⟨?_, h⟩
  rintro rfl
  rw [binary64?_inf] at reads
  injection reads with e
  injection e with _ e
  exact e.symm

theorem prints_zero : Prints zero "0.0".toList := by
  have reads : Reading.binary64? "0.0".toList = some (.signed false zero) := rfl
  have digit : ∀ c ∈ ['0'], c.isDigit = true := List.forall_mem_singleton.2 rfl
  have fixed : Fixed "0.0".toList _ :=
    .mk (List.cons_ne_nil '0' []) digit (List.cons_ne_nil '0' []) digit
  exact {
    reads
    infinite := infinite_of_reads reads (absurd · (by decide))
    shortest := fun positive => absurd rfl positive
    fixed := fun _ => ⟨_, fixed, rounds_of_reads reads fixed.reads⟩
    exponential := fun positive => absurd rfl positive }

theorem prints_infinity : Prints infinity "inf".toList := by
  have large : (10 : ℚ) ^ 16 ≤ infinity.value := pow_le_value (by decide +kernel)
  refine {
    reads := rfl
    infinite := iff_of_true rfl rfl
    shortest := fun _ finite => absurd rfl finite
    fixed := fun h => ?_
    exponential := fun _ finite => absurd rfl finite }
  rcases h with zero | ⟨-, below⟩
  · exact absurd zero (by decide)
  · exact absurd below large.not_gt

/-- A text that denotes the shortest decimal of a magnitude is read back as the magnitude. -/
theorem reads_of_shortest (positive : m ≠ zero) {s : Text}
    (h : ∃ m', Reading.binary64? s = some (.signed false m') ∧ Rounds m.shortest.value m') :
    Reading.binary64? s = some (.signed false m) := by
  obtain ⟨m', reads, rounds⟩ := h
  rw [reads, rounds.unique (rounds_shortest positive)]

theorem prints_renderMagnitude (m : Magnitude) : Prints m (Binary64.renderMagnitude m) := by
  unfold Binary64.renderMagnitude
  split
  case isTrue none =>
    rw [none]
    exact prints_zero
  split
  case isTrue infinite =>
    rw [infinite]
    exact prints_infinity
  rename_i positive finite
  have digits := isDigit_shortest positive
  have nonempty := shortest_ne_nil positive
  have limits := isPositional_shortest_iff positive
  split
  case isTrue positional =>
    have fixed := Binary64.fixed_positional nonempty digits
    have reads := reads_of_shortest positive fixed.reads
    refine {
      reads
      infinite := infinite_of_reads reads fun infinite => absurd infinite finite
      shortest := fun _ _ n e rounds => ?_
      fixed := fun _ => ⟨_, fixed, rounds_shortest positive⟩
      exponential := fun _ _ outside => ?_ }
    · exact (Binary64.length_significantDigits_positional nonempty digits).trans
        (length_shortest_le positive finite rounds)
    · obtain ⟨least, limit⟩ := limits.1 positional
      exact absurd outside (not_or.2 ⟨least.not_gt, limit.not_ge⟩)
  case isFalse scientific =>
    have exponential := Binary64.exponential_scientific nonempty digits
    have reads := reads_of_shortest positive exponential.reads
    refine {
      reads
      infinite := infinite_of_reads reads fun infinite => absurd infinite finite
      shortest := fun _ _ n e rounds => ?_
      fixed := fun inside => ?_
      exponential := fun _ _ _ => ⟨_, exponential, rounds_shortest positive⟩ }
    · exact (Binary64.length_significantDigits_scientific nonempty digits).trans
        (length_shortest_le positive finite rounds)
    · exact absurd (limits.2 (inside.resolve_left positive)) scientific

theorem Prints.unique {m m' : Magnitude} {s : Text} (h : Prints m s) (h' : Prints m' s) :
    m = m' := by
  have same := h.reads.symm.trans h'.reads
  injection same with e
  injection e

/-- Where the literal stands in the two forms of a token of a number. -/
theorem Token.written_number {t : Token} {x : Binary64} (number : t.kind = .number)
    (literal : t.literal = .number x) :
    t.render = Kind.number.name ++ ' ' :: t.lexeme ++ ' ' :: t.literal.plain ∧
    t.describe = "Token(".toList ++ Kind.number.name ++ ", ".toList ++ Quoted.encode t.lexeme
      ++ ", ".toList ++ t.literal.plain ++ ", ".toList ++ "line ".toList ++ Numeral.ofInt t.line
      ++ ")".toList := by
  refine ⟨by rw [render, number], ?_⟩
  unfold describe
  rw [number, literal]
  simp only [Literal.plain, Literal.quoted, List.append_assoc]

/-- Both forms of the token of a number show the number that it carries as it should be printed, and
two such tokens, of whatever sources, show the same if and only if they carry the same. -/
theorem printed_numbers_read_back (source : Text) {t : Token}
    (h : t ∈ (Cursor.atStart source).scan.2.tokens) (number : t.kind = .number) :
    (∃ m, t.literal = .number (.signed false m) ∧ Prints m t.literal.plain) ∧
    t.render = Kind.number.name ++ ' ' :: t.lexeme ++ ' ' :: t.literal.plain ∧
    t.describe = "Token(".toList ++ Kind.number.name ++ ", ".toList ++ Quoted.encode t.lexeme
      ++ ", ".toList ++ t.literal.plain ++ ", ".toList ++ "line ".toList ++ Numeral.ofInt t.line
      ++ ")".toList ∧
    ∀ (source' : Text) (t' : Token), t' ∈ (Cursor.atStart source').scan.2.tokens →
      t'.kind = .number → (t'.literal.plain = t.literal.plain ↔ t'.literal = t.literal) := by
  obtain ⟨-, literal⟩ := Cursor.number_of_mem_tokens h number
  have prints := prints_renderMagnitude (Reading.pointed t.lexeme)
  obtain ⟨short, full⟩ := Token.written_number number literal
  refine ⟨⟨_, literal, ?_⟩, short, full, fun source' t' h' number' => ⟨fun same => ?_, congrArg _⟩⟩
  · rw [literal]
    exact prints
  · obtain ⟨-, literal'⟩ := Cursor.number_of_mem_tokens h' number'
    have prints' := prints_renderMagnitude (Reading.pointed t'.lexeme)
    have shown : Binary64.renderMagnitude (Reading.pointed t'.lexeme) =
        Binary64.renderMagnitude (Reading.pointed t.lexeme) := by
      rw [literal, literal'] at same
      exact same
    rw [shown] at prints'
    rw [literal, literal', prints'.unique prints]

/-- A number below the limit for the notation with a point. -/
theorem printed_numbers_read_back_small :
    let m := Magnitude.ofRank 4532020583610935537
    let t : Token := ⟨.number, "0.00001".toList, .number (.signed false m), 1⟩
    t ∈ (Cursor.atStart "0.00001".toList).scan.2.tokens ∧ t.kind = .number ∧
      t.literal.plain = "1e-05".toList ∧ Prints m "1e-05".toList := by
  intro m t
  have mem : t ∈ (Cursor.atStart "0.00001".toList).scan.2.tokens := by decide +kernel
  have shown : t.literal.plain = "1e-05".toList := by decide +kernel
  obtain ⟨⟨m', literal, prints⟩, -⟩ := printed_numbers_read_back "0.00001".toList mem rfl
  have same : m = m' := (Binary64.signed.inj (Literal.number.inj literal)).2
  exact ⟨mem, rfl, shown, same ▸ shown ▸ prints⟩

end BearLex
