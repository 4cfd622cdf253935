import BearLex.Text.Basic
import Mathlib.Data.List.TakeWhile

/-! Where `takeWhile`, `dropWhile`, `trim` and `take` cut a text, and what a join is made of. -/

namespace BearLex.Text

variable {p : Char → Bool} {s : Text}

theorem dropWhile_of_forall (h : ∀ c ∈ s, p c = false) : s.dropWhile p = s := by
  cases s with
  | nil => rfl
  | cons c rest => exact List.dropWhile_cons_of_neg (by simp [h c])

theorem trim_of_forall (h : ∀ c ∈ s, p c = false) : s.trim p = s := by
  rw [trim, dropWhile_of_forall h, dropWhile_of_forall fun c hc => h c (List.mem_reverse.1 hc),
    List.reverse_reverse]

theorem takeWhile_append_cons (h : ∀ c ∈ s, p c = true) {c : Char} (stops : p c = false)
    (rest : Text) : (s ++ c :: rest).takeWhile p = s := by
  rw [List.takeWhile_append_of_pos h, List.takeWhile_cons_of_neg (by simp [stops]), List.append_nil]

theorem dropWhile_append_cons (h : ∀ c ∈ s, p c = true) {c : Char} (stops : p c = false)
    (rest : Text) : (s ++ c :: rest).dropWhile p = c :: rest := by
  rw [List.dropWhile_append_of_pos h, List.dropWhile_cons_of_neg (by simp [stops])]

/-- A text is taken whole if every character of it is taken. -/
theorem length_takeWhile_eq_iff :
    (s.takeWhile p).length = s.length ↔ ∀ c ∈ s, p c = true := by
  rw [← List.takeWhile_eq_self_iff]
  exact ⟨(List.takeWhile_sublist p).eq_of_length, congrArg List.length⟩

theorem drop_length_takeWhile (p : Char → Bool) (s : Text) :
    s.drop (s.takeWhile p).length = s.dropWhile p := by
  have split : s.takeWhile p ++ s.dropWhile p = s := List.takeWhile_append_dropWhile
  calc
    s.drop (s.takeWhile p).length =
        (s.takeWhile p ++ s.dropWhile p).drop (s.takeWhile p).length := by rw [split]
    _ = s.dropWhile p := List.drop_left

/-- Nothing more can be taken from what was left. -/
theorem takeWhile_dropWhile (p : Char → Bool) (s : Text) :
    (s.dropWhile p).takeWhile p = [] := by
  induction s with
  | nil => rfl
  | cons c s ih =>
    by_cases h : p c = true
    · rw [List.dropWhile_cons_of_pos h, ih]
    · rw [List.dropWhile_cons_of_neg h, List.takeWhile_cons_of_neg h]

/-- A join that ends in `last` has the mark behind each of the other parts. -/
theorem join_append_singleton (mark : Text) (parts : List Text) (last : Text) :
    join mark (parts ++ [last]) = parts.flatMap (· ++ mark) ++ last := by
  induction parts with
  | nil => simp [join, List.intercalate]
  | cons part parts ih =>
    have step : join mark (part :: (parts ++ [last])) =
        part ++ mark ++ join mark (parts ++ [last]) := by
      cases parts <;> simp [join, List.intercalate]
    rw [List.cons_append, step, ih, List.flatMap_cons, List.append_assoc _ _ last]

theorem take_of_isPrefix {t : Text} (h : s <+: t) : t.take s.length = s :=
  (List.prefix_iff_eq_take.1 h).symm

/-! ### What is left of a text without its ends -/

/-- `core` is what is left of `s` without the characters at its two ends that `p` holds of. -/
structure Strips (p : Char → Bool) (s core : Text) : Prop where
  surrounded : ∃ before after, s = before ++ core ++ after ∧ (∀ c ∈ before, p c = true) ∧
    ∀ c ∈ after, p c = true
  first : ∀ c, core.head? = some c → p c = false
  last : ∀ c, core.getLast? = some c → p c = false

theorem head?_dropWhile {s : Text} {c : Char} (h : (s.dropWhile p).head? = some c) :
    p c = false := by
  have := List.head?_dropWhile_not p s
  rwa [h] at this

theorem dropWhile_append_of_head {before s : Text} (hb : ∀ c ∈ before, p c = true)
    (first : ∀ c, s.head? = some c → p c = false) : (before ++ s).dropWhile p = s := by
  rw [List.dropWhile_append_of_pos hb]
  cases s with
  | nil => rfl
  | cons c rest => exact List.dropWhile_cons_of_neg (by simp [first c rfl])

theorem strips_trim (p : Char → Bool) (s : Text) : Strips p s (s.trim p) := by
  have inner : s.dropWhile p =
      s.trim p ++ ((s.dropWhile p).reverse.takeWhile p).reverse := by
    rw [trim, ← List.reverse_append, List.takeWhile_append_dropWhile, List.reverse_reverse]
  refine ⟨⟨s.takeWhile p, ((s.dropWhile p).reverse.takeWhile p).reverse, ?_, ?_, ?_⟩, ?_, ?_⟩
  · rw [List.append_assoc, ← inner, List.takeWhile_append_dropWhile]
  · exact fun c => List.mem_takeWhile_imp
  · exact fun c mem => List.mem_takeWhile_imp (List.mem_reverse.1 mem)
  · intro c first
    apply head?_dropWhile (s := s)
    rw [inner, List.head?_append, first]
    rfl
  · intro c last
    apply head?_dropWhile (s := (s.dropWhile p).reverse)
    rwa [trim, List.getLast?_reverse] at last

theorem Strips.trim_eq {s core : Text} (h : Strips p s core) : s.trim p = core := by
  obtain ⟨⟨before, after, rfl, hb, ha⟩, first, last⟩ := h
  have ha' : ∀ c ∈ after.reverse, p c = true := fun c mem => ha c (List.mem_reverse.1 mem)
  cases core with
  | nil =>
    have blank : ∀ c ∈ before ++ [] ++ after, p c = true := by
      intro c mem
      rw [List.append_nil, List.mem_append] at mem
      exact mem.elim (hb c) (ha c)
    rw [trim, List.dropWhile_eq_nil_iff.2 blank]
    rfl
  | cons c core =>
    have last' : ∀ d, (c :: core).reverse.head? = some d → p d = false := by
      rwa [List.head?_reverse]
    have front : (before ++ (c :: core ++ after)).dropWhile p = c :: core ++ after :=
      dropWhile_append_of_head hb first
    rw [trim, List.append_assoc, front, List.reverse_append,
      dropWhile_append_of_head ha' last', List.reverse_reverse]

/-- What `trim` leaves of a text is the only thing left of it. -/
theorem trim_eq_iff {s core : Text} : s.trim p = core ↔ Strips p s core := by
  constructor
  · rintro rfl
    exact strips_trim p s
  · exact Strips.trim_eq

end BearLex.Text
