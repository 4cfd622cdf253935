import BearLex.Proofs.LineCut
import BearLex.Proofs.Position

/-! How far a scan looks ahead. Where a segment ends is settled by the two characters behind it, so
two sources with the same beginning are cut into the same segments up to two characters in front of
the place where they part. -/

namespace BearLex

theorem Text.takeWhile_take_eq_nil {p : Char → Bool} (count : Nat) (s : Text) :
    (s.take (count + 1)).takeWhile p = [] ↔ s.takeWhile p = [] := by
  cases s with
  | nil => rfl
  | cons c rest =>
    rw [List.take_succ_cons]
    by_cases first : p c = true
    · simp [first]
    · simp [first]

theorem fraction_take_eq_nil (s : Text) : fraction (s.take 2) = [] ↔ fraction s = [] := by
  match s with
  | [] | [_] => exact Iff.rfl
  | c :: d :: rest =>
    by_cases pointed : c = '.' ∧ d.isDigit = true
    · simp [fraction, pointed]
    · simp [fraction, pointed]

/-- The first two characters behind a text settle whether it is made longer. -/
theorem Form.ends_take (form : Form) (text following : Text) :
    form.Ends text (following.take 2) ↔ form.Ends text following := by
  match form with
  | .comment => exact Text.takeWhile_take_eq_nil 1 following
  | .lexeme (.symbol s) =>
    have head : (following.take 2).head? = following.head? := by
      rw [List.head?_take, if_neg (by decide)]
    show _ ∨ _ ↔ _ ∨ _
    rw [head]
  | .lexeme .number =>
    exact and_congr (Text.takeWhile_take_eq_nil 1 following)
      (imp_congr Iff.rfl (fraction_take_eq_nil following))
  | .lexeme .identifier | .lexeme (.keyword _) => exact Text.takeWhile_take_eq_nil 1 following
  | .lexeme .string | .lexeme .endOfInput => exact Iff.rfl
  | .blank | .newline | .stray | .openString => exact Iff.rfl

namespace Segment

variable {c : Char} {ahead ahead' : Text}

/-- How far the first segment reaches depends on its own text and two characters more. -/
theorem extent_of_take
    (same : ahead'.take ((extent c ahead).2 + 2) = ahead.take ((extent c ahead).2 + 2)) :
    extent c ahead' = extent c ahead := by
  rcases first_cases c ahead with lexical | ⟨rfl, unclosed, -⟩ | ⟨foreign, -⟩
  · have inside : ahead'.take (extent c ahead).2 = ahead.take (extent c ahead).2 := by
      have := congrArg (List.take (extent c ahead).2) same
      rwa [List.take_take, List.take_take, Nat.min_eq_left (Nat.le_add_right _ _)] at this
    have behind : (ahead'.drop (extent c ahead).2).take 2 =
        (ahead.drop (extent c ahead).2).take 2 := by
      have := congrArg (List.drop (extent c ahead).2) same
      rwa [List.drop_take, List.drop_take, Nat.add_sub_cancel_left] at this
    have ends := (Form.ends_take _ _ _).2 (first_ends c ahead)
    rw [← behind, Form.ends_take] at ends
    have split : ahead.take (extent c ahead).2 ++ ahead'.drop (extent c ahead).2 = ahead' := by
      rw [← inside, List.take_append_drop]
    have cut := Lexical.extent_eq lexical (first_ends c ahead)
    have cut' := Lexical.extent_eq lexical ends
    rw [List.take_append_drop] at cut
    rw [split] at cut'
    exact cut'.trans cut.symm
  · -- Nothing is left behind an open string, so there is nothing in which the two texts differ.
    have all : (extent '"' ahead).2 = ahead.length :=
      congrArg Prod.snd ((Cursor.extent_quote ahead).trans (if_neg unclosed))
    rw [all, List.take_of_length_le (Nat.le_add_right _ 2)] at same
    have short := congrArg List.length same
    rw [List.length_take] at short
    rw [List.take_of_length_le (by omega)] at same
    rw [same]
  · rw [extent_of_isForeign foreign, extent_of_isForeign foreign]

theorem length_text_first (c : Char) (ahead : Text) :
    (first c ahead).text.length = (extent c ahead).2 + 1 := by
  have within := (extent_cases c ahead).le
  simp only [first, List.length_cons, List.length_take]
  omega

theorem first_of_take
    (same : ahead'.take ((extent c ahead).2 + 2) = ahead.take ((extent c ahead).2 + 2)) :
    first c ahead' = first c ahead := by
  have inside := congrArg (List.take (extent c ahead).2) same
  rw [List.take_take, List.take_take, Nat.min_eq_left (Nat.le_add_right _ _)] at inside
  rw [first, extent_of_take same, inside]
  rfl

end Segment

/-- What a scan does from where it begins a segment to where the segment ends. -/
structure Stretch where
  start : Nat
  stop : Nat
  line : Nat
  text : Text
  tokens : List Token
  messages : List (Nat × Text)
  deriving DecidableEq

namespace Cursor

variable {c d : Cursor} {char : Char} {ahead : Text} {count : Nat}

def stretch (c : Cursor) : Stretch where
  start := c.current
  stop := c.next.2.current
  line := c.line
  text := c.covered
  tokens := c.added
  messages := c.told

/-- The stretches of a scan that end two characters or more in front of `limit`, up to the first one
that does not. -/
def decided (limit : Nat) (c : Cursor) : List Stretch :=
  (c.heads.map stretch).takeWhile fun x => x.stop + 2 ≤ limit

theorem stop_stretch (h : c.ahead = char :: ahead) :
    c.stretch.stop = c.current + (Segment.first char ahead).text.length := by
  rw [stretch, next_eq_past h, current_past]

/-- Two cursors are at the same place on the same line, and the next `count` characters are the same
for both. -/
structure Agree (count : Nat) (c d : Cursor) : Prop where
  current : d.current = c.current
  line : d.line = c.line
  ahead : d.ahead.take count = c.ahead.take count

theorem Agree.symm (h : Agree count c d) : Agree count d c :=
  ⟨h.current.symm, h.line.symm, h.ahead.symm⟩

/-- Cursors that agree on the next segment and two characters more read the same segment, and agree
behind it. -/
theorem Agree.past (h : Agree count c d) (e : c.ahead = char :: ahead)
    (far : (Segment.first char ahead).text.length + 2 ≤ count) :
    ∃ ahead', d.ahead = char :: ahead' ∧ Segment.first char ahead' = Segment.first char ahead ∧
      Agree (count - (Segment.first char ahead).text.length) (c.past (Segment.first char ahead))
        (d.past (Segment.first char ahead)) := by
  have reach := Segment.length_text_first char ahead
  obtain ⟨rest, rfl⟩ : ∃ rest, count = rest + 1 := ⟨count - 1, by omega⟩
  have same := h.ahead
  rw [e, List.take_succ_cons] at same
  cases e' : d.ahead with
  | nil =>
    rw [e', List.take_nil] at same
    cases same
  | cons char' ahead' =>
    rw [e', List.take_succ_cons] at same
    obtain ⟨rfl, tails⟩ := List.cons.inj same
    have near := congrArg (List.take ((Segment.extent char' ahead).2 + 2)) tails
    rw [List.take_take, List.take_take, Nat.min_eq_left (by omega)] at near
    refine ⟨ahead', rfl, Segment.first_of_take near, ?_, ?_, ?_⟩
    · exact congrArg (· + _) h.current
    · exact congrArg (· + _) h.line
    · rw [ahead_drop, ahead_drop, ← List.drop_take, ← List.drop_take, h.ahead]

theorem stretch_eq_of_agree (h : Agree count c d) (e : c.ahead = char :: ahead) {ahead' : Text}
    (e' : d.ahead = char :: ahead')
    (first : Segment.first char ahead' = Segment.first char ahead) : d.stretch = c.stretch := by
  simp only [stretch, next_eq_past e, next_eq_past e', current_past, covered_eq e, covered_eq e',
    added_eq e, added_eq e', told_eq e, told_eq e', first, h.current, h.line]

theorem decided_of_ahead (e : c.ahead = char :: ahead) (limit : Nat) :
    c.decided limit =
      if c.current + (Segment.first char ahead).text.length + 2 ≤ limit then
        c.stretch :: (c.past (Segment.first char ahead)).decided limit
      else [] := by
  simp only [decided, heads_of_ahead e, List.map_cons, List.takeWhile_cons, stop_stretch e,
    decide_eq_true_eq]

theorem decided_of_nil (e : c.ahead = []) (limit : Nat) : c.decided limit = [] := by
  rw [decided, heads_of_nil e]
  rfl

/-- A cursor that decides nothing agrees with none that decides something. -/
theorem decided_eq_nil_of_agree (h : Agree count c d)
    (none : c.decided (c.current + count) = []) : d.decided (c.current + count) = [] := by
  cases e' : d.ahead with
  | nil => exact decided_of_nil e' _
  | cons char ahead' =>
    rw [decided_of_ahead e', if_neg]
    intro near
    rw [h.current] at near
    obtain ⟨ahead, e, first, -⟩ := h.symm.past e' (by omega)
    rw [decided_of_ahead e, first, if_pos near] at none
    cases none

/-- Cursors that agree up to a place decide the same up to it. -/
theorem decided_eq_of_agree (h : Agree count c d) :
    d.decided (c.current + count) = c.decided (c.current + count) := by
  induction c using induction_ahead generalizing d count with
  | ends c e =>
    have none := decided_of_nil e (c.current + count)
    rw [none, decided_eq_nil_of_agree h none]
  | goes c char ahead e ih =>
    by_cases near : c.current + (Segment.first char ahead).text.length + 2 ≤ c.current + count
    · obtain ⟨ahead', e', first, agree⟩ := h.past e (by omega)
      have rest := ih agree
      rw [current_past, Nat.add_assoc, Nat.add_sub_cancel' (by omega)] at rest
      rw [decided_of_ahead e, decided_of_ahead e', first, h.current, if_pos near, if_pos near,
        stretch_eq_of_agree h e e' first, rest]
    · have none : c.decided (c.current + count) = [] := by
        rw [decided_of_ahead e, if_neg near]
      rw [none, decided_eq_nil_of_agree h none]

theorem mem_decided {limit : Nat} {d : Cursor} (h : d ∈ c.heads)
    (near : d.stretch.stop + 2 ≤ limit) : d.stretch ∈ c.decided limit := by
  induction c using induction_ahead with
  | ends c e =>
    rw [heads_of_nil e] at h
    cases h
  | goes c char ahead e ih =>
    have order := pairwise_heads c
    rw [heads_of_ahead e] at h order
    rcases List.mem_cons.1 h with rfl | later
    · rw [stop_stretch e] at near
      rw [decided_of_ahead e, if_pos near]
      exact List.mem_cons_self
    · -- The segments in front of it end before it is begun, so they are decided too.
      obtain ⟨behind, -⟩ := (List.pairwise_cons.1 order).1 d later
      obtain ⟨first, rest, e'⟩ := ahead_of_mem_heads _ d later
      have stop := stop_stretch e'
      rw [covered_eq e] at behind
      rw [decided_of_ahead e, if_pos (by omega)]
      exact List.mem_cons_of_mem _ (ih later)

theorem decided_prefix (limit : Nat) (c : Cursor) : c.decided limit <+: c.heads.map stretch :=
  List.takeWhile_prefix _

theorem decided_tokens_prefix (limit : Nat) (c : Cursor) :
    c.tokens ++ (c.decided limit).flatMap Stretch.tokens <+: c.scan.2.tokens := by
  obtain ⟨later, split⟩ := decided_prefix limit c
  have added : c.heads.flatMap added = (c.heads.map stretch).flatMap Stretch.tokens := by
    rw [List.flatMap_map]
    rfl
  rw [tokens_scan, added, ← split, List.flatMap_append, ← List.append_assoc, List.append_assoc]
  exact List.prefix_append _ _

theorem decided_messages_prefix (limit : Nat) (c : Cursor) :
    c.reported ++ (c.decided limit).flatMap Stretch.messages <+: c.scan.2.reported := by
  obtain ⟨later, split⟩ := decided_prefix limit c
  have told : c.heads.flatMap told = (c.heads.map stretch).flatMap Stretch.messages := by
    rw [List.flatMap_map]
    rfl
  rw [reported_scan, told, ← split, List.flatMap_append, ← List.append_assoc]
  exact List.prefix_append _ _

end Cursor

/-- The stretches of a scan of `source`, in order. -/
def stretches (source : Text) : List Stretch :=
  (Cursor.atStart source).heads.map Cursor.stretch

/-- The scans of two sources that agree on their first `limit` characters have every segment in
common that ends two characters or more in front of `limit`, with its tokens and its messages, and
the tokens and messages of each begin with those. -/
theorem scan_looks_two_ahead {source source' : Text} {limit : Nat}
    (agree : source.take limit = source'.take limit) :
    (∀ x ∈ stretches source, x.stop + 2 ≤ limit → x ∈ stretches source') ∧
    (Cursor.atStart source').decided limit = (Cursor.atStart source).decided limit ∧
    ((Cursor.atStart source).decided limit).flatMap Stretch.tokens <+:
      (Cursor.atStart source').scan.2.tokens ∧
    ((Cursor.atStart source).decided limit).flatMap Stretch.messages <+:
      (Cursor.atStart source').scan.2.reported := by
  have same : (Cursor.atStart source').decided limit = (Cursor.atStart source).decided limit := by
    have starts : Cursor.Agree limit (Cursor.atStart source) (Cursor.atStart source') :=
      ⟨rfl, rfl, agree.symm⟩
    have := Cursor.decided_eq_of_agree starts
    rwa [show (Cursor.atStart source).current = 0 from rfl, Nat.zero_add] at this
  refine ⟨?_, same, ?_, ?_⟩
  · intro x mem near
    obtain ⟨d, head, rfl⟩ := List.mem_map.1 mem
    have decided := Cursor.mem_decided head near
    rw [← same] at decided
    exact (Cursor.decided_prefix limit _).subset decided
  · rw [← same]
    exact Cursor.decided_tokens_prefix limit (Cursor.atStart source')
  · rw [← same]
    exact Cursor.decided_messages_prefix limit (Cursor.atStart source')

theorem scan_looks_two_ahead_number :
    "x@//a\n1.;".toList.take 8 = "x@//a\n1.5\"".toList.take 8 ∧
    ((Cursor.atStart "x@//a\n1.;".toList).decided 8).map Stretch.text =
      ["x".toList, "@".toList, "//a".toList, "\n".toList] ∧
    (Cursor.atStart "x@//a\n1.5\"".toList).decided 8 =
      (Cursor.atStart "x@//a\n1.;".toList).decided 8 :=
  ⟨by decide, by decide +kernel, (scan_looks_two_ahead (by decide)).2.1⟩

-- One character would not do: a number goes on behind a point if a digit follows the point.
example : "1.;".toList.take 2 = "1.5".toList.take 2 ∧
    ∃ x ∈ stretches "1.;".toList, x.stop + 1 ≤ 2 ∧ x ∉ stretches "1.5".toList := by
  decide +kernel

end BearLex
