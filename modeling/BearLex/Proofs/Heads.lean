import BearLex.Source.Traversal

/-! The cursors at which a scan begins its segments, and what each segment does to the cursor.
Whatever holds of the text ahead segment by segment holds of a scan cursor by cursor. -/

namespace BearLex

namespace Cursor

/-- The cursors at which `scan` begins a segment, in order. -/
def heads (c : Cursor) : List Cursor :=
  if _h : c.atEnd = true then []
  else
    c :: match c.next.1 with
      | some _ => []
      | none => c.next.2.heads
termination_by c.source.length - c.current
decreasing_by
  have onward := onward_next (Bool.eq_false_iff.2 _h)
  have inside : c.current < c.source.length := by simpa [atEnd] using _h
  have source : c.next.2.source = c.source := onward.source
  have current : c.current + 1 ≤ c.next.2.current := onward.current
  rw [source]
  omega

/-- The text of the segment that is begun at `c`. -/
def covered (c : Cursor) : Text :=
  c.slice c.current c.next.2.current

/-- The tokens that the segment begun at `c` adds. -/
def added (c : Cursor) : List Token :=
  c.next.2.tokens.drop c.tokens.length

/-- The lines and messages that the segment begun at `c` reports. -/
def told (c : Cursor) : List (Nat × Text) :=
  c.next.2.reported.drop c.reported.length

variable {c : Cursor} {char : Char} {ahead : Text}

theorem heads_of_nil (h : c.ahead = []) : c.heads = [] := by
  rw [heads, dif_pos ((atEnd_iff c).2 h)]

theorem heads_of_ahead (h : c.ahead = char :: ahead) :
    c.heads = c :: (c.past (Segment.first char ahead)).heads := by
  have before : ¬ c.atEnd = true := by simp [atEnd_iff, h]
  rw [heads, dif_neg before, next_eq_past h]

theorem current_past (s : Segment) : (c.past s).current = c.current + s.text.length := rfl

theorem covered_eq (h : c.ahead = char :: ahead) : c.covered = (Segment.first char ahead).text := by
  have slice := slice_of_ahead h 0 (Segment.first char ahead).text.length
  rw [covered, next_eq_past h]
  rw [Nat.add_zero, List.drop_zero] at slice
  refine slice.trans (Text.take_of_isPrefix ?_)
  exact ⟨_, Segment.text_first_append char ahead⟩

theorem added_eq (h : c.ahead = char :: ahead) :
    c.added = ((Segment.first char ahead).token? c.line).toList := by
  rw [added, next_eq_past h]
  exact List.drop_left

theorem told_eq (h : c.ahead = char :: ahead) :
    c.told = (((Segment.first char ahead).finding? c.line).map Finding.entry).toList := by
  rw [told, next_eq_past h]
  exact List.drop_left

/-- The segments of a scan are those of the text ahead. -/
theorem covered_heads (c : Cursor) :
    c.heads.map covered = (Segment.ofSource c.ahead).map Segment.text := by
  induction c using induction_ahead with
  | ends c h => rw [heads_of_nil h, h, Segment.ofSource_nil, List.map_nil, List.map_nil]
  | goes c char ahead h ih =>
    rw [heads_of_ahead h, h, Segment.ofSource_cons, List.map_cons, List.map_cons, covered_eq h, ih,
      ahead_past h]

/-- A scan adds what its segments add, and at last the token at the end of input. -/
theorem tokens_scan (c : Cursor) :
    c.scan.2.tokens = c.tokens ++ c.heads.flatMap added ++ [Token.ending c.scan.2.line] := by
  induction c using induction_ahead with
  | ends c h =>
    rw [heads_of_nil h, scan_of_atEnd ((atEnd_iff c).2 h), List.flatMap_nil, List.append_nil]
  | goes c char ahead h ih =>
    rw [heads_of_ahead h, scan_of_ahead h, ih, List.flatMap_cons, added_eq h, past]
    simp only [List.append_assoc]

/-- A scan reports what its segments report. -/
theorem reported_scan (c : Cursor) :
    c.scan.2.reported = c.reported ++ c.heads.flatMap told := by
  induction c using induction_ahead with
  | ends c h =>
    rw [heads_of_nil h, scan_of_atEnd ((atEnd_iff c).2 h), List.flatMap_nil, List.append_nil]
  | goes c char ahead h ih =>
    rw [heads_of_ahead h, scan_of_ahead h, ih, List.flatMap_cons, told_eq h, past]
    simp only [List.append_assoc]

end Cursor

end BearLex
