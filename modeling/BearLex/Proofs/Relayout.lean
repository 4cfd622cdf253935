import BearLex.Proofs.Revision

/-! Layout does not matter. Blanks that are put in between the segments of a source, and comments
that are left out of it, change neither the tokens of a scan nor what it reports. -/

namespace BearLex

namespace Cursor

/-- The text ahead with the text `gaps p` put in at every place `p` where the loop of a scan is at
its head, and without the comments that begin at the places in `dropped`. -/
def relaid (gaps : Nat → Text) (dropped : Nat → Bool) (c : Cursor) : Text :=
  (c.heads.flatMap fun d =>
      gaps d.current ++ if d.isComment && dropped d.current then [] else d.covered) ++
    gaps c.scan.2.current

variable {c : Cursor} {char : Char} {ahead : Text} {gaps : Nat → Text} {dropped : Nat → Bool}

theorem relaid_of_nil (h : c.ahead = []) : c.relaid gaps dropped = gaps c.current := by
  rw [relaid, heads_of_nil h, scan_of_atEnd ((atEnd_iff c).2 h), List.flatMap_nil, List.nil_append]

theorem relaid_of_ahead (h : c.ahead = char :: ahead) :
    c.relaid gaps dropped =
      gaps c.current ++ ((if c.isComment && dropped c.current then [] else c.covered) ++
        (c.past (Segment.first char ahead)).relaid gaps dropped) := by
  rw [relaid, heads_of_ahead h, scan_of_ahead h, List.flatMap_cons, List.append_assoc,
    List.append_assoc]
  rfl

/-- With nothing put in and nothing left out, the text stays as it is. -/
theorem relaid_nothing (c : Cursor) : c.relaid (fun _ => []) (fun _ => false) = c.ahead := by
  induction c using induction_ahead with
  | ends c e => rw [relaid_of_nil e, e]
  | goes c char ahead e ih =>
    rw [relaid_of_ahead e, ih, Bool.and_false, if_neg Bool.false_ne_true, List.nil_append,
      covered_eq e, ahead_past e, Segment.text_first_append, e]

/-- A text that is laid out anew is a revision of the text ahead. -/
theorem revised_relaid (spacing : ∀ p, ∀ b ∈ gaps p, isSpacing b = true) (c : Cursor) :
    Revised false c.ahead (c.relaid gaps dropped) := by
  induction c using induction_ahead with
  | ends c e =>
    have blanks := Revised.gap (spacing c.current) (@Revised.nil false)
    rw [List.append_nil] at blanks
    rwa [relaid_of_nil e, e]
  | goes c char ahead e ih =>
    rw [relaid_of_ahead e]
    rw [ahead_past e] at ih
    refine Revised.gap (spacing c.current) ?_
    rw [e]
    split
    · have comment := (Bool.and_eq_true_iff.1 ‹_›).1
      exact .uncomment ((isComment_iff e).1 comment) ih
    · rw [covered_eq e]
      exact .keep nofun ih

end Cursor

/-- A source that is laid out anew, with spaces, tabs and carriage returns put in where segments
begin and at the end, and with comments left out, is scanned to the same tokens, and the same is
reported about it. -/
theorem scan_ignores_layout (source : Text) (gaps : Nat → Text) (dropped : Nat → Bool)
    (spacing : ∀ p, ∀ b ∈ gaps p, b = ' ' ∨ b = '\t' ∨ b = '\r') :
    let relaid := (Cursor.atStart source).relaid gaps dropped
    (Cursor.atStart relaid).scan.1 = none ∧
    (Cursor.atStart relaid).scan.2.tokens = (Cursor.atStart source).scan.2.tokens ∧
    (Cursor.atStart relaid).scan.2.reported = (Cursor.atStart source).scan.2.reported := by
  intro relaid
  have blanks (p : Nat) : ∀ b ∈ gaps p, isSpacing b = true := by
    intro b mem
    rcases spacing p b mem with rfl | rfl | rfl <;> rfl
  have revised : Revised false source relaid := Cursor.revised_relaid blanks (Cursor.atStart source)
  obtain ⟨tokens, findings⟩ := revised.scan_eq 1
  obtain ⟨ok, done⟩ := Cursor.scan_atStart relaid
  refine ⟨ok, ?_, ?_⟩
  · rw [Cursor.tokens_atStart, Cursor.tokens_atStart]
    exact tokens
  · -- Nothing is wiped out, so every finding survives.
    have all (found : List Finding) : found.filter (Finding.survives false) = found :=
      List.filter_eq_self.2 fun f _ => rfl
    rw [all] at findings
    rw [done.reported, (Cursor.scan_atStart source).2.reported]
    exact congrArg (List.map Finding.entry) findings

/-- A blank between a number and a point, a comment with blanks in its place, and one that takes in
the blank behind it. -/
theorem scan_ignores_layout_comments :
    let source := "x//a\n1.!=//c".toList
    let gaps (p : Nat) := if p = 1 ∨ p = 6 then [' ', '\t'] else if p = 12 then ['\r'] else []
    (∀ p, ∀ b ∈ gaps p, b = ' ' ∨ b = '\t' ∨ b = '\r') ∧
    (Cursor.atStart source).relaid gaps (fun p => p = 1) = "x \t\n1 \t.!=//c\r".toList ∧
    (Cursor.atStart ((Cursor.atStart source).relaid gaps fun p => p = 1)).scan.2.tokens =
      (Cursor.atStart source).scan.2.tokens := by
  intro source gaps
  have spacing : ∀ p, ∀ b ∈ gaps p, b = ' ' ∨ b = '\t' ∨ b = '\r' := by
    intro p
    dsimp only [gaps]
    split
    · exact List.forall_mem_cons.2 ⟨.inl rfl, List.forall_mem_singleton.2 (.inr (.inl rfl))⟩
    split
    · exact List.forall_mem_singleton.2 (.inr (.inr rfl))
    · exact List.forall_mem_nil _
  exact ⟨spacing, by decide +kernel, (scan_ignores_layout source gaps _ spacing).2.1⟩

end BearLex
