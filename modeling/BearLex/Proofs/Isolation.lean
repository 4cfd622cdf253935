import BearLex.Proofs.Position
import BearLex.Proofs.Revision

/-! Stray characters leave what is around them alone. With spaces in their places a source has the
same tokens and the same unterminated string, and a stray character that is put in where a segment
begins adds the diagnostic about it and nothing else, unless a comment or an open string in front
takes it in. -/

namespace BearLex

namespace Problem

/-- The message is about an unexpected character. -/
def tellsStray (message : Text) : Bool :=
  "Unexpected character ".toList.isPrefixOf message

theorem tellsStray_unexpected (c : Char) : tellsStray (unexpected c).message = true :=
  List.isPrefixOf_iff_prefix.2 ⟨Quoted.encode [c] ++ ".".toList, (List.append_assoc ..).symm⟩

end Problem

/-- A stray segment is a single foreign character. -/
theorem Segment.first_of_stray {c : Char} {ahead : Text} (h : (first c ahead).form = .stray) :
    isForeign c = true ∧ first c ahead = ⟨.stray, [c]⟩ := by
  rcases first_cases c ahead with lexical | ⟨-, -, isOpen⟩ | stray
  · rw [h] at lexical
    cases lexical
  · rw [isOpen] at h
    cases h
  · exact stray

namespace Cursor

/-- The places at which a scan reports an unexpected character. -/
def strayPlaces (c : Cursor) : List Nat :=
  (c.noticed.filter fun n => Problem.tellsStray n.2.2).map Prod.fst

/-- The text ahead with a space in place of every character that a scan reports as unexpected. -/
def wiped (c : Cursor) : Text :=
  c.ahead.mapIdx fun i char => if c.current + i ∈ c.strayPlaces then ' ' else char

variable {c : Cursor} {char : Char} {ahead : Text}

theorem noticed_of_ahead (h : c.ahead = char :: ahead) :
    c.noticed = c.told.map (c.current, ·) ++ (c.past (Segment.first char ahead)).noticed := by
  rw [noticed, heads_of_ahead h, List.flatMap_cons]
  rfl

theorem current_le_of_mem_noticed {n : Nat × Nat × Text} (h : n ∈ c.noticed) : c.current ≤ n.1 := by
  obtain ⟨d, head, place, -⟩ := mem_noticed h
  rw [place]
  exact forall_heads (P := fun d => c.current ≤ d.current)
    (fun d next rest _ behind => Nat.le_trans behind (Nat.le_add_right _ _)) c (Nat.le_refl _) d
    head

theorem strayPlaces_of_ahead (h : c.ahead = char :: ahead) :
    c.strayPlaces =
      (if (Segment.first char ahead).form = .stray then [c.current] else []) ++
        (c.past (Segment.first char ahead)).strayPlaces := by
  have told := told_eq h
  rw [strayPlaces, noticed_of_ahead h, List.filter_append, List.map_append, told]
  refine congrArg (· ++ _) ?_
  rcases Segment.first_cases char ahead with lexical | ⟨-, -, isOpen⟩ | ⟨-, stray⟩
  · have other : (Segment.first char ahead).form ≠ .stray := fun e => by
      rw [e] at lexical
      cases lexical
    rw [Segment.finding?_of_lexical lexical, if_neg other]
    rfl
  · rw [isOpen]
    rfl
  · rw [stray, if_pos rfl]
    simp [Segment.finding?, Finding.entry, Problem.tellsStray_unexpected]

theorem current_le_of_mem_strayPlaces {p : Nat} (h : p ∈ c.strayPlaces) : c.current ≤ p := by
  obtain ⟨n, found, rfl⟩ := List.mem_map.1 h
  exact current_le_of_mem_noticed (List.mem_filter.1 found).1

theorem wiped_of_ahead (h : c.ahead = char :: ahead) :
    c.wiped =
      (if (Segment.first char ahead).form = .stray then [' ']
        else (Segment.first char ahead).text) ++ (c.past (Segment.first char ahead)).wiped := by
  have split : c.ahead =
      (Segment.first char ahead).text ++ (c.past (Segment.first char ahead)).ahead := by
    rw [ahead_past h, Segment.text_first_append, h]
  have places := strayPlaces_of_ahead h
  generalize first : Segment.first char ahead = s at split places ⊢
  have nonempty : 0 < s.text.length := first ▸ Nat.succ_pos _
  have behind {p : Nat} (mem : p ∈ (c.past s).strayPlaces) : c.current + s.text.length ≤ p :=
    current_le_of_mem_strayPlaces mem
  rw [wiped, split, List.mapIdx_append]
  refine congrArg₂ (· ++ ·) ?_ ?_
  · by_cases stray : s.form = .stray
    · have alone : s.text = [char] := by
        subst first
        rw [(Segment.first_of_stray stray).2]
      rw [if_pos stray] at places
      rw [if_pos stray, alone, places]
      simp
    · rw [if_neg stray, List.nil_append] at places
      rw [if_neg stray, places]
      refine List.mapIdx_eq_iff.2 fun i => ?_
      cases here : s.text[i]? with
      | none => rfl
      | some d =>
        obtain ⟨inside, -⟩ := List.getElem?_eq_some_iff.1 here
        have elsewhere : c.current + i ∉ (c.past s).strayPlaces := fun mem => by
          have := behind mem
          omega
        rw [Option.map_some, if_neg elsewhere]
  · refine List.mapIdx_eq_mapIdx_iff.2 fun i inside => ?_
    have same : c.current + (i + s.text.length) ∈ c.strayPlaces ↔
        (c.past s).current + i ∈ (c.past s).strayPlaces := by
      rw [places, List.mem_append, current_past, Nat.add_assoc, Nat.add_comm i]
      refine or_iff_right ?_
      split
      · simp only [List.mem_singleton]
        omega
      · exact List.not_mem_nil
    simp only [same]

/-- Wiping out the stray characters is a revision of the text ahead. -/
theorem revised_wiped (c : Cursor) : Revised true c.ahead c.wiped := by
  induction c using induction_ahead with
  | ends c e =>
    rw [wiped, e]
    exact .nil
  | goes c char ahead e ih =>
    rw [wiped_of_ahead e, e]
    rw [ahead_past e] at ih
    split
    · obtain ⟨foreign, -⟩ := Segment.first_of_stray ‹_›
      rw [Segment.extent_of_isForeign foreign] at ih
      exact .wipe rfl foreign ih
    · exact .keep (fun _ => ‹_›) ih

end Cursor

/-! ### A stray character more -/

namespace Segment

variable {source : Text} {before after : List Segment} {c : Char}

/-- A foreign character between two segments is a segment of its own, unless a comment or an open
string is in front of it. -/
theorem ofSource_insert (cut : ofSource source = before ++ after) (foreign : isForeign c = true)
    (clear : ∀ s ∈ before.getLast?, s.form ≠ .comment ∧ s.form ≠ .openString) :
    ofSource (before.flatMap text ++ c :: after.flatMap text) =
      before ++ ⟨.stray, [c]⟩ :: after := by
  induction source using induction_rest generalizing before with
  | nil =>
    rw [ofSource_nil] at cut
    obtain ⟨rfl, rfl⟩ := List.append_eq_nil_iff.1 cut.symm
    exact (ofSource_of_isForeign foreign []).trans (by rw [ofSource_nil]; rfl)
  | cons d ahead ih =>
    cases before with
    | nil =>
      rw [List.nil_append] at cut
      rw [← cut, flatMap_text_ofSource]
      exact ofSource_of_isForeign foreign _
    | cons s before =>
      rw [ofSource_cons, List.cons_append] at cut
      obtain ⟨rfl, rest⟩ := List.cons.inj cut
      have whole : ahead.drop (extent d ahead).2 = before.flatMap text ++ after.flatMap text := by
        rw [← List.flatMap_append, ← rest, flatMap_text_ofSource]
      have later := ih rest fun s mem => clear s (by
        cases before with
        | nil => cases mem
        | cons _ _ => exact mem)
      -- If nothing is left between the first segment and `c`, then that segment is the last one.
      have last (none : before.flatMap text = []) :
          (first d ahead).form ≠ .comment ∧ (first d ahead).form ≠ .openString := by
        have alone : before = [] := by
          cases before with
          | nil => rfl
          | cons s before =>
            have inside : s ∈ ofSource (ahead.drop (extent d ahead).2) := by simp [rest]
            obtain ⟨e, others, rfl⟩ := exists_first_of_mem inside
            cases none
        subst alone
        exact clear _ rfl
      rw [List.flatMap_cons, List.append_assoc, List.cons_append, ← later]
      rcases first_cases d ahead with lexical | ⟨-, -, isOpen⟩ | ⟨foreign', stray⟩
      · have ends := first_ends d ahead
        rw [whole] at ends
        refine lexical.ofSource_append ?_
        exact ends.of_append.append_separates (separates_of_isForeign foreign)
          (fun comment none => absurd comment (last none).1) _
      · have nothing := drop_of_openString (congrArg form isOpen)
        rw [nothing] at whole
        refine absurd (congrArg form isOpen) (last ?_).2
        exact (List.append_eq_nil_iff.1 whole.symm).1
      · rw [stray, List.singleton_append, ofSource_of_isForeign foreign']

end Segment

namespace Cursor

/-- The segment that is begun at `c` takes in what stands behind it: it is a comment, or a string
that is reported as unterminated. -/
def Absorbs (c : Cursor) : Prop :=
  c.isComment = true ∨ Problem.unterminatedString.message ∈ c.told.map Prod.snd

variable {c : Cursor} {char : Char} {ahead : Text} {before after : List Segment}

theorem absorbs_of_form (h : c.ahead = char :: ahead)
    (form : (Segment.first char ahead).form = .comment ∨
      (Segment.first char ahead).form = .openString) : c.Absorbs := by
  refine form.imp (isComment_iff h).2 fun isOpen => ?_
  rw [told_eq h, Segment.finding?, isOpen]
  exact List.mem_cons_self

/-- The last segment in front of a place is begun at a cursor of the scan, and ends at the place. -/
theorem exists_head_of_getLast (split : Segment.ofSource c.ahead = before ++ after) {s : Segment}
    (last : s ∈ before.getLast?) :
    ∃ d ∈ c.heads, ∃ char ahead, d.ahead = char :: ahead ∧ s = Segment.first char ahead ∧
      d.current + d.covered.length = c.current + (before.flatMap Segment.text).length := by
  induction c using induction_ahead generalizing before with
  | ends c e =>
    rw [e, Segment.ofSource_nil] at split
    obtain ⟨rfl, -⟩ := List.append_eq_nil_iff.1 split.symm
    cases last
  | goes c char ahead e ih =>
    rw [heads_of_ahead e]
    rw [e, Segment.ofSource_cons] at split
    cases before with
    | nil => cases last
    | cons first before =>
      obtain ⟨rfl, rest⟩ := List.cons.inj split
      rw [← ahead_past e] at rest
      cases before with
      | nil =>
        cases last
        refine ⟨c, List.mem_cons_self, char, ahead, e, rfl, ?_⟩
        rw [covered_eq e, List.flatMap_singleton]
      | cons second before =>
        obtain ⟨d, head, d_ahead⟩ := ih rest last
        refine ⟨d, List.mem_cons_of_mem c head, ?_⟩
        rw [current_past, Nat.add_assoc, ← List.length_append, ← List.flatMap_cons] at d_ahead
        exact d_ahead

theorem map_snd_noticed_eq (c : Cursor) :
    c.noticed.map Prod.snd = (Scan.fromLine c.line c.ahead).findings.map Finding.entry := by
  have reported := (scan_completes c).2.reported
  rw [reported_scan, ← map_snd_noticed] at reported
  exact List.append_cancel_left reported

/-- What a scan notices in front of a place and behind it is what the two parts of the text hold. -/
theorem noticed_of_split (split : Segment.ofSource c.ahead = before ++ after) {place : Nat}
    (h : place = c.current + (before.flatMap Segment.text).length) :
    (c.noticed.filter fun n => n.1 < place).map Prod.snd =
        (Scan.fromLine c.line (before.flatMap Segment.text)).findings.map Finding.entry ∧
      (c.noticed.filter fun n => place ≤ n.1).map Prod.snd =
        (Scan.fromLine (c.line + Lines.count (before.flatMap Segment.text))
          (after.flatMap Segment.text)).findings.map Finding.entry := by
  induction c using induction_ahead generalizing before with
  | ends c e =>
    rw [e, Segment.ofSource_nil] at split
    obtain ⟨rfl, rfl⟩ := List.append_eq_nil_iff.1 split.symm
    have nothing : c.noticed = [] := by rw [noticed, heads_of_nil e, List.flatMap_nil]
    rw [nothing, List.flatMap_nil, Scan.fromLine_nil, Scan.fromLine_nil]
    exact ⟨rfl, rfl⟩
  | goes c char ahead e ih =>
    have whole : c.ahead = before.flatMap Segment.text ++ after.flatMap Segment.text := by
      rw [← List.flatMap_append, ← split, Segment.flatMap_text_ofSource]
    cases before with
    | nil =>
      have behind (n) (mem : n ∈ c.noticed) : c.current ≤ n.1 := current_le_of_mem_noticed mem
      rw [List.flatMap_nil, List.nil_append] at whole
      rw [List.flatMap_nil, List.length_nil, Nat.add_zero] at h
      rw [List.flatMap_nil, ← whole, h, Scan.fromLine_nil]
      refine ⟨?_, ?_⟩
      · rw [List.filter_eq_nil_iff.2 fun n mem => by simpa using behind n mem]
        rfl
      · rw [List.filter_eq_self.2 fun n mem => by simpa using behind n mem]
        exact map_snd_noticed_eq c
    | cons first before =>
      obtain ⟨front, -⟩ := Segment.ofSource_of_append split
      rw [e, Segment.ofSource_cons] at split
      obtain ⟨rfl, rest⟩ := List.cons.inj split
      rw [← ahead_past e] at rest
      have cut : Segment.ofSource
          ((Segment.first char ahead).text ++ before.flatMap Segment.text) =
          Segment.first char ahead :: Segment.ofSource (before.flatMap Segment.text) := by
        rw [(Segment.ofSource_of_append rest).1]
        exact front
      have here : c.current < place := by
        rw [h, List.flatMap_cons, List.length_append]
        have : 0 < (Segment.first char ahead).text.length := Nat.succ_pos _
        omega
      obtain ⟨inFront, behind⟩ := ih rest (by
        rw [h, List.flatMap_cons, List.length_append, current_past, Nat.add_assoc])
      rw [noticed_of_ahead e, List.filter_append, List.filter_append, List.map_append,
        List.map_append, inFront, behind, List.flatMap_cons, Scan.fromLine_append cut, told_eq e,
        Lines.count_append]
      have keeps (m : Option Finding) : (((m.map Finding.entry).toList.map (c.current, ·)).filter
          fun n => n.1 < place).map Prod.snd = m.toList.map Finding.entry := by
        cases m <;> simp [here]
      have drops (m : Option Finding) : ((m.map Finding.entry).toList.map (c.current, ·)).filter
          (fun n => place ≤ n.1) = [] := by
        cases m <;> simp [here]
      rw [keeps, drops, List.map_append, ← Nat.add_assoc]
      exact ⟨rfl, rfl⟩

/-- A foreign character that is put in behind segments that do not take it in changes no token, and
is noticed behind what is noticed in front of it. -/
theorem scan_insert {source : Text} (split : Segment.ofSource source = before ++ after) {c : Char}
    (foreign : isForeign c = true)
    (clear : ∀ s ∈ before.getLast?, s.form ≠ .comment ∧ s.form ≠ .openString) :
    let front := before.flatMap Segment.text
    let back := after.flatMap Segment.text
    let inserted := atStart (front ++ c :: back)
    inserted.scan.1 = none ∧
    inserted.scan.2.tokens = (atStart source).scan.2.tokens ∧
    inserted.scan.2.reported =
      (Scan.fromLine 1 front).findings.map Finding.entry ++
        (1 + Lines.count front, (Problem.unexpected c).message) ::
          (Scan.fromLine (1 + Lines.count front) back).findings.map Finding.entry := by
  intro front back inserted
  have cut : Segment.ofSource (front ++ c :: back) = before ++ ⟨.stray, [c]⟩ :: after :=
    Segment.ofSource_insert split foreign clear
  have behind : (Segment.mk .stray [c] :: after).flatMap Segment.text = c :: back := rfl
  obtain ⟨ok, done⟩ := scan_atStart (front ++ c :: back)
  refine ⟨ok, ?_, ?_⟩
  · rw [tokens_atStart, tokens_atStart, Scan.tokens_of_append cut, Scan.tokens_of_append split,
      behind, Scan.ofSource, Scan.ofSource, Scan.ofSource, Scan.fromLine_of_isForeign foreign]
  · rw [done.reported, Scan.ofSource, Scan.findings_of_append cut, behind,
      Scan.fromLine_of_isForeign foreign, List.map_append]
    rfl

/-- A source with spaces in place of its stray characters has the same tokens, and of what was
reported only the unterminated string. -/
theorem scan_wiped (source : Text) :
    let wiped := atStart (atStart source).wiped
    wiped.scan.1 = none ∧
    wiped.scan.2.tokens = (atStart source).scan.2.tokens ∧
    wiped.scan.2.reported = (atStart source).scan.2.reported.filter
      fun m => m.2 = Problem.unterminatedString.message := by
  intro wiped
  obtain ⟨tokens, findings⟩ := (revised_wiped (atStart source)).scan_eq 1
  obtain ⟨ok, done⟩ := scan_atStart (atStart source).wiped
  refine ⟨ok, ?_, ?_⟩
  · rw [tokens_atStart, tokens_atStart]
    exact tokens
  · have survives (f : Finding) :
        f.survives true = decide (f.entry.2 = Problem.unterminatedString.message) := by
      obtain ⟨line, problem⟩ := f
      cases problem with
      | unexpected c =>
        exact (decide_eq_false (Problem.message_unexpected_ne c)).symm
      | unterminatedString => rfl
    rw [done.reported, (scan_atStart source).2.reported]
    show (Scan.fromLine 1 _).findings.map Finding.entry =
      ((Scan.fromLine 1 source).findings.map Finding.entry).filter _
    rw [findings, List.filter_map]
    exact congrArg _ (List.filter_congr fun f _ => survives f)

end Cursor

/-- Stray characters are isolated. A source with a space in place of every character that is
reported as unexpected has the same tokens, and of what was reported only the unterminated string is
left. A foreign character that is put in at a place where the loop of a scan is at its head changes
no token, and adds the message about it, with the line of the place, behind the messages about what
is in front of the place and before all others, unless a comment or an unterminated string ends at
the place. -/
theorem scan_isolates_strays (source : Text) :
    let result (s : Text) := ((Cursor.atStart s).scan.1, (Cursor.atStart s).scan.2.tokens)
    let reported (s : Text) := (Cursor.atStart s).scan.2.reported
    let tokens := (Cursor.atStart source).scan.2.tokens
    let wiped := (Cursor.atStart source).wiped
    (result wiped = (none, tokens) ∧
      (∀ m ∈ reported wiped, ∀ c, m.2 ≠ (Problem.unexpected c).message) ∧
      reported wiped =
        (reported source).filter fun m => m.2 = Problem.unterminatedString.message) ∧
    ∀ place ∈ (Cursor.atStart source).places, ∀ c, isForeign c = true →
      (∀ d ∈ (Cursor.atStart source).heads, d.current + d.covered.length = place →
        ¬ d.Absorbs) →
      let inserted := source.take place ++ c :: source.drop place
      let noticed := (Cursor.atStart source).noticed
      result inserted = (none, tokens) ∧
      reported source = noticed.map Prod.snd ∧
      reported inserted =
        (noticed.filter fun n => n.1 < place).map Prod.snd ++
          (1 + Lines.count (source.take place), (Problem.unexpected c).message) ::
            (noticed.filter fun n => place ≤ n.1).map Prod.snd := by
  intro result reported tokens wiped
  refine ⟨?_, ?_⟩
  · obtain ⟨ok, same, left⟩ := Cursor.scan_wiped source
    refine ⟨Prod.ext ok same, fun m mem c e => ?_, left⟩
    have only : m ∈ (reported source).filter
        fun m => m.2 = Problem.unterminatedString.message := left ▸ mem
    have terminated := of_decide_eq_true (List.mem_filter.1 only).2
    exact Problem.message_unexpected_ne c (e.symm.trans terminated)
  · intro place head c foreign clear inserted noticed
    obtain ⟨before, after, split, h⟩ := Cursor.mem_places_atStart.1 head
    have whole : source = before.flatMap Segment.text ++ after.flatMap Segment.text := by
      rw [← List.flatMap_append, ← split, Segment.flatMap_text_ofSource]
    have front : source.take place = before.flatMap Segment.text := by
      rw [h, whole, List.take_left]
    have back : source.drop place = after.flatMap Segment.text := by
      rw [h, whole, List.drop_left]
    have apart : ∀ s ∈ before.getLast?, s.form ≠ .comment ∧ s.form ≠ .openString := by
      intro s last
      obtain ⟨d, inside, char, ahead, e, rfl, stop⟩ :=
        Cursor.exists_head_of_getLast (c := Cursor.atStart source) split last
      have absorbs := clear d inside (by rw [stop, h]; exact Nat.zero_add _)
      exact not_or.1 (mt (Cursor.absorbs_of_form e) absorbs)
    obtain ⟨ok, same, added⟩ := Cursor.scan_insert split foreign apart
    have offset : place = (Cursor.atStart source).current + (before.flatMap Segment.text).length :=
      h.trans (Nat.zero_add _).symm
    obtain ⟨inFront, behind⟩ := Cursor.noticed_of_split (c := Cursor.atStart source) split offset
    have told : reported source = noticed.map Prod.snd := by
      dsimp only [reported, noticed]
      rw [Cursor.reported_scan, Cursor.map_snd_noticed]
      rfl
    dsimp only [result, reported, inserted]
    rw [front, back, inFront, behind]
    exact ⟨Prod.ext ok same, told, added⟩

end BearLex
