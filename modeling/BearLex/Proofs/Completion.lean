import BearLex.Proofs.Position
import BearLex.Source.Calls

/-! A scan comes to its end, whoever listens. Every segment is begun in front of the end of the
source and ends within it, no move goes past the end, every text that is read as a number is one,
and there are no more segments and no more moves than characters. -/

namespace BearLex

theorem Call.foldl_heard {σ : Type} (sink : σ → Nat → Text → σ) (calls : List Call) (s : σ) :
    calls.foldl (heard sink) s =
      (calls.filterMap message?).foldl (fun s m => sink s m.1 m.2) s := by
  induction calls generalizing s with
  | nil => rfl
  | cons call calls ih => cases call <;> exact ih _

/-- Between two places there is room for one step from each place to a later one. -/
theorem length_le_of_rising {places : List Nat} {first last : Nat}
    (within : ∀ place ∈ places, first ≤ place ∧ place < last) (rising : places.Pairwise (· < ·)) :
    places.length ≤ last - first := by
  induction places generalizing first with
  | nil => exact Nat.zero_le _
  | cons place places ih =>
    obtain ⟨later, rising⟩ := List.pairwise_cons.1 rising
    obtain ⟨here, others⟩ := List.forall_mem_cons.1 within
    have rest := ih (fun other mem => ⟨later other mem, (others other mem).2⟩) rising
    rw [List.length_cons]
    omega

namespace Cursor

variable {c : Cursor}

/-- A scan tells every listener the same calls, and comes to the same end with every listener. -/
theorem tells_scan (c : Cursor) :
    ∃ calls, Tells (fun _ tell s => c.tellScan tell s) c.scan calls ∧
      Spans c c.scan.2 (c.heads.map current) calls := by
  induction c using induction_ahead with
  | ends c e =>
    have atEnd := (atEnd_iff c).2 e
    rw [heads_of_nil e, scan_of_atEnd atEnd]
    refine ⟨[], ?_, spans_silent (Nat.le_refl _) rfl⟩
    intro σ tell s
    show c.tellScan tell s = _
    rw [tellScan, dif_pos atEnd]
    rfl
  | goes c char ahead e ih =>
    obtain ⟨later, tells', spans'⟩ := ih
    obtain ⟨calls, tells, spans⟩ := tells_next e
    rw [next_eq_past e] at tells spans
    rw [heads_of_ahead e, scan_of_ahead e]
    refine ⟨calls ++ later, ?_, spans.append spans'⟩
    intro σ tell s
    have before : ¬ c.atEnd = true := by simp [atEnd_iff, e]
    have step : c.tellNext tell s = _ := tells σ tell s
    show c.tellScan tell s = _
    rw [tellScan, dif_neg before, step, List.foldl_append]
    exact tells' σ tell _

/-- A sink takes the messages of a scan one after the other, and changes nothing else. -/
theorem tellScan_heard {σ : Type} (source : Text) (sink : σ → Nat → Text → σ) (s : σ) :
    (atStart source).tellScan (Call.heard sink) s =
      ((atStart source).scan,
        (atStart source).scan.2.reported.foldl (fun s m => sink s m.1 m.2) s) := by
  obtain ⟨calls, tells, spans⟩ := tells_scan (atStart source)
  have messages : (atStart source).scan.2.reported = calls.filterMap Call.message? :=
    spans.messages
  rw [messages, ← Call.foldl_heard]
  exact tells σ (Call.heard sink) s

theorem length_text_first_le {char : Char} {ahead : Text} (h : c.ahead = char :: ahead) :
    c.current + (Segment.first char ahead).text.length ≤ c.source.length := by
  have start : (Segment.first char ahead).text <+: c.ahead := by
    rw [h]
    exact ⟨_, Segment.text_first_append char ahead⟩
  have fits := start.length_le
  have some : 0 < (Segment.first char ahead).text.length := Nat.succ_pos _
  rw [Cursor.ahead, List.length_drop] at fits
  omega

theorem current_scan (c : Cursor) (h : c.current ≤ c.source.length) :
    c.scan.2.current = c.source.length := by
  induction c using induction_ahead with
  | ends c e =>
    rw [scan_of_atEnd ((atEnd_iff c).2 e)]
    rw [Cursor.ahead, List.drop_eq_nil_iff] at e
    exact Nat.le_antisymm h e
  | goes c char ahead e ih =>
    rw [scan_of_ahead e]
    exact ih (length_text_first_le e)

theorem length_flatMap_added_le (c : Cursor) : (c.heads.flatMap added).length ≤ c.heads.length := by
  induction c using induction_ahead with
  | ends c e => rw [heads_of_nil e]; exact Nat.le_refl _
  | goes c char ahead e ih =>
    have one : ((Segment.first char ahead).token? c.line).toList.length ≤ 1 := by
      cases (Segment.first char ahead).token? c.line <;> simp
    rw [heads_of_ahead e, List.flatMap_cons, List.length_append, added_eq e, List.length_cons]
    omega

/-- A segment of a scan is begun in front of the end of the source, does not fail, and ends further
on, within the source. -/
theorem progress_of_mem_heads {source : Text} {d : Cursor} (h : d ∈ (atStart source).heads) :
    d.current < source.length ∧ d.next.1 = none ∧ d.current < d.next.2.current ∧
      d.next.2.current ≤ source.length := by
  obtain ⟨char, ahead, e⟩ := ahead_of_mem_heads _ d h
  have fits := length_text_first_le e
  have some : 0 < (Segment.first char ahead).text.length := Nat.succ_pos _
  rw [(aligned_of_mem_heads h).source_eq] at fits
  rw [next_eq_past e, current_past]
  exact ⟨by omega, rfl, by omega, fits⟩

theorem length_heads_le (source : Text) : (atStart source).heads.length ≤ source.length := by
  have rising : ((atStart source).heads.map current).Pairwise (· < ·) := by
    refine List.pairwise_map.2 ((pairwise_heads (atStart source)).imp_of_mem ?_)
    intro a b ha _ behind
    obtain ⟨char, ahead, e⟩ := ahead_of_mem_heads _ a ha
    have some : 0 < a.covered.length := by
      rw [covered_eq e]
      exact Nat.succ_pos _
    omega
  have within : ∀ place ∈ (atStart source).heads.map current,
      0 ≤ place ∧ place < source.length := by
    intro place mem
    obtain ⟨d, hd, rfl⟩ := List.mem_map.1 mem
    exact ⟨Nat.zero_le _, (progress_of_mem_heads hd).1⟩
  simpa using length_le_of_rising within rising

end Cursor

/-- A scan of a source from its start ends without a fault, whoever listens, and whatever sink takes
its messages. Every segment is begun in front of the end and ends further on, within the source, so
that there are at most as many as characters, and at most one token more. No move goes past the end,
there are at most as many moves as characters, and every text that is read as a number is one. -/
theorem scan_finishes (source : Text) :
    (Cursor.atStart source).scan.1 = none ∧
    (∀ d ∈ (Cursor.atStart source).heads, d.current < source.length ∧ d.next.1 = none ∧
      d.current < d.next.2.current ∧ d.next.2.current ≤ source.length) ∧
    (Cursor.atStart source).heads.length ≤ source.length ∧
    (Cursor.atStart source).scan.2.tokens.length ≤ source.length + 1 ∧
    (∀ (σ : Type) (sink : σ → Nat → Text → σ) (s : σ),
      (Cursor.atStart source).tellScan (Call.heard sink) s =
        ((Cursor.atStart source).scan,
          (Cursor.atStart source).scan.2.reported.foldl (fun s m => sink s m.1 m.2) s)) ∧
    ∃ calls : List Call,
      (∀ (σ : Type) (tell : σ → Call → σ) (s : σ),
        (Cursor.atStart source).tellScan tell s =
          ((Cursor.atStart source).scan, calls.foldl tell s)) ∧
      calls.filterMap Call.segment? = (Cursor.atStart source).heads.map Cursor.current ∧
      (∀ place ∈ calls.filterMap Call.advance?, place < source.length) ∧
      (calls.filterMap Call.advance?).length ≤ source.length ∧
      ∀ text ∈ calls.filterMap Call.reading?, Reading.Pointed text := by
  obtain ⟨calls, tells, spans⟩ := Cursor.tells_scan (Cursor.atStart source)
  have last := Cursor.current_scan (Cursor.atStart source) (Nat.zero_le _)
  have within : ∀ place ∈ calls.filterMap Call.advance?, 0 ≤ place ∧ place < source.length := by
    intro place mem
    have := spans.within place mem
    rwa [last] at this
  refine ⟨(Cursor.scan_atStart source).1, fun _ => Cursor.progress_of_mem_heads,
    Cursor.length_heads_le source, ?_, fun _ => Cursor.tellScan_heard source, calls, tells,
    spans.segments, fun place mem => (within place mem).2,
    length_le_of_rising within spans.rising, spans.numbers⟩
  have tokens := Cursor.length_flatMap_added_le (Cursor.atStart source)
  have heads := Cursor.length_heads_le source
  rw [Cursor.tokens_scan, List.length_append, List.length_append]
  show 0 + _ + 1 ≤ _
  omega

end BearLex
