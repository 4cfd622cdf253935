import BearLex.Proofs.Heads
import BearLex.Proofs.Transcript

/-! Where the tokens and messages of a scan stand. A token is the slice of the source from where its
segment was begun, on the line of that place; a stray character is reported on the line where it
stands, and an unterminated string on the last line. The slices come one behind the other, and the
lines never go back. -/

namespace BearLex

namespace Cursor

variable {c : Cursor} {char : Char} {ahead : Text}

/-- What every segment keeps holds wherever a scan begins a segment. -/
theorem forall_heads {P : Cursor → Prop}
    (step : ∀ (c : Cursor) (char : Char) (ahead : Text), c.ahead = char :: ahead → P c →
      P (c.past (Segment.first char ahead)))
    (c : Cursor) (h : P c) : ∀ d ∈ c.heads, P d := by
  induction c using induction_ahead with
  | ends c e =>
    rw [heads_of_nil e]
    exact List.forall_mem_nil _
  | goes c char ahead e ih =>
    rw [heads_of_ahead e]
    intro d hd
    rcases List.mem_cons.1 hd with rfl | hd
    · exact h
    · exact ih (step c char ahead e h) d hd

theorem ahead_of_mem_heads (c : Cursor) : ∀ d ∈ c.heads, ∃ char ahead, d.ahead = char :: ahead := by
  induction c using induction_ahead with
  | ends c e =>
    rw [heads_of_nil e]
    exact List.forall_mem_nil _
  | goes c char ahead e ih =>
    rw [heads_of_ahead e]
    intro d hd
    rcases List.mem_cons.1 hd with rfl | hd
    · exact ⟨char, ahead, e⟩
    · exact ih d hd

/-- A segment is begun behind the ones before it, and on no earlier line than they end. -/
theorem pairwise_heads (c : Cursor) :
    c.heads.Pairwise fun a b =>
      a.current + a.covered.length ≤ b.current ∧ a.line + Lines.count a.covered ≤ b.line := by
  induction c using induction_ahead with
  | ends c e =>
    rw [heads_of_nil e]
    exact .nil
  | goes c char ahead e ih =>
    rw [heads_of_ahead e]
    refine List.pairwise_cons.2 ⟨?_, ih⟩
    rw [covered_eq e]
    -- Every later segment stays behind the end of the first one, since none moves the cursor back.
    refine forall_heads
      (P := fun d => c.current + (Segment.first char ahead).text.length ≤ d.current ∧
        c.line + Lines.count (Segment.first char ahead).text ≤ d.line) ?_ _
      ⟨Nat.le_refl _, Nat.le_refl _⟩
    intro d next rest _ behind
    simp only [past]
    omega

/-- The cursor is on the line of its place in `source`. -/
structure Aligned (source : Text) (c : Cursor) : Prop where
  source_eq : c.source = source
  line : c.line = 1 + Lines.count (source.take c.current)

theorem aligned_atStart (source : Text) : Aligned source (atStart source) :=
  ⟨rfl, rfl⟩

theorem take_past (h : c.ahead = char :: ahead) :
    c.source.take (c.past (Segment.first char ahead)).current =
      c.source.take c.current ++ (Segment.first char ahead).text := by
  have start : c.ahead.take (Segment.first char ahead).text.length =
      (Segment.first char ahead).text := by
    rw [h]
    exact Text.take_of_isPrefix ⟨_, Segment.text_first_append char ahead⟩
  rw [current_past, List.take_add]
  exact congrArg _ start

theorem Aligned.past {source : Text} (h : c.ahead = char :: ahead) (aligned : Aligned source c) :
    Aligned source (c.past (Segment.first char ahead)) := by
  have split := take_past h
  rw [aligned.source_eq] at split
  refine ⟨aligned.source_eq, ?_⟩
  rw [split, Lines.count_append, ← Nat.add_assoc, ← aligned.line]
  rfl

theorem aligned_of_mem_heads {source : Text} {d : Cursor} (h : d ∈ (atStart source).heads) :
    Aligned source d :=
  forall_heads (fun _ _ _ => Aligned.past) _ (aligned_atStart source) d h

/-- The tokens of a scan, each with the place where its segment was begun. -/
def begun (c : Cursor) : List (Nat × Token) :=
  c.heads.flatMap fun d => d.added.map (d.current, ·)

/-- The lines and messages of a scan, each with the place where its segment was begun. -/
def noticed (c : Cursor) : List (Nat × Nat × Text) :=
  c.heads.flatMap fun d => d.told.map (d.current, ·)

theorem map_snd_begun (c : Cursor) : c.begun.map Prod.snd = c.heads.flatMap added := by
  simp [begun, List.map_flatMap, Function.comp_def]

theorem map_snd_noticed (c : Cursor) : c.noticed.map Prod.snd = c.heads.flatMap told := by
  simp [noticed, List.map_flatMap, Function.comp_def]

theorem mem_begun {p : Nat × Token} (h : p ∈ c.begun) :
    ∃ d ∈ c.heads, p.1 = d.current ∧ p.2 ∈ d.added := by
  obtain ⟨d, hd, mem⟩ := List.mem_flatMap.1 h
  obtain ⟨t, ht, rfl⟩ := List.mem_map.1 mem
  exact ⟨d, hd, rfl, ht⟩

theorem mem_noticed {p : Nat × Nat × Text} (h : p ∈ c.noticed) :
    ∃ d ∈ c.heads, p.1 = d.current ∧ p.2 ∈ d.told := by
  obtain ⟨d, hd, mem⟩ := List.mem_flatMap.1 h
  obtain ⟨t, ht, rfl⟩ := List.mem_map.1 mem
  exact ⟨d, hd, rfl, ht⟩

theorem of_mem_added (h : c.ahead = char :: ahead) {t : Token} (mem : t ∈ c.added) :
    t.lexeme = c.covered ∧ t.line = c.line := by
  rw [covered_eq h]
  rw [added_eq h, Option.mem_toList] at mem
  unfold Segment.token? at mem
  split at mem
  · cases mem
    exact ⟨rfl, rfl⟩
  · cases mem

/-- A message that a segment reports is about a stray character, on the line where it stands, or
about an unterminated string, on the line where the text ends. -/
theorem of_mem_told (h : c.ahead = char :: ahead) {m : Nat × Text} (mem : m ∈ c.told) :
    (c.covered = [char] ∧ m = (c.line, (Problem.unexpected char).message)) ∨
      (c.covered = c.ahead ∧
        m = (c.line + Lines.count c.ahead, Problem.unterminatedString.message)) := by
  rw [covered_eq h]
  rw [told_eq h, Option.mem_toList] at mem
  rcases Segment.first_cases char ahead with lexical | ⟨-, -, e⟩ | ⟨-, e⟩
  · rw [Segment.finding?_of_lexical lexical] at mem
    cases mem
  · rw [e] at mem ⊢
    cases mem
    rw [h]
    exact .inr ⟨rfl, rfl⟩
  · rw [e] at mem ⊢
    cases mem
    exact .inl ⟨rfl, rfl⟩

theorem pairwise_toList {α : Type} (R : α → α → Prop) (o : Option α) : o.toList.Pairwise R := by
  cases o with
  | none => exact .nil
  | some x => exact List.pairwise_singleton R x

/-- What segments give is in order if what one segment gives is, and what two segments give,
one behind the other. -/
theorem pairwise_flatMap_heads {α : Type} {R : α → α → Prop} {f : Cursor → List α}
    (within : ∀ d ∈ c.heads, (f d).Pairwise R)
    (across : ∀ d ∈ c.heads, ∀ e ∈ c.heads, d.current + d.covered.length ≤ e.current →
      d.line + Lines.count d.covered ≤ e.line → ∀ x ∈ f d, ∀ y ∈ f e, R x y) :
    (c.heads.flatMap f).Pairwise R := by
  refine List.pairwise_flatMap.2 ⟨within, ?_⟩
  refine (pairwise_heads c).imp_of_mem fun {d e} hd he behind => ?_
  exact across d hd e he behind.1 behind.2

theorem pairwise_begun (c : Cursor) :
    c.begun.Pairwise fun a b =>
      (a.1 < b.1 ∧ a.1 + a.2.lexeme.length ≤ b.1) ∧ a.2.line ≤ b.2.line := by
  refine pairwise_flatMap_heads (fun d hd => ?_) fun d hd e he behind lines x hx y hy => ?_
  · obtain ⟨char, ahead, h⟩ := ahead_of_mem_heads c d hd
    rw [added_eq h, ← Option.toList_map]
    exact pairwise_toList _ _
  · obtain ⟨char, ahead, h⟩ := ahead_of_mem_heads c d hd
    obtain ⟨char', ahead', h'⟩ := ahead_of_mem_heads c e he
    obtain ⟨t, ht, rfl⟩ := List.mem_map.1 hx
    obtain ⟨u, hu, rfl⟩ := List.mem_map.1 hy
    obtain ⟨lexeme, line⟩ := of_mem_added h ht
    obtain ⟨-, line'⟩ := of_mem_added h' hu
    have some : 0 < d.covered.length := by
      rw [covered_eq h]
      exact Nat.succ_pos _
    rw [lexeme, line, line']
    exact ⟨⟨by omega, behind⟩, by omega⟩

theorem pairwise_told (c : Cursor) :
    (c.heads.flatMap told).Pairwise fun a b => a.1 ≤ b.1 := by
  refine pairwise_flatMap_heads (fun d hd => ?_) fun d hd e he behind lines x hx y hy => ?_
  · obtain ⟨char, ahead, h⟩ := ahead_of_mem_heads c d hd
    rw [told_eq h]
    exact pairwise_toList _ _
  · obtain ⟨char, ahead, h⟩ := ahead_of_mem_heads c d hd
    obtain ⟨char', ahead', h'⟩ := ahead_of_mem_heads c e he
    have upper : x.1 ≤ d.line + Lines.count d.covered := by
      rcases of_mem_told h hx with ⟨-, rfl⟩ | ⟨all, rfl⟩
      · exact Nat.le_add_right _ _
      · exact Nat.le_of_eq (by rw [all])
    have lower : e.line ≤ y.1 := by
      rcases of_mem_told h' hy with ⟨-, rfl⟩ | ⟨-, rfl⟩
      · exact Nat.le_refl _
      · exact Nat.le_add_right _ _
    omega

end Cursor

/-- The token is the slice of `source` from `place` on, and on the line of that place. -/
structure Token.At (source : Text) (place : Nat) (t : Token) : Prop where
  nonempty : t.lexeme ≠ []
  slice : t.lexeme = (source.drop place).take t.lexeme.length
  line : t.line = 1 + Lines.count (source.take place)

/-- The message is about the character at `place`, and on the line of that place, or it is about an
unterminated string, and on the last line. -/
inductive NoticedAt (source : Text) (place : Nat) : Nat × Text → Prop
  | unexpected {c : Char} (h : source[place]? = some c) :
    NoticedAt source place
      (1 + Lines.count (source.take place), (Problem.unexpected c).message)
  | unterminated :
    NoticedAt source place (1 + Lines.count source, Problem.unterminatedString.message)

namespace Cursor

variable {source : Text}

theorem at_of_mem_begun {p : Nat × Token} (h : p ∈ (atStart source).begun) :
    p.2.At source p.1 := by
  obtain ⟨d, hd, place, mem⟩ := mem_begun h
  obtain ⟨char, ahead, e⟩ := ahead_of_mem_heads _ d hd
  have aligned := aligned_of_mem_heads hd
  obtain ⟨lexeme, line⟩ := of_mem_added e mem
  have slice : (source.drop d.current).take d.covered.length = d.covered := by
    rw [← aligned.source_eq]
    show d.ahead.take _ = _
    rw [covered_eq e, e]
    exact Text.take_of_isPrefix ⟨_, Segment.text_first_append char ahead⟩
  refine ⟨?_, ?_, ?_⟩
  · rw [lexeme, covered_eq e]
    exact List.cons_ne_nil _ _
  · rw [lexeme, place, slice]
  · rw [line, place, aligned.line]
    rfl

theorem noticedAt_of_mem_noticed {p : Nat × Nat × Text} (h : p ∈ (atStart source).noticed) :
    NoticedAt source p.1 p.2 := by
  obtain ⟨d, hd, place, mem⟩ := mem_noticed h
  obtain ⟨char, ahead, e⟩ := ahead_of_mem_heads _ d hd
  have aligned := aligned_of_mem_heads hd
  rcases of_mem_told e mem with ⟨-, told⟩ | ⟨-, told⟩
  · have here := getElem?_of_ahead e
    rw [aligned.source_eq] at here
    rw [told, place, aligned.line]
    exact .unexpected here
  · have total : d.line + Lines.count d.ahead = 1 + Lines.count source := by
      rw [aligned.line, Cursor.ahead, aligned.source_eq, Nat.add_assoc, ← Lines.count_append,
        List.take_append_drop]
    rw [told, total]
    exact .unterminated

end Cursor

/-- Every token of a scan is the slice of the source from where its segment was begun, on the line
of that place, and the slices come one behind the other; the token at the end of input is on the
last line. Every message is on the line of the character it is about, or on the last line if it is
about an unterminated string. The lines of tokens and of messages never go back. -/
theorem scan_positions (source : Text) :
    (Cursor.atStart source).scan.1 = none ∧
    (Cursor.atStart source).scan.2.tokens =
      (Cursor.atStart source).begun.map Prod.snd ++ [Token.ending (1 + Lines.count source)] ∧
    (∀ p ∈ (Cursor.atStart source).begun, p.2.At source p.1) ∧
    (Cursor.atStart source).begun.Pairwise
      (fun a b => a.1 < b.1 ∧ a.1 + a.2.lexeme.length ≤ b.1) ∧
    (Cursor.atStart source).scan.2.reported = (Cursor.atStart source).noticed.map Prod.snd ∧
    (∀ p ∈ (Cursor.atStart source).noticed, NoticedAt source p.1 p.2) ∧
    (Cursor.atStart source).scan.2.tokens.Pairwise (fun a b => a.line ≤ b.line) ∧
    (Cursor.atStart source).scan.2.reported.Pairwise (fun a b => a.1 ≤ b.1) := by
  obtain ⟨ok, done⟩ := Cursor.scan_atStart source
  have last : (Cursor.atStart source).scan.2.line = 1 + Lines.count source := done.line
  have tokens := Cursor.tokens_scan (Cursor.atStart source)
  rw [last, ← Cursor.map_snd_begun] at tokens
  have reported := Cursor.reported_scan (Cursor.atStart source)
  have order := Cursor.pairwise_begun (Cursor.atStart source)
  refine ⟨ok, tokens, fun _ => Cursor.at_of_mem_begun, order.imp And.left, ?_,
    fun _ => Cursor.noticedAt_of_mem_noticed, ?_, ?_⟩
  · rw [reported, Cursor.map_snd_noticed]
    rfl
  · rw [tokens]
    refine List.pairwise_append.2 ⟨?_, List.pairwise_singleton _ _, ?_⟩
    · exact List.pairwise_map.2 (order.imp And.right)
    · intro t ht e he
      obtain ⟨p, hp, rfl⟩ := List.mem_map.1 ht
      obtain rfl := List.mem_singleton.1 he
      have place := (Cursor.at_of_mem_begun hp).line
      have upper : Lines.count (source.take p.1) ≤ Lines.count source :=
        (List.take_sublist p.1 source).count_le '\n'
      simp only [Token.ending, place]
      omega
  · rw [reported]
    exact Cursor.pairwise_told (Cursor.atStart source)

end BearLex
