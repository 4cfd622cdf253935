import BearLex.Text.Lines

/-! The lines of a text and the characters in them. A text is its first line and what follows the LF
of that line, or it is a single line without LF; no line holds an LF, and after `unify` no line
holds a CR. -/

namespace BearLex.Lines

variable {line rest s : Text}

theorem split_append_newline (h : '\n' ∉ line) (rest : Text) :
    split (line ++ '\n' :: rest) = line :: split rest := by
  induction line with
  | nil => rfl
  | cons c line ih =>
    obtain ⟨notFirst, notLater⟩ := not_or.1 (mt List.mem_cons.2 h)
    rw [List.cons_append, split.eq_3 _ _ fun e => notFirst e.symm, ih notLater]

theorem split_of_not_mem (h : '\n' ∉ line) (nonempty : line ≠ []) : split line = [line] := by
  induction line with
  | nil => exact absurd rfl nonempty
  | cons c line ih =>
    obtain ⟨notFirst, notLater⟩ := not_or.1 (mt List.mem_cons.2 h)
    rw [split.eq_3 _ _ fun e => notFirst e.symm]
    cases line with
    | nil => rfl
    | cons d line => rw [ih notLater (List.cons_ne_nil d line)]

/-- What holds of the empty text, of every line without LF, and of a line with LF and a rest if it
holds of the rest, holds of every text. -/
theorem induction_lines {P : Text → Prop} (nil : P [])
    (last : ∀ line, '\n' ∉ line → line ≠ [] → P line)
    (cons : ∀ line rest, '\n' ∉ line → P rest → P (line ++ '\n' :: rest)) (s : Text) : P s := by
  induction h : s.length using Nat.strongRecOn generalizing s with
  | _ n ih =>
    by_cases newline : '\n' ∈ s
    · obtain ⟨line, rest, rfl, before⟩ := List.eq_append_cons_of_mem newline
      refine cons line rest before (ih _ ?_ rest rfl)
      rw [← h, List.length_append, List.length_cons]
      omega
    · by_cases empty : s = []
      · exact empty ▸ nil
      · exact last s newline empty

/-- Lines that are each ended by an LF are the lines of the whole text. -/
theorem split_flatMap {lines : List Text} (h : ∀ line ∈ lines, '\n' ∉ line) :
    split (lines.flatMap (· ++ ['\n'])) = lines := by
  induction lines with
  | nil => rfl
  | cons line lines ih =>
    obtain ⟨first, others⟩ := List.forall_mem_cons.1 h
    rw [List.flatMap_cons, List.append_assoc, List.singleton_append, split_append_newline first,
      ih others]

theorem split_ne_nil (nonempty : s ≠ []) : split s ≠ [] := by
  cases s using induction_lines with
  | nil => exact absurd rfl nonempty
  | last s inside nonempty =>
    rw [split_of_not_mem inside nonempty]
    exact List.cons_ne_nil _ _
  | cons line rest inside _ =>
    rw [split_append_newline inside]
    exact List.cons_ne_nil _ _

/-- No line reaches over an LF. -/
theorem split_append (s rest : Text) :
    split (s ++ '\n' :: rest) = split (s ++ ['\n']) ++ split rest := by
  induction s using induction_lines with
  | nil => rfl
  | last line inside _ =>
    rw [split_append_newline inside, split_append_newline inside]
    rfl
  | cons line s inside ih =>
    rw [List.append_assoc, List.cons_append, split_append_newline inside, ih, List.append_assoc,
      List.cons_append, split_append_newline inside, List.cons_append]

/-- A line is a part of its text without LF. -/
theorem mem_split (h : line ∈ split s) : '\n' ∉ line ∧ ∀ c ∈ line, c ∈ s := by
  induction s using induction_lines with
  | nil => cases h
  | last s inside nonempty =>
    rw [split_of_not_mem inside nonempty, List.mem_singleton] at h
    subst h
    exact ⟨inside, fun c hc => hc⟩
  | cons first rest inside ih =>
    rw [split_append_newline inside, List.mem_cons] at h
    rcases h with rfl | h
    · exact ⟨inside, fun c hc => List.mem_append_left _ hc⟩
    · obtain ⟨notIn, sub⟩ := ih h
      exact ⟨notIn, fun c hc => List.mem_append_right _ (List.mem_cons_of_mem _ (sub c hc))⟩

theorem return_not_mem_unify (s : Text) : '\r' ∉ unify s := by
  fun_induction unify s with
  | case1 => exact List.not_mem_nil
  | case2 rest ih | case3 rest _ ih => simpa using ih
  | case4 c rest _ notReturn ih =>
    rw [List.mem_cons, not_or]
    exact ⟨fun e => notReturn e.symm, ih⟩

theorem unify_of_not_mem (h : '\r' ∉ s) : unify s = s := by
  fun_induction unify s with
  | case1 => rfl
  | case2 rest ih | case3 rest _ ih => exact absurd List.mem_cons_self h
  | case4 c rest _ _ ih => rw [ih fun mem => h (List.mem_cons_of_mem c mem)]

/-- No line end reaches over an LF: what stands in front of it is read without what follows. -/
theorem exists_unify_append (s : Text) :
    ∃ before, ∀ rest, unify (s ++ '\n' :: rest) = before ++ '\n' :: unify rest := by
  fun_induction unify s with
  | case1 => exact ⟨[], fun _ => rfl⟩
  | case2 s ih =>
    obtain ⟨before, h⟩ := ih
    exact ⟨'\n' :: before, fun rest => congrArg ('\n' :: ·) (h rest)⟩
  | case3 s alone ih =>
    cases s with
    | nil => exact ⟨[], fun _ => rfl⟩
    | cons c s =>
      obtain ⟨before, h⟩ := ih
      have next (rest : Text) (t : Text) (e : c :: s ++ '\n' :: rest = '\n' :: t) : False :=
        alone s (by rw [(List.cons.inj e).1])
      exact ⟨'\n' :: before, fun rest => by
        rw [List.cons_append, unify.eq_3 _ (next rest), h]
        rfl⟩
  | case4 c s notPair notReturn ih =>
    obtain ⟨before, h⟩ := ih
    exact ⟨c :: before, fun rest => by
      rw [List.cons_append, unify.eq_4 _ _ (fun _ e => absurd e notReturn) notReturn, h]
      rfl⟩

/-- The lines of a text up to an LF are found without what follows it, and so are those behind. -/
theorem split_unify_append (s rest : Text) :
    split (unify (s ++ '\n' :: rest)) =
      split (unify (s ++ ['\n'])) ++ split (unify rest) := by
  obtain ⟨before, h⟩ := exists_unify_append s
  rw [h, h, split_append]
  rfl

theorem unify_ne_nil (nonempty : s ≠ []) : unify s ≠ [] := by
  fun_cases unify s with
  | case1 => exact nonempty
  | case2 => exact List.cons_ne_nil _ _
  | case3 => exact List.cons_ne_nil _ _
  | case4 => exact List.cons_ne_nil _ _

end BearLex.Lines
