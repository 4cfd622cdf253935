import BearLex.Number.Pointed
import BearLex.Source.Character

/-! How far comments, strings, numbers and identifiers reach: always to the end of a prefix of the
text ahead, whose characters are known. -/

namespace BearLex

theorem commentRest_isPrefix (ahead : Text) : commentRest ahead <+: ahead :=
  List.takeWhile_prefix _

theorem stringBody_isPrefix (ahead : Text) : stringBody ahead <+: ahead :=
  List.takeWhile_prefix _

theorem identifierRest_isPrefix (ahead : Text) : identifierRest ahead <+: ahead :=
  List.takeWhile_prefix _

theorem fraction_isPrefix (s : Text) : fraction s <+: s := by
  unfold fraction
  split
  · split
    · simp only [List.cons_prefix_cons, true_and]
      exact List.takeWhile_prefix _
    · exact List.nil_prefix
  · exact List.nil_prefix

theorem numberRest_isPrefix (ahead : Text) : numberRest ahead <+: ahead := by
  have := (List.prefix_append_right_inj (ahead.takeWhile Char.isDigit)).2
    (fraction_isPrefix (ahead.dropWhile Char.isDigit))
  rwa [List.takeWhile_append_dropWhile] at this

theorem mem_fraction {s : Text} {c : Char} (h : c ∈ fraction s) : c = '.' ∨ c.isDigit = true := by
  unfold fraction at h
  split at h
  · split at h
    · rename_i digit rest dotted
      rcases List.mem_cons.1 h with rfl | h
      · exact Or.inl dotted.1
      rcases List.mem_cons.1 h with rfl | h
      · exact Or.inr dotted.2
      · exact Or.inr (List.mem_takeWhile_imp h)
    · cases h
  · cases h

theorem mem_numberRest {ahead : Text} {c : Char} (h : c ∈ numberRest ahead) :
    c = '.' ∨ c.isDigit = true := by
  rcases List.mem_append.1 h with h | h
  · exact Or.inr (List.mem_takeWhile_imp h)
  · exact mem_fraction h

theorem fraction_eq (s : Text) :
    fraction s = [] ∨ ∃ decimals : Text, decimals ≠ [] ∧ fraction s = '.' :: decimals ∧
      ∀ c ∈ decimals, c.isDigit = true := by
  unfold fraction
  split
  · split
    · rename_i digit rest dotted
      refine Or.inr ⟨digit :: rest.takeWhile Char.isDigit, List.cons_ne_nil _ _, ?_, fun c hc => ?_⟩
      · rw [dotted.1]
      · rcases List.mem_cons.1 hc with rfl | hc
        · exact dotted.2
        · exact List.mem_takeWhile_imp hc
    · exact Or.inl rfl
  · exact Or.inl rfl

/-- A string is closed in the text ahead if there is a quotation mark. -/
theorem length_stringBody_lt_iff {ahead : Text} :
    (stringBody ahead).length < ahead.length ↔ '"' ∈ ahead := by
  have le := (stringBody_isPrefix ahead).length_le
  have whole := Text.length_takeWhile_eq_iff (p := fun c => c != '"') (s := ahead)
  simp only [bne_iff_ne] at whole
  have total : (stringBody ahead).length = ahead.length ↔ '"' ∉ ahead :=
    whole.trans ⟨fun h mem => h _ mem rfl, fun h c hc e => h (e ▸ hc)⟩
  constructor
  · intro lt
    exact Decidable.byContradiction fun h => by
      have := total.2 h
      omega
  · intro mem
    have : (stringBody ahead).length ≠ ahead.length := fun e => total.1 e mem
    omega

theorem take_succ_length_stringBody {ahead : Text} (closed : '"' ∈ ahead) :
    ahead.take ((stringBody ahead).length + 1) = stringBody ahead ++ ['"'] := by
  have split : stringBody ahead ++ ahead.dropWhile (· != '"') = ahead :=
    List.takeWhile_append_dropWhile
  have lt := length_stringBody_lt_iff.2 closed
  have nonempty : ahead.dropWhile (· != '"') ≠ [] := by
    intro e
    rw [e, List.append_nil] at split
    exact Nat.ne_of_lt lt (congrArg List.length split)
  have head : (ahead.dropWhile (· != '"')).head nonempty = '"' := by
    simpa using List.head_dropWhile_not (fun c => c != '"') nonempty
  obtain ⟨q, rest, e⟩ := List.exists_cons_of_ne_nil nonempty
  simp only [e, List.head_cons] at head
  subst head
  rw [e] at split
  have : (stringBody ahead ++ '"' :: rest).take ((stringBody ahead).length + 1) =
      stringBody ahead ++ ['"'] :=
    List.take_length_add_append 1
  rwa [split] at this

variable {char : Char}

theorem pointed_number (digit : char.isDigit = true) (ahead : Text) :
    Reading.Pointed (char :: numberRest ahead) := by
  have digits : ∀ c ∈ char :: ahead.takeWhile Char.isDigit, c.isDigit = true := by
    intro c hc
    rcases List.mem_cons.1 hc with rfl | hc
    · exact digit
    · exact List.mem_takeWhile_imp hc
  rcases fraction_eq (ahead.dropWhile Char.isDigit) with none | ⟨decimals, nonempty, some, all⟩
  · have := Reading.Pointed.whole (List.cons_ne_nil _ _) digits
    simpa only [numberRest, none, List.append_nil] using this
  · have := Reading.Pointed.fraction (List.cons_ne_nil _ _) digits nonempty all
    simpa only [numberRest, some, List.cons_append] using this

end BearLex
