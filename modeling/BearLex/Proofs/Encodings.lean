import BearLex.Encoding.SingleByte.Lemmas
import BearLex.Encoding.Utf16.Lemmas
import BearLex.Proofs.Endings
import BearLex.Proofs.Monitor

/-! The encoding of a script is no part of its meaning. A text may be written in every encoding that
has bytes for it, with a byte order mark where the encoding allows one: the run of the script is
that of the text in UTF-8. In UTF-16 with the order left open the mark is not optional. -/

namespace BearLex

/-- The text could be taken to start with a byte order mark. -/
def Text.Marked (s : Text) : Prop :=
  ∃ c ∈ s.head?, c.toNat = 0xFEFF ∨ c.toNat = 0xFFFE

/-- The bytes hold the text in the encoding. -/
inductive Encoding.Holds : Encoding → Text → Bytes → Prop
  | utf8 {s : Text} : Holds .utf8 s (Utf8.encode s)
  | utf8Marked {s : Text} : Holds .utf8Marked s (Utf8.mark ++ Utf8.encode s)
  | utf8Unmarked {s : Text} : Holds .utf8Marked s (Utf8.encode s)
  | utf16Marked {s : Text} (order : ByteOrder) :
    Holds .utf16Marked s (Utf16.mark order ++ Utf16.encode order s)
  | utf16Empty : Holds .utf16Marked [] []
  | utf16 {s : Text} (order : ByteOrder) : Holds (.utf16 order) s (Utf16.encode order s)
  | latin1 {s : Text} (small : ∀ c ∈ s, c.toNat < 0x100) : Holds .latin1 s (codePointBytes s)
  | ascii {s : Text} (small : ∀ c ∈ s, c.toNat < 0x80) : Holds .ascii s (codePointBytes s)

namespace Utf8

theorem mark_eq : mark = String.utf8EncodeChar '\uFEFF' := by decide

/-- The bytes of a text start like the mark only if its first character is the mark. -/
theorem eq_nil_of_starts_alike {s : Text} {rest rest' : Bytes} (unmarked : ¬ s.Marked)
    (same : encode s ++ rest = mark ++ rest') : s = [] := by
  cases s with
  | nil => rfl
  | cons c s =>
    rw [encode, List.flatMap_cons, List.append_assoc, mark_eq] at same
    have first := (front_utf8EncodeChar c).unique (front_utf8EncodeChar '\uFEFF') same
    exact absurd ⟨c, rfl, .inl (congrArg Char.toNat first)⟩ unmarked

theorem eq_nil_of_encode {s : Text} (h : encode s = []) : s = [] := by
  have read := decode_encode s
  rw [h] at read
  exact Except.ok.inj (read.symm.trans (decode_encode []))

theorem decodeMarked_mark (s : Text) : decodeMarked (mark ++ encode s) = .ok s := by
  by_cases empty : s = []
  · subst empty
    rfl
  have long : ¬ (mark ++ encode s).isPrefixOf mark = true := by
    intro short
    have := (List.isPrefixOf_iff_prefix.1 short).length_le
    rw [List.length_append] at this
    exact empty (eq_nil_of_encode (List.length_eq_zero_iff.1 (by omega)))
  have marked : mark.isPrefixOf (mark ++ encode s) = true :=
    List.isPrefixOf_iff_prefix.2 (List.prefix_append _ _)
  rw [decodeMarked, if_neg long, if_pos marked, List.drop_left, decode_encode]

theorem decodeMarked_encode {s : Text} (unmarked : ¬ s.Marked) :
    decodeMarked (encode s) = .ok s := by
  by_cases empty : s = []
  · subst empty
    rfl
  have long : ¬ (encode s).isPrefixOf mark = true := by
    intro short
    obtain ⟨rest, same⟩ := List.isPrefixOf_iff_prefix.1 short
    exact empty (eq_nil_of_starts_alike unmarked (same.trans (List.append_nil mark).symm))
  have noMark : ¬ mark.isPrefixOf (encode s) = true := by
    intro starts
    obtain ⟨rest, same⟩ := List.isPrefixOf_iff_prefix.1 starts
    exact empty (eq_nil_of_starts_alike unmarked ((List.append_nil _).trans same.symm))
  rw [decodeMarked, if_neg long, if_neg noMark, decode_encode]

end Utf8

namespace Encoding

variable {e : Encoding} {s : Text} {bytes : Bytes}

/-- Without a mark, UTF-16 with its order left open holds nothing but the empty text. -/
theorem decode_utf16_unmarked (unmarked : ¬ s.Marked) :
    utf16Marked.decode (Utf16.encode .littleEndian s) =
      if s = [] then .ok s else .error .noMark := by
  have noMark : Utf16.markedOrder? (Utf16.encode .littleEndian s) = none := by
    cases s with
    | nil => rfl
    | cons c s =>
      exact Utf16.markedOrder?_encode s (fun e => unmarked ⟨c, rfl, .inl e⟩)
        fun e => unmarked ⟨c, rfl, .inr e⟩
  have empty : (Utf16.encode .littleEndian s).isEmpty = true ↔ s = [] := by
    cases s with
    | nil => exact iff_of_true rfl rfl
    | cons c s =>
      obtain ⟨first, second, rest, bytes, -⟩ := Utf16.exists_encodeChar .littleEndian c
      rw [Utf16.encode, List.flatMap_cons, bytes]
      exact iff_of_false Bool.false_ne_true (List.cons_ne_nil c s)
  rw [decode, noMark]
  dsimp only
  rw [Utf16.decode_encode]
  exact if_congr empty rfl rfl

/-- A text is read from the bytes that hold it. -/
theorem decode_of_holds (h : e.Holds s bytes) (unmarked : ¬ s.Marked) : e.decode bytes = .ok s := by
  have read {α : Type} {result : Except DecodeFault Text} {wrap : DecodeFault → α}
      (h : result = .ok s) : result.mapError wrap = .ok s := by
    rw [h]
    rfl
  cases h with
  | utf8 => exact read (Utf8.decode_encode s)
  | utf8Marked => exact read (Utf8.decodeMarked_mark s)
  | utf8Unmarked => exact read (Utf8.decodeMarked_encode unmarked)
  | utf16Marked order =>
    have length : (Utf16.mark order).length = 2 := by cases order <;> rfl
    have decoded := Utf16.decodeAfter_encode order (Utf16.mark order) s
    rw [length] at decoded
    rw [decode, Utf16.markedOrder?_mark]
    exact read decoded
  | utf16Empty => exact decode_utf16_unmarked unmarked
  | utf16 order => exact read (Utf16.decode_encode order s)
  | latin1 small => exact congrArg _ (Latin1.decode_codePointBytes small)
  | ascii small => exact read (Ascii.decode_codePointBytes small)

end Encoding

namespace Session

/-- A text that does not start with a byte order mark in either byte order is run alike from any
bytes that hold it in the encoding that is selected, whatever name selects it, and from its bytes in
UTF-8 with none selected. If UTF-16 is selected with the byte order left open, the mark that tells
it is required: without one, a text that is not empty ends the run as an internal error. -/
theorem run_ignores_encoding {i j : Invocation} {s : Settings} {path : Path} {name text : Text}
    {e : Encoding} (usual : s.encoding = Settings.default.encoding)
    (script : task i.environment i.arguments = .script s path)
    (selected : task j.environment j.arguments = .script { s with encoding := name } path)
    (known : Encoding.ofName? name = .ok e) (unmarked : ¬ text.Marked) :
    (∀ bytes, e.Holds text bytes →
      run (j.holding path bytes) = run (i.holding path (Utf8.encode text))) ∧
    (e = .utf16Marked → text ≠ [] →
      let o := run (j.holding path (Utf16.encode .littleEndian text))
      o.exit = 70 ∧ o.stdout = [] ∧
      o.stderr = "Internal error: UTF-16 stream does not start with BOM\n".toList ++
        if s.verbose then "<traceback>\n".toList else []) := by
  have utf8 : Encoding.ofName? s.encoding = .ok .utf8 := by
    rw [usual]
    decide
  constructor
  · intro bytes holds
    rw [run_holding script utf8,
      run_holding_of_text selected known (Encoding.decode_of_holds holds unmarked)]
    rfl
  · rintro rfl nonempty
    have refused := Encoding.decode_utf16_unmarked unmarked
    rw [if_neg nonempty] at refused
    dsimp only
    rw [run_holding_of_fault selected known refused]
    refine ⟨rfl, rfl, ?_⟩
    cases s.verbose <;> rfl

/-- The verbose script, with an encoding selected. -/
def encodedScript (name : Text) : Invocation :=
  { spreadScript with arguments := ["-ve".toList, name, "a".toList] }

theorem task_spreadScript : task spreadScript.environment spreadScript.arguments =
    .script spreadSettings (Path.ofText "a".toList) := rfl

theorem task_encodedScript (name : Text) :
    task (encodedScript name).environment (encodedScript name).arguments =
      .script { spreadSettings with encoding := name } (Path.ofText "a".toList) := rfl

theorem run_ignores_encoding_pair :
    ¬ Text.Marked "é😀".toList ∧
    Encoding.ofName? "UTF 16be".toList = .ok (.utf16 .bigEndian) ∧
    Utf16.encode .bigEndian "é😀".toList = [0x00, 0xE9, 0xD8, 0x3D, 0xDE, 0x00] ∧
    run ((encodedScript "UTF 16be".toList).holding (Path.ofText "a".toList)
        (Utf16.encode .bigEndian "é😀".toList)) =
      run (spreadScript.holding (Path.ofText "a".toList) (Utf8.encode "é😀".toList)) := by
  have usual : spreadSettings.encoding = Settings.default.encoding := rfl
  have unmarked : ¬ Text.Marked "é😀".toList := by simp [Text.Marked]
  have known : Encoding.ofName? "UTF 16be".toList = .ok (.utf16 .bigEndian) := by decide
  have runs := run_ignores_encoding usual task_spreadScript (task_encodedScript _) known unmarked
  exact ⟨unmarked, known, by decide, runs.1 _ (.utf16 .bigEndian)⟩

theorem run_needs_mark :
    ¬ Text.Marked "a".toList ∧ Encoding.ofName? "utf-16".toList = .ok .utf16Marked ∧
    Utf16.encode .littleEndian "a".toList = [0x61, 0x00] ∧
    (run ((encodedScript "utf-16".toList).holding (Path.ofText "a".toList) [0x61, 0x00])).exit =
      70 ∧
    (run (spreadScript.holding (Path.ofText "a".toList) (Utf8.encode "a".toList))).exit = 0 := by
  have unmarked : ¬ Text.Marked "a".toList := by simp [Text.Marked]
  have bytes : Utf16.encode .littleEndian "a".toList = [0x61, 0x00] := by decide
  have known : Encoding.ofName? "utf-16".toList = .ok .utf16Marked := by decide
  have refused := Encoding.decode_utf16_unmarked unmarked
  rw [if_neg (by decide), bytes] at refused
  have clean : (Cursor.atStart "a".toList).scan.2.diagnostics = [] := by
    rw [Cursor.diagnostics_scan, Scan.diagnostics, Scan.ofSource, Phase.findings_fromLine]
    rfl
  refine ⟨unmarked, known, bytes, ?_, ?_⟩
  · have ends := run_holding_of_fault (task_encodedScript "utf-16".toList) known refused
    exact congrArg Outcome.exit ends
  · have same : Lines.unify "a".toList = "a".toList := by decide
    rw [run_holding task_spreadScript (by decide), same, scriptOutcome_eq, scanExit, if_pos clean]
    rfl

end Session

end BearLex
