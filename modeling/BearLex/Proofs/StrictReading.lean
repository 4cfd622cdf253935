import BearLex.Encoding.Utf8.WellFormed
import BearLex.Proofs.Endings

/-! Reading a script in UTF-8. The run reports that the source cannot be decoded if and only if the
bytes are not well-formed, and then nothing is scanned; the place it tells is where the longest
well-formed part ends. Otherwise what is scanned is the one text that has these bytes. -/

namespace BearLex

theorem Refusal.legible_text (why : Refusal) : Legible why.text := by
  cases why <;> exact .of_all (by decide)

theorem legible_spanText (start stop : Nat) : Legible (spanText start stop) :=
  (legible_ofNat _).append (.cons (by decide) (legible_ofInt _))

theorem DecodeFault.legible_message {f : DecodeFault} (codec : Legible f.codec)
    (reason : Legible f.reason) : Legible f.message := by
  have span : Legible ("bytes in position ".toList ++ spanText f.start f.stop) :=
    .append (.of_all (by decide)) (legible_spanText _ _)
  have mark : Legible "'".toList := .of_all (by decide)
  have verb : Legible "' codec can't decode ".toList := .of_all (by decide)
  have colon : Legible ": ".toList := .of_all (by decide)
  unfold message
  refine ((((mark.append codec).append verb).append ?_).append colon).append reason
  split
  · split
    · have byte : Legible "byte 0x".toList := .of_all (by decide)
      have place : Legible " in position ".toList := .of_all (by decide)
      exact ((byte.append (Quoted.legible_hex _ _)).append place).append (legible_ofNat _)
    · exact span
  · exact span

/-- The run ends because the source cannot be decoded: nothing is printed, and one line says why. -/
def Outcome.Undecodable (o : Outcome) : Prop :=
  o.exit = 65 ∧ o.stdout = [] ∧
    ∃ reason, Lines.split o.stderr = ["Error: cannot decode source: ".toList ++ reason]

theorem legible_announcement {f : DecodeFault} (h : Legible f.message) :
    Legible (Failure.undecodable f).announcement :=
  .append (.of_all (by decide)) h

theorem Outcome.stderr_undecodable (verbose : Bool) {f : DecodeFault} (h : Legible f.message) :
    (ofFailure verbose (.undecodable f)).stderr =
      (Failure.undecodable f).announcement ++ ['\n'] := by
  show ControlSequence.strip _ ++ [] = _
  rw [List.append_nil]
  exact (legible_announcement h).strip_line

theorem Outcome.undecodable_ofFailure (verbose : Bool) {f : DecodeFault} (h : Legible f.message) :
    (ofFailure verbose (.undecodable f)).Undecodable := by
  have oneLine : '\n' ∉ (Failure.undecodable f).announcement :=
    (legible_announcement h).not_mem (by decide)
  refine ⟨rfl, rfl, f.message, ?_⟩
  rw [stderr_undecodable verbose h, Lines.split_append_newline oneLine]
  rfl

namespace Session

/-- A script with a text prints at least the token at the end of input. -/
theorem stdout_scriptOutcome_ne (s : Settings) (path : Path) (source : Text) :
    (scriptOutcome s path source).stdout ≠ [] := by
  have tells := tells_scriptOutcome s path source
  rw [Outcome.stdout_eq, tells.outputs, Cursor.tokens_atStart]
  intro silent
  have last : ControlSequence.strip (Token.ending (1 + Lines.count source)).printed = [] :=
    List.flatMap_eq_nil_iff.1 silent _
      (List.mem_map.2 ⟨_, List.mem_append_right _ List.mem_cons_self, rfl⟩)
  have shown : ControlSequence.strip "END  None\n".toList ≠ [] := by decide
  exact shown last

variable {i : Invocation} {s : Settings} {path : Path}

/-- For any bytes of a script that is read as UTF-8, the run ends with the source undecodable if and
only if the bytes are not well-formed. It then tells the fault, which starts where the longest
well-formed part ends and spans some bytes of what is left. If they are well-formed, there is
exactly one text with these bytes, and the run is that of this text with its line ends unified. -/
theorem run_reads_strictly (script : task i.environment i.arguments = .script s path)
    (known : Encoding.ofName? s.encoding = .ok .utf8) (bytes : Bytes) :
    let o := run (i.holding path bytes)
    (o.Undecodable ↔ ¬ Utf8.WellFormed bytes) ∧
    (¬ Utf8.WellFormed bytes → ∃ f, Utf8.Located bytes f ∧
      o.stderr = "Error: cannot decode source: ".toList ++ f.message ++ ['\n']) ∧
    (Utf8.WellFormed bytes → ∃ text, Utf8.encode text = bytes ∧
      (∀ other, Utf8.encode other = bytes → other = text) ∧
      o = scriptOutcome s path (Lines.unify text)) := by
  intro o
  cases read : Utf8.decode bytes with
  | ok text =>
    have bytesOf := Utf8.decode_eq_ok.1 read
    have well : Utf8.WellFormed bytes := Utf8.wellFormed_iff.2 ⟨text, bytesOf⟩
    have ran : o = scriptOutcome s path (Lines.unify text) := by
      subst bytesOf
      exact run_holding script known text
    refine ⟨?_, fun ill => absurd well ill, fun _ => ⟨text, bytesOf, ?_, ran⟩⟩
    · rw [ran]
      exact iff_of_false (fun h => stdout_scriptOutcome_ne s path _ h.2.1) (not_not_intro well)
    · intro other same
      rw [Utf8.decode_eq_ok.2 same] at read
      exact Except.ok.inj read
  | error f =>
    obtain ⟨located, why, reason⟩ := Utf8.located_of_decode read
    have ill : ¬ Utf8.WellFormed bytes := by
      intro well
      obtain ⟨text, bytesOf⟩ := Utf8.wellFormed_iff.1 well
      rw [Utf8.decode_eq_ok.2 bytesOf] at read
      cases read
    have legible : Legible f.message := by
      refine DecodeFault.legible_message ?_ ?_
      · rw [located.codec_eq]
        exact .of_all (by decide)
      · rw [reason]
        exact why.legible_text
    have ran : o = .ofFailure s.verbose (.undecodable f) := by
      have refused : Encoding.utf8.decode bytes = .error (.fault f) := by
        rw [Encoding.decode, read]
        rfl
      exact run_holding_of_fault script known refused
    rw [ran]
    exact ⟨iff_of_true (Outcome.undecodable_ofFailure _ legible) ill,
      fun _ => ⟨f, located, Outcome.stderr_undecodable _ legible⟩, fun well => absurd well ill⟩

/-- A letter, and the first two of the three bytes of the euro sign. -/
def cutShort : Bytes := [0x61, 0xE2, 0x82]

theorem decode_cutShort : Utf8.decode cutShort =
    .error ⟨Utf8.codec, cutShort, 1, 3, "unexpected end of data".toList⟩ := by
  have letter : Utf8.front 0x61 [0xE2, 0x82] = .char 'a' 0 := by decide
  have sign : Utf8.front 0xE2 [0x82] = .refused 2 .unexpectedEnd := by decide
  have span : decodeFrom Utf8.front 0 [] [0x61, 0xE2, 0x82] =
      .error ⟨1, 2, .unexpectedEnd⟩ := by
    rw [decodeFrom, letter]
    show decodeFrom Utf8.front 1 ['a'] [0xE2, 0x82] = _
    rw [decodeFrom, sign]
  rw [Utf8.decode, cutShort, span]
  rfl

theorem run_reads_strictly_cut_short :
    task spreadScript.environment spreadScript.arguments =
      .script spreadSettings (Path.ofText "a".toList) ∧
    Encoding.ofName? spreadSettings.encoding = .ok .utf8 ∧
    ¬ Utf8.WellFormed cutShort ∧
    (run (spreadScript.holding (Path.ofText "a".toList) cutShort)).Undecodable := by
  have script : task spreadScript.environment spreadScript.arguments =
      .script spreadSettings (Path.ofText "a".toList) := rfl
  have known : Encoding.ofName? spreadSettings.encoding = .ok .utf8 := by decide
  have ill : ¬ Utf8.WellFormed cutShort := by
    intro well
    obtain ⟨text, bytes⟩ := Utf8.wellFormed_iff.1 well
    have read := Utf8.decode_eq_ok.2 bytes
    rw [decode_cutShort] at read
    cases read
  exact ⟨script, known, ill, (run_reads_strictly script known cutShort).1.2 ill⟩

end Session

end BearLex
