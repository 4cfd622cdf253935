import BearLex.Encoding.Utf16.Lemmas
import BearLex.Proofs.Monitor
import BearLex.Proofs.Streams

/-! What a run of the command with scripts comes to. More than one script is a wrong use, whatever
the files hold. With one script, the attempt to get its text ends in exactly one of four ways, and
each has its exit code; nothing is printed of a text that is not found, and all of one that is.
Bytes that are refused count as undecodable if the refusal names the part of them that is no text.
UTF-16 without a byte order mark is refused as a whole, and is one of the internal errors. -/

namespace BearLex

/-- How the attempt to get the text of a script ends. -/
inductive Retrieval
  | absent
  | undecodable
  | unreadable
  | text (source : Text)

/-- The attempt to get the text at a path ends in a way: there is no file to open, a part of its
bytes is no text, the file or its encoding cannot be used or the bytes are refused as a whole, or it
holds a text. The encoding may be any that a name stands for, further ones included. -/
inductive Retrieves (openFile : Path → Except SystemFault Bytes) (codecs : Codecs) (encoding : Text)
    (path : Path) : Retrieval → Prop
  | absent {fault : SystemFault} (stuck : openFile path = .error fault)
    (h : fault = .missing ∨ fault = .isFolder ∨ fault = .denied) :
    Retrieves openFile codecs encoding path .absent
  | unopened {fault : SystemFault} (stuck : openFile path = .error fault)
    (h : fault = .notFolder ∨ fault = .nameTooLong ∨ fault = .other) :
    Retrieves openFile codecs encoding path .unreadable
  | unknownEncoding {bytes : Bytes} {fault : NameFault} (opened : openFile path = .ok bytes)
    (unknown : Codec.ofName? codecs encoding = .error fault) :
    Retrieves openFile codecs encoding path .unreadable
  | unmarked {bytes : Bytes} {codec : Codec} (opened : openFile path = .ok bytes)
    (known : Codec.ofName? codecs encoding = .ok codec) (whole : codec bytes = .error .noMark) :
    Retrieves openFile codecs encoding path .unreadable
  | refused {bytes : Bytes} {codec : Codec} {message : Text} (opened : openFile path = .ok bytes)
    (known : Codec.ofName? codecs encoding = .ok codec)
    (whole : codec bytes = .error (.refused message)) :
    Retrieves openFile codecs encoding path .unreadable
  | undecodable {bytes : Bytes} {codec : Codec} {fault : DecodeFault}
    (opened : openFile path = .ok bytes) (known : Codec.ofName? codecs encoding = .ok codec)
    (part : codec bytes = .error (.fault fault)) :
    Retrieves openFile codecs encoding path .undecodable
  | text {bytes : Bytes} {codec : Codec} {source : Text} (opened : openFile path = .ok bytes)
    (known : Codec.ofName? codecs encoding = .ok codec) (decoded : codec bytes = .ok source) :
    Retrieves openFile codecs encoding path (.text (Lines.unify source))

namespace Retrieval

/-- What a run shows of the end of the attempt: the exit code, nothing on standard output where
there is no text, and else a line for every token, and for every diagnostic if no details are asked
for. -/
def Shows (verbose : Bool) (o : Outcome) : Retrieval → Prop
  | absent => o.exit = 66 ∧ o.stdout = []
  | undecodable => o.exit = 65 ∧ o.stdout = []
  | unreadable => o.exit = 70 ∧ o.stdout = []
  | text source =>
    let found := (Cursor.atStart source).scan
    found.1 = none ∧
    o.stdout = found.2.tokens.flatMap (fun t => ControlSequence.strip t.printed) ∧
    (verbose = false →
      o.stderr = found.2.diagnostics.flatMap Diagnostic.printed ∧
      Lines.split o.stderr = found.2.diagnostics.map Diagnostic.render) ∧
    o.exit = if found.2.diagnostics = [] then 0 else 65

/-- The end of an attempt that gave a text or failed. -/
def ofResult : Except Failure Text → Retrieval
  | .ok source => text source
  | .error f =>
    match f.exitCode with
    | .noInput => absent
    | .dataError => undecodable
    | _ => unreadable

end Retrieval

variable {openFile : Path → Except SystemFault Bytes} {codecs : Codecs} {encoding : Text}
  {path : Path}

/-- The attempt ends in no other way than `readScript` tells. -/
theorem Retrieves.eq_ofResult {found : Retrieval}
    (h : Retrieves openFile codecs encoding path found) :
    found = .ofResult (Session.readScript openFile codecs encoding path) := by
  cases h with
  | absent stuck h =>
    rw [Session.readScript, stuck]
    rcases h with rfl | rfl | rfl <;> rfl
  | unopened stuck h =>
    rw [Session.readScript, stuck]
    rcases h with rfl | rfl | rfl <;> rfl
  | unknownEncoding opened unknown =>
    rw [Session.readScript, opened]
    simp only [unknown]
    rfl
  | unmarked opened known refused | refused opened known refused
    | undecodable opened known refused =>
    rw [Session.readScript, opened]
    simp only [known, refused]
    rfl
  | text opened known decoded =>
    rw [Session.readScript_of_text opened known decoded]
    rfl

theorem retrieves_ofResult (openFile : Path → Except SystemFault Bytes) (codecs : Codecs)
    (encoding : Text) (path : Path) :
    Retrieves openFile codecs encoding path
      (.ofResult (Session.readScript openFile codecs encoding path)) := by
  unfold Session.readScript
  split
  · rename_i fault stuck
    cases fault with
    | missing => exact .absent stuck (.inl rfl)
    | isFolder => exact .absent stuck (.inr (.inl rfl))
    | denied => exact .absent stuck (.inr (.inr rfl))
    | notFolder => exact .unopened stuck (.inl rfl)
    | nameTooLong => exact .unopened stuck (.inr (.inl rfl))
    | other => exact .unopened stuck (.inr (.inr rfl))
  split
  · exact .unknownEncoding ‹_› ‹_›
  split
  · rename_i fault refused
    cases fault with
    | fault f => exact .undecodable ‹_› ‹_› refused
    | noMark => exact .unmarked ‹_› ‹_› refused
    | refused message => exact .refused ‹_› ‹_› refused
  · exact .text ‹_› ‹_› ‹_›

/-- A run that ends early prints nothing. -/
theorem Outcome.stdout_ofFailure (verbose : Bool) (f : Failure) :
    (Outcome.ofFailure verbose f).stdout = [] := by
  rw [Outcome.ofFailure, Outcome.stdout]
  cases f.isInternal <;> rfl

theorem shows_ofFailure (verbose : Bool) (f : Failure) :
    (Retrieval.ofResult (.error f)).Shows verbose (.ofFailure verbose f) := by
  have silent := Outcome.stdout_ofFailure verbose f
  cases f with
  | system fault details => cases fault <;> exact ⟨rfl, silent⟩
  | _ => exact ⟨rfl, silent⟩

theorem shows_of_tells {source : Text} {verbose : Bool} {o : Outcome}
    (h : Session.Tells source verbose o) : (Retrieval.text source).Shows verbose o := by
  refine ⟨(Cursor.scan_atStart source).1, ?_, ?_, ?_⟩
  · rw [Outcome.stdout_eq, h.outputs, List.flatMap_map]
  · intro quiet
    have stderr := Outcome.stderr_eq (h.verbose_eq.trans quiet)
    rw [h.errors, Cursor.diagnostics_scan, Scan.strip_diagnostics] at stderr
    rw [Cursor.diagnostics_scan, stderr]
    exact ⟨rfl, Scan.split_diagnostics _⟩
  · rw [h.exit, Session.scanExit]
    split <;> rfl

theorem shows_runScript (openFile : Path → Except SystemFault Bytes) (codecs : Codecs)
    (s : Settings) (path : Path) :
    (Retrieval.ofResult (Session.readScript openFile codecs s.encoding path)).Shows s.verbose
      (Session.runScript openFile codecs s path) := by
  unfold Session.runScript
  cases Session.readScript openFile codecs s.encoding path with
  | error f => exact shows_ofFailure s.verbose f
  | ok source => exact shows_of_tells (Session.tells_scriptOutcome s path source)

/-- UTF-16 asks for a byte order mark, if there are bytes at all. -/
theorem Encoding.decode_of_no_mark {bytes : Bytes} {text : Text} (nonempty : bytes ≠ [])
    (noMark : Utf16.markedOrder? bytes = none)
    (readable : Utf16.decode .littleEndian bytes = .ok text) :
    Encoding.utf16Marked.decode bytes = .error .noMark := by
  have some : ¬ bytes.isEmpty = true := by simpa using nonempty
  rw [decode, noMark]
  simp only [readable, if_neg some]

section

variable {i : Invocation} {o : Options} {script : Text}
  (parsed : Arguments.options i.arguments = .ok o) (noRequest : o.request = none)

include parsed noRequest

theorem Session.run_of_several (several : 2 ≤ o.scripts.length) :
    run i = usageOutcome (settings i.environment o) := by
  rw [run_of_options parsed noRequest]
  match scripts : o.scripts with
  | [] | [_] =>
    rw [scripts] at several
    contradiction
  | _ :: _ :: _ => rfl

variable (one : o.scripts = [script])

include one

theorem Session.run_of_script :
    run i = runScript i.openFile i.codecs (settings i.environment o) (Path.ofText script) := by
  rw [run_of_options parsed noRequest, one]
  rfl

theorem Session.run_of_no_mark {bytes : Bytes} {text : Text}
    (opened : i.openFile (Path.ofText script) = .ok bytes) (nonempty : bytes ≠ [])
    (known : Encoding.ofName? (settings i.environment o).encoding = .ok .utf16Marked)
    (noMark : Utf16.markedOrder? bytes = none)
    (readable : Utf16.decode .littleEndian bytes = .ok text) :
    run i = .ofFailure (settings i.environment o).verbose .noByteOrderMark := by
  rw [run_of_script parsed noRequest one, runScript, readScript, opened]
  simp only [Codec.ofName?_of_encoding i.codecs known,
    Encoding.decode_of_no_mark nonempty noMark readable]
  rfl

end

/-- A run of the command whose arguments are no request. With more than one script it only tells its
use, with exit code 64, whatever the files are. With one script, the attempt to get its text ends in
exactly one way, and the run shows which: exit code 66, 65 or 70 and nothing on standard output
where there is no text, and else the scan of the text, all its tokens and all its diagnostics, with
exit code 65 if there are diagnostics and 0 otherwise. Bytes that a codec refuses end the run with
exit code 65 only if the refusal names the part of them that is no text. So a file that is not empty
and whose bytes are a text in little endian, but that has no byte order mark, ends the run with exit
code 70 if UTF-16 is selected. -/
theorem run_outcome (i : Invocation) {o : Options}
    (parsed : Arguments.options i.arguments = .ok o) (noRequest : o.request = none) :
    (2 ≤ o.scripts.length →
      (Session.run i).exit = 64 ∧ (Session.run i).stdout = [] ∧
      (Session.run i).stderr = "Usage: bear [script]\n".toList ∧
      ∀ openFile codecs, Session.run { i with openFile, codecs } = Session.run i) ∧
    ∀ script, o.scripts = [script] →
      let s := Session.settings i.environment o
      let path := Path.ofText script
      (∃ found, Retrieves i.openFile i.codecs s.encoding path found ∧
        (∀ other, Retrieves i.openFile i.codecs s.encoding path other → other = found) ∧
        found.Shows s.verbose (Session.run i)) ∧
      ∀ bytes text, i.openFile path = .ok bytes → bytes ≠ [] →
        Encoding.ofName? s.encoding = .ok .utf16Marked → Utf16.markedOrder? bytes = none →
        Utf16.decode .littleEndian bytes = .ok text →
        (Session.run i).exit = 70 ∧ (Session.run i).stdout = [] ∧
        (Session.run i).stderr = "Internal error: UTF-16 stream does not start with BOM\n".toList ++
          if s.verbose then "<traceback>\n".toList else [] := by
  constructor
  · intro several
    rw [Session.run_of_several parsed noRequest several]
    refine ⟨rfl, rfl, rfl, fun openFile codecs => ?_⟩
    exact Session.run_of_several (i := { i with openFile, codecs }) parsed noRequest several
  · intro script one s path
    constructor
    · rw [Session.run_of_script parsed noRequest one]
      exact ⟨_, retrieves_ofResult i.openFile i.codecs s.encoding path,
        fun _ other => other.eq_ofResult, shows_runScript i.openFile i.codecs s path⟩
    · intro bytes text opened nonempty known noMark readable
      rw [Session.run_of_no_mark parsed noRequest one opened nonempty known noMark readable]
      refine ⟨rfl, rfl, ?_⟩
      cases s.verbose <;> rfl

/-- Code page 1252 under one of its names, for ASCII and the euro sign. -/
def euroCodecs (name : Text) : Option Codec :=
  if name = "cp1252".toList then
    some fun bytes => .ok (bytes.map fun b => if b = 0x80 then '€' else Char.ofNat b.toNat)
  else none

/-- A script in code page 1252 with three stray characters, of which only the first is stored. -/
def euroScript : Invocation where
  arguments := ["-e".toList, "cp1252".toList, "a.bear".toList]
  environment := ⟨none, none, none, some "1".toList⟩
  input := []
  openFile := fun _ => .ok [0x40, 0x0D, 0x0A, 0x23, 0x80]
  codecs := euroCodecs

def euroOptions : Options :=
  ⟨["a.bear".toList], some "cp1252".toList, none, false, none⟩

theorem run_outcome_euro :
    Arguments.options euroScript.arguments = .ok euroOptions ∧ euroOptions.request = none ∧
    (Retrieval.text "@\n#€".toList).Shows false (Session.run euroScript) ∧
    (Session.run euroScript).exit = 65 := by
  have known : Codec.ofName? euroCodecs "cp1252".toList =
      .ok fun bytes => .ok (bytes.map fun b => if b = 0x80 then '€' else Char.ofNat b.toNat) := by
    rfl
  have retrieved : Retrieves euroScript.openFile euroCodecs "cp1252".toList
      (Path.ofText "a.bear".toList) (.text "@\n#€".toList) :=
    @Retrieves.text _ _ _ _ _ _ "@\r\n#€".toList rfl known rfl
  obtain ⟨⟨found, -, only, shows⟩, -⟩ :=
    (run_outcome euroScript (o := euroOptions) rfl rfl).2 _ rfl
  rw [← only _ retrieved] at shows
  refine ⟨rfl, rfl, shows, ?_⟩
  have findings := Phase.findings_fromLine 1 "@\n#€".toList
  have some : (Cursor.atStart "@\n#€".toList).scan.2.diagnostics ≠ [] := by
    rw [Cursor.diagnostics_scan, Scan.diagnostics, Scan.ofSource, findings]
    exact List.cons_ne_nil _ _
  rw [shows.2.2.2, if_neg some]

/-- A script of one letter in UTF-16 without a byte order mark. -/
def unmarkedScript : Invocation where
  arguments := ["-e".toList, "utf-16".toList, "a.bear".toList]
  environment := ⟨none, none, none, none⟩
  input := []
  openFile := fun _ => .ok [0x61, 0x00]

def unmarkedOptions : Options :=
  ⟨["a.bear".toList], some "utf-16".toList, none, false, none⟩

/-- Not all bytes that are refused end a run with the exit code of a data error. -/
theorem refused_exit :
    Encoding.utf16Marked.decode [0x61, 0x00] = .error .noMark ∧
    (Session.run unmarkedScript).exit = 70 ∧ (Session.run unmarkedScript).stdout = [] ∧
    ¬ ∀ (i : Invocation) (o : Options) (script : Text) (bytes : Bytes) (codec : Codec)
        (refusal : UnreadableBytes),
      Arguments.options i.arguments = .ok o → o.request = none → o.scripts = [script] →
      i.openFile (Path.ofText script) = .ok bytes →
      Codec.ofName? i.codecs (Session.settings i.environment o).encoding = .ok codec →
      codec bytes = .error refusal → (Session.run i).exit = 65 := by
  have known : Encoding.ofName? "utf-16".toList = .ok .utf16Marked := by decide
  have nonempty : ([0x61, 0x00] : Bytes) ≠ [] := by decide
  have noMark : Utf16.markedOrder? [0x61, 0x00] = none := by decide
  have readable : Utf16.decode .littleEndian [0x61, 0x00] = .ok ['a'] :=
    Utf16.decode_encode .littleEndian ['a']
  have refused := Encoding.decode_of_no_mark nonempty noMark readable
  have ends : Session.run unmarkedScript = .ofFailure false .noByteOrderMark :=
    Session.run_of_no_mark (o := unmarkedOptions) rfl rfl rfl rfl nonempty known noMark readable
  rw [ends]
  refine ⟨refused, rfl, rfl, fun data => ?_⟩
  have exit := data unmarkedScript unmarkedOptions _ _ _ _ rfl rfl rfl rfl
    (Codec.ofName?_of_encoding _ known) refused
  rw [ends] at exit
  cases exit

end BearLex
