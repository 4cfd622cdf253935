import BearLex.Proofs.Integers
import BearLex.Settings
import Mathlib.Data.List.Forall2

/-! Settings from the variables of the environment: which words ask for details, which texts are a
limit, and what each variable says about the setting of its name. -/

namespace BearLex

/-! ### Letters in two cases -/

/-- The characters are equal, or the capital and the small form of one ASCII letter. -/
def SameLetter (c d : Char) : Prop :=
  c = d ∨ ∃ k < 26, c.toNat = 65 + k ∧ d.toNat = 97 + k ∨ c.toNat = 97 + k ∧ d.toNat = 65 + k

theorem toNat_toLower (c : Char) :
    c.toLower.toNat = if 65 ≤ c.toNat ∧ c.toNat ≤ 90 then c.toNat + 32 else c.toNat := by
  have bounds : (c.val ≥ 'A'.val ∧ c.val ≤ 'Z'.val) ↔ (65 ≤ c.toNat ∧ c.toNat ≤ 90) := by
    rw [ge_iff_le, UInt32.le_iff_toNat_le, UInt32.le_iff_toNat_le]
    rfl
  unfold Char.toLower
  split
  case isTrue capital =>
    have capital' := bounds.1 capital
    rw [if_pos capital']
    show (c.val + 32).toNat = c.val.toNat + 32
    have small : c.val.toNat ≤ 90 := capital'.2
    rw [UInt32.toNat_add]
    show (c.val.toNat + 32) % 2 ^ 32 = c.val.toNat + 32
    omega
  case isFalse other =>
    rw [if_neg fun capital => other (bounds.2 capital)]

theorem sameLetter_toLower (c : Char) : SameLetter c c.toLower := by
  have place := toNat_toLower c
  by_cases capital : 65 ≤ c.toNat ∧ c.toNat ≤ 90
  · rw [if_pos capital] at place
    exact .inr ⟨c.toNat - 65, by omega, .inl (by omega)⟩
  · rw [if_neg capital] at place
    exact .inl (Char.toNat_inj.1 place.symm)

namespace SameLetter

variable {c d : Char}

/-- A character that is no capital is the small form of each character that is the same letter. -/
theorem toLower_eq (h : SameLetter c d) (small : d.toLower = d) : c.toLower = d := by
  have fixed := toNat_toLower d
  rw [small] at fixed
  rw [← Char.toNat_inj, toNat_toLower]
  obtain rfl | ⟨k, bound, ⟨hc, hd⟩ | ⟨hc, hd⟩⟩ := h
  · exact fixed.symm
  · rw [if_pos (by omega)]
    omega
  · rw [if_pos (by omega)] at fixed
    omega

theorem toNat_lt (h : SameLetter c d) (ascii : d.toNat < 128) : c.toNat < 128 := by
  obtain rfl | ⟨k, bound, ⟨hc, -⟩ | ⟨hc, -⟩⟩ := h
  · exact ascii
  · omega
  · omega

/-- A text without capitals is the lower case of each text with the same letters. -/
theorem lower_eq {s word : Text} (h : List.Forall₂ SameLetter s word)
    (small : ∀ d ∈ word, d.toLower = d) : Text.lower s = word := by
  induction h with
  | nil => rfl
  | cons first _ ih =>
    obtain ⟨small, others⟩ := List.forall_mem_cons.1 small
    show _ :: Text.lower _ = _
    rw [first.toLower_eq small, ih others]

theorem forall_toNat_lt {s word : Text} (h : List.Forall₂ SameLetter s word)
    (ascii : ∀ d ∈ word, d.toNat < 128) : ∀ c ∈ s, c.toNat < 128 := by
  induction h with
  | nil => exact List.forall_mem_nil _
  | cons first _ ih =>
    obtain ⟨ascii, others⟩ := List.forall_mem_cons.1 ascii
    exact List.forall_mem_cons.2 ⟨first.toNat_lt ascii, ih others⟩

end SameLetter

/-! ### Words that ask for details -/

/-- Lower case in Unicode, as far as ASCII goes. ASCII characters become small letters or stay. Of
the others each becomes at least one character, and no ASCII character but the `i` of the dotted
capital and the `k` of the Kelvin sign; what else it becomes is left open. -/
inductive Lowers : Text → Text → Prop
  | nil : Lowers [] []
  | ascii {c : Char} {s t : Text} (h : c.toNat < 128) (rest : Lowers s t) :
    Lowers (c :: s) (c.toLower :: t)
  | foreign {c : Char} {part s t : Text} (h : 128 ≤ c.toNat) (nonempty : part ≠ [])
    (others : ∀ d ∈ part, d.toNat < 128 → d = 'i' ∨ d = 'k') (rest : Lowers s t) :
    Lowers (c :: s) (part ++ t)

/-- The words for yes consist of small letters and digits of ASCII, and have no `i` and no `k`. -/
theorem Settings.plain_of_mem_yesWords {word : Text} (mem : word ∈ yesWords) {d : Char}
    (hd : d ∈ word) : d.toNat < 128 ∧ d ≠ 'i' ∧ d ≠ 'k' ∧ d.toLower = d := by
  have all : (yesWords.all fun word => word.all fun d =>
      decide (d.toNat < 128 ∧ d ≠ 'i' ∧ d ≠ 'k' ∧ d.toLower = d)) = true := by
    decide
  exact of_decide_eq_true (List.all_eq_true.1 (List.all_eq_true.1 all word mem) d hd)

theorem lowers_lower (s : Text) : Lowers s (Text.lower s) := by
  induction s with
  | nil => exact .nil
  | cons c s ih =>
    by_cases h : c.toNat < 128
    · exact .ascii h ih
    · have same : c.toLower = c := by
        rw [← Char.toNat_inj, toNat_toLower, if_neg (by omega)]
      show Lowers (c :: s) ([c.toLower] ++ Text.lower s)
      rw [same]
      refine .foreign (by omega) (List.cons_ne_nil c []) ?_ ih
      intro d mem small
      rw [List.mem_singleton.1 mem] at small
      exact absurd small h

namespace Lowers

variable {s t : Text}

theorem eq_of_ascii (h : Lowers s t) (ascii : ∀ c ∈ s, c.toNat < 128) : t = Text.lower s := by
  induction h with
  | nil => rfl
  | ascii _ _ ih =>
    rw [ih fun c mem => ascii c (List.mem_cons_of_mem _ mem)]
    rfl
  | foreign h _ _ _ _ =>
    have := ascii _ List.mem_cons_self
    omega

/-- The letters `i` and `k` apart, only ASCII characters become ASCII characters. -/
theorem ascii_of_plain (h : Lowers s t) (plain : ∀ d ∈ t, d.toNat < 128 ∧ d ≠ 'i' ∧ d ≠ 'k') :
    ∀ c ∈ s, c.toNat < 128 := by
  induction h with
  | nil => exact List.forall_mem_nil _
  | ascii h _ ih =>
    exact List.forall_mem_cons.2 ⟨h, ih fun d mem => plain d (List.mem_cons_of_mem _ mem)⟩
  | foreign _ nonempty others _ _ =>
    obtain ⟨d, more, rfl⟩ := List.exists_cons_of_ne_nil nonempty
    obtain ⟨small, i, k⟩ := plain d (List.mem_append_left _ List.mem_cons_self)
    exact absurd (others d List.mem_cons_self small) (not_or.2 ⟨i, k⟩)

/-- The lower case of a text is one of the words if the text is that word up to the case of ASCII
letters. No other character helps: no word has an `i` or a `k`. -/
theorem mem_yesWords_iff (h : Lowers s t) :
    t ∈ Settings.yesWords ↔ ∃ word ∈ Settings.yesWords, List.Forall₂ SameLetter s word := by
  constructor
  · intro mem
    have ascii := h.ascii_of_plain fun d hd =>
      have ⟨small, i, k, _⟩ := Settings.plain_of_mem_yesWords mem hd
      ⟨small, i, k⟩
    refine ⟨t, mem, ?_⟩
    rw [h.eq_of_ascii ascii, Text.lower, List.forall₂_map_right_iff, List.forall₂_same]
    exact fun c _ => sameLetter_toLower c
  · rintro ⟨word, mem, same⟩
    have plain := fun d (hd : d ∈ word) => Settings.plain_of_mem_yesWords mem hd
    have ascii := SameLetter.forall_toNat_lt same fun d hd => (plain d hd).1
    have lower := SameLetter.lower_eq same fun d hd => (plain d hd).2.2.2
    rw [h.eq_of_ascii ascii, lower]
    exact mem

end Lowers

/-- The text is one of the words for yes, up to the case of ASCII letters and white space around
it. -/
def SaysYes (s : Text) : Prop :=
  ∃ core, Text.Strips isBlank s core ∧
    ∃ word ∈ ["1".toList, "true".toList, "yes".toList, "on".toList],
      List.Forall₂ SameLetter core word

theorem isYes_iff {s : Text} : Settings.isYes s = true ↔ SaysYes s := by
  rw [Settings.isYes, List.contains_iff_mem, (lowers_lower _).mem_yesWords_iff, SaysYes]
  simp only [← Text.trim_eq_iff, exists_eq_left']
  rfl

/-- It does not matter what small letters the characters outside ASCII become. -/
theorem isYes_iff_of_lowers {s t : Text} (h : Lowers (s.trim isBlank) t) :
    Settings.isYes s = true ↔ t ∈ Settings.yesWords := by
  rw [Settings.isYes, List.contains_iff_mem, (lowers_lower _).mem_yesWords_iff, h.mem_yesWords_iff]

/-! ### Limits -/

/-- The text is the integer `n` in decimal, with at most 4300 digits and white space around it, and
`n` is at least one. -/
def IsCount (s : Text) (n : ℕ) : Prop :=
  1 ≤ n ∧ ∃ core, Text.Strips isNumeralBlank s core ∧ Reading.Denotes 4300 core n

theorem count?_eq_some_iff {s : Text} {n : ℕ} :
    Settings.count? s = some n ↔ IsCount s n := by
  rw [IsCount, ← Reading.integer?_eq_some_iff, Settings.count?, Settings.digitLimit]
  cases Reading.integer? 4300 s with
  | none => simp
  | some z =>
    show (if 1 ≤ z then some z.toNat else none) = some n ↔ 1 ≤ n ∧ some z = some (n : ℤ)
    rw [Option.some.injEq]
    split
    case isTrue positive =>
      rw [Option.some.injEq]
      omega
    case isFalse =>
      simp only [reduceCtorEq, false_iff, not_and]
      omega

theorem count?_eq_none_iff {s : Text} : Settings.count? s = none ↔ ∀ n, ¬ IsCount s n := by
  simp only [← count?_eq_some_iff, Option.eq_none_iff_forall_ne_some, ne_eq]

/-- A number from one on is read back from its decimal form. -/
theorem isCount_ofNat {n : ℕ} (positive : 1 ≤ n) (fits : (Numeral.ofNat n).length ≤ 4300) :
    IsCount (Numeral.ofNat n) n :=
  ⟨positive, Reading.integer?_eq_some_iff.1 (Reading.integer?_ofNat fits)⟩

/-! ### One setting for each variable -/

/-- The environment makes the settings: a prompt that is there counts as it is, a name of an
encoding if it is not empty, a wish for details if it says yes, and a limit if it is a count. -/
structure Environment.Makes (e : Environment) (s : Settings) : Prop where
  prompt : e.prompt = some s.prompt ∨ e.prompt = none ∧ s.prompt = "> ".toList
  encoding : e.encoding = some s.encoding ∧ s.encoding ≠ [] ∨
    (e.encoding = none ∨ e.encoding = some []) ∧ s.encoding = "utf-8".toList
  verbose : s.verbose = true ↔ ∃ text, e.verbose = some text ∧ SaysYes text
  maxErrors : (∃ text, e.maxErrors = some text ∧ IsCount text s.maxErrors) ∨
    (∀ text, e.maxErrors = some text → ∀ n, ¬ IsCount text n) ∧ s.maxErrors = 100

namespace Settings

variable {e : Environment}

theorem prompt_ofEnvironment_iff {prompt : Text} :
    (ofEnvironment e).prompt = prompt ↔
      e.prompt = some prompt ∨ e.prompt = none ∧ prompt = "> ".toList := by
  show e.prompt.getD default.prompt = prompt ↔ _
  cases e.prompt with
  | none => simp [default, eq_comm]
  | some text => simp

theorem encoding_ofEnvironment_iff {encoding : Text} :
    (ofEnvironment e).encoding = encoding ↔
      e.encoding = some encoding ∧ encoding ≠ [] ∨
        (e.encoding = none ∨ e.encoding = some []) ∧ encoding = "utf-8".toList := by
  show (e.encoding.filter (· ≠ [])).getD default.encoding = encoding ↔ _
  cases e.encoding with
  | none => simp [default, eq_comm]
  | some name =>
    by_cases empty : name = []
    · rw [empty]
      show default.encoding = encoding ↔ _
      simp [default, eq_comm]
    · rw [filter_encoding empty, Option.getD_some]
      constructor
      · rintro rfl
        exact .inl ⟨rfl, empty⟩
      · rintro (⟨same, -⟩ | ⟨absent | blank, -⟩)
        · exact Option.some.inj same
        · cases absent
        · exact absurd (Option.some.inj blank) empty

theorem verbose_ofEnvironment_iff :
    (ofEnvironment e).verbose = true ↔ ∃ text, e.verbose = some text ∧ SaysYes text := by
  show (e.verbose.map isYes).getD default.verbose = true ↔ _
  cases e.verbose with
  | none => simp [default]
  | some text => simp [isYes_iff]

theorem maxErrors_ofEnvironment_iff {n : ℕ} :
    (ofEnvironment e).maxErrors = n ↔
      (∃ text, e.maxErrors = some text ∧ IsCount text n) ∨
        (∀ text, e.maxErrors = some text → ∀ m, ¬ IsCount text m) ∧ n = 100 := by
  show (e.maxErrors.bind count?).getD default.maxErrors = n ↔ _
  cases e.maxErrors with
  | none => simp [default, eq_comm]
  | some text =>
    cases read : count? text with
    | none =>
      have none := count?_eq_none_iff.1 read
      simp [read, none, default, eq_comm]
    | some m =>
      have only : ∀ k, IsCount text k ↔ m = k := fun k => by
        rw [← count?_eq_some_iff, read, Option.some.injEq]
      simp [read, only]

theorem ofEnvironment_eq_iff {s : Settings} : ofEnvironment e = s ↔ e.Makes s := by
  constructor
  · rintro rfl
    exact ⟨prompt_ofEnvironment_iff.1 rfl, encoding_ofEnvironment_iff.1 rfl,
      verbose_ofEnvironment_iff, maxErrors_ofEnvironment_iff.1 rfl⟩
  · intro h
    apply Settings.ext
    · exact prompt_ofEnvironment_iff.2 h.prompt
    · exact encoding_ofEnvironment_iff.2 h.encoding
    · exact Bool.eq_iff_iff.2 (verbose_ofEnvironment_iff.trans h.verbose.symm)
    · exact maxErrors_ofEnvironment_iff.2 h.maxErrors

theorem one_le_maxErrors (e : Environment) : 1 ≤ (ofEnvironment e).maxErrors := by
  obtain ⟨text, -, positive, -⟩ | ⟨-, hundred⟩ := (maxErrors_ofEnvironment_iff (e := e)).1 rfl
  · exact positive
  · omega

/-- The environment determines the settings as `Makes` says, whatever its variables are. The limit
is at least one. Details are asked for if the lower case of the word is one of the words for yes,
whatever the lower case of characters outside ASCII is. Setting one variable anew changes no setting
but the one of its name. A limit written in decimal with at most 4300 digits is read back. -/
theorem variables_read_exactly (e : Environment) :
    (∀ s, ofEnvironment e = s ↔ e.Makes s) ∧
    1 ≤ (ofEnvironment e).maxErrors ∧
    (∀ text lowered, e.verbose = some text → Lowers (text.trim isBlank) lowered →
      ((ofEnvironment e).verbose = true ↔ lowered ∈ yesWords)) ∧
    (∀ x, ofEnvironment { e with prompt := x } =
      { ofEnvironment e with prompt := (ofEnvironment { e with prompt := x }).prompt }) ∧
    (∀ x, ofEnvironment { e with encoding := x } =
      { ofEnvironment e with encoding := (ofEnvironment { e with encoding := x }).encoding }) ∧
    (∀ x, ofEnvironment { e with verbose := x } =
      { ofEnvironment e with verbose := (ofEnvironment { e with verbose := x }).verbose }) ∧
    (∀ x, ofEnvironment { e with maxErrors := x } =
      { ofEnvironment e with maxErrors := (ofEnvironment { e with maxErrors := x }).maxErrors }) ∧
    ∀ n, 1 ≤ n → (Numeral.ofNat n).length ≤ 4300 →
      (ofEnvironment { e with maxErrors := some (Numeral.ofNat n) }).maxErrors = n := by
  refine ⟨fun s => ofEnvironment_eq_iff, one_le_maxErrors e, ?_, fun x => rfl, fun x => rfl,
    fun x => rfl, fun x => rfl, ?_⟩
  · intro text lowered given lower
    rw [← isYes_iff_of_lowers lower, isYes_iff, verbose_ofEnvironment_iff, given]
    simp
  · intro n positive fits
    exact maxErrors_ofEnvironment_iff.2 (.inl ⟨_, rfl, isCount_ofNat positive fits⟩)

/-- An empty prompt, an empty name of an encoding, a yes in mixed case, and a limit with digits of
two scripts, an underscore and white space around it. -/
def mixedEnvironment : Environment where
  prompt := some []
  encoding := some []
  verbose := some "\u2003yEs\x1c".toList
  maxErrors := some "\u00a0+\u06600\u0664_2\n".toList

theorem variables_read_exactly_mixed :
    ofEnvironment mixedEnvironment = ⟨[], "utf-8".toList, true, 42⟩ ∧
    mixedEnvironment.verbose = some "\u2003yEs\x1c".toList ∧
    Lowers (Text.trim isBlank "\u2003yEs\x1c".toList) "yes".toList ∧
    ((ofEnvironment mixedEnvironment).verbose = true ↔ "yes".toList ∈ yesWords) ∧
    1 ≤ 907 ∧ (Numeral.ofNat 907).length ≤ 4300 ∧
    (ofEnvironment { mixedEnvironment with maxErrors := some (Numeral.ofNat 907) }).maxErrors =
      907 := by
  have digits : Reading.Grouped "\u06600\u0664_2".toList [0, 0, 4, 2] :=
    .next ⟨by decide, 0x660, by decide⟩ (.next ⟨by decide, 0x30, by decide⟩
      (.apart ⟨by decide, 0x660, by decide⟩ (.last ⟨by decide, 0x30, by decide⟩)))
  have limit : IsCount "\u00a0+\u06600\u0664_2\n".toList 42 := by
    refine ⟨by decide, '+' :: "\u06600\u0664_2".toList, ⟨?_, ?_, ?_⟩, .plus digits (by decide)⟩
    · exact ⟨['\u00a0'], ['\n'], rfl, List.forall_mem_singleton.2 (by decide),
        List.forall_mem_singleton.2 (by decide)⟩
    · rintro c ⟨⟩
      decide
    · rintro c ⟨⟩
      decide
  have yes : SaysYes "\u2003yEs\x1c".toList := by
    refine ⟨"yEs".toList, ⟨?_, ?_, ?_⟩, "yes".toList, by decide, ?_⟩
    · exact ⟨['\u2003'], ['\x1c'], rfl, List.forall_mem_singleton.2 (by decide),
        List.forall_mem_singleton.2 (by decide)⟩
    · rintro c ⟨⟩
      decide
    · rintro c ⟨⟩
      decide
    · exact .cons (.inl rfl) (.cons (.inr ⟨4, by decide⟩) (.cons (.inl rfl) .nil))
  have lower : Lowers (Text.trim isBlank "\u2003yEs\x1c".toList) "yes".toList :=
    lowers_lower (Text.trim isBlank "\u2003yEs\x1c".toList)
  obtain ⟨makes, -, details, -, -, -, -, counts⟩ := variables_read_exactly mixedEnvironment
  refine ⟨(makes _).2 ⟨.inl rfl, .inr ⟨.inr rfl, rfl⟩, ?_, .inl ⟨_, rfl, limit⟩⟩, rfl, lower,
    details _ _ rfl lower, by decide, by decide, counts 907 (by decide) (by decide)⟩
  exact iff_of_true rfl ⟨_, rfl, yes⟩

end Settings

end BearLex
