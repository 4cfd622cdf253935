import BearLex.Source.Scan
import BearLex.Text.ControlSequence

/-! Texts of printable characters. Quoting makes every text printable, so whatever character a scan
complains about, its diagnostic is printable: it has no line end and starts no control sequence. -/

namespace BearLex

/-- Every character of the text is printable. -/
def Legible (s : Text) : Prop :=
  ∀ c ∈ s, isPrintable c = true

namespace Legible

variable {s t : Text}

theorem of_all (h : s.all isPrintable = true) : Legible s :=
  List.all_eq_true.1 h

theorem append (h : Legible s) (h' : Legible t) : Legible (s ++ t) := by
  intro c hc
  rcases List.mem_append.1 hc with hc | hc
  · exact h c hc
  · exact h' c hc

theorem cons {c : Char} (first : isPrintable c = true) (h : Legible s) : Legible (c :: s) :=
  List.forall_mem_cons.2 ⟨first, h⟩

theorem not_mem {c : Char} (h : Legible s) (unprintable : isPrintable c = false) : c ∉ s := by
  intro mem
  rw [h c mem] at unprintable
  cases unprintable

end Legible

/-! ### Numerals -/

theorem legible_toDigits {base : Nat} (h : 1 < base) (h' : base ≤ 16) (n : Nat) :
    Legible (Nat.toDigits base n) := by
  have digit : ∀ d < 16, isPrintable (Nat.digitChar d) = true := by decide
  induction n using Nat.strongRecOn with
  | _ n ih =>
    rw [Nat.toDigits_eq_if h]
    split
    · exact .cons (digit n (by omega)) (List.forall_mem_nil _)
    · refine .append (ih _ (Nat.div_lt_self (by omega) h))
        (.cons (digit _ ?_) (List.forall_mem_nil _))
      have := Nat.mod_lt n (Nat.zero_lt_of_lt h)
      omega

theorem legible_ofNat (n : Nat) : Legible (Numeral.ofNat n) :=
  legible_toDigits (by decide) (by decide) n

theorem legible_ofInt (n : Int) : Legible (Numeral.ofInt n) := by
  unfold Numeral.ofInt
  split
  · exact .cons (by decide) (legible_ofNat _)
  · exact legible_ofNat _

/-! ### Quoted texts -/

namespace Quoted

theorem legible_hex (width n : Nat) : Legible (hex width n) := by
  rw [hex, List.leftpad]
  refine .append (fun c hc => ?_) (legible_toDigits (by decide) (by decide) n)
  rw [List.eq_of_mem_replicate hc]
  decide

theorem legible_byCodePoint (c : Char) : Legible (byCodePoint c) := by
  have step (letter : Char) (width : Nat) (printable : isPrintable letter = true) :
      Legible ('\\' :: letter :: hex width c.toNat) :=
    .cons (by decide) (.cons printable (legible_hex _ _))
  unfold byCodePoint
  split
  · exact step 'x' 2 (by decide)
  split
  · exact step 'u' 4 (by decide)
  · exact step 'U' 8 (by decide)

theorem legible_escape {mark : Char} (h : isPrintable mark = true) (c : Char) :
    Legible (escape mark c) := by
  have letter (d : Char) (printable : isPrintable d = true) : Legible ['\\', d] :=
    .cons (by decide) (.cons printable (List.forall_mem_nil _))
  unfold escape
  split
  · rcases ‹c = mark ∨ c = '\\'› with rfl | rfl
    · exact letter c h
    · exact letter '\\' (by decide)
  split
  · exact letter 'n' (by decide)
  split
  · exact letter 'r' (by decide)
  split
  · exact letter 't' (by decide)
  split
  · exact .cons ‹_› (List.forall_mem_nil _)
  · exact legible_byCodePoint c

/-- A text in quotation marks is printable, whatever the text. -/
theorem legible_encode (s : Text) : Legible (encode s) := by
  have mark : isPrintable (markOf s) = true := by
    unfold markOf
    split <;> decide
  refine .append (.cons mark fun c hc => ?_) (.cons mark (List.forall_mem_nil _))
  obtain ⟨d, -, mem⟩ := List.mem_flatMap.1 hc
  exact legible_escape mark d c mem

end Quoted

/-! ### Diagnostics -/

theorem Problem.legible_message (p : Problem) : Legible p.message := by
  cases p with
  | unexpected c =>
    exact .append (.append (.of_all (by decide)) (Quoted.legible_encode [c])) (.of_all (by decide))
  | unterminatedString => exact .of_all (by decide)

/-- The diagnostic of a finding is printable. -/
theorem Finding.legible_diagnostic (f : Finding) : Legible f.diagnostic.render := by
  have opening : Legible "[line ".toList := .of_all (by decide)
  have closing : Legible "] Error".toList := .of_all (by decide)
  have colon : Legible ": ".toList := .of_all (by decide)
  exact ((((opening.append (legible_ofInt _)).append closing).append (List.forall_mem_nil _)).append
    colon).append f.problem.legible_message

/-- A text without escapes has no control sequences. -/
theorem ControlSequence.strip_of_not_mem {s : Text} (h : escape ∉ s) : strip s = s := by
  rw [strip]
  induction s with
  | nil => rfl
  | cons c s ih =>
    obtain ⟨notFirst, notLater⟩ := not_or.1 (mt List.mem_cons.2 h)
    rw [stripAfter, if_neg (Ne.symm notFirst), ih notLater]

/-- A printable line goes out as it is. -/
theorem Legible.strip_line {s : Text} (h : Legible s) :
    ControlSequence.strip (s ++ ['\n']) = s ++ ['\n'] := by
  refine ControlSequence.strip_of_not_mem fun mem => ?_
  rcases List.mem_append.1 mem with mem | mem
  · exact h.not_mem (by decide) mem
  · exact absurd mem (by decide)

theorem Finding.strip_line (f : Finding) :
    ControlSequence.strip (f.diagnostic.render ++ ['\n']) = f.diagnostic.render ++ ['\n'] :=
  f.legible_diagnostic.strip_line

theorem Finding.newline_not_mem (f : Finding) : '\n' ∉ f.diagnostic.render :=
  f.legible_diagnostic.not_mem (by decide)

end BearLex
