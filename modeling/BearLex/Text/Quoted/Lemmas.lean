import Mathlib.Algebra.Group.Nat.Defs
import BearLex.Text.Quoted

/-! A text in quotation marks is read back whatever follows it, so no quoted text starts another
one and different texts have different quoted forms. -/

namespace BearLex.Quoted

theorem hexDigitValue_digitChar {n : Nat} (h : n < 16) : hexDigitValue (Nat.digitChar n) = n := by
  revert n
  decide

theorem foldl_hexDigitValue (digits : Text) (n : Nat) :
    digits.foldl (fun n c => 16 * n + hexDigitValue c) n =
      16 ^ digits.length * n + hexValue digits := by
  induction digits generalizing n with
  | nil => simp [hexValue]
  | cons c rest ih =>
    simp only [hexValue, List.foldl_cons, List.length_cons]
    rw [ih, ih (16 * 0 + hexDigitValue c), Nat.pow_succ]
    simp only [Nat.mul_add, Nat.mul_assoc, Nat.mul_zero, Nat.zero_add]
    omega

theorem hexValue_append (s t : Text) :
    hexValue (s ++ t) = 16 ^ t.length * hexValue s + hexValue t := by
  rw [hexValue, List.foldl_append, foldl_hexDigitValue]
  rfl

theorem hexValue_toDigits (n : Nat) : hexValue (Nat.toDigits 16 n) = n := by
  induction n using Nat.strongRecOn with
  | _ n ih =>
    have single {m : Nat} (h : m < 16) : hexValue [Nat.digitChar m] = m := by
      simp only [hexValue, List.foldl_cons, List.foldl_nil, hexDigitValue_digitChar h]
      omega
    rw [Nat.toDigits_eq_if (by decide)]
    split
    · exact single ‹_›
    · rw [hexValue_append, ih _ (by omega), single (Nat.mod_lt n (by decide))]
      simp only [List.length_cons, List.length_nil]
      omega

theorem hexValue_replicate (count : Nat) (s : Text) :
    hexValue (List.replicate count '0' ++ s) = hexValue s := by
  induction count with
  | zero => rfl
  | succ count ih =>
    rw [List.replicate_succ, List.cons_append, hexValue, List.foldl_cons]
    exact ih

theorem hexValue_hex (width n : Nat) : hexValue (hex width n) = n := by
  rw [hex, List.leftpad, hexValue_replicate, hexValue_toDigits]

theorem length_hex {width n : Nat} (h : n < 16 ^ width) (positive : 0 < width) :
    (hex width n).length = width := by
  have := (Nat.length_toDigits_le_iff (b := 16) (by decide) positive).2 h
  rw [hex, List.length_leftpad]
  omega

theorem ofCodePoint_hex {width : Nat} {c : Char} (h : c.toNat < 16 ^ width) (positive : 0 < width)
    (rest : Text) : ofCodePoint width (hex width c.toNat ++ rest) = (c, width + 1) := by
  rw [ofCodePoint, List.take_left' (length_hex h positive), hexValue_hex, Char.ofNat_toNat]

/-- What `byCodePoint` writes is read back, whatever follows. -/
theorem decodeUpTo_byCodePoint {mark : Char} (h : mark ≠ '\\') (c : Char) (rest : Text) :
    decodeUpTo mark (byCodePoint c ++ rest) =
      (decodeUpTo mark rest).map fun r => (c :: r.1, r.2) := by
  have step (letter : Char) (width : Nat) (positive : 0 < width) (small : c.toNat < 16 ^ width)
      (reads : ∀ digits, unescape? (letter :: digits) = some (ofCodePoint width digits)) :
      decodeUpTo mark ('\\' :: letter :: hex width c.toNat ++ rest) =
        (decodeUpTo mark rest).map fun r => (c :: r.1, r.2) := by
    simp only [List.cons_append]
    rw [decodeUpTo, if_neg (Ne.symm h), if_pos rfl, reads, ofCodePoint_hex small positive]
    simp only [List.drop_succ_cons, List.drop_left' (length_hex small positive)]
  unfold byCodePoint
  split
  · exact step 'x' 2 (by decide) ‹_› fun _ => rfl
  split
  · exact step 'u' 4 (by decide) ‹_› fun _ => rfl
  · refine step 'U' 8 (by decide) ?_ fun _ => rfl
    have : c.toNat < 2 ^ 32 := c.val.toNat_lt
    omega

/-- What `escape` writes is read back, whatever follows. -/
theorem decodeUpTo_escape {mark : Char} (h : mark = '\'' ∨ mark = '"') (c : Char) (rest : Text) :
    decodeUpTo mark (escape mark c ++ rest) =
      (decodeUpTo mark rest).map fun r => (c :: r.1, r.2) := by
  have slash : mark ≠ '\\' := by rcases h with rfl | rfl <;> decide
  have letter (l d : Char) (reads : ∀ t, unescape? (l :: t) = some (d, 1)) :
      decodeUpTo mark (['\\', l] ++ rest) =
        (decodeUpTo mark rest).map fun r => (d :: r.1, r.2) := by
    simp only [List.cons_append, List.nil_append]
    rw [decodeUpTo, if_neg slash.symm, if_pos rfl, reads]
    rfl
  unfold escape
  split
  · refine letter c c fun t => ?_
    rcases ‹c = mark ∨ c = '\\'› with rfl | rfl
    · rcases h with rfl | rfl <;> rfl
    · rfl
  split
  · subst c; exact letter 'n' '\n' fun _ => rfl
  split
  · subst c; exact letter 'r' '\r' fun _ => rfl
  split
  · subst c; exact letter 't' '\t' fun _ => rfl
  split
  · have other : c ≠ mark ∧ c ≠ '\\' := not_or.1 ‹_›
    simp only [List.cons_append, List.nil_append]
    rw [decodeUpTo, if_neg other.1, if_neg other.2]
  · exact decodeUpTo_byCodePoint slash c rest

theorem decodeUpTo_flatMap_escape {mark : Char} (h : mark = '\'' ∨ mark = '"') (s rest : Text) :
    decodeUpTo mark (s.flatMap (escape mark) ++ mark :: rest) = some (s, rest) := by
  induction s with
  | nil =>
    simp only [List.flatMap_nil, List.nil_append]
    rw [decodeUpTo, if_pos rfl]
  | cons c s ih =>
    rw [List.flatMap_cons, List.append_assoc, decodeUpTo_escape h, ih]
    rfl

theorem markOf_eq (s : Text) : markOf s = '\'' ∨ markOf s = '"' := by
  unfold markOf
  split <;> simp

/-- A text in quotation marks is read back, whatever follows it. -/
theorem decode_encode (s rest : Text) : decode (encode s ++ rest) = some (s, rest) := by
  have mark := markOf_eq s
  simp only [encode, decode, List.cons_append, List.append_assoc, List.nil_append, if_pos mark]
  exact decodeUpTo_flatMap_escape mark s rest

end BearLex.Quoted
