import BearLex.Encoding.Decoder.Lemmas
import BearLex.Encoding.Utf16

/-! What is written in UTF-16 is read back in the same byte order. A character is written as one
unit, or as a pair of surrogates if its code point takes more than 16 bits. -/

namespace BearLex.Utf16

/-- The units of a character. -/
def units (c : Char) : List Nat :=
  if c.toNat < 0x10000 then [c.toNat]
  else [0xD800 + (c.toNat - 0x10000) / 0x400, 0xDC00 + (c.toNat - 0x10000) % 0x400]

def unitBytes (order : ByteOrder) (n : Nat) : Bytes :=
  match order with
  | .littleEndian => [UInt8.ofNat (n % 256), UInt8.ofNat (n / 256)]
  | .bigEndian => [UInt8.ofNat (n / 256), UInt8.ofNat (n % 256)]

def encodeChar (order : ByteOrder) (c : Char) : Bytes :=
  (units c).flatMap (unitBytes order)

/-- The bytes of a text, without a byte order mark. -/
def encode (order : ByteOrder) (s : Text) : Bytes :=
  s.flatMap (encodeChar order)

theorem exists_unitBytes (order : ByteOrder) {n : Nat} (h : n < 0x10000) :
    ∃ first second, unitBytes order n = [first, second] ∧ unit order first second = n := by
  have low : (UInt8.ofNat (n % 256)).toNat = n % 256 :=
    UInt8.toNat_ofNat_of_lt' (show n % 256 < 256 by omega)
  have high : (UInt8.ofNat (n / 256)).toNat = n / 256 :=
    UInt8.toNat_ofNat_of_lt' (show n / 256 < 256 by omega)
  cases order with
  | littleEndian =>
    refine ⟨_, _, rfl, ?_⟩
    rw [unit, low, high]
    omega
  | bigEndian =>
    refine ⟨_, _, rfl, ?_⟩
    rw [unit, low, high]
    omega

theorem isLowSurrogate_iff {n : Nat} : isLowSurrogate n = true ↔ 0xDC00 ≤ n ∧ n < 0xE000 := by
  simp [isLowSurrogate]

theorem isHighSurrogate_iff {n : Nat} : isHighSurrogate n = true ↔ 0xD800 ≤ n ∧ n < 0xDC00 := by
  simp [isHighSurrogate]

section

variable {order : ByteOrder} {first second third fourth : UInt8} {n high low : Nat}

theorem front_of_unit (value : unit order first second = n) (notLow : ¬ isLowSurrogate n = true)
    (notHigh : ¬ isHighSurrogate n = true) (rest : Bytes) :
    front order first (second :: rest) = .char (Char.ofNat n) 1 := by
  unfold front
  simp only [value]
  rw [if_neg notLow, if_neg notHigh]

theorem front_of_pair (value : unit order first second = high)
    (notLow : ¬ isLowSurrogate high = true) (isHigh : isHighSurrogate high = true)
    (value' : unit order third fourth = low) (isLow : isLowSurrogate low = true) (rest : Bytes) :
    front order first (second :: third :: fourth :: rest) = .char (pair high low) 3 := by
  unfold front
  simp only [value, value']
  rw [if_neg notLow, if_pos isHigh, if_pos isLow]

theorem markedOrder?_eq_none (notMark : unit .littleEndian first second ≠ 0xFEFF)
    (notSwapped : unit .littleEndian first second ≠ 0xFFFE) (rest : Bytes) :
    markedOrder? (first :: second :: rest) = none := by
  have unlike (a b : UInt8) (other : unit .littleEndian first second ≠ unit .littleEndian a b) :
      ¬ [a, b].isPrefixOf (first :: second :: rest) = true := by
    intro marked
    obtain ⟨rfl, more⟩ := List.cons_prefix_cons.1 (List.isPrefixOf_iff_prefix.1 marked)
    obtain ⟨rfl, -⟩ := List.cons_prefix_cons.1 more
    exact other rfl
  rw [markedOrder?, mark, mark, if_neg (unlike 0xFF 0xFE notMark),
    if_neg (unlike 0xFE 0xFF notSwapped)]

end

/-- The bytes of a character are read as the character, whatever follows them. -/
theorem front_encodeChar (order : ByteOrder) (c : Char) :
    ReadsAs (front order) (encodeChar order c) c := by
  have valid := toNat_cases c
  unfold encodeChar units
  split
  · obtain ⟨first, second, bytes, value⟩ := exists_unitBytes order ‹c.toNat < 0x10000›
    refine ⟨first, [second], by rw [List.flatMap_singleton, bytes], fun rest => ?_⟩
    have notLow : ¬ isLowSurrogate c.toNat = true := by
      rw [isLowSurrogate_iff]
      omega
    have notHigh : ¬ isHighSurrogate c.toNat = true := by
      rw [isHighSurrogate_iff]
      omega
    rw [List.singleton_append, front_of_unit value notLow notHigh, Char.ofNat_toNat]
    rfl
  · generalize e : c.toNat - 0x10000 = offset
    obtain ⟨first, second, bytes, value⟩ := exists_unitBytes order
      (show 0xD800 + offset / 0x400 < 0x10000 by omega)
    obtain ⟨third, fourth, bytes', value'⟩ := exists_unitBytes order
      (show 0xDC00 + offset % 0x400 < 0x10000 by omega)
    refine ⟨first, [second, third, fourth], ?_, fun rest => ?_⟩
    · rw [List.flatMap_cons, List.flatMap_singleton, bytes, bytes']
      rfl
    have notLow : ¬ isLowSurrogate (0xD800 + offset / 0x400) = true := by
      rw [isLowSurrogate_iff]
      omega
    have isHigh : isHighSurrogate (0xD800 + offset / 0x400) = true := by
      rw [isHighSurrogate_iff]
      omega
    have isLow : isLowSurrogate (0xDC00 + offset % 0x400) = true := by
      rw [isLowSurrogate_iff]
      omega
    have joined : pair (0xD800 + offset / 0x400) (0xDC00 + offset % 0x400) = c := by
      have same : 0x10000 + (0xD800 + offset / 0x400 - 0xD800) * 0x400 +
          (0xDC00 + offset % 0x400 - 0xDC00) = c.toNat := by omega
      rw [pair, same, Char.ofNat_toNat]
    have read := front_of_pair value notLow isHigh value' isLow rest
    rw [joined] at read
    exact read

/-- The first two bytes of a character are a unit: the character itself, or a surrogate. -/
theorem exists_encodeChar (order : ByteOrder) (c : Char) :
    ∃ first second rest, encodeChar order c = first :: second :: rest ∧
      (unit order first second = c.toNat ∨ unit order first second < 0xE000) := by
  have valid := toNat_cases c
  unfold encodeChar units
  split
  · obtain ⟨first, second, bytes, value⟩ := exists_unitBytes order ‹c.toNat < 0x10000›
    exact ⟨first, second, [], by rw [List.flatMap_singleton, bytes], .inl value⟩
  · obtain ⟨first, second, bytes, value⟩ := exists_unitBytes order
      (show 0xD800 + (c.toNat - 0x10000) / 0x400 < 0x10000 by omega)
    refine ⟨first, second, _, by rw [List.flatMap_cons, bytes]; rfl, .inr ?_⟩
    rw [value]
    omega

/-- A text is read back from behind what is skipped. -/
theorem decodeAfter_encode (order : ByteOrder) (skipped : Bytes) (s : Text) :
    decodeAfter skipped.length order (skipped ++ encode order s) = .ok s := by
  rw [decodeAfter, List.drop_left, encode, decodeFrom_flatMap fun c _ => front_encodeChar order c]
  rfl

theorem decode_encode (order : ByteOrder) (s : Text) : decode order (encode order s) = .ok s :=
  decodeAfter_encode order [] s

theorem markedOrder?_mark (order : ByteOrder) (bytes : Bytes) :
    markedOrder? (mark order ++ bytes) = some order := by
  cases order <;> rfl

/-- Without a byte order mark in front, a text in little endian seems marked only if its first
character is the mark in one of the two byte orders. -/
theorem markedOrder?_encode {c : Char} (s : Text) (notMark : c.toNat ≠ 0xFEFF)
    (notSwapped : c.toNat ≠ 0xFFFE) : markedOrder? (encode .littleEndian (c :: s)) = none := by
  obtain ⟨first, second, rest, bytes, value⟩ := exists_encodeChar .littleEndian c
  rw [encode, List.flatMap_cons, bytes]
  exact markedOrder?_eq_none (by omega) (by omega) _

end BearLex.Utf16
