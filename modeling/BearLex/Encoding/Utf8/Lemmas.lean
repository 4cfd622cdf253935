import BearLex.Encoding.Decoder.Lemmas
import BearLex.Encoding.Utf8

/-! What is written in UTF-8 is read back. The bytes of a character are read as that character
whatever follows them, so the bytes of a text are read as that text. -/

namespace BearLex.Utf8

/-- The bytes of a text. -/
def encode (s : Text) : Bytes :=
  s.flatMap String.utf8EncodeChar

theorem continuation_cons {payload taken more least greatest bits : Nat} (rest : Bytes)
    (small : bits < 0x40) (low : least ≤ bits + 0x80) (high : bits + 0x80 ≤ greatest) :
    continuation payload taken (more + 1) least greatest (UInt8.ofNat (bits + 0x80) :: rest) =
      continuation (payload * 64 + bits) (taken + 1) more 0x80 0xBF rest := by
  have value : (UInt8.ofNat (bits + 0x80)).toNat = bits + 0x80 :=
    UInt8.toNat_ofNat_of_lt' (show bits + 0x80 < 256 by omega)
  rw [continuation, value, if_pos ⟨low, high⟩, Nat.add_sub_cancel]

theorem front_ascii {n : Nat} (rest : Bytes) (low : n < 0x80) :
    front (UInt8.ofNat n) rest = .char (Char.ofNat n) 0 := by
  rw [front, UInt8.toNat_ofNat_of_lt' (show n < 256 by omega), if_pos low]

theorem front_of_lead {n : Nat} {l : Lead} (rest : Bytes) (high : 0x80 ≤ n) (byte : n < 256)
    (leads : lead? n = some l) :
    front (UInt8.ofNat n) rest = continuation l.payload 1 l.more l.least l.greatest rest := by
  rw [front, UInt8.toNat_ofNat_of_lt' byte, if_neg (by omega), leads]

theorem lead?_two {bits : Nat} (low : 2 ≤ bits) (high : bits < 0x20) :
    lead? (bits + 0xC0) = some ⟨bits, 1, 0x80, 0xBF⟩ := by
  rw [lead?, if_neg (by omega), if_pos (by omega), Nat.add_sub_cancel]

/-- The lead byte of three bytes. Behind the least one the next byte is above those of overlong
forms, and behind that of the surrogates it is below theirs. -/
theorem lead?_three {bits : Nat} (high : bits < 0x10) :
    lead? (bits + 0xE0) =
      some ⟨bits, 2, if bits = 0 then 0xA0 else 0x80, if bits = 0xD then 0x9F else 0xBF⟩ := by
  by_cases overlong : bits = 0
  · subst overlong
    rfl
  by_cases surrogate : bits = 0xD
  · subst surrogate
    rfl
  rw [lead?, if_neg (by omega), if_neg (by omega), if_neg (by omega), if_neg (by omega),
    if_pos (by omega), Nat.add_sub_cancel, if_neg overlong, if_neg surrogate]

/-- The lead byte of four bytes. Behind the last one the next byte stays within the code points. -/
theorem lead?_four {bits : Nat} (high : bits ≤ 4) :
    lead? (bits + 0xF0) =
      some ⟨bits, 3, if bits = 0 then 0x90 else 0x80, if bits = 4 then 0x8F else 0xBF⟩ := by
  by_cases overlong : bits = 0
  · subst overlong
    rfl
  by_cases last : bits = 4
  · subst last
    rfl
  rw [lead?, if_neg (by omega), if_neg (by omega), if_neg (by omega), if_neg (by omega),
    if_neg (by omega), if_neg (by omega), if_pos (by omega), Nat.add_sub_cancel, if_neg overlong,
    if_neg last]

/-- The bytes of a character are read as the character, whatever follows them. -/
theorem front_utf8EncodeChar (c : Char) : ReadsAs front (String.utf8EncodeChar c) c := by
  have valid := toNat_cases c
  have read {n : Nat} (same : n = c.toNat) : Char.ofNat n = c := by rw [same, Char.ofNat_toNat]
  have bytes : c.val.toNat = c.toNat := rfl
  simp only [String.utf8EncodeChar, bytes]
  -- The cases are the numbers of bytes, one to four.
  split
  · refine ⟨_, _, rfl, fun rest => ?_⟩
    rw [front_ascii _ (by omega), read rfl]
    rfl
  split
  · refine ⟨_, _, rfl, fun rest => ?_⟩
    rw [front_of_lead _ (by omega) (by omega) (lead?_two (by omega) (by omega))]
    simp only [List.cons_append, List.nil_append]
    rw [continuation_cons _ (by omega) (by omega) (by omega), continuation, read (by omega)]
    rfl
  split
  · refine ⟨_, _, rfl, fun rest => ?_⟩
    rw [front_of_lead _ (by omega) (by omega) (lead?_three (by omega))]
    simp only [List.cons_append, List.nil_append]
    rw [continuation_cons _ (by omega) (by split <;> omega) (by split <;> omega),
      continuation_cons _ (by omega) (by omega) (by omega), continuation, read (by omega)]
    rfl
  · refine ⟨_, _, rfl, fun rest => ?_⟩
    rw [front_of_lead _ (by omega) (by omega) (lead?_four (by omega))]
    simp only [List.cons_append, List.nil_append]
    rw [continuation_cons _ (by omega) (by split <;> omega) (by split <;> omega),
      continuation_cons _ (by omega) (by omega) (by omega),
      continuation_cons _ (by omega) (by omega) (by omega), continuation, read (by omega)]
    rfl

/-- A text is read back from its bytes. -/
theorem decode_encode (s : Text) : decode (encode s) = .ok s := by
  rw [decode, encode, decodeFrom_flatMap fun c _ => front_utf8EncodeChar c]
  rfl

end BearLex.Utf8
