import BearLex.Encoding.Decoder

/-! What a decoder makes of encoded characters. Where each character is read from the bytes that
encode it, whatever follows them, a text is read back from its bytes. Where nothing else is read,
the bytes in front of a fault are those of a text, and no longer text is encoded at the start of the
input. -/

namespace BearLex

/-- A code point is no surrogate and not above the last one. -/
theorem toNat_cases (c : Char) : c.toNat < 0xD800 ∨ 0xDFFF < c.toNat ∧ c.toNat < 0x110000 :=
  c.valid

/-- The bytes are read as the character, whatever follows them. -/
def ReadsAs (front : UInt8 → Bytes → Front) (bytes : Bytes) (c : Char) : Prop :=
  ∃ b more, bytes = b :: more ∧ ∀ rest, front b (more ++ rest) = .char c more.length

/-- The bytes of two characters do not start alike. -/
theorem ReadsAs.unique {front : UInt8 → Bytes → Front} {bytes bytes' rest rest' : Bytes}
    {c c' : Char} (h : ReadsAs front bytes c) (h' : ReadsAs front bytes' c')
    (same : bytes ++ rest = bytes' ++ rest') : c = c' := by
  obtain ⟨b, more, rfl, read⟩ := h
  obtain ⟨b', more', rfl, read'⟩ := h'
  obtain ⟨rfl, others⟩ : b = b' ∧ more ++ rest = more' ++ rest' := List.cons.inj same
  have reads := read rest
  rw [others, read'] at reads
  exact (Front.char.inj reads).1.symm

/-- What is read as a character is what `encode` makes of it, and what is refused is a part of the
input that is not empty. -/
structure Strict (front : UInt8 → Bytes → Front) (encode : Char → Bytes) : Prop where
  char : ∀ b rest c more, front b rest = .char c more →
    ∃ tail following, rest = tail ++ following ∧ tail.length = more ∧ b :: tail = encode c
  refused : ∀ b rest length why, front b rest = .refused length why →
    0 < length ∧ length ≤ rest.length + 1

section

variable {front : UInt8 → Bytes → Front} {encode : Char → Bytes} {place : Nat} {before s : Text}
  {bytes : Bytes} {f : BadSpan}

theorem decodeFrom_append (reads : ∀ c ∈ s, ReadsAs front (encode c) c) (place : Nat)
    (before : Text) (rest : Bytes) :
    decodeFrom front place before (s.flatMap encode ++ rest) =
      decodeFrom front (place + (s.flatMap encode).length) (s.reverse ++ before) rest := by
  induction s generalizing place before with
  | nil => rfl
  | cons c s ih =>
    obtain ⟨⟨b, more, bytes, read⟩, others⟩ := List.forall_mem_cons.1 reads
    rw [List.flatMap_cons, List.append_assoc, bytes, List.cons_append, decodeFrom, read]
    dsimp only
    rw [List.drop_left, ih others, List.reverse_cons, List.append_assoc, List.length_append,
      List.length_cons]
    congr 1
    omega

/-- A text is read back from its bytes. -/
theorem decodeFrom_flatMap (reads : ∀ c ∈ s, ReadsAs front (encode c) c) (place : Nat)
    (before : Text) :
    decodeFrom front place before (s.flatMap encode) = .ok (before.reverse ++ s) := by
  have := decodeFrom_append reads place before []
  rw [List.append_nil] at this
  rw [this, decodeFrom, List.reverse_append, List.reverse_reverse]

theorem eq_of_decodeFrom (strict : Strict front encode) {text : Text}
    (h : decodeFrom front place before bytes = .ok text) :
    ∃ s : Text, text = before.reverse ++ s ∧ bytes = s.flatMap encode := by
  fun_induction decodeFrom front place before bytes with
  | case1 place before =>
    cases h
    exact ⟨[], (List.append_nil _).symm, rfl⟩
  | case2 place before b rest c more read ih =>
    obtain ⟨tail, following, rfl, rfl, encoded⟩ := strict.char b rest c more read
    rw [List.drop_left] at ih h
    obtain ⟨s, rfl, rfl⟩ := ih h
    refine ⟨c :: s, ?_, ?_⟩
    · rw [List.reverse_cons, List.append_assoc, List.singleton_append]
    · rw [List.flatMap_cons, ← encoded, List.cons_append]
  | case3 => cases h

/-- In front of a fault there is a text, and behind it the part that is refused. -/
theorem split_of_decodeFrom (strict : Strict front encode)
    (h : decodeFrom front place before bytes = .error f) :
    ∃ (s : Text) (rest : Bytes), bytes = s.flatMap encode ++ rest ∧
      f.start = place + (s.flatMap encode).length ∧ 0 < f.length ∧ f.length ≤ rest.length := by
  fun_induction decodeFrom front place before bytes with
  | case1 => cases h
  | case2 place before b rest c more read ih =>
    obtain ⟨tail, following, rfl, rfl, encoded⟩ := strict.char b rest c more read
    rw [List.drop_left] at ih h
    obtain ⟨s, others, rfl, start, span⟩ := ih h
    refine ⟨c :: s, others, ?_, ?_, span⟩
    · rw [List.flatMap_cons, ← encoded, List.cons_append, List.cons_append, List.append_assoc]
    · rw [List.flatMap_cons, ← encoded, List.length_append, List.length_cons, start]
      omega
  | case3 place before b rest length why read =>
    cases h
    exact ⟨[], b :: rest, rfl, rfl, strict.refused b rest length why read⟩

/-- No text that is encoded at the start of the input reaches behind the start of a fault. -/
theorem length_le_of_decodeFrom (strict : Strict front encode)
    (reads : ∀ c, ReadsAs front (encode c) c)
    (h : decodeFrom front place before bytes = .error f) (start : s.flatMap encode <+: bytes) :
    place + (s.flatMap encode).length ≤ f.start := by
  obtain ⟨rest, rfl⟩ := start
  rw [decodeFrom_append fun c _ => reads c] at h
  obtain ⟨_, _, _, later, _⟩ := split_of_decodeFrom strict h
  omega

end

end BearLex
