import BearLex.Encoding.Utf8.Lemmas
import Mathlib.Order.Bounds.Defs

/-! Well-formed UTF-8, stated without a decoder. Bytes are well-formed if they are sequences one
after the other, each of which spells the code point of a character and is no longer than it needs
to be. These are the bytes of texts, and the decoder reads nothing else. -/

namespace BearLex.Utf8

/-- The bytes spell a number in their free bits. The first byte tells how many bytes follow, and
each of these adds six bits. -/
inductive Spells : Bytes → Nat → Prop
  | one {n : Nat} (h : n < 0x80) : Spells [UInt8.ofNat n] n
  | two {lead low : Nat} (h : lead < 0x20) (h₁ : low < 0x40) :
    Spells [UInt8.ofNat (lead + 0xC0), UInt8.ofNat (low + 0x80)] (lead * 64 + low)
  | three {lead mid low : Nat} (h : lead < 0x10) (h₁ : mid < 0x40) (h₂ : low < 0x40) :
    Spells [UInt8.ofNat (lead + 0xE0), UInt8.ofNat (mid + 0x80), UInt8.ofNat (low + 0x80)]
      ((lead * 64 + mid) * 64 + low)
  | four {lead high mid low : Nat} (h : lead < 8) (h₁ : high < 0x40) (h₂ : mid < 0x40)
    (h₃ : low < 0x40) :
    Spells [UInt8.ofNat (lead + 0xF0), UInt8.ofNat (high + 0x80), UInt8.ofNat (mid + 0x80),
        UInt8.ofNat (low + 0x80)]
      (((lead * 64 + high) * 64 + mid) * 64 + low)

/-- The bytes are the sequence of a code point: they spell it, no shorter bytes do, and it is
neither a surrogate nor above the last code point. -/
structure IsSequence (bytes : Bytes) (n : Nat) : Prop where
  spells : Spells bytes n
  shortest : ∀ other, Spells other n → bytes.length ≤ other.length
  scalar : n.isValidChar

/-- The bytes are sequences one after the other, and none is cut short. -/
inductive WellFormed : Bytes → Prop
  | nil : WellFormed []
  | sequence {bytes rest : Bytes} {n : Nat} (h : IsSequence bytes n) (more : WellFormed rest) :
    WellFormed (bytes ++ rest)

theorem Spells.length_bounds {bytes : Bytes} {n : Nat} (h : Spells bytes n) :
    1 ≤ bytes.length ∧ bytes.length ≤ 4 ∧ (0x80 ≤ n → 2 ≤ bytes.length) ∧
      (0x800 ≤ n → 3 ≤ bytes.length) ∧ (0x10000 ≤ n → 4 ≤ bytes.length) := by
  cases h with
  | one | two | three | four =>
    simp only [List.length_cons, List.length_nil]
    omega

/-- A number of few bits is spelled by few bytes. -/
theorem exists_spells {n : Nat} (h : n < 0x10000) :
    ∃ bytes, Spells bytes n ∧ bytes.length ≤ 3 ∧ (n < 0x800 → bytes.length ≤ 2) ∧
      (n < 0x80 → bytes.length ≤ 1) := by
  by_cases one : n < 0x80
  · exact ⟨_, .one one, by simp⟩
  by_cases two : n < 0x800
  · have spells := Spells.two (show n / 64 < 0x20 by omega) (show n % 64 < 0x40 by omega)
    rw [Nat.div_add_mod' n 64] at spells
    exact ⟨_, spells, by simp [one]⟩
  · have spells := Spells.three (show n / 64 / 64 < 0x10 by omega)
      (show n / 64 % 64 < 0x40 by omega) (show n % 64 < 0x40 by omega)
    rw [Nat.div_add_mod' (n / 64) 64, Nat.div_add_mod' n 64] at spells
    exact ⟨_, spells, by simp [one, two]⟩

/-- The number is too great for fewer bytes than these. -/
def Needs (bytes : Bytes) (n : Nat) : Prop :=
  (2 ≤ bytes.length → 0x80 ≤ n) ∧ (3 ≤ bytes.length → 0x800 ≤ n) ∧
    (4 ≤ bytes.length → 0x10000 ≤ n)

theorem Spells.shortest_iff {bytes : Bytes} {n : Nat} (h : Spells bytes n) :
    (∀ other, Spells other n → bytes.length ≤ other.length) ↔ Needs bytes n := by
  unfold Needs
  constructor
  · intro shortest
    by_cases small : n < 0x10000
    · obtain ⟨other, spells, three, two, one⟩ := exists_spells small
      have := shortest other spells
      omega
    · omega
  · intro needs other spells
    have bounds := h.length_bounds
    have bounds' := spells.length_bounds
    omega

theorem toNat_ofNat {n : Nat} (scalar : n.isValidChar) : (Char.ofNat n).toNat = n := by
  rw [Char.ofNat, dif_pos scalar]
  rfl

theorem IsSequence.eq_utf8EncodeChar {bytes : Bytes} {c : Char} (h : IsSequence bytes c.toNat) :
    bytes = String.utf8EncodeChar c := by
  have valid := toNat_cases c
  have value : c.val.toNat = c.toNat := rfl
  have needs := h.spells.shortest_iff.1 h.shortest
  have spells := h.spells
  have same {m n : Nat} (h : m = n) : UInt8.ofNat m = UInt8.ofNat n := congrArg _ h
  unfold Needs at needs
  rw [String.utf8EncodeChar]
  simp only [value]
  generalize c.toNat = n at *
  cases spells with
  | one h =>
    rw [if_pos (by omega)]
  | two h h₁ =>
    simp only [List.length_cons, List.length_nil] at needs
    rw [if_neg (by omega), if_pos (by omega)]
    simp only [List.cons.injEq, and_true]
    exact ⟨same (by omega), same (by omega)⟩
  | three h h₁ h₂ =>
    simp only [List.length_cons, List.length_nil] at needs
    rw [if_neg (by omega), if_neg (by omega), if_pos (by omega)]
    simp only [List.cons.injEq, and_true]
    exact ⟨same (by omega), same (by omega), same (by omega)⟩
  | four h h₁ h₂ h₃ =>
    simp only [List.length_cons, List.length_nil] at needs
    rw [if_neg (by omega), if_neg (by omega), if_neg (by omega)]
    simp only [List.cons.injEq, and_true]
    exact ⟨same (by omega), same (by omega), same (by omega), same (by omega)⟩

theorem isSequence_utf8EncodeChar (c : Char) : IsSequence (String.utf8EncodeChar c) c.toNat := by
  have valid := toNat_cases c
  have value : c.val.toNat = c.toNat := rfl
  have sequence {bytes : Bytes} {n : Nat} (h : Spells bytes n) (same : n = c.toNat)
      (needs : Needs bytes n) : IsSequence bytes c.toNat := by
    subst same
    exact ⟨h, h.shortest_iff.2 needs, c.valid⟩
  rw [String.utf8EncodeChar]
  simp only [value]
  split
  · refine sequence (.one (by omega)) rfl ?_
    simp [Needs]
  split
  · refine sequence (.two (by omega) (by omega)) (by omega) ?_
    simp only [Needs, List.length_cons, List.length_nil]
    omega
  split
  · refine sequence (.three (by omega) (by omega) (by omega)) (by omega) ?_
    simp only [Needs, List.length_cons, List.length_nil]
    omega
  · refine sequence (.four (by omega) (by omega) (by omega) (by omega)) (by omega) ?_
    simp only [Needs, List.length_cons, List.length_nil]
    omega

/-- Well-formed bytes are the bytes of texts. -/
theorem wellFormed_iff {bytes : Bytes} : WellFormed bytes ↔ ∃ s : Text, encode s = bytes := by
  constructor
  · intro h
    induction h with
    | nil => exact ⟨[], rfl⟩
    | @sequence bytes rest n h more ih =>
      obtain ⟨s, rfl⟩ := ih
      refine ⟨Char.ofNat n :: s, ?_⟩
      rw [← toNat_ofNat h.scalar] at h
      rw [encode, List.flatMap_cons, ← h.eq_utf8EncodeChar]
      rfl
  · rintro ⟨s, rfl⟩
    induction s with
    | nil => exact .nil
    | cons c s ih => exact .sequence (isSequence_utf8EncodeChar c) ih

/-! ### What the decoder reads -/

theorem lead?_cases {b : Nat} {l : Lead} (h : lead? b = some l) :
    (∃ bits, 2 ≤ bits ∧ bits < 0x20 ∧ b = bits + 0xC0 ∧ l = ⟨bits, 1, 0x80, 0xBF⟩) ∨
    (∃ bits, bits < 0x10 ∧ b = bits + 0xE0 ∧
      l = ⟨bits, 2, if bits = 0 then 0xA0 else 0x80, if bits = 0xD then 0x9F else 0xBF⟩) ∨
    ∃ bits, bits ≤ 4 ∧ b = bits + 0xF0 ∧
      l = ⟨bits, 3, if bits = 0 then 0x90 else 0x80, if bits = 4 then 0x8F else 0xBF⟩ := by
  by_cases least : b < 0xC2
  · rw [lead?, if_pos least] at h
    cases h
  by_cases two : b < 0xE0
  · obtain ⟨bits, rfl⟩ : ∃ bits, b = bits + 0xC0 := ⟨b - 0xC0, by omega⟩
    rw [lead?_two (by omega) (by omega)] at h
    cases h
    exact .inl ⟨bits, by omega, by omega, rfl, rfl⟩
  by_cases three : b < 0xF0
  · obtain ⟨bits, rfl⟩ : ∃ bits, b = bits + 0xE0 := ⟨b - 0xE0, by omega⟩
    rw [lead?_three (by omega)] at h
    cases h
    exact .inr (.inl ⟨bits, by omega, rfl, rfl⟩)
  by_cases four : b ≤ 0xF4
  · obtain ⟨bits, rfl⟩ : ∃ bits, b = bits + 0xF0 := ⟨b - 0xF0, by omega⟩
    rw [lead?_four (by omega)] at h
    cases h
    exact .inr (.inr ⟨bits, by omega, rfl, rfl⟩)
  · rw [lead?, if_neg least, if_neg two, if_neg (by omega), if_neg (by omega), if_neg three,
      if_neg (by omega), if_neg (by omega), if_neg (by omega)] at h
    cases h

theorem continuation_eq_char {payload taken more least greatest : Nat} {bytes : Bytes} {c : Char}
    {count : Nat} (tail : 0x80 ≤ least)
    (h : continuation payload taken (more + 1) least greatest bytes = .char c count) :
    ∃ bits rest, bytes = UInt8.ofNat (bits + 0x80) :: rest ∧ least ≤ bits + 0x80 ∧
      bits + 0x80 ≤ greatest ∧
      continuation (payload * 64 + bits) (taken + 1) more 0x80 0xBF rest = .char c count := by
  cases bytes with
  | nil => cases h
  | cons b rest =>
    rw [continuation] at h
    split at h
    · obtain ⟨low, high⟩ := ‹least ≤ b.toNat ∧ b.toNat ≤ greatest›
      refine ⟨b.toNat - 0x80, rest, ?_, by omega, by omega, h⟩
      rw [Nat.sub_add_cancel (by omega), UInt8.ofNat_toNat]
    · cases h

theorem isSequence_ofNat {bytes : Bytes} {n : Nat} (h : Spells bytes n) (needs : Needs bytes n)
    (scalar : n.isValidChar) : IsSequence bytes (Char.ofNat n).toNat := by
  rw [toNat_ofNat scalar]
  exact ⟨h, h.shortest_iff.2 needs, scalar⟩

/-- What is read as a character is its sequence. The limits of the second byte keep out overlong
forms, surrogates and what is above the last code point. -/
theorem isSequence_of_front {b : UInt8} {rest : Bytes} {c : Char} {more : Nat}
    (h : front b rest = .char c more) :
    ∃ tail following, rest = tail ++ following ∧ tail.length = more ∧
      IsSequence (b :: tail) c.toNat := by
  have byte {n : Nat} (e : b.toNat = n) : b = UInt8.ofNat n := by rw [← e, UInt8.ofNat_toNat]
  rw [front] at h
  split at h
  · cases h
    refine ⟨[], rest, rfl, rfl, ?_⟩
    have spells := Spells.one ‹b.toNat < 0x80›
    rw [UInt8.ofNat_toNat] at spells
    exact isSequence_ofNat spells (by simp [Needs]) (.inl (by omega))
  split at h
  · cases h
  · rename_i l leads
    obtain ⟨lead, low, high, e, rfl⟩ | ⟨lead, high, e, rfl⟩ | ⟨lead, high, e, rfl⟩ :=
      lead?_cases leads <;> dsimp only at h
    · obtain ⟨low₁, rest, rfl, _, _, h⟩ := continuation_eq_char (by decide) h
      rw [continuation] at h
      cases h
      refine ⟨[_], rest, rfl, rfl, ?_⟩
      rw [byte e]
      refine isSequence_ofNat (.two high (by omega)) ?_ (.inl (by omega))
      simp only [Needs, List.length_cons, List.length_nil]
      omega
    · obtain ⟨mid, rest, rfl, least, greatest, h⟩ :=
        continuation_eq_char (by split <;> decide) h
      obtain ⟨low₁, rest, rfl, _, _, h⟩ := continuation_eq_char (by decide) h
      rw [continuation] at h
      cases h
      refine ⟨[_, _], rest, rfl, rfl, ?_⟩
      rw [byte e]
      have midSmall : mid < 0x40 := by split at greatest <;> omega
      have overlong : lead = 0 → 0x20 ≤ mid := by
        rintro rfl
        rw [if_pos rfl] at least
        omega
      have surrogate : lead = 0xD → mid < 0x20 := by
        rintro rfl
        rw [if_pos rfl] at greatest
        omega
      refine isSequence_ofNat (.three high midSmall (by omega)) ?_ ?_
      · simp only [Needs, List.length_cons, List.length_nil]
        omega
      · unfold Nat.isValidChar
        omega
    · obtain ⟨high₁, rest, rfl, least, greatest, h⟩ :=
        continuation_eq_char (by split <;> decide) h
      obtain ⟨mid, rest, rfl, _, _, h⟩ := continuation_eq_char (by decide) h
      obtain ⟨low₁, rest, rfl, _, _, h⟩ := continuation_eq_char (by decide) h
      rw [continuation] at h
      cases h
      refine ⟨[_, _, _], rest, rfl, rfl, ?_⟩
      rw [byte e]
      have highSmall : high₁ < 0x40 := by split at greatest <;> omega
      have overlong : lead = 0 → 0x10 ≤ high₁ := by
        rintro rfl
        rw [if_pos rfl] at least
        omega
      have last : lead = 4 → high₁ < 0x10 := by
        rintro rfl
        rw [if_pos rfl] at greatest
        omega
      refine isSequence_ofNat (.four (by omega) highSmall (by omega) (by omega)) ?_ ?_
      · simp only [Needs, List.length_cons, List.length_nil]
        omega
      · unfold Nat.isValidChar
        omega

theorem length_of_continuation {payload taken more least greatest : Nat} {bytes : Bytes}
    {length : Nat} {why : Refusal}
    (h : continuation payload taken more least greatest bytes = .refused length why) :
    taken ≤ length ∧ length ≤ taken + bytes.length := by
  fun_induction continuation payload taken more least greatest bytes with
  | case1 => cases h
  | case2 | case4 =>
    cases h
    omega
  | case3 payload taken more least greatest b rest inside ih =>
    have := ih h
    rw [List.length_cons]
    omega

theorem strict_front : Strict front String.utf8EncodeChar where
  char b rest c more h := by
    obtain ⟨tail, following, split, length, sequence⟩ := isSequence_of_front h
    exact ⟨tail, following, split, length, sequence.eq_utf8EncodeChar⟩
  refused b rest length why h := by
    rw [front] at h
    split at h
    · cases h
    split at h
    · cases h
      omega
    · have := length_of_continuation h
      omega

theorem decode_eq_ok {bytes : Bytes} {s : Text} : decode bytes = .ok s ↔ encode s = bytes := by
  constructor
  · intro h
    rw [decode] at h
    cases read : decodeFrom front 0 [] bytes with
    | error f =>
      rw [read] at h
      cases h
    | ok text =>
      rw [read] at h
      cases h
      obtain ⟨s, rfl, rfl⟩ := eq_of_decodeFrom strict_front read
      rfl
  · rintro rfl
    exact decode_encode s

/-- The lengths of the well-formed bytes that others start with. -/
def wellFormedLengths (bytes : Bytes) : Set Nat :=
  {n | ∃ start, start <+: bytes ∧ WellFormed start ∧ start.length = n}

/-- A fault starts behind the longest well-formed part at the start, and it spans some of what is
left. -/
structure Located (bytes : Bytes) (f : DecodeFault) : Prop where
  codec_eq : f.codec = codec
  input : f.input = bytes
  start : IsGreatest (wellFormedLengths bytes) f.start
  nonempty : f.start < f.stop
  inside : f.stop ≤ bytes.length

theorem located_of_decode {bytes : Bytes} {f : DecodeFault} (h : decode bytes = .error f) :
    Located bytes f ∧ ∃ why : Refusal, f.reason = why.text := by
  rw [decode] at h
  cases read : decodeFrom front 0 [] bytes with
  | ok text =>
    rw [read] at h
    cases h
  | error span =>
    rw [read] at h
    cases h
    obtain ⟨s, rest, split, start, positive, fits⟩ := split_of_decodeFrom strict_front read
    rw [Nat.zero_add] at start
    have stop : span.start + span.length ≤ bytes.length := by
      rw [split, List.length_append]
      omega
    refine ⟨⟨rfl, rfl, ⟨?_, ?_⟩, Nat.lt_add_of_pos_right positive, stop⟩, span.why, rfl⟩
    · refine ⟨encode s, ⟨rest, split.symm⟩, wellFormed_iff.2 ⟨s, rfl⟩, start.symm⟩
    · rintro n ⟨part, ahead, whole, rfl⟩
      obtain ⟨t, rfl⟩ := wellFormed_iff.1 whole
      have := length_le_of_decodeFrom strict_front front_utf8EncodeChar read ahead
      rw [Nat.zero_add] at this
      exact this

end BearLex.Utf8
