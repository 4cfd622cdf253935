import BearLex.Encoding.Decoder.Lemmas
import BearLex.Encoding.SingleByte

/-! A text whose code points fit into the range of an encoding is read back from the bytes that are
its code points. -/

namespace BearLex

/-- The bytes that are the code points of a text, which are below 256. -/
def codePointBytes (s : Text) : Bytes :=
  s.map fun c => UInt8.ofNat c.toNat

theorem charOf_codePoint {c : Char} (small : c.toNat < 0x100) :
    Char.ofNat (UInt8.ofNat c.toNat).toNat = c := by
  rw [UInt8.toNat_ofNat_of_lt' (show c.toNat < 256 from small), Char.ofNat_toNat]

theorem Latin1.decode_codePointBytes {s : Text} (small : ∀ c ∈ s, c.toNat < 0x100) :
    decode (codePointBytes s) = s := by
  rw [decode, codePointBytes, List.map_map]
  calc
    s.map _ = s.map id := List.map_congr_left fun c hc => charOf_codePoint (small c hc)
    _ = s := List.map_id s

theorem Ascii.front_codePoint {c : Char} (small : c.toNat < 0x80) :
    ReadsAs front [UInt8.ofNat c.toNat] c := by
  refine ⟨_, [], rfl, fun rest => ?_⟩
  have value : (UInt8.ofNat c.toNat).toNat = c.toNat :=
    UInt8.toNat_ofNat_of_lt' (show c.toNat < 256 by omega)
  rw [front, value, if_pos small, Char.ofNat_toNat]
  rfl

theorem Ascii.decode_codePointBytes {s : Text} (small : ∀ c ∈ s, c.toNat < 0x80) :
    decode (codePointBytes s) = .ok s := by
  rw [decode, codePointBytes, List.map_eq_flatMap,
    decodeFrom_flatMap fun c hc => front_codePoint (small c hc)]
  rfl

end BearLex
