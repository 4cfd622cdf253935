import BearLex.Encoding.Decoder

/-! Encodings with one byte for every character. -/

namespace BearLex

/-- The text whose code points are the bytes. -/
def Latin1.decode (bytes : Bytes) : Text :=
  bytes.map fun b => Char.ofNat b.toNat

namespace Ascii

/-- The character that a byte is, if it is below 128. -/
def front (b : UInt8) (_ : Bytes) : Front :=
  if b.toNat < 0x80 then .char (Char.ofNat b.toNat) 0 else .refused 1 .notAscii

/-- The name in a fault. -/
def codec : Text := "ascii".toList

/-- The text whose code points are the bytes, all of them below 128. -/
def decode (bytes : Bytes) : Except DecodeFault Text :=
  (decodeFrom front 0 [] bytes).mapError (BadSpan.fault · codec bytes)

end Ascii

end BearLex
