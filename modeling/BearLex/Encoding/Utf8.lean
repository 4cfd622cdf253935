import BearLex.Encoding.Decoder

/-! UTF-8. A lead byte tells how many continuation bytes follow and which values the first of them
may have; with these limits no overlong form, surrogate or code point above the last one is read. -/

namespace BearLex.Utf8

/-- What a lead byte of a longer sequence tells: its payload, the number of continuation bytes, and
the least and greatest value of the first of them. -/
structure Lead where
  payload : Nat
  more : Nat
  least : Nat
  greatest : Nat

/-- The sequence that a byte above the ASCII range leads. -/
def lead? (b : Nat) : Option Lead :=
  if b < 0xC2 then none
  else if b < 0xE0 then some ⟨b - 0xC0, 1, 0x80, 0xBF⟩
  else if b = 0xE0 then some ⟨0, 2, 0xA0, 0xBF⟩
  else if b = 0xED then some ⟨0xD, 2, 0x80, 0x9F⟩
  else if b < 0xF0 then some ⟨b - 0xE0, 2, 0x80, 0xBF⟩
  else if b = 0xF0 then some ⟨0, 3, 0x90, 0xBF⟩
  else if b < 0xF4 then some ⟨b - 0xF0, 3, 0x80, 0xBF⟩
  else if b = 0xF4 then some ⟨4, 3, 0x80, 0x8F⟩
  else none

/-- Reads `more` continuation bytes, the first of them between `least` and `greatest`, after `taken`
bytes with the given payload. -/
def continuation (payload taken : Nat) : Nat → Nat → Nat → Bytes → Front
  | 0, _, _, _ => .char (Char.ofNat payload) (taken - 1)
  | _ + 1, _, _, [] => .refused taken .unexpectedEnd
  | more + 1, least, greatest, b :: rest =>
    if least ≤ b.toNat ∧ b.toNat ≤ greatest then
      continuation (payload * 64 + (b.toNat - 0x80)) (taken + 1) more 0x80 0xBF rest
    else .refused taken .invalidContinuation

/-- The character that a byte and the bytes after it begin with. -/
def front (b : UInt8) (rest : Bytes) : Front :=
  if b.toNat < 0x80 then .char (Char.ofNat b.toNat) 0
  else
    match lead? b.toNat with
    | none => .refused 1 .invalidStart
    | some l => continuation l.payload 1 l.more l.least l.greatest rest

/-- The name in a fault. -/
def codec : Text := "utf-8".toList

/-- The text that the bytes encode, without regard to a byte order mark. -/
def decode (bytes : Bytes) : Except DecodeFault Text :=
  (decodeFrom front 0 [] bytes).mapError (BadSpan.fault · codec bytes)

def mark : Bytes := [0xEF, 0xBB, 0xBF]

/-- The text that the bytes encode after one byte order mark, if there is one. Places of a fault
count from behind the mark. A mark that is cut short by the end is no text. -/
def decodeMarked (bytes : Bytes) : Except DecodeFault Text :=
  if bytes.isPrefixOf mark then .ok []
  else if mark.isPrefixOf bytes then decode (bytes.drop mark.length)
  else decode bytes

end BearLex.Utf8
