import BearLex.Encoding.Decoder

/-! UTF-16 in both byte orders. -/

namespace BearLex

/-- Which byte of a 16-bit unit comes first. -/
inductive ByteOrder
  | littleEndian
  | bigEndian
  deriving DecidableEq

namespace Utf16

/-- The 16-bit unit of two bytes. -/
def unit (order : ByteOrder) (first second : UInt8) : Nat :=
  match order with
  | .littleEndian => first.toNat + 256 * second.toNat
  | .bigEndian => 256 * first.toNat + second.toNat

/-- The unit is the first of a pair. -/
def isHighSurrogate (n : Nat) : Bool :=
  decide (0xD800 ≤ n) && decide (n < 0xDC00)

/-- The unit is the second of a pair. -/
def isLowSurrogate (n : Nat) : Bool :=
  decide (0xDC00 ≤ n) && decide (n < 0xE000)

def pair (high low : Nat) : Char :=
  Char.ofNat (0x10000 + (high - 0xD800) * 0x400 + (low - 0xDC00))

/-- The character that a byte and the bytes after it begin with. -/
def front (order : ByteOrder) (first : UInt8) : Bytes → Front
  | [] => .refused 1 .truncatedUnit
  | second :: rest =>
    let high := unit order first second
    if isLowSurrogate high then .refused 2 .strayLowSurrogate
    else if isHighSurrogate high then
      match rest with
      | third :: fourth :: _ =>
        let low := unit order third fourth
        if isLowSurrogate low then .char (pair high low) 3 else .refused 2 .loneHighSurrogate
      | short => .refused (2 + short.length) .unexpectedEnd
    else .char (Char.ofNat high) 1

/-- The name in a fault. -/
def codec : ByteOrder → Text
  | .littleEndian => "utf-16-le".toList
  | .bigEndian => "utf-16-be".toList

def mark : ByteOrder → Bytes
  | .littleEndian => [0xFF, 0xFE]
  | .bigEndian => [0xFE, 0xFF]

/-- The text that the bytes after the first `skip` ones encode. Places of a fault count from the
start of the bytes. -/
def decodeAfter (skip : Nat) (order : ByteOrder) (bytes : Bytes) : Except DecodeFault Text :=
  (decodeFrom (front order) skip [] (bytes.drop skip)).mapError
    (BadSpan.fault · (codec order) bytes)

/-- The text that the bytes encode, without regard to a byte order mark. -/
def decode (order : ByteOrder) (bytes : Bytes) : Except DecodeFault Text :=
  decodeAfter 0 order bytes

/-- The byte order whose mark the bytes start with. -/
def markedOrder? (bytes : Bytes) : Option ByteOrder :=
  if (mark .littleEndian).isPrefixOf bytes then some .littleEndian
  else if (mark .bigEndian).isPrefixOf bytes then some .bigEndian
  else none

end Utf16

end BearLex
