import BearLex.Encoding.Fault

/-! Decoding one character after the other. An encoding is given by the way it reads the character
at the front of a byte string. -/

namespace BearLex

inductive Refusal
  | invalidStart
  | invalidContinuation
  | unexpectedEnd
  | truncatedUnit
  | strayLowSurrogate
  | loneHighSurrogate
  | notAscii
  deriving DecidableEq

def Refusal.text : Refusal → Text
  | invalidStart => "invalid start byte".toList
  | invalidContinuation => "invalid continuation byte".toList
  | unexpectedEnd => "unexpected end of data".toList
  | truncatedUnit => "truncated data".toList
  | strayLowSurrogate => "illegal encoding".toList
  | loneHighSurrogate => "illegal UTF-16 surrogate".toList
  | notAscii => "ordinal not in range(128)".toList

/-- What a byte and the bytes after it begin with. -/
inductive Front
  /-- A character that takes `more` of the bytes after the first one. -/
  | char (c : Char) (more : Nat)
  /-- A part of `length` bytes that is no character. -/
  | refused (length : Nat) (why : Refusal)
  deriving DecidableEq

/-- The part of a byte string that is no character. -/
structure BadSpan where
  start : Nat
  length : Nat
  why : Refusal
  deriving DecidableEq

/-- Reads characters up to the end of the bytes, or up to the first part that is none. The first
byte has the place `place`, and `before` holds the characters before it in reverse. -/
def decodeFrom (front : UInt8 → Bytes → Front) (place : Nat) (before : Text) (bytes : Bytes) :
    Except BadSpan Text :=
  match bytes with
  | [] => .ok before.reverse
  | b :: rest =>
    match front b rest with
    | .char c more => decodeFrom front (place + 1 + more) (c :: before) (rest.drop more)
    | .refused length why => .error ⟨place, length, why⟩
termination_by bytes.length
decreasing_by
  simp only [List.length_drop, List.length_cons]
  omega

/-- The bad span of an input as a fault of `codec`. -/
def BadSpan.fault (s : BadSpan) (codec : Text) (input : Bytes) : DecodeFault :=
  ⟨codec, input, s.start, s.start + s.length, s.why.text⟩

end BearLex
