import BearLex.Text.Numeral
import BearLex.Text.Quoted

/-! What is said about a text or byte string that an encoding cannot handle: which part it is, and
why. -/

namespace BearLex

abbrev Bytes := List UInt8

/-- The bytes from `start` up to but without `stop` that `codec` does not decode. -/
structure DecodeFault where
  codec : Text
  input : Bytes
  start : Nat
  stop : Nat
  reason : Text
  deriving DecidableEq

/-- The characters from `start` up to but without `stop` that `codec` does not encode. -/
structure EncodeFault where
  codec : Text
  input : Text
  start : Nat
  stop : Nat
  reason : Text
  deriving DecidableEq

/-- The places of a span, first and last. -/
def spanText (start stop : Nat) : Text :=
  Numeral.ofNat start ++ '-' :: Numeral.ofInt ((stop : Int) - 1)

namespace DecodeFault

/-- A single byte inside the input is shown, of a longer span only the places are told. -/
def message (f : DecodeFault) : Text :=
  let subject :=
    match f.input[f.start]? with
    | some byte =>
      if f.stop = f.start + 1 then
        "byte 0x".toList ++ Quoted.hex 2 byte.toNat ++ " in position ".toList
          ++ Numeral.ofNat f.start
      else "bytes in position ".toList ++ spanText f.start f.stop
    | none => "bytes in position ".toList ++ spanText f.start f.stop
  "'".toList ++ f.codec ++ "' codec can't decode ".toList ++ subject ++ ": ".toList ++ f.reason

end DecodeFault

namespace EncodeFault

/-- A single character inside the input is shown by its code point, of a longer span only the places
are told. -/
def message (f : EncodeFault) : Text :=
  let subject :=
    match f.input[f.start]? with
    | some c =>
      if f.stop = f.start + 1 then
        "character '".toList ++ Quoted.byCodePoint c ++ "' in position ".toList
          ++ Numeral.ofNat f.start
      else "characters in position ".toList ++ spanText f.start f.stop
    | none => "characters in position ".toList ++ spanText f.start f.stop
  "'".toList ++ f.codec ++ "' codec can't encode ".toList ++ subject ++ ": ".toList ++ f.reason

end EncodeFault

end BearLex
